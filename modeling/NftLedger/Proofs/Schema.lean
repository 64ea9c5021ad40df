import NftLedger.Proofs.Form
import NftLedger.Schema

namespace NftLedger

open Json (Form Shape form_bool form_text)

instance : Property.record.Lawful := by
  unfold Property.record
  infer_instance

instance : Schema.record.Lawful := by
  unfold Schema.record
  infer_instance

theorem Property.form : Form Property.toJson Property.ofJson where
  read p := by
    refine Json.Record.shape_of_builds (by simp) ?_ "JsonSchemaEntry"
    refine .seq (.seq (.map ?_ _) ?_) ?_
    · exact form_text.required rfl
    · exact form_text.required rfl
    · exact form_bool.required rfl
  ne_null := by simp [toJson]

namespace Schema

def Distinct (s : Schema) : Prop := (s.properties.map (·.1)).Nodup

instance : DecidablePred Distinct := fun s =>
  inferInstanceAs (Decidable (s.properties.map (·.1)).Nodup)

theorem ofList_eq (properties : List (String × Property)) :
    ofList properties = ⟨properties.foldl (fun put e => putNamed e.1 e.2 put) []⟩ :=
  List.foldl_hom Schema.mk fun _ _ => rfl

theorem distinct_ofList (properties : List (String × Property)) : (ofList properties).Distinct := by
  rw [ofList_eq]
  exact nodup_foldl_putNamed properties

theorem ofList_properties {s : Schema} (h : s.Distinct) : ofList s.properties = s := by
  rw [ofList_eq, foldl_putNamed_of_nodup h]

theorem ofJson_toJson {s : Schema} (h : s.Distinct) : ofJson s.toJson = .ok s := by
  have hproperties :
      propertiesOfJson (.obj (s.properties.map fun e => (e.1, e.2.toJson))) = .ok s := by
    refine map_eq_ok_iff.mpr ⟨s.properties, ?_, ofList_properties h⟩
    exact mapM_map_eq_ok fun e _ => map_eq_ok_iff.mpr ⟨e.2, Property.form.read e.2, rfl⟩
  refine Json.Record.shape_of_builds (by simp) ?_ "JsonSchema"
  exact Json.Record.builds_required rfl hproperties

theorem ensures_distinct : Shape.Ensures ofJson Distinct := by
  refine Json.Record.ensures_shape (Json.Record.ensures_required ?_ "properties") "JsonSchema"
  intro j s hs
  cases j with
  | obj members =>
    obtain ⟨properties, -, rfl⟩ := map_eq_ok_iff.mp hs
    exact distinct_ofList properties
  | _ => cases hs

end Schema

end NftLedger
