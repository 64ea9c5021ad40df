import NftLedger.Call.Json
import NftLedger.Proofs.KeyText
import NftLedger.Proofs.Record
import NftLedger.Proofs.Shape

namespace NftLedger.Json

variable {α β : Type}

/-- The members that a table gives a value. -/
def present (table : List (String × Option Json)) : List (String × Json) :=
  table.flatMap fun e => (e.2.map (e.1, ·)).toList

section Present

variable {table : List (String × Option Json)} {name : String} {j : Json} {v : Option Json}

theorem present_nil : present [] = [] := rfl

theorem present_some (name : String) (j : Json) (rest : List (String × Option Json)) :
    present ((name, some j) :: rest) = (name, j) :: present rest := rfl

theorem present_map (name : String) (toJson : α → Json) (v : Option α)
    (rest : List (String × Option Json)) :
    present ((name, v.map toJson) :: rest) = presentMember name toJson v ++ present rest := by
  cases v <;> rfl

theorem mem_present : (name, j) ∈ present table ↔ (name, some j) ∈ table := by
  simp only [present, List.mem_flatMap, Option.mem_toList, Option.map_eq_some_iff, Prod.mk.injEq]
  constructor
  · rintro ⟨⟨_, _⟩, he, _, rfl, rfl, rfl⟩
    exact he
  · intro he
    exact ⟨_, he, j, rfl, rfl, rfl⟩

theorem nodup_present (h : (table.map (·.1)).Nodup) : ((present table).map (·.1)).Nodup := by
  have hnames : ((present table).map (·.1)).Sublist (table.map (·.1)) := by
    clear h
    induction table with
    | nil => exact .slnil
    | cons e rest ih =>
      obtain ⟨n, v⟩ := e
      cases v with
      | none => exact ih.cons _
      | some j => exact ih.cons_cons _
  exact h.sublist hnames

theorem lookup_present (h : (table.map (·.1)).Nodup) (hv : table.lookup name = some v) :
    (present table).lookup name = v := by
  ext j
  rw [lookup_eq_some_iff_mem (nodup_present h), mem_present, ← lookup_eq_some_iff_mem h, hv,
    Option.some_inj]

end Present

/-- A way of writing values as documents, and the reading that gives them back. -/
structure Form (toJson : α → Json) (shape : Shape α) : Prop where
  read (x : α) : shape (toJson x) = .ok x
  ne_null (x : α) : toJson x ≠ .null

section Builds

variable {members : List (String × Json)} {name : String} {toJson : α → Json} {shape : Shape α}

namespace Record

def Ensures (r : Record α) (P : α → Prop) : Prop := ∀ ⦃members x⦄, r.Builds members x → P x

end Record

def Shape.Ensures (shape : Shape α) (P : α → Prop) : Prop := ∀ ⦃j x⦄, shape j = .ok x → P x

section Ensures

variable {f : Record (α → β)} {r : Record α} {P : β → Prop} {Q : α → Prop}

theorem Shape.Ensures.map (h : shape.Ensures Q) {g : α → β} (hg : ∀ a, Q a → P (g a)) :
    Shape.Ensures (fun j => g <$> shape j) P := by
  intro j b hb
  obtain ⟨a, ha, rfl⟩ := map_eq_ok_iff.mp hb
  exact hg a (h ha)

theorem Shape.ensures_map {g : α → β} (hg : ∀ a, P (g a)) (shape : Shape α) :
    Shape.Ensures (fun j => g <$> shape j) P :=
  Ensures.map (fun _ _ _ => trivial) fun a (_ : True) => hg a

namespace Record

theorem ensures_shape (h : r.Ensures Q) (name : String) : (r.shape name).Ensures Q := by
  intro j x hx
  obtain ⟨members, hbuild⟩ := exists_build_of_shape hx
  exact h hbuild

theorem ensures_required (h : shape.Ensures Q) (name : String) : (required name shape).Ensures Q := by
  intro members x hx
  simp only [Builds, required] at hx
  split at hx
  next j hj => exact h hx
  next => cases hx

theorem ensures_pure {x : α} (h : Q x) : (pure x : Record α).Ensures Q := by
  rintro members _ ⟨⟩
  exact h

theorem Ensures.seq (hr : r.Ensures Q) (hf : f.Ensures fun g => ∀ a, Q a → P (g a)) :
    (f <*> r).Ensures P := by
  intro members b hb
  obtain ⟨g, a, hg, ha, rfl⟩ := build_seq_eq_ok.mp hb
  exact hf hg a (hr ha)

theorem Ensures.skip (hf : f.Ensures fun g => ∀ a, P (g a)) : (f <*> r).Ensures P :=
  Ensures.seq (fun _ _ _ => trivial) fun _ _ hg a (_ : True) => hf hg a

theorem Ensures.map {g : α → β} (h : ∀ a, P (g a)) : (g <$> r).Ensures P := by
  intro members b hb
  obtain ⟨a, -, rfl⟩ := build_map_eq_ok.mp hb
  exact h a

end Record

end Ensures

theorem Form.required (form : Form toJson shape) {x : α}
    (h : members.lookup name = some (toJson x)) : (Record.required name shape).Builds members x :=
  Record.builds_required h (form.read x)

theorem Shape.optional_of_ne_null {j : Json} (h : j ≠ .null) :
    Shape.optional shape j = some <$> shape j := by
  cases j with
  | null => exact absurd rfl h
  | _ => rfl

theorem Form.optional (form : Form toJson shape) {v : Option α}
    (h : members.lookup name = v.map toJson) : (Record.optional name shape).Builds members v := by
  simp only [Record.Builds, Record.optional, Record.withDefault, h]
  cases v with
  | none => rfl
  | some x =>
    -- a value written as null would be read as absent
    change Shape.optional shape (toJson x) = _
    rw [Shape.optional_of_ne_null (form.ne_null x), form.read]
    rfl

end Builds

section Forms

theorem form_text : Form Json.str Shape.string where
  read _ := rfl
  ne_null := by simp

theorem form_bool : Form Json.bool Shape.bool where
  read _ := rfl
  ne_null := by simp

theorem form_u64 : Form (fun n : UInt64 => .int n.toNat) Shape.u64 where
  read := Shape.u64_toNat
  ne_null := by simp

theorem Form.list {toJson : α → Json} {shape : Shape α} (form : Form toJson shape) :
    Form (fun xs : List α => .arr (xs.map toJson)) (Shape.list shape) where
  read _ := mapM_map_eq_ok fun x _ => form.read x
  ne_null := by simp

end Forms

end NftLedger.Json

namespace NftLedger

open Json (Form Shape)

namespace Modality

variable {α : Type} [DecidableEq α] [Modality α]

theorem toNat_byte (x : α) : (byte x).toNat = (all (α := α)).idxOf x := by
  have hlength : (all (α := α)).length ≤ 256 := by
    rw [all, List.length_map]
    exact short
  have hx : (all (α := α)).idxOf x < (all (α := α)).length :=
    List.idxOf_lt_length_of_mem (complete x)
  exact UInt8.toNat_ofNat_of_lt (lt_of_lt_of_le hx hlength)

theorem ofByte_byte (x : α) : ofByte (byte x) = .ok x := by
  have hget : (all (α := α))[(all (α := α)).idxOf x]? = some x := List.getElem?_idxOf (complete x)
  rw [ofByte, toNat_byte, hget]

theorem form : Form (toJson (α := α)) ofJson where
  read x := Shape.checked_eq_ok (Shape.u8_toNat _) (congrArg _ (ofByte_byte x))
  ne_null := by simp [toJson]

end Modality

theorem Key.form : Form Key.toJson Key.ofJson where
  read := Key.ofJson_toJson
  ne_null := by simp [Key.toJson]

theorem ContractHash.form : Form ContractHash.toJson ContractHash.ofJson where
  read h := by
    have htext : HashText.ofText? h.hash.text = some h.hash :=
      HashText.ofText?_eq_some_iff.mpr h.hash.normalize_text
    refine Shape.checked_eq_ok rfl ?_
    rw [ContractHash.ofText, htext]
    rfl
  ne_null := by simp [ContractHash.toJson]

end NftLedger
