import NftLedger.Proofs.CallDocument
import NftLedger.Proofs.Fields
import NftLedger.Proofs.Gathering
import NftLedger.Proofs.Printed

namespace NftLedger

open Json Json.Scan

namespace Property

theorem takes (p : Property) :
    Takes (named Partial.fields) ⟨none, none, none⟩
      [("name", .str p.name), ("description", .str p.description), ("required", .bool p.required)]
      ⟨some p.name, some p.description, some p.required⟩ := by
  refine .field rfl rfl (fun rest => bind_ok (expectString_chars p.name rest)) ?_
  refine .field rfl rfl (fun rest => bind_ok (expectString_chars p.description rest)) ?_
  refine .field rfl rfl (fun rest => bind_ok (expectBool_chars p.required rest)) ?_
  exact .nil _

theorem scan_chars (p : Property) (rest : List Char) :
    Property.scan (p.toJson.chars ++ rest) = .ok (p, rest) :=
  bind_ok (p.takes.record_chars rest)

end Property

namespace Schema

variable {σ : Type}

theorem takes_given (put : σ → String → Property → σ) (start : σ)
    (given : List (String × Property)) :
    Takes (gatherProperty put) start (given.map (Prod.map id Property.toJson))
      (given.foldl (fun s e => put s e.1 e.2) start) := by
  induction given generalizing start with
  | nil => exact .nil start
  | cons e given ih =>
    exact .cons (fun rest => colon_then (e.2.scan_chars rest)) (ih _)

theorem gather_chars (put : σ → String → Property → σ) (start : σ)
    (given : List (String × Property)) (rest : List Char) :
    gather put start ((toJson ⟨given⟩).chars ++ rest) =
      .ok (given.foldl (fun s e => put s e.1 e.2) start, rest) := by
  have hfield : Takes (named [gatherField put start]) none
      [("properties", .obj (given.map (Prod.map id Property.toJson)))]
      (some (given.foldl (fun s e => put s e.1 e.2) start)) := by
    refine .field rfl rfl (fun rest => ?_) (.nil _)
    exact map_ok ((takes_given put start given).expectMembers_chars rest)
  exact bind_ok (hfield.record_chars rest)

/-- The text of properties lists them all, repeated names included. -/
theorem listed_print (given : List (String × Property)) :
    listed (toJson ⟨given⟩).print = .ok given := by
  have hall : given.foldl (fun found e => found ++ [(e.1, e.2)]) [] = given := by
    rw [List.foldl_append_eq_append]
    exact List.flatMap_singleton' given
  rw [listed, run_print (gather_chars _ [] given), hall]

theorem parse_print (given : List (String × Property)) :
    Json.parse (toJson ⟨given⟩).print = .ok (ofList given).toJson := by
  have hproperty (p : Property) (rest : List Char) :
      valueWithin 125 (p.toJson.chars ++ rest) = .ok (p.toJson, rest) := by
    refine valueWithin_obj (f := id) ?_ rest
    simp [valueWithin_str, valueWithin_bool]
  have hentries (rest : List Char) :
      valueWithin 126 ((obj (given.map (Prod.map id Property.toJson))).chars ++ rest) =
        .ok (obj ((ofList given).properties.map (Prod.map id Property.toJson)), rest) := by
    rw [ofList_eq, map_foldl_putNamed]
    exact valueWithin_obj (f := id) (List.forall_mem_map.mpr fun e _ => hproperty e.2) rest
  exact run_print (valueWithin_obj (f := fun _ => _) (List.forall_mem_singleton.mpr hentries))

theorem records_ofList (given : List (String × Property)) : (ofList given).Records given := by
  have hordered : (ofList given).properties.map (·.1) = (given.map (·.1)).eraseDups := by
    rw [ofList_eq]
    exact names_foldl_putNamed given
  refine ⟨distinct_ofList given, hordered, fun name p => ?_, fun name => ?_⟩
  · rw [ofList_eq]
    exact lookup_foldl_putNamed_iff given name p
  · rw [get?, lookup_eq_none_iff_names, hordered, List.mem_eraseDups, not_mem_names_iff]

theorem extends_insert (s : Schema) (name : String) (p : Property) :
    s.Extends name p (s.insert name p) where
  given := lookup_putNamed_self name p s.properties
  others _ h := lookup_putNamed_of_ne h p s.properties
  names := names_prefix_putNamed name p s.properties
  places _ _ h hi := getElem?_putNamed h hi

theorem survives_of_distinct {s : Schema} (h : s.Distinct) : s.Survives where
  document := ofJson_toJson h
  text := by
    rw [ofText_eq]
    exact map_eq_ok_iff.mpr ⟨s.properties, listed_print s.properties, ofList_properties h⟩
  parsed := by
    have hparse := parse_print s.properties
    rwa [ofList_properties h] at hparse
  unique other hsame := by
    -- a text lists the properties it was printed from, be their names distinct or not
    have hother : listed s.toJson.print = .ok other.properties :=
      hsame ▸ listed_print other.properties
    exact congrArg mk (Except.ok.inj (hother.symm.trans (listed_print s.properties)))

theorem lists_of_propertiesOfJson {j : Json} {s : Schema} (h : propertiesOfJson j = .ok s) :
    ∃ entries given, j = .obj entries ∧ s = ofList given ∧
      entries.Forall₂ (fun e g => e.1 = g.1 ∧ Property.ofJson e.2 = .ok g.2) given := by
  cases j with
  | obj entries =>
    obtain ⟨given, hgiven, rfl⟩ := map_eq_ok_iff.mp h
    refine ⟨entries, given, rfl, rfl, (forall₂_of_mapM hgiven).imp fun e g he => ?_⟩
    obtain ⟨p, hp, rfl⟩ := map_eq_ok_iff.mp he
    exact ⟨rfl, hp⟩
  | _ => cases h

theorem lists_of_ofJson {j : Json} {s : Schema} (h : ofJson j = .ok s) :
    ∃ given, Lists j given ∧ s = ofList given := by
  cases j with
  | obj members =>
    obtain ⟨-, -, hbuild⟩ := bind_eq_ok_iff.mp h
    cases hfound : members.lookup "properties" with
    | none => simp [record, Record.required, hfound] at hbuild
    | some found =>
      simp only [record, Record.required, hfound] at hbuild
      obtain ⟨entries, given, rfl, rfl, hentries⟩ := lists_of_propertiesOfJson hbuild
      exact ⟨given, ⟨entries, .named members entries hfound, hentries⟩, rfl⟩
  | arr items =>
    obtain ⟨hbuild, hlength⟩ := Json.Record.build_of_ofItems h
    rcases items with _ | ⟨j, _ | ⟨k, rest⟩⟩
    · cases hbuild
    · obtain ⟨entries, given, rfl, rfl, hentries⟩ := lists_of_propertiesOfJson hbuild
      exact ⟨given, ⟨entries, .positional entries, hentries⟩, rfl⟩
    · simp [record, Record.required] at hlength
  | _ => cases h

theorem Lists.unique {j : Json} {given given' : List (String × Property)} (h : Lists j given)
    (h' : Lists j given') : given = given' := by
  obtain ⟨entries, hentries, hgiven⟩ := h
  obtain ⟨entries', hentries', hgiven'⟩ := h'
  obtain rfl : entries = entries' := by
    cases hentries with
    | named members entries found =>
      cases hentries' with
      | named _ entries' found' => simpa [found] using found'
    | positional entries =>
      cases hentries' with
      | positional => rfl
  refine List.right_unique_forall₂' (fun e g g' hg hg' => ?_) hgiven hgiven'
  exact Prod.ext (hg.1.symm.trans hg'.1) (Except.ok.inj (hg.2.symm.trans hg'.2))

/-- Any origin amounts to insertions in turn. -/
theorem Origin.eq_ofList {s : Schema} {given : List (String × Property)} (h : Origin s given) :
    s = ofList given := by
  induction h with
  | empty => rfl
  | insert s given name p _ ih =>
    rw [ih]
    exact insert_ofList given name p
  | document j s given lists accepted =>
    obtain ⟨given', lists', rfl⟩ := lists_of_ofJson accepted
    rw [lists.unique lists']
  | text text s given lists accepted =>
    rw [ofText_eq, lists] at accepted
    exact (Except.ok.inj accepted).symm

theorem origin_ofList (given : List (String × Property)) : Origin (ofList given) given := by
  induction given using List.reverseRecOn with
  | nil => exact .empty
  | append_singleton given e ih =>
    rw [← insert_ofList]
    exact .insert _ given e.1 e.2 ih

theorem get?_schema_of_prepare {i : Install} {contract : Option Contract} {choice : SessionChoice}
    {inv : Invocation} (h : (Call.install i).prepare contract choice = .ok inv) :
    inv.args.get? "json_schema" = some (.string i.jsonSchema.toJson.print) := by
  obtain ⟨-, -, args, hargs, hinv⟩ := Call.prepare_eq_ok_iff.mp h
  have hfield : Field.jsonSchema ∈ (Call.install i).fields inv.form := by
    cases inv.form <;> simp [Call.fields, Call.plainFields]
  have hfound := Call.get?_name_of_sent (Call.entries_of_arguments hargs) Field.jsonSchema
  rwa [if_pos hfield, ← hinv] at hfound

/-- However a schema came about, by insertions, from a document or from a text, it has each name given
once, in the order in which the names first came, with the property given last. Its own JSON gives it
back, and so does the text that an installation sends. -/
theorem records_and_survives :
    (∀ given, Origin (ofList given) given) ∧
    (∀ j s, ofJson j = .ok s → ∃ given, Lists j given ∧ Origin s given) ∧
    (∀ text s, ofText text = .ok s → ∃ given, listed text = .ok given ∧ Origin s given) ∧
    (∀ given, listed (toJson ⟨given⟩).print = .ok given) ∧
    ∀ s given, Origin s given →
      s.Records given ∧ s.Survives ∧ (∀ name p, s.Extends name p (s.insert name p)) ∧
        ∀ i contract choice inv, i.jsonSchema = s →
          (Call.install i).prepare contract choice = .ok inv →
            ∃ text, inv.args.get? "json_schema" = some (.string text) ∧ ofText text = .ok s := by
  refine ⟨origin_ofList, fun j s h => ?_, fun text s h => ?_, listed_print, fun s given h => ?_⟩
  · obtain ⟨given, lists, rfl⟩ := lists_of_ofJson h
    exact ⟨given, lists, .document j _ given lists h⟩
  · have hread := h
    rw [ofText_eq] at hread
    obtain ⟨given, lists, -⟩ := map_eq_ok_iff.mp hread
    exact ⟨given, lists, .text text s given lists h⟩
  · obtain rfl := h.eq_ofList
    have hsurvives := survives_of_distinct (distinct_ofList given)
    refine ⟨records_ofList given, hsurvives, extends_insert _, ?_⟩
    intro i contract choice inv hi hprepare
    refine ⟨_, get?_schema_of_prepare hprepare, ?_⟩
    rw [hi]
    exact hsurvives.text

/-- A name that comes again, in a document by position and in a text. -/
theorem records_and_survives_repeated :
    let given : List (String × Property) :=
      [("color", ⟨"color", "", true⟩), ("age", ⟨"age", "in \"years\"", false⟩),
        ("color", ⟨"color", "a word", false⟩)]
    let s : Schema :=
      ⟨[("color", ⟨"color", "a word", false⟩), ("age", ⟨"age", "in \"years\"", false⟩)]⟩
    let j : Json := .arr [.obj (given.map fun e => (e.1, e.2.toJson))]
    let text := (toJson ⟨given⟩).print
    ofJson j = .ok s ∧ ofText text = .ok s ∧
      (∃ inDocument, Lists j inDocument ∧ s.Records inDocument) ∧
      (∃ given, listed text = .ok given ∧ Origin s given) ∧ s.Records given ∧ s.Survives ∧
        ∃ inv sent,
          (Call.install { Call.sampleInstall with jsonSchema := s }).prepare none .bundled = .ok inv ∧
            inv.args.get? "json_schema" = some (.string sent) ∧ ofText sent = .ok s := by
  intro given s j text
  have hdocument : ofJson j = .ok s := by rfl
  have htext : ofText text = .ok s := by
    rw [ofText_eq, listed_print]
    rfl
  obtain ⟨-, hread, hlisted, -, hkept⟩ := records_and_survives
  obtain ⟨inDocument, lists, hinDocument⟩ := hread j s hdocument
  have horigin : Origin s given := .text text s given (listed_print given) htext
  obtain ⟨hrecords, hsurvives, -, hinstall⟩ := hkept s given horigin
  obtain ⟨inv, hinv⟩ : ∃ inv, (Call.install { Call.sampleInstall with jsonSchema := s }).prepare
      none .bundled = .ok inv := ⟨_, rfl⟩
  obtain ⟨sent, hfound, hsent⟩ := hinstall _ none .bundled inv rfl hinv
  exact ⟨hdocument, htext, ⟨inDocument, lists, (hkept s inDocument hinDocument).1⟩,
    hlisted text s htext, hrecords, hsurvives, inv, sent, hinv, hfound, hsent⟩

end Schema

end NftLedger
