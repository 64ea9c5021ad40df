import NftLedger.Proofs.Listing

namespace NftLedger.Arguments

variable {args start : Arguments} {history : List (String × Value)}

theorem get?_eq_none_iff {name : String} : args.get? name = none ↔ name ∉ args.names :=
  lookup_eq_none_iff_names

theorem mem_names_iff (h : args.names = (history.map (·.1)).eraseDups) (name : String) :
    name ∈ args.names ↔ name ∈ history.map (·.1) := by
  rw [h, List.mem_eraseDups]

/-- The absent names and the size follow from the rest of a record. -/
theorem records_of (hnodup : args.names.Nodup)
    (hordered : args.names = (history.map (·.1)).eraseDups)
    (hget : ∀ name value, args.get? name = some value ↔ GivenLast history name value) :
    args.Records history := by
  refine ⟨hnodup, hordered, hget, fun name => ?_, ?_⟩
  · rw [get?_eq_none_iff, mem_names_iff hordered, not_mem_names_iff]
  · have hsize : args.size = args.names.length := (List.length_map _).symm
    rw [hsize, ← List.toFinset_card_of_nodup hnodup]
    congr 1
    ext name
    rw [List.mem_toFinset, List.mem_toFinset, mem_names_iff hordered]

theorem records_empty : empty.Records [] := by
  apply records_of
  · exact List.nodup_nil
  · rfl
  · exact fun name value => iff_of_false (by simp [empty, get?]) not_givenLast_nil

theorem Records.insert (h : args.Records history) (name : String) (value : Value) :
    (args.insert name value).Records (history ++ [(name, value)]) := by
  apply records_of
  · exact nodup_putNamed h.nodup name value
  · rw [List.map_append]
    exact names_putNamed h.ordered name value
  · exact lookup_putNamed_iff_givenLast h.get?_eq_some_iff name value

theorem Records.apply (h : args.Records history) (s : Step) :
    (s.apply args).Records (history ++ s.inserted?.toList) := by
  cases s with
  | insert name value => exact h.insert name value
  | insert? name value =>
    cases value with
    | none => simpa [Step.apply, Step.inserted?, insert?] using h
    | some v => exact h.insert name v

theorem Records.run (h : args.Records history) (steps : List Step) :
    (args.run steps).Records (history ++ steps.filterMap Step.inserted?) := by
  induction steps generalizing args history with
  | nil => simpa [Arguments.run] using h
  | cons s steps ih =>
    have hsplit : (s :: steps).filterMap Step.inserted? =
        s.inserted?.toList ++ steps.filterMap Step.inserted? := by
      cases hs : s.inserted? <;> simp [hs]
    rw [hsplit, ← List.append_assoc]
    exact ih (h.apply s)

theorem records_ofList (history : List (String × Value)) : (ofList history).Records history := by
  induction history using List.reverseRecOn with
  | nil => exact records_empty
  | append_singleton history entry ih =>
    rw [ofList_append]
    exact ih.insert entry.1 entry.2

theorem Origin.records (h : Origin start history) : start.Records history := by
  cases h with
  | empty => exact records_empty
  | read used rest _ _ lists accepted =>
    obtain ⟨rfl, -⟩ := lists.eq_of_read accepted
    exact records_ofList history

theorem extends_insert (args : Arguments) (name : String) (value : Value) :
    args.Extends name (args.insert name value) := by
  refine ⟨?_, fun other h => ?_, fun i e h hi => ?_⟩
  · exact names_prefix_putNamed name value args.entries
  · exact lookup_putNamed_of_ne h value args.entries
  · exact getElem?_putNamed h hi

/-- Whatever is read has an origin, and from any origin a run of insertions gives each name once, in
the place where it first came, with the value that came last. Another insertion leaves all other
names and all places as they are. -/
theorem run_records (steps : List Step) :
    (∀ bs args rest, read bs = .ok (args, rest) →
      ∃ used listed, bs = used ++ rest ∧ Lists used listed ∧ Origin args listed) ∧
    ∀ start listed, Origin start listed →
      (start.run steps).Records (listed ++ steps.filterMap Step.inserted?) ∧
        (∀ name, (start.run steps).insert? name none = start.run steps) ∧
        ∀ name value, (start.run steps).Extends name ((start.run steps).insert name value) := by
  refine ⟨fun bs args rest h => ?_, fun start listed h => ?_⟩
  · obtain ⟨used, listed, rfl, lists⟩ := lists_of_read h
    exact ⟨used, listed, rfl, lists, .read used rest args listed lists h⟩
  · exact ⟨h.records.run steps, fun _ => rfl, fun name value => extends_insert _ name value⟩

theorem run_records_repeated :
    let listed : List (String × Value) := [("a", .u8 1), ("b", .u8 2), ("a", .u8 3)]
    let start : Arguments := ⟨[("a", .u8 3), ("b", .u8 2)]⟩
    let steps : List Step := [.insert? "c" none, .insert "b" (.bool true)]
    Origin start listed ∧ start.run steps = ⟨[("a", .u8 3), ("b", .bool true)]⟩ ∧
      (start.run steps).Records (listed ++ [("b", .bool true)]) := by
  intro listed start steps
  have hvalue (n : UInt8) : Value.Spells .any (Value.u8 n).tagged (.u8 n) :=
    .any .u8 [n] (.u8 n) (by decide) (show 1 < UInt32.size by decide) (.u8 n)
  have hlists : Lists (bytes ⟨listed⟩) listed := by
    apply Lists.pieces (listed.map fun e => (e.1, (e.2.tagged, e.2)))
    · decide
    · decide
    · simpa [listed] using ⟨hvalue 1, hvalue 2, hvalue 3⟩
  have hread : read (bytes ⟨listed⟩ ++ [9]) = .ok (start, [9]) :=
    read_eq_ok.mpr ⟨_, listed, rfl, hlists, rfl, by decide, by decide⟩
  have horigin : Origin start listed := .read _ [9] start listed hlists hread
  exact ⟨horigin, rfl, ((run_records steps).2 start listed horigin).1⟩

end NftLedger.Arguments
