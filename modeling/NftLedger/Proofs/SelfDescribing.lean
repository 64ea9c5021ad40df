import NftLedger.Proofs.Limits

namespace NftLedger

open Reader

theorem Bytes.withLength_append_inj {a b x y : Bytes} (ha : a.length < UInt32.size)
    (hb : b.length < UInt32.size) (h : a.withLength ++ x = b.withLength ++ y) : a = b ∧ x = y := by
  rw [withLength, withLength, List.append_assoc, List.append_assoc] at h
  have hread : number 4 (ofNat 4 a.length ++ (a ++ x)) = .ok (a.length, a ++ x) :=
    number_append ha (a ++ x)
  rw [h, number_append hb (b ++ y)] at hread
  simp only [Except.ok.injEq, Prod.mk.injEq] at hread
  obtain ⟨rfl, rfl⟩ := List.append_inj hread.2 hread.1
  exact ⟨rfl, rfl⟩

namespace Value

variable {expected : Ty} {bs rest : Bytes} {v : Value}

theorem ty_of_read {declared : Ty} (h : read declared bs = .ok (v, rest))
    (typed : declared ≠ .any) : v.ty = declared := by
  obtain ⟨used, -, hused⟩ := readWithin_sound .roomy (nestingLimit + 1) declared bs v rest h
  exact ty_of_spells hused typed

theorem readTagged_eq_ok :
    readTagged expected bs = .ok (v, rest) ↔
      (expected = .any ∨ expected = v.ty) ∧ v.ty.nesting ≤ nestingLimit ∧
        ∃ body : Bytes, body.length < UInt32.size ∧
          bs = body.withLength ++ v.ty.descriptor ++ rest ∧ read v.ty body = .ok (v, []) := by
  rw [readTagged, bind_eq_ok]
  constructor
  · rintro ⟨⟨own, w⟩, mid, henvelope, h⟩
    obtain ⟨body, tail, rfl, hshort, hown, htyped, hbody⟩ := readEnvelope_eq_ok.mp henvelope
    obtain ⟨rfl, hnesting⟩ := Ty.read_eq_ok.mp hown
    by_cases hother : expected ≠ .any ∧ own ≠ expected
    · simp only [if_pos hother] at h
      exact absurd h fail_ne_ok
    · simp only [if_neg hother, pure_eq_ok] at h
      obtain ⟨rfl, rfl⟩ := h
      -- the descriptor names a type of its own, so it can only be the type of the value
      obtain rfl := ty_of_read hbody htyped
      refine ⟨?_, hnesting, body, hshort, (List.append_assoc _ _ _).symm, hbody⟩
      by_cases hany : expected = .any
      · exact .inl hany
      · exact .inr (of_not_not fun hne => hother ⟨hany, Ne.symm hne⟩)
  · rintro ⟨hexpected, hnesting, body, hshort, rfl, hbody⟩
    have henvelope : readEnvelope Ty.read read (body.withLength ++ v.ty.descriptor ++ rest) =
        .ok ((v.ty, v), rest) :=
      readEnvelope_eq_ok.mpr ⟨body, v.ty.descriptor ++ rest, List.append_assoc _ _ _, hshort,
        Ty.read_eq_ok.mpr ⟨rfl, hnesting⟩, v.ty_ne_any, hbody⟩
    have hmatch : ¬ (expected ≠ .any ∧ v.ty ≠ expected) := fun h =>
      hexpected.elim h.1 fun heq => h.2 heq.symm
    refine ⟨(v.ty, v), rest, henvelope, ?_⟩
    simp only [if_neg hmatch]
    rfl

/-- Self-describing values, exactly: the body, behind its length, and the descriptor of the value's own
type, under which reading the body on its own gives the same value and leaves nothing. However an
accepted byte string is cut into a body and a descriptor, this is what reading the body gives. -/
theorem readTagged_grammar (expected : Ty) :
    (∀ bs v rest, readTagged expected bs = .ok (v, rest) ↔
      (expected = .any ∨ expected = v.ty) ∧ v.ty.nesting ≤ nestingLimit ∧
        ∃ body : Bytes, body.length < UInt32.size ∧
          bs = body.withLength ++ v.ty.descriptor ++ rest ∧ read v.ty body = .ok (v, [])) ∧
    ∀ own body rest v left, body.length < UInt32.size →
      readTagged expected (body.withLength ++ own.descriptor ++ rest) = .ok (v, left) →
        read own body = .ok (v, []) ∧ left = rest := by
  refine ⟨fun bs v rest => readTagged_eq_ok, fun own body rest v left hshort h => ?_⟩
  obtain ⟨-, -, body', hshort', hcut, hbody⟩ := readTagged_eq_ok.mp h
  rw [List.append_assoc, List.append_assoc] at hcut
  -- lengths fix the body, and no descriptor starts another one
  obtain ⟨rfl, htail⟩ := Bytes.withLength_append_inj hshort hshort' hcut
  obtain ⟨rfl, rfl⟩ := Ty.descriptor_append_inj htail
  exact ⟨hbody, rfl⟩

/-- The bytes of an absent option, with a byte behind them that belongs to nothing. -/
theorem readTagged_grammar_absent :
    let used : Bytes := [1, 0, 0, 0, 0, 13, 10]
    let v : Value := .option .string none
    (readTagged .any (used ++ [7]) = .ok (v, [7]) ∧ read (.option .string) [0] = .ok (v, [])) ∧
      readTagged (.option .key) (used ++ [7]) ≠ .ok (v, [7]) := by
  intro used v
  have hbody : read (.option .string) [0] = .ok (v, []) := rfl
  have hread : readTagged .any (used ++ [7]) = .ok (v, [7]) :=
    ((readTagged_grammar .any).1 _ v [7]).mpr
      ⟨.inl rfl, by decide, [0], by decide, by rfl, hbody⟩
  have hagain := (readTagged_grammar .any).2 (.option .string) [0] [7] v [7] (by decide) hread
  refine ⟨⟨hread, hagain.1⟩, fun h => ?_⟩
  have hexpected := (((readTagged_grammar (.option .key)).1 _ v [7]).mp h).1
  exact absurd hexpected (by decide)

end Value

end NftLedger
