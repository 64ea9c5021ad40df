import NftLedger.Proofs.Limits
import NftLedger.Proofs.Stopping

namespace NftLedger.Value

open Reader

/-- A value of the declared type, read without asking for room. Elements without width are limited all
the same. -/
def readUnchecked (declared : Ty) : Reader Value :=
  readWithin .bounded (nestingLimit + 1) declared

def MissingInput (e : DecodeError) : Prop := ∃ needed left, e = .endOfInput needed left

theorem CountRule.bounded_fair : bounded.Fair := fun _ _ _ _ => rfl

theorem CountRule.roomy_eq_bounded_or (width count left : Nat) :
    roomy width count left = bounded width count left ∨
      ∃ needed, roomy width count left = .error (.endOfInput needed left) := by
  rw [roomy]
  by_cases hwidth : width = 0
  · exact .inl (if_pos hwidth)
  · have hbounded : bounded width count left = .ok () := if_neg fun h => hwidth h.1
    rw [if_neg hwidth, hbounded]
    by_cases hroom : left < min (count * width) (UInt64.size - 1)
    · exact .inr ⟨_, if_pos hroom⟩
    · exact .inl (if_neg hroom)

theorem sameUnless_readCount (width : Nat) :
    SameUnless MissingInput (readCount .roomy width) (readCount .bounded width) := by
  apply (sameUnless_refl (number 4)).bind
  intro count bs
  rcases CountRule.roomy_eq_bounded_or width count bs.length with hsame | ⟨needed, hlack⟩
  · left
    simp only [hsame]
  · right
    exact ⟨_, ⟨needed, bs.length, rfl⟩, by simp only [hlack]⟩

theorem sameUnless_readWithin (budget : Nat) (t : Ty) :
    SameUnless MissingInput (readWithin .roomy budget t) (readWithin .bounded budget t) := by
  induction budget generalizing t with
  | zero => exact sameUnless_refl _
  | succ budget ih =>
    -- only the counts differ; descriptors are read alike
    exact (sameUnless_parametric _).value_succ sameUnless_readCount (sameUnless_refl _) ih t

theorem read_eq_ok_iff_readUnchecked {t : Ty} {v : Value} {bs rest : Bytes} :
    read t bs = .ok (v, rest) ↔ readUnchecked t bs = .ok (v, rest) := by
  rw [read, readUnchecked, readWithin_eq_ok CountRule.roomy_fair,
    readWithin_eq_ok CountRule.bounded_fair]

theorem minWidth_add_le_of_readUnchecked {t : Ty} {v : Value} {bs rest : Bytes}
    (h : readUnchecked t bs = .ok (v, rest)) : t.minWidth + rest.length ≤ bs.length := by
  obtain ⟨used, rfl, hused⟩ := readWithin_sound .bounded (nestingLimit + 1) t bs v rest h
  rw [List.length_append]
  exact Nat.add_le_add_right hused.minWidth_le rest.length

/-- Asking for room changes no value read. Where it changes the result, input is reported as missing
and without asking the reading fails as well. Every value read has used the width that is asked for. -/
theorem read_eq_readUnchecked_or (t : Ty) (bs : Bytes) :
    (∀ v rest, read t bs = .ok (v, rest) ↔ readUnchecked t bs = .ok (v, rest)) ∧
    (read t bs = readUnchecked t bs ∨
      (∃ needed left, read t bs = .error (.endOfInput needed left)) ∧
        ∃ e, readUnchecked t bs = .error e) ∧
    ∀ v rest, readUnchecked t bs = .ok (v, rest) → t.minWidth + rest.length ≤ bs.length := by
  have hread : SameUnless MissingInput (read t) (readUnchecked t) := sameUnless_readWithin _ t
  refine ⟨fun v rest => read_eq_ok_iff_readUnchecked, ?_,
    fun v rest => minWidth_add_le_of_readUnchecked⟩
  rcases hread bs with hsame | ⟨_, ⟨needed, left, rfl⟩, hlack⟩
  · exact .inl hsame
  · refine .inr ⟨⟨needed, left, hlack⟩, ?_⟩
    cases hunchecked : readUnchecked t bs with
    | error e => exact ⟨e, rfl⟩
    | ok q =>
      rw [read_eq_ok_iff_readUnchecked.mpr hunchecked] at hlack
      cases hlack

/-- Keys without width and an empty list in the last place: the bytes left are just enough. -/
theorem read_eq_readUnchecked_or_tight :
    let t : Ty := .map (.byteArray 0) (.list .u64)
    let bs : Bytes := [2, 0, 0, 0, 0, 0, 0, 0, 0, 0, 0, 0]
    let v : Value := .map (.byteArray 0) (.list .u64)
      [(.byteArray [], .list .u64 []), (.byteArray [], .list .u64 [])]
    readUnchecked t bs = .ok (v, []) ∧ read t bs = .ok (v, []) ∧ t.minWidth ≤ bs.length := by
  intro t bs v
  have hunchecked : readUnchecked t bs = .ok (v, []) := by rfl
  obtain ⟨hiff, -, hwidth⟩ := read_eq_readUnchecked_or t bs
  exact ⟨hunchecked, (hiff v []).mpr hunchecked, hwidth v [] hunchecked⟩

/-- The room asked for is cut off at 64 bits; without asking, the first key already lacks input. -/
example :
    read (.map (.byteArray 4294967295) (.byteArray 4294967295)) [255, 255, 255, 255, 7] =
        .error (.endOfInput 18446744073709551615 1) ∧
      readUnchecked (.map (.byteArray 4294967295) (.byteArray 4294967295)) [255, 255, 255, 255, 7] =
        .error (.endOfInput 4294967295 1) := by
  decide +kernel

end NftLedger.Value
