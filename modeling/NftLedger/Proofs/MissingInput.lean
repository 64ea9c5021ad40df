import NftLedger.Proofs.PrefixFree

namespace NftLedger

open Reader

namespace Reader

variable {α : Type} {p : Reader α}

/-- What a fault of a reader says about bytes that may still come. -/
structure Honest (p : Reader α) : Prop where
  final (bs x : Bytes) (e : DecodeError) (he : ∀ needed left, e ≠ .endOfInput needed left) :
    p bs = .error e → p (bs ++ x) = .error e
  lacks (bs : Bytes) (needed left : Nat) : p bs = .error (.endOfInput needed left) → left < needed
  waits (bs x : Bytes) (needed left : Nat) (hx : x.length < needed - left) :
    p bs = .error (.endOfInput needed left) →
      ∃ needed' left', p (bs ++ x) = .error (.endOfInput needed' left')

theorem Grown.eq_error {x : Bytes} {e : DecodeError} {r : Except DecodeError (α × Bytes)}
    (h : Grown x (.error e) r) (he : ∀ needed left, e ≠ .endOfInput needed left) :
    r = .error e := by
  cases h with
  | refused => rfl
  | lacking => exact absurd rfl (he _ _)

theorem Grown.lacking_and_short {x : Bytes} {needed left : Nat}
    {r : Except DecodeError (α × Bytes)} (h : Grown x (.error (.endOfInput needed left)) r) :
    left < needed ∧
      (x.length < needed - left → ∃ needed' left', r = .error (.endOfInput needed' left')) := by
  cases h with
  | refused _ he => exact absurd rfl (he needed left)
  | lacking hlack hshort => exact ⟨hlack, hshort⟩

theorem Steady.honest (hp : Steady p) : Honest p where
  final bs x e he h := by
    have hgrown := hp bs x
    rw [h] at hgrown
    exact hgrown.eq_error he
  lacks bs needed left h := by
    -- growing by nothing is enough to tell
    have hgrown := hp bs []
    rw [h] at hgrown
    exact hgrown.lacking_and_short.1
  waits bs x needed left hx h := by
    have hgrown := hp bs x
    rw [h] at hgrown
    exact hgrown.lacking_and_short.2 hx

end Reader

/-- All four forms are honest about missing input, also where a count lacks room or where the bytes
of an envelope end too soon. -/
theorem readers_honest :
    (∀ t, Honest (Value.read t)) ∧ (∀ expected, Honest (Value.readTagged expected)) ∧
      Honest Ty.read ∧ Honest Arguments.read := by
  refine ⟨fun t => ?_, fun expected => ?_, ?_, ?_⟩
  · exact (Value.steady_read t).honest
  · exact (steady_parametric.tagged Value.steady_read expected).honest
  · exact (steady_parametric.ty _).honest
  · exact (steady_parametric.arguments Value.steady_read).honest

/-- A count whose room is cut off at 64 bits waits for more bytes than come. A value of another type
than expected is refused whatever comes behind it. -/
theorem readers_honest_saturated :
    let t : Ty := .map (.byteArray 4294967295) (.byteArray 4294967295)
    let count : Bytes := [255, 255, 255, 255]
    (Value.read t count = .error (.endOfInput 18446744073709551615 0) ∧
      ∃ needed left, Value.read t (count ++ [1, 2, 3]) = .error (.endOfInput needed left)) ∧
      ∀ x, Value.readTagged .key ([1, 0, 0, 0, 7, 3] ++ x) = .error (.typeMismatch .key .u8) := by
  intro t count
  have hlack : Value.read t count = .error (.endOfInput 18446744073709551615 0) := by
    decide +kernel
  have hrefused : Value.readTagged .key [1, 0, 0, 0, 7, 3] = .error (.typeMismatch .key .u8) := by
    decide +kernel
  refine ⟨⟨hlack, ?_⟩, fun x => ?_⟩
  · exact (readers_honest.1 t).waits count [1, 2, 3] _ _ (by decide) hlack
  · exact (readers_honest.2.1 .key).final _ x _ (fun _ _ h => nomatch h) hrefused

end NftLedger
