import NftLedger.Proofs.Parametric
import NftLedger.Proofs.Reader

namespace NftLedger.Reader

variable {α β : Type} {stop : DecodeError → Prop} {p q : Reader α} {f g : α → Reader β}

def SameUnless (stop : DecodeError → Prop) (p q : Reader α) : Prop :=
  ∀ bs, p bs = q bs ∨ ∃ e, stop e ∧ p bs = .error e

theorem sameUnless_refl (p : Reader α) : SameUnless stop p p := fun _ => .inl rfl

theorem SameUnless.bind (hp : SameUnless stop p q) (hf : ∀ a, SameUnless stop (f a) (g a)) :
    SameUnless stop (p >>= f) (q >>= g) := by
  intro bs
  rcases hp bs with hsame | ⟨e, he, hstop⟩
  · cases hq : q bs with
    | ok r =>
      rw [bind_ok (hsame.trans hq), bind_ok hq]
      exact hf r.1 r.2
    | error e =>
      rw [bind_error (hsame.trans hq), bind_error hq]
      exact .inl rfl
  · exact .inr ⟨e, he, bind_error hstop⟩

theorem SameUnless.within (hp : SameUnless stop p q) (body : Bytes) :
    SameUnless stop (within body p) (within body q) := by
  intro bs
  simp only [Reader.within]
  rcases hp body with hsame | ⟨e, he, hstop⟩
  · rw [hsame]
    exact .inl rfl
  · rw [hstop]
    exact .inr ⟨e, he, rfl⟩

theorem sameUnless_parametric (stop : DecodeError → Prop) : Parametric (SameUnless stop) where
  of_pure _ := sameUnless_refl _
  of_fail _ _ := sameUnless_refl _
  of_tooDeep := sameUnless_refl _
  of_byte := sameUnless_refl _
  of_take _ := sameUnless_refl _
  of_address := sameUnless_refl _
  bind := SameUnless.bind
  within body h := h.within body

end NftLedger.Reader
