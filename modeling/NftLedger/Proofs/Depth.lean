import NftLedger.Proofs.Reach
import NftLedger.Proofs.SelfDescribing
import NftLedger.Proofs.Stopping

namespace NftLedger

namespace Reader

variable {α : Type} {p q : Reader α}

def Shallower (p q : Reader α) : Prop := ∀ bs, p bs = q bs ∨ p bs = .error .tooDeep

theorem shallower_refl (p : Reader α) : Shallower p p := fun _ => .inl rfl

theorem shallower_iff : Shallower p q ↔ SameUnless (· = .tooDeep) p q := by
  simp only [Shallower, SameUnless, exists_eq_left]

theorem shallower_parametric : Parametric Shallower := by
  have h : @Shallower = fun α => SameUnless (α := α) (· = .tooDeep) := by
    funext α p q
    exact propext shallower_iff
  rw [h]
  exact sameUnless_parametric _

end Reader

open Reader

theorem Ty.shallower_readWithin (budget : Nat) :
    Shallower (readWithin budget) (readWithin (budget + 1)) := by
  induction budget with
  | zero => exact fun _ => .inr rfl
  | succ budget ih =>
    apply shallower_parametric.bind (shallower_refl byte)
    intro tag
    exact shallower_parametric.ofTag ih tag

namespace Value

theorem shallower_readWithin (rule : CountRule) (budget : Nat) (t : Ty) :
    Shallower (readWithin rule budget t) (readWithin rule (budget + 1) t) := by
  induction budget generalizing t with
  | zero => exact fun _ => .inr rfl
  | succ budget ih =>
    have hcount : ∀ width, Shallower (readCount rule width) (readCount rule width) :=
      fun width => shallower_refl _
    exact shallower_parametric.value_succ hcount (Ty.shallower_readWithin budget) ih t

theorem readTagged_any : readTagged .any = Prod.snd <$> readEnvelope Ty.read read := by
  rw [map_eq_pure_bind]
  simp [readTagged]

theorem shallower_read_any : Shallower (read .any) (readTagged .any) := by
  rw [readTagged_any]
  apply shallower_parametric.map
  apply shallower_parametric.envelope
  · exact Ty.shallower_readWithin nestingLimit
  · exact shallower_readWithin .roomy nestingLimit

theorem spells_of_readTagged_any {bs rest : Bytes} {v : Value}
    (h : readTagged .any bs = .ok (v, rest)) :
    ∃ used, bs = used ++ rest ∧ Spells .any used v ∧ v.Bounded := by
  obtain ⟨-, -, body, hshort, rfl, hbody⟩ := readTagged_eq_ok.mp h
  obtain ⟨used, hused, hspelled, -, hbounded⟩ := read_eq_ok.mp hbody
  rw [List.append_nil] at hused
  subst hused
  exact ⟨_, rfl, .any v.ty body v v.ty_ne_any hshort hspelled, hbounded⟩

theorem read_any_eq_tooDeep {bs : Bytes} :
    read .any bs = .error .tooDeep ↔ EnvelopeReaches nestingLimit bs := by
  rw [read, readWithin_eq_tooDeep]
  exact ⟨fun h => by cases h; assumption, .any⟩

theorem readTagged_any_eq_tooDeep {bs : Bytes} :
    readTagged .any bs = .error .tooDeep ↔ EnvelopeReaches (nestingLimit + 1) bs := by
  rw [readTagged_any, map_eq_error]
  exact readEnvelope_eq_tooDeep_iff_reaches fun _ _ => readWithin_eq_tooDeep

theorem read_any_eq_ok_iff {bs rest : Bytes} {v : Value} (h : readTagged .any bs = .ok (v, rest)) :
    read .any bs = .ok (v, rest) ↔ v.ty.nesting < nestingLimit ∧ v.need v.ty < nestingLimit := by
  obtain ⟨used, rfl, hused, hbounded⟩ := spells_of_readTagged_any h
  have hverdict := readWithin_verdict CountRule.roomy_fair hused (nestingLimit + 1) rest
  rw [read, hverdict.eq_ok_iff, need_any, need_of_ne_any v.ty_ne_any, ← Nat.max_lt]
  exact (and_iff_left hbounded).trans (by omega)

/-- The two readers of the self-describing form refuse it for depth one level apart: a descriptor or a
value that opens the last level allowed is too deep for a place of any type. There they part, and
nowhere else. -/
theorem read_any_eq_readTagged_any_iff (bs : Bytes) :
    (readTagged .any bs = .error .tooDeep ↔ EnvelopeReaches (nestingLimit + 1) bs) ∧
      (read .any bs = .error .tooDeep ↔ EnvelopeReaches nestingLimit bs) ∧
      (read .any bs = readTagged .any bs ↔
        (EnvelopeReaches nestingLimit bs → EnvelopeReaches (nestingLimit + 1) bs)) ∧
      ∀ v rest, readTagged .any bs = .ok (v, rest) →
        (read .any bs = .ok (v, rest) ↔
          v.ty.nesting < nestingLimit ∧ v.need v.ty < nestingLimit) := by
  refine ⟨readTagged_any_eq_tooDeep, read_any_eq_tooDeep, ?_, fun v rest => read_any_eq_ok_iff⟩
  rw [← read_any_eq_tooDeep, ← readTagged_any_eq_tooDeep]
  constructor
  · intro heq hdeep
    rw [← heq, hdeep]
  · intro h
    rcases shallower_read_any bs with heq | hdeep
    · exact heq
    · rw [hdeep, h hdeep]

/-- The type of an absent value that nests as deep as the limit allows. -/
theorem read_any_ne_readTagged_any :
    read .any ([1, 0, 0, 0, 0] ++ List.replicate 64 13 ++ [3]) ≠
      readTagged .any ([1, 0, 0, 0, 0] ++ List.replicate 64 13 ++ [3]) := by
  decide +kernel

end Value

end NftLedger
