import NftLedger.Arguments

namespace NftLedger.Reader

/-- What readers of values without parts are built from. Missing input is no fault of its own here: it
arises in the simple readers only. -/
structure Flat (R : ∀ {α : Type}, Reader α → Reader α → Prop) : Prop where
  of_pure {α : Type} (a : α) : R (pure a : Reader α) (pure a)
  of_fail {α : Type} {e : DecodeError} (hinput : ∀ needed left, e ≠ .endOfInput needed left)
    (hdepth : e ≠ .tooDeep) : R (fail e : Reader α) (fail e)
  of_byte : R byte byte
  of_take (n : Nat) : R (take n) (take n)
  of_address : R Address.read Address.read
  bind {α β : Type} {p q : Reader α} {f g : α → Reader β} (h : R p q) (hf : ∀ a, R (f a) (g a)) :
    R (p >>= f) (q >>= g)
  within {α : Type} {p q : Reader α} (body : Bytes) (h : R p q) : R (within body p) (within body q)

/-- Values with parts may also be too deep. -/
structure Parametric (R : ∀ {α : Type}, Reader α → Reader α → Prop) : Prop extends Flat R where
  of_tooDeep {α : Type} : R (fail .tooDeep : Reader α) (fail .tooDeep)

namespace Flat

variable {R : ∀ {α : Type}, Reader α → Reader α → Prop} {α β : Type} {p q p' q' : Reader α}

theorem map (hR : Flat R) (h : R p q) (g : α → β) : R (g <$> p) (g <$> q) := by
  rw [map_eq_pure_bind, map_eq_pure_bind]
  apply hR.bind h
  intro a
  exact hR.of_pure (g a)

theorem ite {c : Prop} [Decidable c] (h : R p q) (h' : R p' q') :
    R (if c then p else p') (if c then q else q') := by
  split
  · exact h
  · exact h'

theorem pair {r s : Reader β} (hR : Flat R) (h : R p q) (hsecond : R r s) :
    R (pair p r) (pair q s) := by
  apply hR.bind h
  intro a
  apply hR.bind hsecond
  intro b
  exact hR.of_pure (a, b)

theorem many (hR : Flat R) (h : R p q) (n : Nat) : R (many p n) (many q n) := by
  induction n with
  | zero => exact hR.of_pure []
  | succ n ih =>
    apply hR.bind h
    intro a
    apply hR.bind ih
    intro as
    exact hR.of_pure (a :: as)

theorem number (hR : Flat R) (width : Nat) : R (number width) (number width) :=
  hR.map (hR.of_take width) _

theorem text (hR : Flat R) : R text text := by
  apply hR.bind (hR.number 4)
  intro length
  apply hR.bind (hR.of_take length)
  intro bs
  cases Bytes.toText? bs with
  | none => exact hR.of_fail (by simp) (by simp)
  | some s => exact hR.of_pure s

theorem ofTag {part part' : Reader Ty} (hR : Flat R) (h : R part part') (tag : UInt8) :
    R (Ty.ofTag part tag) (Ty.ofTag part' tag) := by
  unfold Ty.ofTag
  cases Ty.head? tag with
  | none => exact hR.of_fail (by simp) (by simp)
  | some head =>
    cases head with
    | plain t => exact hR.of_pure t
    | byteArray =>
      apply hR.bind (hR.map (hR.number 4) _)
      intro length
      exact hR.of_pure _
    | option =>
      apply hR.bind h
      intro t
      exact hR.of_pure _
    | list =>
      apply hR.bind h
      intro t
      exact hR.of_pure _
    | map =>
      apply hR.bind h
      intro k
      apply hR.bind h
      intro v
      exact hR.of_pure _

theorem key (hR : Flat R) : R Key.read Key.read := by
  apply hR.bind hR.of_byte
  intro tag
  apply ite (hR.map hR.of_address _)
  apply ite (hR.map hR.of_address _)
  apply ite
  · apply hR.bind hR.of_address
    intro address
    apply hR.bind hR.of_byte
    intro rights
    exact hR.of_pure _
  · exact hR.of_fail (by simp) (by simp)

theorem bool (hR : Flat R) : R Value.readBool Value.readBool := by
  apply hR.bind hR.of_byte
  intro b
  apply ite (hR.of_pure _)
  apply ite (hR.of_pure _)
  exact hR.of_fail (by simp) (by simp)

theorem u512 (hR : Flat R) : R Value.readU512 Value.readU512 := by
  apply hR.bind (hR.number 1)
  intro length
  apply ite
  · exact hR.of_fail (by simp) (by simp)
  · apply hR.bind (hR.number length)
    intro n
    exact hR.of_pure _

theorem envelope {ty ty' : Reader Ty} {body body' : Ty → Reader Value} (hR : Flat R)
    (hty : R ty ty') (hbody : ∀ own, R (body own) (body' own)) :
    R (Value.readEnvelope ty body) (Value.readEnvelope ty' body') := by
  apply hR.bind (hR.number 4)
  intro length
  apply hR.bind (hR.of_take length)
  intro bs
  apply hR.bind hty
  intro own
  apply ite
  · exact hR.of_fail (by simp) (by simp)
  · apply hR.bind (hR.within bs (hbody own))
    intro q
    exact ite (hR.of_pure _) (hR.of_fail (by simp) (by simp))

/-- One level of a value: related readers of its parts, under rules that read related counts, give
related readers of the value. -/
theorem value_succ {rule rule' : Value.CountRule} {budget budget' : Nat} (hR : Flat R)
    (hcount : ∀ width, R (Value.readCount rule width) (Value.readCount rule' width))
    (hty : R (Ty.readWithin budget) (Ty.readWithin budget'))
    (h : ∀ t, R (Value.readWithin rule budget t) (Value.readWithin rule' budget' t)) (t : Ty) :
    R (Value.readWithin rule (budget + 1) t) (Value.readWithin rule' (budget' + 1) t) := by
  cases t with
  | bool => exact hR.bool
  | u8 => exact hR.map hR.of_byte _
  | u32 => exact hR.map (hR.map (hR.number 4) _) _
  | u64 => exact hR.map (hR.map (hR.number 8) _) _
  | u512 => exact hR.u512
  | string => exact hR.map hR.text _
  | key => exact hR.map hR.key _
  | byteArray length => exact hR.map (hR.of_take _) _
  | option inner =>
    apply hR.bind hR.of_byte
    intro b
    apply ite (hR.of_pure _)
    apply ite
    · apply hR.bind (h inner)
      intro v
      exact hR.of_pure _
    · exact hR.of_fail (by simp) (by simp)
  | list item =>
    apply hR.bind (hcount _)
    intro count
    apply hR.bind (hR.many (h item) count)
    intro items
    exact hR.of_pure _
  | map k v =>
    apply hR.bind (hcount _)
    intro count
    apply hR.bind (hR.many (hR.pair (h k) (h v)) count)
    intro entries
    exact hR.of_pure _
  | any => exact hR.map (hR.envelope hty h) _

end Flat

namespace Parametric

variable {R : ∀ {α : Type}, Reader α → Reader α → Prop}

theorem ty (hR : Parametric R) (budget : Nat) :
    R (Ty.readWithin budget) (Ty.readWithin budget) := by
  induction budget with
  | zero => exact hR.of_tooDeep
  | succ budget ih =>
    apply hR.bind hR.of_byte
    intro tag
    exact hR.ofTag ih tag

theorem value {rule : Value.CountRule} (hR : Parametric R)
    (hcount : ∀ width, R (Value.readCount rule width) (Value.readCount rule width)) (budget : Nat)
    (t : Ty) : R (Value.readWithin rule budget t) (Value.readWithin rule budget t) := by
  induction budget generalizing t with
  | zero => exact hR.of_tooDeep
  | succ budget ih => exact hR.value_succ hcount (hR.ty budget) ih t

theorem tagged (hR : Parametric R) (h : ∀ t, R (Value.read t) (Value.read t)) (expected : Ty) :
    R (Value.readTagged expected) (Value.readTagged expected) := by
  apply hR.bind (hR.envelope (hR.ty _) h)
  intro q
  exact Flat.ite (hR.of_fail (by simp) (by simp)) (hR.of_pure _)

theorem arguments (hR : Parametric R) (h : ∀ t, R (Value.read t) (Value.read t)) :
    R Arguments.read Arguments.read := by
  apply hR.bind (hR.number 4)
  intro count
  apply hR.bind (hR.many (hR.pair hR.text (hR.tagged h .any)) count)
  intro entries
  exact hR.of_pure _

end Parametric

end NftLedger.Reader
