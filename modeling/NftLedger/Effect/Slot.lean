import NftLedger.Effect.Minted

namespace NftLedger

/-- The first element of a list that is related to anything, seen from what it is related to. -/
def First {α β : Type} (R : α → β → Prop) (as : List α) (b : β) : Prop :=
  ∃ before a after, as = before ++ a :: after ∧ R a b ∧ ∀ x ∈ before, ∀ c, ¬ R x c

inductive Interspersed {α : Type} (P : α → Prop) : List α → List α → Prop
  | nil : Interspersed P [] []
  | keep (a : α) {as bs : List α} (h : Interspersed P as bs) : Interspersed P (a :: as) (a :: bs)
  | put (a : α) {as bs : List α} (ha : P a) (h : Interspersed P as bs) :
    Interspersed P as (a :: bs)

namespace Transform

def NamesSlot (t : Transform) (slot : String) : Prop :=
  ∃ name keys, t.operation = .addKeys (⟨name, slot⟩ :: keys)

def WritesAt (slot : String) (t : Transform) (bytes : Bytes) : Prop :=
  ∃ declared, t = ⟨slot, .write declared bytes⟩

/-- Among the given transforms, one that neither adds keys nor writes into the slot that they name. -/
def Aside (transforms : List Transform) (t : Transform) : Prop :=
  (∀ keys, t.operation ≠ .addKeys keys) ∧
    ∀ slot bytes, First NamesSlot transforms slot → ¬ t.WritesAt slot bytes

end Transform

inductive Value.Newest : Value → Option Value → Prop
  | empty (item : Ty) : Newest (.list item []) none
  | last (item : Ty) (items : List Value) (v : Value) : Newest (.list item (items ++ [v])) (some v)
  | whole (v : Value) (h : ∀ item items, v ≠ .list item items) : Newest v (some v)

/-- The outcomes of the two hops, from the transforms to the slot and from the slot to the value. -/
inductive Mints (transforms : List Transform) : Except EffectError (Option Value) → Prop
  | unnamed (h : ∀ t ∈ transforms, ∀ slot, ¬ t.NamesSlot slot) : Mints transforms (.ok none)
  | unwritten (slot : String) (named : First Transform.NamesSlot transforms slot)
    (h : ∀ t ∈ transforms, ∀ bytes, ¬ t.WritesAt slot bytes) :
    Mints transforms (.error (.noWrite slot))
  | unreadable (slot : String) (bytes : Bytes) (e : DecodeError)
    (named : First Transform.NamesSlot transforms slot)
    (written : First (Transform.WritesAt slot) transforms bytes)
    (h : Value.readTagged .any bytes = .error e) : Mints transforms (.error (.decode e))
  | stored (slot : String) (bytes rest : Bytes) (v : Value) (found : Option Value)
    (named : First Transform.NamesSlot transforms slot)
    (written : First (Transform.WritesAt slot) transforms bytes)
    (read : Value.readTagged .any bytes = .ok (v, rest)) (newest : v.Newest found) :
    Mints transforms (.ok found)

end NftLedger
