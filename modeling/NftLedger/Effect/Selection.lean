import NftLedger.Effect.Scan

namespace NftLedger

/-- The second list has, in the order of the first, what the elements of the first are related to;
elements related to nothing are left out. -/
inductive Selects {α β : Type} (R : α → β → Prop) : List α → List β → Prop
  | nil : Selects R [] []
  | take {a : α} {b : β} {as : List α} {bs : List β} (found : R a b) (rest : Selects R as bs) :
    Selects R (a :: as) (b :: bs)
  | skip {a : α} {as : List α} {bs : List β} (none : ∀ b, ¬ R a b) (rest : Selects R as bs) :
    Selects R (a :: as) bs

namespace Value

def Holds (payload : Value) (name : String) (found : Value) : Prop :=
  ∃ k v before after, payload = .map k v (before ++ (.string name, found) :: after) ∧
    ∀ e ∈ before, e.1 ≠ .string name

def Names (identityKey target : String) (payload : Value) : Prop :=
  ∃ found spelt, payload.Holds identityKey found ∧
    (found = .string spelt ∨ ∃ k : Key, found = .key k ∧ k.text = spelt) ∧
    Identity.normalize spelt = Identity.normalize target

end Value

/-- The write declares no type, and its bytes begin with a map in self-describing form. -/
def Transform.Writes (t : Transform) (payload : Value) : Prop :=
  ∃ bytes rest k v entries, t.operation = .write .any bytes ∧
    Value.readTagged .any bytes = .ok (payload, rest) ∧ payload = .map k v entries

def EventFilter.Recognizes (f : EventFilter) (payload : Value) (e : Event) : Prop :=
  ∃ name, payload.Holds f.keys.eventKindKey (.string name) ∧ name ∈ f.recognizedNames ∧
    e = ⟨name, payload⟩

namespace EffectScan

def after (s : EffectScan) : Nat → EffectScan
  | 0 => s
  | n + 1 => (s.after n).next.2

def call (s : EffectScan) (n : Nat) : Option (Transform × Value) := (s.after n).next.1

def result? (accepts : Value → Bool) (t : Transform) : Option (Transform × Value) := do
  let payload ← t.payload?
  if accepts payload then some (t, payload) else none

def results (s : EffectScan) : List (Transform × Value) :=
  s.remaining.filterMap (result? s.accepts)

end EffectScan

end NftLedger
