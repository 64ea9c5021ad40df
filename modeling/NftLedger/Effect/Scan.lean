import NftLedger.Effect
import NftLedger.Effect.Filter
import NftLedger.Identity
import NftLedger.Value.Decode

namespace NftLedger

/-- The map that a transform writes in self-describing form. Dictionary writes have more bytes
behind it, which are ignored. -/
def Transform.payload? (t : Transform) : Option Value :=
  match t.operation with
  | .write .any bytes =>
    match Value.readTagged .any bytes with
    | .ok (v, _) => if v.isMap then some v else none
    | .error _ => none
  | _ => none

def Value.namesContract (identityKey target : String) (payload : Value) : Bool :=
  match payload.field? identityKey with
  | some (.string s) => Identity.equals s target
  | some (.key k) => Identity.equals k.text target
  | _ => false

structure EffectScan where
  remaining : List Transform
  accepts : Value → Bool

namespace EffectScan

def nextIn (accepts : Value → Bool) :
    List Transform → Option (Transform × Value) × List Transform
  | [] => (none, [])
  | t :: rest =>
    match t.payload? with
    | some v => if accepts v then (some (t, v), rest) else nextIn accepts rest
    | none => nextIn accepts rest

def next (s : EffectScan) : Option (Transform × Value) × EffectScan :=
  let (found, rest) := nextIn s.accepts s.remaining
  (found, ⟨rest, s.accepts⟩)

theorem length_nextIn {accepts : Value → Bool} {ts rest : List Transform}
    {found : Transform × Value} (h : nextIn accepts ts = (some found, rest)) :
    rest.length < ts.length := by
  induction ts with
  | nil => simp [nextIn] at h
  | cons t ts ih =>
    simp only [nextIn] at h
    split at h
    · split at h
      · obtain ⟨_, rfl⟩ := Prod.mk.inj h
        simp
      · exact Nat.lt_succ_of_lt (ih h)
    · exact Nat.lt_succ_of_lt (ih h)

def toList (s : EffectScan) : List (Transform × Value) :=
  match _h : nextIn s.accepts s.remaining with
  | (some found, rest) => found :: toList ⟨rest, s.accepts⟩
  | (none, _) => []
termination_by s.remaining.length
decreasing_by exact length_nextIn _h

end EffectScan

namespace Effect

def scan (e : Effect) (target : String) (keys : PayloadKeys) : Except EffectError EffectScan := do
  return ⟨← e.applied, Value.namesContract keys.identityKey (Identity.normalize target)⟩

end Effect

structure Extracted where
  matched : Bool
  events : List Event
deriving DecidableEq

def EventFilter.event? (f : EventFilter) (payload : Value) : Option Event := do
  let name ← (payload.field? f.keys.eventKindKey).bind Value.text?
  if f.recognizes name then some ⟨name, payload⟩ else none

namespace Effect

def extract (e : Effect) (target : String) (filter : EventFilter) :
    Except EffectError Extracted := do
  let scan ← e.scan target filter.keys
  let events := scan.toList.filterMap fun (_, payload) => filter.event? payload
  return ⟨!events.isEmpty, events⟩

def extractNamed (e : Effect) (target : String) (names : List String) :
    Except EffectError Extracted := e.extract target (.ofNames names)

end Effect

end NftLedger
