import Mathlib.Data.Finset.Card
import NftLedger.Arguments
import NftLedger.Value.Spelling

namespace NftLedger.Arguments

/-- Bytes that list named values: the count, then each name behind its length with its value in
self-describing form. A name may come again. -/
inductive Lists : Bytes → List (String × Value) → Prop
  | pieces (ps : List (String × Value.Piece)) (short : ps.length < UInt32.size)
    (names : ∀ p ∈ ps, (Bytes.ofText p.1).length < UInt32.size)
    (values : ∀ p ∈ ps, Value.Spells .any p.2.1 p.2.2) :
    Lists (Bytes.ofNat 4 ps.length ++ ps.flatMap fun p => (Bytes.ofText p.1).withLength ++ p.2.1)
      (ps.map fun p => (p.1, p.2.2))

inductive Step
  | insert (name : String) (value : Value)
  | insert? (name : String) (value : Option Value)

namespace Step

def apply (args : Arguments) : Step → Arguments
  | insert name value => args.insert name value
  | insert? name value => args.insert? name value

def inserted? : Step → Option (String × Value)
  | insert name value => some (name, value)
  | insert? name value => value.map (name, ·)

end Step

def run (args : Arguments) (steps : List Step) : Arguments := steps.foldl Step.apply args

inductive Origin : Arguments → List (String × Value) → Prop
  | empty : Origin empty []
  | read (used rest : Bytes) (args : Arguments) (listed : List (String × Value))
    (lists : Lists used listed) (accepted : read (used ++ rest) = .ok (args, rest)) :
    Origin args listed

/-- What arguments keep of the insertions that made them: the names as they first came, and for each
of them the value that came last. -/
structure Records (args : Arguments) (history : List (String × Value)) : Prop where
  nodup : args.names.Nodup
  ordered : args.names = (history.map (·.1)).eraseDups
  get?_eq_some_iff (name : String) (value : Value) :
    args.get? name = some value ↔ GivenLast history name value
  get?_eq_none_iff (name : String) : args.get? name = none ↔ ∀ e ∈ history, e.1 ≠ name
  size_eq : args.size = (history.map (·.1)).toFinset.card

structure Extends (args : Arguments) (name : String) (next : Arguments) : Prop where
  names : args.names <+: next.names
  others (other : String) (h : other ≠ name) : next.get? other = args.get? other
  places (i : Nat) (e : String × Value) (h : e.1 ≠ name) :
    args.entries[i]? = some e → next.entries[i]? = some e

end NftLedger.Arguments
