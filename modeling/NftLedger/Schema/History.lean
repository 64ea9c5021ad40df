import Mathlib.Data.List.Forall2
import NftLedger.Json.Print
import NftLedger.Schema

namespace NftLedger.Schema

open NftLedger.Json (Scan)

/-- What a schema keeps of the properties given, repeated names included. -/
structure Records (s : Schema) (given : List (String × Property)) : Prop where
  nodup : (s.properties.map (·.1)).Nodup
  ordered : s.properties.map (·.1) = (given.map (·.1)).eraseDups
  get?_eq_some_iff (name : String) (p : Property) : s.get? name = some p ↔ GivenLast given name p
  get?_eq_none_iff (name : String) : s.get? name = none ↔ ∀ e ∈ given, e.1 ≠ name

structure Extends (s : Schema) (name : String) (p : Property) (next : Schema) : Prop where
  given : next.get? name = some p
  others (other : String) (h : other ≠ name) : next.get? other = s.get? other
  names : s.properties.map (·.1) <+: next.properties.map (·.1)
  places (i : Nat) (e : String × Property) (h : e.1 ≠ name) :
    s.properties[i]? = some e → next.properties[i]? = some e

inductive Entries : Json → List (String × Json) → Prop
  | named (members entries : List (String × Json))
    (found : members.lookup "properties" = some (.obj entries)) : Entries (.obj members) entries
  | positional (entries : List (String × Json)) : Entries (.arr [.obj entries]) entries

def Lists (j : Json) (given : List (String × Property)) : Prop :=
  ∃ entries, Entries j entries ∧
    entries.Forall₂ (fun e g => e.1 = g.1 ∧ Property.ofJson e.2 = .ok g.2) given

section

variable {σ : Type} (put : σ → String → Property → σ)

def gatherProperty (name : String) (state : σ) : Scan σ := do
  Scan.colon
  return put state name (← Property.scan)

def gatherField (start : σ) : Scan.Field (Option σ) :=
  ⟨"properties", Option.isSome, fun _ => some <$> Scan.expectMembers (gatherProperty put) start⟩

def gather (start : σ) : Scan σ := do
  Scan.given (← Scan.record [gatherField put start] none)

end

def listed (text : String) : Except Json.Fault (List (String × Property)) :=
  Scan.run (gather (fun given name p => given ++ [(name, p)]) []) text

/-- Schemas to hand, each with the properties given for it. -/
inductive Origin : Schema → List (String × Property) → Prop
  | empty : Origin empty []
  | insert (s : Schema) (given : List (String × Property)) (name : String) (p : Property)
    (before : Origin s given) : Origin (s.insert name p) (given ++ [(name, p)])
  | document (j : Json) (s : Schema) (given : List (String × Property)) (lists : Lists j given)
    (accepted : ofJson j = .ok s) : Origin s given
  | text (text : String) (s : Schema) (given : List (String × Property))
    (lists : listed text = .ok given) (accepted : ofText text = .ok s) : Origin s given

/-- A schema that its own JSON gives back, from the document, from the text and from the document
that the text holds. No other schema has its text. -/
structure Survives (s : Schema) : Prop where
  document : ofJson s.toJson = .ok s
  text : ofText s.toJson.print = .ok s
  parsed : Json.parse s.toJson.print = .ok s.toJson
  unique (other : Schema) (h : other.toJson.print = s.toJson.print) : other = s

end NftLedger.Schema
