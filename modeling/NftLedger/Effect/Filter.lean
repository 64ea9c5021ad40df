import NftLedger.Event
import NftLedger.Json.Direct

namespace NftLedger

open NftLedger.Json (Scan)

structure PayloadKeys where
  identityKey : String
  eventKindKey : String
deriving DecidableEq, Repr

def PayloadKeys.default : PayloadKeys := ⟨"cep78_contract_package", "event_type"⟩

structure EventFilter where
  keys : PayloadKeys
  recognizedNames : List String
deriving DecidableEq, Repr

namespace PayloadKeys

def toJson (k : PayloadKeys) : Json :=
  .obj [("identity_key", .str k.identityKey), ("event_kind_key", .str k.eventKindKey)]

def fields : List (Scan.Field (Option String × Option String)) :=
  [⟨"identity_key", fun s => s.1.isSome, fun s => do return (← Scan.expectString, s.2)⟩,
    ⟨"event_kind_key", fun s => s.2.isSome, fun s => do return (s.1, ← Scan.expectString)⟩]

def scan : Scan PayloadKeys := do
  let (identityKey, eventKindKey) ← Scan.record fields (none, none)
  return ⟨identityKey.getD default.identityKey, eventKindKey.getD default.eventKindKey⟩

end PayloadKeys

namespace EventFilter

def ofNames (names : List String) : EventFilter := ⟨.default, names⟩

def standard : EventFilter := ofNames (StandardEvent.all.map StandardEvent.name)

def recognizes (f : EventFilter) (name : String) : Bool := name ∈ f.recognizedNames

def toJson (f : EventFilter) : Json :=
  .obj [("keys", f.keys.toJson), ("recognized_names", .arr (f.recognizedNames.map Json.str))]

def fields : List (Scan.Field (Option PayloadKeys × Option (List String))) :=
  [⟨"keys", fun s => s.1.isSome, fun s => do return (← PayloadKeys.scan, s.2)⟩,
    ⟨"recognized_names", fun s => s.2.isSome,
      fun s => do return (s.1, ← Scan.expectList Scan.expectString)⟩]

def scan : Scan EventFilter := do
  let (keys, names) ← Scan.record fields (none, none)
  return ⟨keys.getD .default, names.getD []⟩

def ofText (text : String) : Except Json.Fault EventFilter := Scan.run scan text

end EventFilter

end NftLedger
