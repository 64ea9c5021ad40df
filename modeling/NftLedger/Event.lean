import NftLedger.Value.Json

namespace NftLedger

structure Event where
  name : String
  payload : Value
deriving DecidableEq

inductive StandardEvent
  | mint
  | burn
  | approvalGranted
  | approvalRevoked
  | approvalForAll
  | revokedForAll
  | transfer
  | metadataUpdate
  | variablesSet
  | migrate
deriving DecidableEq, Repr

namespace StandardEvent

def all : List StandardEvent :=
  [mint, burn, approvalGranted, approvalRevoked, approvalForAll, revokedForAll, transfer,
    metadataUpdate, variablesSet, migrate]

def name : StandardEvent → String
  | mint => "Mint"
  | burn => "Burn"
  | approvalGranted => "Approve"
  | approvalRevoked => "ApprovalRevoked"
  | approvalForAll => "ApprovalForAll"
  | revokedForAll => "RevokedForAll"
  | transfer => "Transfer"
  | metadataUpdate => "MetadataUpdate"
  | variablesSet => "VariablesSet"
  | migrate => "Migration"

def ofName? (s : String) : Option StandardEvent := all.find? (·.name = s)

def unknownMessage (s : String) : String := "unknown CEP-47 event '" ++ s ++ "'"

end StandardEvent

namespace Event

def text? (e : Event) (name : String) : Option String := (e.payload.field? name).bind Value.text?

def standard? (e : Event) : Option StandardEvent := StandardEvent.ofName? e.name

def toJson (e : Event) : Json := .obj [("name", .str e.name), ("payload", e.payload.toJson)]

end Event

end NftLedger
