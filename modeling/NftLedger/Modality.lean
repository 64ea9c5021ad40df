import NftLedger.Json.Shape
import NftLedger.State.Error
import NftLedger.Value

namespace NftLedger

/-- A modality has a title, the name under which the contract stores it, and its labelled choices in
order. -/
class Modality (α : Type) [DecidableEq α] where
  title : String
  namedKey : String
  choices : List (α × String)
  nodup : (choices.map (·.1)).Nodup
  complete (x : α) : x ∈ choices.map (·.1)
  short : choices.length ≤ 256

namespace Modality

variable {α : Type} [DecidableEq α] [Modality α]

def all : List α := (choices (α := α)).map (·.1)

def label (x : α) : String := ((choices (α := α)).lookup x).getD ""

def byte (x : α) : UInt8 := UInt8.ofNat ((all (α := α)).idxOf x)

def ofByte (b : UInt8) : Except StateError α :=
  match (all (α := α))[b.toNat]? with
  | some x => .ok x
  | none => .error (.unknownDiscriminant (title α) b)

def toValue (x : α) : Value := .u8 (byte x)

def ofValue : Value → Except StateError α
  | .u8 b => ofByte b
  | v => .error (.unexpectedType "U8" v.ty)

def toJson (x : α) : Json := .int (byte x).toNat

def ofJson : Json.Shape α :=
  Json.Shape.checked Json.Shape.u8 fun b => (ofByte b).mapError StateError.message

end Modality

inductive OwnershipMode
  | minter
  | assigned
  | transferable
deriving DecidableEq, Repr

instance : Modality OwnershipMode where
  title := "OwnershipMode"
  namedKey := "ownership_mode"
  choices := [(.minter, "Minter"), (.assigned, "Assigned"), (.transferable, "Transferable")]
  nodup := by decide
  complete x := by cases x <;> decide
  short := by decide

inductive NftKind
  | physical
  | digital
  | virtual
deriving DecidableEq, Repr

instance : Modality NftKind where
  title := "NftKind"
  namedKey := "nft_kind"
  choices := [(.physical, "Physical"), (.digital, "Digital"), (.virtual, "Virtual")]
  nodup := by decide
  complete x := by cases x <;> decide
  short := by decide

inductive HolderMode
  | accounts
  | contracts
  | mixed
deriving DecidableEq, Repr

instance : Modality HolderMode where
  title := "NftHolderMode"
  namedKey := "holder_mode"
  choices := [(.accounts, "Accounts"), (.contracts, "Contracts"), (.mixed, "Mixed")]
  nodup := by decide
  complete x := by cases x <;> decide
  short := by decide

inductive MetadataKind
  | cep78
  | nft721
  | raw
  | customValidated
deriving DecidableEq, Repr

instance : Modality MetadataKind where
  title := "NftMetadataKind"
  namedKey := "nft_metadata_kind"
  choices :=
    [(.cep78, "CEP78"), (.nft721, "NFT721"), (.raw, "Raw"), (.customValidated, "CustomValidated")]
  nodup := by decide
  complete x := by cases x <;> decide
  short := by decide

def MetadataKind.dictionary : MetadataKind → String
  | cep78 => "metadata_cep78"
  | nft721 => "metadata_nft721"
  | raw => "metadata_raw"
  | customValidated => "metadata_custom_validated"

inductive IdentifierMode
  | ordinal
  | hash
deriving DecidableEq, Repr

instance : Modality IdentifierMode where
  title := "NftIdentifierMode"
  namedKey := "identifier_mode"
  choices := [(.ordinal, "Ordinal"), (.hash, "Hash")]
  nodup := by decide
  complete x := by cases x <;> decide
  short := by decide

inductive MetadataMutability
  | immutable
  | mutable
deriving DecidableEq, Repr

instance : Modality MetadataMutability where
  title := "MetadataMutability"
  namedKey := "metadata_mutability"
  choices := [(.immutable, "Immutable"), (.mutable, "Mutable")]
  nodup := by decide
  complete x := by cases x <;> decide
  short := by decide

inductive MintingMode
  | installer
  | anyone
deriving DecidableEq, Repr

instance : Modality MintingMode where
  title := "MintingMode"
  namedKey := "minting_mode"
  choices := [(.installer, "Installer"), (.anyone, "Public")]
  nodup := by decide
  complete x := by cases x <;> decide
  short := by decide

inductive BurnMode
  | burnable
  | nonBurnable
deriving DecidableEq, Repr

instance : Modality BurnMode where
  title := "BurnMode"
  namedKey := "burn_mode"
  choices := [(.burnable, "Burnable"), (.nonBurnable, "NonBurnable")]
  nodup := by decide
  complete x := by cases x <;> decide
  short := by decide

inductive WhitelistMode
  | unlocked
  | locked
deriving DecidableEq, Repr

instance : Modality WhitelistMode where
  title := "WhitelistMode"
  namedKey := "whitelist_mode"
  choices := [(.unlocked, "Unlocked"), (.locked, "Locked")]
  nodup := by decide
  complete x := by cases x <;> decide
  short := by decide

inductive ReverseLookupMode
  | noLookUp
  | complete
  | transfersOnly
deriving DecidableEq, Repr

instance : Modality ReverseLookupMode where
  title := "OwnerReverseLookupMode"
  namedKey := "reporting_mode"
  choices :=
    [(.noLookUp, "NoLookUp"), (.complete, "Complete"), (.transfersOnly, "TransfersOnly")]
  nodup := by decide
  complete x := by cases x <;> decide
  short := by decide

inductive EventsMode
  | noEvents
  | cep47
  | ces
deriving DecidableEq, Repr

instance : Modality EventsMode where
  title := "EventsMode"
  namedKey := "events_mode"
  choices := [(.noEvents, "NoEvents"), (.cep47, "CEP47"), (.ces, "CES")]
  nodup := by decide
  complete x := by cases x <;> decide
  short := by decide

inductive KeyConvention
  | derived
  | standard
  | custom
deriving DecidableEq, Repr

instance : Modality KeyConvention where
  title := "NamedKeyConventionMode"
  namedKey := "named_key_convention"
  choices :=
    [(.derived, "DerivedFromCollectionName"), (.standard, "V1_0Standard"),
      (.custom, "V1_0Custom")]
  nodup := by decide
  complete x := by cases x <;> decide
  short := by decide

end NftLedger
