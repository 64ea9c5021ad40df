import NftLedger.Call.Field
import NftLedger.Json.Compact
import NftLedger.Value.Conforms

namespace NftLedger

class Numbered (α : Type) [DecidableEq α] [Modality α] where
  number : α → UInt8
  byte_eq (x : α) : Modality.byte x = number x

instance : Numbered OwnershipMode where
  number
    | .minter => 0
    | .assigned => 1
    | .transferable => 2
  byte_eq x := by cases x <;> rfl

instance : Numbered NftKind where
  number
    | .physical => 0
    | .digital => 1
    | .virtual => 2
  byte_eq x := by cases x <;> rfl

instance : Numbered HolderMode where
  number
    | .accounts => 0
    | .contracts => 1
    | .mixed => 2
  byte_eq x := by cases x <;> rfl

instance : Numbered MetadataKind where
  number
    | .cep78 => 0
    | .nft721 => 1
    | .raw => 2
    | .customValidated => 3
  byte_eq x := by cases x <;> rfl

instance : Numbered IdentifierMode where
  number
    | .ordinal => 0
    | .hash => 1
  byte_eq x := by cases x <;> rfl

instance : Numbered MetadataMutability where
  number
    | .immutable => 0
    | .mutable => 1
  byte_eq x := by cases x <;> rfl

instance : Numbered MintingMode where
  number
    | .installer => 0
    | .anyone => 1
  byte_eq x := by cases x <;> rfl

instance : Numbered BurnMode where
  number
    | .burnable => 0
    | .nonBurnable => 1
  byte_eq x := by cases x <;> rfl

instance : Numbered WhitelistMode where
  number
    | .unlocked => 0
    | .locked => 1
  byte_eq x := by cases x <;> rfl

instance : Numbered ReverseLookupMode where
  number
    | .noLookUp => 0
    | .complete => 1
    | .transfersOnly => 2
  byte_eq x := by cases x <;> rfl

instance : Numbered EventsMode where
  number
    | .noEvents => 0
    | .cep47 => 1
    | .ces => 2
  byte_eq x := by cases x <;> rfl

instance : Numbered KeyConvention where
  number
    | .derived => 0
    | .standard => 1
    | .custom => 2
  byte_eq x := by cases x <;> rfl

inductive Content
  | flag (b : Bool)
  | number (n : UInt64)
  | choice (n : UInt8)
  | text (s : String)
  | document (j : Json)
  | schema (s : Schema)
  | key (k : Key)
  | hash (h : HashText)
  | hashes (hs : List HashText)

def Schema.document (s : Schema) : Json :=
  .obj [("properties", .obj (s.properties.map fun (name, p) =>
    (name, .obj [("name", .str p.name), ("description", .str p.description),
      ("required", .bool p.required)])))]

/-- The values that say it. Documents are sent as compact text, hashes as the keys of their
addresses. -/
inductive Content.Shows : Content → Value → Prop
  | flag (b : Bool) : Shows (.flag b) (.bool b)
  | number (n : UInt64) : Shows (.number n) (.u64 n)
  | choice (n : UInt8) : Shows (.choice n) (.u8 n)
  | text (s : String) : Shows (.text s) (.string s)
  | document (j : Json) (s : String) (compact : j.Compact s.toList) : Shows (.document j) (.string s)
  | schema (schema : Schema) (s : String) (compact : schema.document.Compact s.toList) :
    Shows (.schema schema) (.string s)
  | key (k : Key) : Shows (.key k) (.key k)
  | hash (h : HashText) (a : Address) (digits : a.hex = h.digits) : Shows (.hash h) (.key (.hash a))
  | hashes (hs : List HashText) (addresses : List Address)
    (digits : addresses.map Address.hex = hs.map HashText.digits) :
    Shows (.hashes hs) (.list .key (addresses.map fun a => .key (.hash a)))

def Token.content? : Token → Field → Option Content
  | id _, .hashMode => some (.flag false)
  | id n, .tokenId => some (.number n)
  | hash _, .hashMode => some (.flag true)
  | hash text, .tokenHash => some (.text text)
  | _, _ => none

open Numbered (number) in
def Install.content? (i : Install) : Field → Option Content
  | .collectionName => some (.text i.collectionName)
  | .collectionSymbol => some (.text i.collectionSymbol)
  | .totalTokenSupply => some (.number i.totalTokenSupply)
  | .ownershipMode => some (.choice (number i.ownershipMode))
  | .nftKind => some (.choice (number i.nftKind))
  | .jsonSchema => some (.schema i.jsonSchema)
  | .metadataKind => some (.choice (number i.metadataKind))
  | .identifierMode => some (.choice (number i.identifierMode))
  | .metadataMutability => some (.choice (number i.metadataMutability))
  | .mintingMode => i.mintingMode.map fun m => .choice (number m)
  | .allowMinting => i.allowMinting.map .flag
  | .whitelistMode => i.whitelistMode.map fun m => .choice (number m)
  | .holderMode => i.holderMode.map fun m => .choice (number m)
  | .contractWhitelist => i.contractWhitelist.map fun hs => .hashes (hs.map ContractHash.hash)
  | .burnMode => i.burnMode.map fun m => .choice (number m)
  | .reverseLookupMode => i.reverseLookupMode.map fun m => .choice (number m)
  | .eventsMode => i.eventsMode.map fun m => .choice (number m)
  | .keyConvention => i.keyConvention.map fun m => .choice (number m)
  | .accessKeyName => i.accessKeyName.map .text
  | .hashKeyName => i.hashKeyName.map .text
  | _ => none

namespace Call

def ownContent? : Call → Field → Option Content
  | install i, f => i.content? f
  | setVariables v, .allowMinting => v.allowMinting.map .flag
  | setVariables v, .contractWhitelist =>
    v.contractWhitelist.map fun hs => .hashes (hs.map ContractHash.hash)
  | registerOwner owner, .tokenOwner => some (.key owner)
  | mint m, .tokenOwner => some (.key m.owner)
  | mint m, .tokenMetadata => some (.document m.metadata)
  | mint m, .collectionName => m.collectionName.map .text
  | burn token, f => token.content? f
  | transfer t, .targetKey => some (.key t.target)
  | transfer t, .sourceKey => some (.key t.source)
  | transfer t, f => t.token.content? f
  | approve a, .operator => some (.key a.operator)
  | approve a, f => a.token.content? f
  | setApprovalForAll a, .tokenOwner => some (.key a.owner)
  | setApprovalForAll a, .approveAll => some (.flag a.approve)
  | setApprovalForAll a, .operator => some (.key a.operator)
  | setTokenMetadata metadata, .tokenMetadata => some (.document metadata)
  | migrate collectionName, .collectionName => some (.text collectionName)
  | balanceOf q, .tokenOwner => some (.key q.owner)
  | balanceOf q, .keyName => some (.text q.keyName)
  | ownerOf q, .keyName | getApproved q, .keyName => some (.text q.keyName)
  | ownerOf q, f | getApproved q, f => q.token.content? f
  | _, _ => none

def content? (contract : Option Contract) (c : Call) : Field → Option Content
  | .contractHash => contract.map fun k => .hash k.hash.hash
  | .packageHash => (contract.bind (·.package)).map fun p => .hash p.hash
  | f => c.ownContent? f

end Call

def Field.lines {α : Type} (say? : Field → Option α) (fields : List Field) : List (String × α) :=
  fields.filterMap fun f => (say? f).map (f.name, ·)

def Call.lines (contract : Option Contract) (form : CallForm) (c : Call) :
    List (String × Content) :=
  Field.lines (c.content? contract) (c.fields form)

/-- What an invocation tells of the call behind it: each field of the call once, in its place, under
its name and with its own value, in bytes that are read back. -/
structure Invocation.Carries (inv : Invocation) (contract : Option Contract) (c : Call) : Prop where
  entries : List.Forall₂ (fun e line => e.1 = line.1 ∧ line.2.Shows e.2) inv.args.entries
    (c.lines contract inv.form)
  inserted : c.arguments contract inv.form = .ok inv.args.entries
  nodup : inv.args.names.Nodup
  present (f : Field) (hf : f ∈ c.fields inv.form) (x : Content) (h : c.content? contract f = some x) :
    ∃ v, inv.args.get? f.name = some v ∧ x.Shows v
  absent (f : Field) (h : f ∈ c.fields inv.form → c.content? contract f = none) :
    inv.args.get? f.name = none
  required (f : Field) (h : f ∈ c.fields inv.form) (needed : f.optional = false) :
    f.name ∈ inv.args.names
  tokenId (n : UInt64) (h : c.token? = some (.id n)) :
    inv.args.get? "token_id" = some (.u64 n) ∧ inv.args.get? "token_hash" = none
  tokenHash (text : String) (h : c.token? = some (.hash text)) :
    inv.args.get? "token_hash" = some (.string text) ∧ inv.args.get? "token_id" = none
  noToken (h : c.token? = none) :
    inv.args.get? "token_id" = none ∧ inv.args.get? "token_hash" = none
  hashMode (v : Value) (h : inv.args.get? "is_hash_identifier_mode" = some v) :
    v = .bool (inv.args.get? "token_hash").isSome
  mint (m : Mint) (h : c = .mint m) (session : inv.form = .session) :
    ∃ plain callee collection, c.prepare contract .entryPoint = .ok plain ∧
      inv.args.entries = plain.args.entries ++
        [("nft_contract_hash", callee), ("collection_name", collection)]
  transfer (t : Transfer) (h : c = .transfer t) (session : inv.form = .session) :
    ∃ plain callee, c.prepare contract .entryPoint = .ok plain ∧
      inv.args.entries = plain.args.entries ++ [("nft_contract_hash", callee)]
  readable (h : ∀ e ∈ inv.args.entries, e.2.Sized .any) (rest : Bytes) :
    Arguments.read (inv.args.bytes ++ rest) = .ok (inv.args, rest)

end NftLedger
