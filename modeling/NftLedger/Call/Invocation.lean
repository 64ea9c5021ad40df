import NftLedger.Arguments
import NftLedger.Call.Contract
import NftLedger.Call.Json
import NftLedger.Call.Session
import NftLedger.Json.Print

namespace NftLedger

inductive Conflict
  | codeUnused (entryPoint : String)
  | noSessionForm (entryPoint : String)
  | sessionOnly (entryPoint : String)
  | mutableByHash
  | keyNamesMissing
deriving DecidableEq, Repr

def Conflict.message : Conflict → String
  | codeUnused entryPoint =>
    entryPoint ++ " requested as an entry-point call but a session payload was supplied"
  | noSessionForm entryPoint => entryPoint ++ " has no session form"
  | sessionOnly entryPoint => entryPoint ++ " is only available as a session call"
  | mutableByHash => "hash identifier mode cannot be combined with mutable metadata"
  | keyNamesMissing =>
    "custom named key convention requires both access_key_name and hash_key_name"

inductive Needed
  | contractHash
  | packageHash
  | collectionName
  | sessionCode
deriving DecidableEq, Repr

def Needed.name : Needed → String
  | contractHash => "contract_hash"
  | packageHash => "contract_package_hash"
  | collectionName => "collection_name"
  | sessionCode => "session_payload"

inductive CallError
  | conflict (what : Conflict)
  | missing (what : Needed)
  | unreadable (e : Json.ShapeError)
  | identifier (e : PatternMismatch)

def CallError.message : CallError → String
  | conflict what => "conflicting configuration: " ++ what.message
  | missing what => "missing required field: " ++ what.name
  | unreadable e => "serialization error: " ++ e.message
  | identifier e => "invalid identifier: " ++ e.message

inductive CallForm
  | entryPoint
  | session
deriving DecidableEq, Repr

inductive Payload
  | entryPoint (name : String)
  | bundled (name : String)
  | provided (code : Bytes)
deriving DecidableEq, Repr

structure Invocation where
  form : CallForm
  payload : Payload
  args : Arguments
deriving DecidableEq

/-- An installation is always session code. Elsewhere code without the wish for it is refused first,
then a form that the call does not have. -/
def Call.form (c : Call) (choice : SessionChoice) : Except CallError CallForm :=
  if c.support = .installer then .ok .session
  else if !choice.wanted && choice.code.isSome then .error (.conflict (.codeUnused c.entryPoint))
  else
    match c.support, choice.wanted with
    | .entryPointOnly, true => .error (.conflict (.noSessionForm c.entryPoint))
    | .sessionOnly, false => .error (.conflict (.sessionOnly c.entryPoint))
    | _, true => .ok .session
    | _, false => .ok .entryPoint

def Call.payload (c : Call) (choice : SessionChoice) : CallForm → Except CallError Payload
  | .entryPoint => .ok (.entryPoint c.entryPoint)
  | .session =>
    match choice.code, c.sessionCode? with
    | some code, _ => .ok (.provided code)
    | none, some name => .ok (.bundled name)
    | none, none => .error (.missing .sessionCode)

def whitelistValue (hashes : List ContractHash) : Value :=
  .list .key (hashes.map fun h => .key h.hash.toKey)

def Token.argument : Token → String × Value
  | id n => ("token_id", .u64 n)
  | hash text => ("token_hash", .string text)

def Token.modeArgument (t : Token) : String × Value := ("is_hash_identifier_mode", .bool t.isHash)

def presentArgument {α : Type} (name : String) (toValue : α → Value) (value : Option α) :
    List (String × Value) :=
  (value.map fun x => (name, toValue x)).toList

def Install.conflict? (i : Install) : Option Conflict :=
  if i.identifierMode = .hash ∧ i.metadataMutability = .mutable then some .mutableByHash
  else if i.keyConvention = some .custom ∧ (i.accessKeyName.isNone ∨ i.hashKeyName.isNone) then
    some .keyNamesMissing
  else none

def Install.arguments (i : Install) : List (String × Value) :=
  [("collection_name", .string i.collectionName),
    ("collection_symbol", .string i.collectionSymbol),
    ("total_token_supply", .u64 i.totalTokenSupply),
    ("ownership_mode", Modality.toValue i.ownershipMode),
    ("nft_kind", Modality.toValue i.nftKind),
    ("json_schema", .string i.jsonSchema.toJson.print),
    ("nft_metadata_kind", Modality.toValue i.metadataKind),
    ("identifier_mode", Modality.toValue i.identifierMode),
    ("metadata_mutability", Modality.toValue i.metadataMutability)] ++
  presentArgument "minting_mode" Modality.toValue i.mintingMode ++
  presentArgument "allow_minting" Value.bool i.allowMinting ++
  presentArgument "whitelist_mode" Modality.toValue i.whitelistMode ++
  presentArgument "holder_mode" Modality.toValue i.holderMode ++
  presentArgument "contract_whitelist" whitelistValue i.contractWhitelist ++
  presentArgument "burn_mode" Modality.toValue i.burnMode ++
  presentArgument "owner_reverse_lookup_mode" Modality.toValue i.reverseLookupMode ++
  presentArgument "events_mode" Modality.toValue i.eventsMode ++
  presentArgument "named_key_convention" Modality.toValue i.keyConvention ++
  presentArgument "access_key_name" Value.string i.accessKeyName ++
  presentArgument "hash_key_name" Value.string i.hashKeyName

def Variables.arguments (v : Variables) : List (String × Value) :=
  presentArgument "allow_minting" Value.bool v.allowMinting ++
    presentArgument "contract_whitelist" whitelistValue v.contractWhitelist

def contractArgument (contract : Option Contract) : Except CallError (String × Value) :=
  match contract with
  | some c => .ok ("nft_contract_hash", .key c.hash.hash.toKey)
  | none => .error (.missing .contractHash)

def packageArgument (contract : Option Contract) : Except CallError (String × Value) :=
  match contract.bind (·.package) with
  | some p => .ok ("nft_contract_package_hash", .key p.hash.toKey)
  | none => .error (.missing .packageHash)

def Mint.arguments (contract : Option Contract) (form : CallForm) (m : Mint) :
    Except CallError (List (String × Value)) := do
  let plain := [("token_owner", .key m.owner), ("token_meta_data", .string m.metadata.print)]
  match form with
  | .entryPoint => return plain
  | .session =>
    let callee ← contractArgument contract
    match m.collectionName with
    | some name => return plain ++ [callee, ("collection_name", .string name)]
    | none => .error (.missing .collectionName)

def Transfer.arguments (contract : Option Contract) (form : CallForm) (t : Transfer) :
    Except CallError (List (String × Value)) := do
  let plain := [("target_key", .key t.target), ("source_key", .key t.source),
    t.token.modeArgument, t.token.argument]
  match form with
  | .entryPoint => return plain
  | .session => return plain ++ [← contractArgument contract]

def TokenQuery.arguments (contract : Option Contract) (q : TokenQuery) :
    Except CallError (List (String × Value)) := do
  return [← contractArgument contract, ("key_name", .string q.keyName), q.token.modeArgument,
    q.token.argument]

def Call.arguments (contract : Option Contract) (form : CallForm) :
    Call → Except CallError (List (String × Value))
  | install i =>
    match i.conflict? with
    | some what => .error (.conflict what)
    | none => .ok i.arguments
  | setVariables v => .ok v.arguments
  | registerOwner owner => .ok [("token_owner", .key owner)]
  | mint m => m.arguments contract form
  | burn token => .ok [token.argument]
  | transfer t => t.arguments contract form
  | approve a => .ok [("operator", .key a.operator), a.token.argument]
  | setApprovalForAll a =>
    .ok [("token_owner", .key a.owner), ("approve_all", .bool a.approve),
      ("operator", .key a.operator)]
  | setTokenMetadata metadata => .ok [("token_meta_data", .string metadata.print)]
  | migrate collectionName => .ok [("collection_name", .string collectionName)]
  | balanceOf q => do
    return [← contractArgument contract, ("token_owner", .key q.owner),
      ("key_name", .string q.keyName)]
  | ownerOf q => q.arguments contract
  | getApproved q => q.arguments contract
  | updatedReceipts => do
    return [← packageArgument contract]

def Call.prepare (contract : Option Contract) (choice : SessionChoice) (c : Call) :
    Except CallError Invocation := do
  let form ← c.form choice
  let args ← c.arguments contract form
  let payload ← c.payload choice form
  return ⟨form, payload, Arguments.ofList args⟩

def Invocation.ofJson (contract : Option Contract) (choice : SessionChoice) (name : String)
    (args : Json) : Except CallError Invocation :=
  match Call.ofJson name args with
  | .ok c => c.prepare contract choice
  | .error e => .error (.unreadable e)

end NftLedger
