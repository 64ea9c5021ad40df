import NftLedger.Call

namespace NftLedger

open NftLedger.Json (Record Shape ShapeError)

def presentMember {α : Type} (name : String) (toJson : α → Json) (value : Option α) :
    List (String × Json) :=
  (value.map fun x => (name, toJson x)).toList

def whitelistJson (hashes : List ContractHash) : Json := .arr (hashes.map ContractHash.toJson)

def whitelistOfJson : Shape (List ContractHash) := Shape.list ContractHash.ofJson

/-- A record whose object also holds a token. It has no form as a list. -/
def withToken {α β : Type} (name : String) (r : Record α) (f : α → Token → β) : Shape β
  | .obj members => do
    let x ← r.ofMembers members
    return f x (← Token.ofMembers members)
  | j => Shape.mismatch ("struct " ++ name) j

namespace Install

def toJson (i : Install) : Json :=
  .obj <|
    [("collectionName", .str i.collectionName), ("collectionSymbol", .str i.collectionSymbol),
      ("totalTokenSupply", .int i.totalTokenSupply.toNat),
      ("ownershipMode", Modality.toJson i.ownershipMode), ("nftKind", Modality.toJson i.nftKind),
      ("jsonSchema", i.jsonSchema.toJson), ("nftMetadataKind", Modality.toJson i.metadataKind),
      ("identifierMode", Modality.toJson i.identifierMode),
      ("metadataMutability", Modality.toJson i.metadataMutability)] ++
    presentMember "mintingMode" Modality.toJson i.mintingMode ++
    presentMember "allowMinting" Json.bool i.allowMinting ++
    presentMember "whitelistMode" Modality.toJson i.whitelistMode ++
    presentMember "holderMode" Modality.toJson i.holderMode ++
    presentMember "contractWhitelist" whitelistJson i.contractWhitelist ++
    presentMember "burnMode" Modality.toJson i.burnMode ++
    presentMember "ownerReverseLookupMode" Modality.toJson i.reverseLookupMode ++
    presentMember "eventsMode" Modality.toJson i.eventsMode ++
    presentMember "namedKeyConvention" Modality.toJson i.keyConvention ++
    presentMember "accessKeyName" Json.str i.accessKeyName ++
    presentMember "hashKeyName" Json.str i.hashKeyName

def record : Record Install :=
  Install.mk <$> .required "collectionName" Shape.string <*>
    .required "collectionSymbol" Shape.string <*> .required "totalTokenSupply" Shape.u64 <*>
    .required "ownershipMode" Modality.ofJson <*> .required "nftKind" Modality.ofJson <*>
    .required "jsonSchema" Schema.ofJson <*> .required "nftMetadataKind" Modality.ofJson <*>
    .required "identifierMode" Modality.ofJson <*>
    .required "metadataMutability" Modality.ofJson <*> .optional "mintingMode" Modality.ofJson <*>
    .optional "allowMinting" Shape.bool <*> .optional "whitelistMode" Modality.ofJson <*>
    .optional "holderMode" Modality.ofJson <*> .optional "contractWhitelist" whitelistOfJson <*>
    .optional "burnMode" Modality.ofJson <*>
    .optional "ownerReverseLookupMode" Modality.ofJson <*>
    .optional "eventsMode" Modality.ofJson <*> .optional "namedKeyConvention" Modality.ofJson <*>
    .optional "accessKeyName" Shape.string <*> .optional "hashKeyName" Shape.string

end Install

namespace Variables

def toJson (v : Variables) : Json :=
  .obj (presentMember "allowMinting" Json.bool v.allowMinting ++
    presentMember "contractWhitelist" whitelistJson v.contractWhitelist)

def record : Record Variables :=
  Variables.mk <$> .optional "allowMinting" Shape.bool <*>
    .optional "contractWhitelist" whitelistOfJson

end Variables

namespace Mint

def toJson (m : Mint) : Json :=
  .obj ([("owner", m.owner.toJson), ("meta", m.metadata)] ++
    presentMember "collectionName" Json.str m.collectionName)

def record : Record Mint :=
  Mint.mk <$> .required "owner" Key.ofJson <*> .required "meta" Shape.document <*>
    .optional "collectionName" Shape.string

end Mint

namespace Transfer

def toJson (t : Transfer) : Json :=
  .obj [("target", t.target.toJson), ("source", t.source.toJson), t.token.member]

def ofJson : Shape Transfer :=
  withToken "TransferArgs"
    (Prod.mk <$> .required "target" Key.ofJson <*> .required "source" Key.ofJson)
    fun (target, source) token => ⟨target, source, token⟩

end Transfer

namespace Approve

def toJson (a : Approve) : Json := .obj [("operator", a.operator.toJson), a.token.member]

def ofJson : Shape Approve := withToken "ApproveArgs" (.required "operator" Key.ofJson) Approve.mk

end Approve

namespace ApproveAll

def toJson (a : ApproveAll) : Json :=
  .obj [("tokenOwner", a.owner.toJson), ("approveAll", .bool a.approve),
    ("operator", a.operator.toJson)]

def record : Record ApproveAll :=
  ApproveAll.mk <$> .required "tokenOwner" Key.ofJson <*> .required "approveAll" Shape.bool <*>
    .required "operator" Key.ofJson

end ApproveAll

namespace BalanceQuery

def toJson (q : BalanceQuery) : Json :=
  .obj [("tokenOwner", q.owner.toJson), ("keyName", .str q.keyName)]

def record : Record BalanceQuery :=
  BalanceQuery.mk <$> .required "tokenOwner" Key.ofJson <*> .required "keyName" Shape.string

end BalanceQuery

namespace TokenQuery

def toJson (q : TokenQuery) : Json := .obj [("keyName", .str q.keyName), q.token.member]

def ofJson : Shape TokenQuery :=
  withToken "StoreTokenQueryArgs" (.required "keyName" Shape.string) TokenQuery.mk

end TokenQuery

namespace Call

def argsJson : Call → Json
  | install args => args.toJson
  | setVariables args => args.toJson
  | registerOwner owner => .obj [("tokenOwner", owner.toJson)]
  | mint args => args.toJson
  | burn token => .obj [token.member]
  | transfer args => args.toJson
  | approve args => args.toJson
  | setApprovalForAll args => args.toJson
  | setTokenMetadata metadata => .obj [("tokenMetaData", metadata)]
  | migrate collectionName => .obj [("collectionName", .str collectionName)]
  | balanceOf query => query.toJson
  | ownerOf query => query.toJson
  | getApproved query => query.toJson
  | updatedReceipts => .obj []

def tag : Call → String
  | install _ => "install"
  | setVariables _ => "set_variables"
  | registerOwner _ => "register_owner"
  | mint _ => "mint"
  | burn _ => "burn"
  | transfer _ => "transfer"
  | approve _ => "approve"
  | setApprovalForAll _ => "set_approval_for_all"
  | setTokenMetadata _ => "set_token_metadata"
  | migrate _ => "migrate"
  | balanceOf _ => "balance_of"
  | ownerOf _ => "owner_of"
  | getApproved _ => "get_approved"
  | updatedReceipts => "updated_receipts"

def toJson (c : Call) : Json := .obj [("call", .str c.tag), ("args", c.argsJson)]

def readers : List (String × Shape Call) :=
  [("install", fun j => install <$> Install.record.shape "InstallArgs" j),
    ("set_variables", fun j => setVariables <$> Variables.record.shape "ConfigurableVariables" j),
    ("register_owner",
      (registerOwner <$> Record.required "tokenOwner" Key.ofJson).shape "RegisterArgs"),
    ("mint", fun j => mint <$> Mint.record.shape "MintArgs" j),
    ("burn", withToken "BurnArgs" (pure ()) fun _ token => burn token),
    ("transfer", fun j => transfer <$> Transfer.ofJson j),
    ("approve", fun j => approve <$> Approve.ofJson j),
    ("set_approval_for_all", fun j =>
      setApprovalForAll <$> ApproveAll.record.shape "ApproveAllArgs" j),
    ("set_token_metadata",
      (setTokenMetadata <$> Record.required "tokenMetaData" Shape.document).shape
        "TokenMetadataArgs"),
    ("migrate", (migrate <$> Record.required "collectionName" Shape.string).shape "MigrateArgs"),
    ("balance_of", fun j => balanceOf <$> BalanceQuery.record.shape "StoreBalanceOfArgs" j),
    ("owner_of", fun j => ownerOf <$> TokenQuery.ofJson j),
    ("get_approved", fun j => getApproved <$> TokenQuery.ofJson j),
    ("updated_receipts", (pure updatedReceipts : Record Call).shape "UpdatedReceiptsArgs")]

def ofJson (name : String) (args : Json) : Except ShapeError Call :=
  match readers.lookup name with
  | some read => read args
  | none => .error (.unknownName name (readers.map (·.1)))

end Call

end NftLedger
