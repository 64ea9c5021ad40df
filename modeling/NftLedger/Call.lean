import NftLedger.Identity.Hash
import NftLedger.Modality
import NftLedger.Schema
import NftLedger.Token

namespace NftLedger

structure Install where
  collectionName : String
  collectionSymbol : String
  totalTokenSupply : UInt64
  ownershipMode : OwnershipMode
  nftKind : NftKind
  jsonSchema : Schema
  metadataKind : MetadataKind
  identifierMode : IdentifierMode
  metadataMutability : MetadataMutability
  mintingMode : Option MintingMode
  allowMinting : Option Bool
  whitelistMode : Option WhitelistMode
  holderMode : Option HolderMode
  contractWhitelist : Option (List ContractHash)
  burnMode : Option BurnMode
  reverseLookupMode : Option ReverseLookupMode
  eventsMode : Option EventsMode
  keyConvention : Option KeyConvention
  accessKeyName : Option String
  hashKeyName : Option String
deriving DecidableEq

structure Variables where
  allowMinting : Option Bool
  contractWhitelist : Option (List ContractHash)
deriving DecidableEq

structure Mint where
  owner : Key
  metadata : Json
  collectionName : Option String
deriving DecidableEq

structure Transfer where
  target : Key
  source : Key
  token : Token
deriving DecidableEq

structure Approve where
  operator : Key
  token : Token
deriving DecidableEq

structure ApproveAll where
  owner : Key
  approve : Bool
  operator : Key
deriving DecidableEq

structure BalanceQuery where
  owner : Key
  keyName : String
deriving DecidableEq

structure TokenQuery where
  keyName : String
  token : Token
deriving DecidableEq

inductive Call
  | install (args : Install)
  | setVariables (args : Variables)
  | registerOwner (owner : Key)
  | mint (args : Mint)
  | burn (token : Token)
  | transfer (args : Transfer)
  | approve (args : Approve)
  | setApprovalForAll (args : ApproveAll)
  | setTokenMetadata (metadata : Json)
  | migrate (collectionName : String)
  | balanceOf (query : BalanceQuery)
  | ownerOf (query : TokenQuery)
  | getApproved (query : TokenQuery)
  | updatedReceipts
deriving DecidableEq

inductive Support
  | installer
  | entryPointOnly
  | either
  | sessionOnly
deriving DecidableEq, Repr

namespace Call

def entryPoint : Call → String
  | install _ => "install"
  | setVariables _ => "set_variables"
  | registerOwner _ => "register_owner"
  | mint _ => "mint"
  | burn _ => "burn"
  | transfer _ => "transfer"
  | approve _ => "approve"
  | setApprovalForAll _ => "set_approval_for_all"
  | setTokenMetadata _ => "set_token_metadata"
  | migrate _ => "migrate"
  | balanceOf _ => "balance_of"
  | ownerOf _ => "owner_of"
  | getApproved _ => "get_approved"
  | updatedReceipts => "updated_receipts"

def sessionCode? : Call → Option String
  | install _ => some "contract.wasm"
  | mint _ => some "mint_call.wasm"
  | transfer _ => some "transfer_call.wasm"
  | balanceOf _ => some "balance_of_call.wasm"
  | ownerOf _ | getApproved _ => some "owner_of_call.wasm"
  | updatedReceipts => some "updated_receipts.wasm"
  | _ => none

def support : Call → Support
  | install _ => .installer
  | mint _ | transfer _ => .either
  | balanceOf _ | ownerOf _ | getApproved _ | updatedReceipts => .sessionOnly
  | _ => .entryPointOnly

end Call

end NftLedger
