import NftLedger.Call.Invocation

namespace NftLedger

inductive Field
  | collectionName
  | collectionSymbol
  | totalTokenSupply
  | ownershipMode
  | nftKind
  | jsonSchema
  | metadataKind
  | identifierMode
  | metadataMutability
  | mintingMode
  | allowMinting
  | whitelistMode
  | holderMode
  | contractWhitelist
  | burnMode
  | reverseLookupMode
  | eventsMode
  | keyConvention
  | accessKeyName
  | hashKeyName
  | tokenOwner
  | tokenMetadata
  | targetKey
  | sourceKey
  | operator
  | approveAll
  | keyName
  | hashMode
  | tokenId
  | tokenHash
  | contractHash
  | packageHash
deriving DecidableEq, Repr

namespace Field

def name : Field → String
  | collectionName => "collection_name"
  | collectionSymbol => "collection_symbol"
  | totalTokenSupply => "total_token_supply"
  | ownershipMode => "ownership_mode"
  | nftKind => "nft_kind"
  | jsonSchema => "json_schema"
  | metadataKind => "nft_metadata_kind"
  | identifierMode => "identifier_mode"
  | metadataMutability => "metadata_mutability"
  | mintingMode => "minting_mode"
  | allowMinting => "allow_minting"
  | whitelistMode => "whitelist_mode"
  | holderMode => "holder_mode"
  | contractWhitelist => "contract_whitelist"
  | burnMode => "burn_mode"
  | reverseLookupMode => "owner_reverse_lookup_mode"
  | eventsMode => "events_mode"
  | keyConvention => "named_key_convention"
  | accessKeyName => "access_key_name"
  | hashKeyName => "hash_key_name"
  | tokenOwner => "token_owner"
  | tokenMetadata => "token_meta_data"
  | targetKey => "target_key"
  | sourceKey => "source_key"
  | operator => "operator"
  | approveAll => "approve_all"
  | keyName => "key_name"
  | hashMode => "is_hash_identifier_mode"
  | tokenId => "token_id"
  | tokenHash => "token_hash"
  | contractHash => "nft_contract_hash"
  | packageHash => "nft_contract_package_hash"

def all : List Field :=
  [collectionName, collectionSymbol, totalTokenSupply, ownershipMode, nftKind, jsonSchema,
    metadataKind, identifierMode, metadataMutability, mintingMode, allowMinting, whitelistMode,
    holderMode, contractWhitelist, burnMode, reverseLookupMode, eventsMode, keyConvention,
    accessKeyName, hashKeyName, tokenOwner, tokenMetadata, targetKey, sourceKey, operator,
    approveAll, keyName, hashMode, tokenId, tokenHash, contractHash, packageHash]

def optional : Field → Bool
  | mintingMode | allowMinting | whitelistMode | holderMode | contractWhitelist | burnMode
  | reverseLookupMode | eventsMode | keyConvention | accessKeyName | hashKeyName | tokenId
  | tokenHash => true
  | _ => false

end Field

namespace Call

open NftLedger.Field

def sessionFields : Call → List Field
  | mint _ => [contractHash, collectionName]
  | transfer _ => [contractHash]
  | _ => []

def plainFields : Call → List Field
  | install _ =>
    [collectionName, collectionSymbol, totalTokenSupply, ownershipMode, nftKind, jsonSchema,
      metadataKind, identifierMode, metadataMutability, mintingMode, allowMinting, whitelistMode,
      holderMode, contractWhitelist, burnMode, reverseLookupMode, eventsMode, keyConvention,
      accessKeyName, hashKeyName]
  | setVariables _ => [allowMinting, contractWhitelist]
  | registerOwner _ => [tokenOwner]
  | mint _ => [tokenOwner, tokenMetadata]
  | burn _ => [tokenId, tokenHash]
  | transfer _ => [targetKey, sourceKey, hashMode, tokenId, tokenHash]
  | approve _ => [operator, tokenId, tokenHash]
  | setApprovalForAll _ => [tokenOwner, approveAll, operator]
  | setTokenMetadata _ => [tokenMetadata]
  | migrate _ => [collectionName]
  | balanceOf _ => [contractHash, tokenOwner, keyName]
  | ownerOf _ | getApproved _ => [contractHash, keyName, hashMode, tokenId, tokenHash]
  | updatedReceipts => [packageHash]

def fields (c : Call) : CallForm → List Field
  | .entryPoint => c.plainFields
  | .session => c.plainFields ++ c.sessionFields

def token? : Call → Option Token
  | burn token => some token
  | transfer t => some t.token
  | approve a => some a.token
  | ownerOf q | getApproved q => some q.token
  | _ => none

end Call

end NftLedger
