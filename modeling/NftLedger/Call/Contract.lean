import NftLedger.Identity.Hash

namespace NftLedger

open NftLedger.Json (Record Shape)

structure Contract where
  hash : ContractHash
  package : Option PackageHash
deriving DecidableEq

namespace Contract

def ofTexts (contract : String) (package : Option String) :
    Except PatternMismatch Contract := do
  let hash ← ContractHash.ofText contract
  match package with
  | some p => return ⟨hash, some (← PackageHash.ofText p)⟩
  | none => return ⟨hash, none⟩

def toJson (c : Contract) : Json :=
  .obj (("contract_hash", c.hash.toJson) ::
    (c.package.map fun p => ("contract_package_hash", p.toJson)).toList)

def record : Record Contract :=
  Contract.mk <$> .required "contract_hash" ContractHash.ofJson <*>
    .optional "contract_package_hash" PackageHash.ofJson

def ofJson : Shape Contract := record.shape "ContractIdentity"

end Contract

end NftLedger
