import NftLedger.Identity
import NftLedger.Key.Json

namespace NftLedger

def isLowerHex (c : Char) : Bool := ('0' ≤ c && c ≤ '9') || ('a' ≤ c && c ≤ 'f')

/-- The common spelling of a hash: 64 lower-case hexadecimal digits. -/
structure HashText where
  digits : String
  length_digits : digits.toList.length = 64
  all_digits : digits.toList.all isLowerHex = true
deriving DecidableEq

namespace HashText

def ofText? (s : String) : Option HashText :=
  let digits := Identity.normalize s
  if h : digits.toList.length = 64 ∧ digits.toList.all isLowerHex = true then
    some ⟨digits, h.1, h.2⟩
  else none

def bytes (h : HashText) : Bytes := ((Hex.decode h.digits).toOption).getD []

def address (h : HashText) : Address :=
  (Address.ofBytes? h.bytes).getD ⟨List.replicate 32 0, by simp⟩

def text (h : HashText) : String := "hash-" ++ h.digits

def toKey (h : HashText) : Key := .hash h.address

def isSpelt (h : HashText) (s : String) : Bool := Identity.normalize s = h.digits

end HashText

structure ContractHash where
  hash : HashText
deriving DecidableEq

structure PackageHash where
  hash : HashText
deriving DecidableEq

def ContractHash.ofText (s : String) : Except PatternMismatch ContractHash :=
  match HashText.ofText? s with
  | some h => .ok ⟨h⟩
  | none => .error ⟨"ContractHash", s⟩

def PackageHash.ofText (s : String) : Except PatternMismatch PackageHash :=
  match HashText.ofText? s with
  | some h => .ok ⟨h⟩
  | none => .error ⟨"ContractPackageHash", s⟩

open NftLedger.Json (Shape)

def ContractHash.ofJson : Shape ContractHash :=
  Shape.checked Shape.string fun s => PatternMismatch.orMessage (ofText s)

def PackageHash.ofJson : Shape PackageHash :=
  Shape.checked Shape.string fun s => PatternMismatch.orMessage (ofText s)

def ContractHash.toJson (h : ContractHash) : Json := .str h.hash.text

def PackageHash.toJson (h : PackageHash) : Json := .str h.hash.text

end NftLedger
