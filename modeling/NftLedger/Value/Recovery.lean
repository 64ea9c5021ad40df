import NftLedger.Key.Json
import NftLedger.Value.Json

namespace NftLedger

open NftLedger.Json (Record Shape)

namespace Ty

def isOption : Ty → Bool
  | .option _ => true
  | _ => false

/-- No place takes values of any type, and no option stands directly inside an option. -/
def Legible : Ty → Prop
  | .any => False
  | .option inner => inner.isOption = false ∧ inner.Legible
  | .list item => item.Legible
  | .map k v => k.Legible ∧ v.Legible
  | _ => True

def decideLegible : (t : Ty) → Decidable t.Legible
  | .any => .isFalse id
  | .option inner => @instDecidableAnd _ _ _ inner.decideLegible
  | .list item => item.decideLegible
  | .map k v => @instDecidableAnd _ _ k.decideLegible v.decideLegible
  | .bool | .u8 | .u32 | .u64 | .u512 | .string | .key | .byteArray _ => .isTrue trivial

instance : DecidablePred Legible := decideLegible

end Ty

def U512.ofDecimal? (s : String) : Option U512 :=
  let n := Nat.ofDigitChars 10 s.toList 0
  if h : s.toList.all Char.isDigit = true ∧ n < Nat.pow 256 64 then some ⟨n, h.2⟩ else none

def Json.Shape.spelling {α : Type} (expected : String) (read : String → Option α) : Shape α :=
  fun j =>
    match j.text? >>= read with
    | some x => .ok x
    | none => mismatch expected j

namespace Value

def entryToJson (e : Value × Value) : Json := .obj [("key", e.1.toJson), ("value", e.2.toJson)]

def entryOfJson (key value : Shape Value) : Shape (Value × Value) :=
  Record.shape (Prod.mk <$> .required "key" key <*> .required "value" value) "Entry"

def ofJson : Ty → Shape Value
  | .bool => fun j => bool <$> Shape.bool j
  | .u8 => fun j => u8 <$> Shape.u8 j
  | .u32 => fun j => u32 <$> Shape.u32 j
  | .u64 => fun j => u64 <$> Shape.u64 j
  | .u512 => fun j => u512 <$> Shape.spelling "decimal digits" U512.ofDecimal? j
  | .string => fun j => string <$> Shape.string j
  | .key => fun j => key <$> Key.ofJson j
  | .byteArray _ => fun j =>
    byteArray <$> Shape.spelling "hexadecimal digits" (fun s => (Hex.decode s).toOption) j
  | .option inner => fun j => option inner <$> Shape.optional (ofJson inner) j
  | .list item => fun j => list item <$> Shape.list (ofJson item) j
  | .map k v => fun j => map k v <$> Shape.list (entryOfJson (ofJson k) (ofJson v)) j
  | .any => Shape.mismatch "a value of a known type"

end Value

end NftLedger
