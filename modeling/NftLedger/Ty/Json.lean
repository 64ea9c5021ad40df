import NftLedger.Json.Shape
import NftLedger.Ty

namespace NftLedger.Ty

open NftLedger.Json (Shape ShapeError)

def toJson : Ty → Json
  | .byteArray length => .obj [("ByteArray", .int length.toNat)]
  | .option inner => .obj [("Option", inner.toJson)]
  | .list item => .obj [("List", item.toJson)]
  | .map k v => .obj [("Map", .obj [("key", k.toJson), ("value", v.toJson)])]
  | t => .str t.text

def names : List String :=
  ["Bool", "U8", "U32", "U64", "U512", "String", "Key", "ByteArray", "Option", "List", "Map", "Any"]

def ofName? : String → Option Ty
  | "Bool" => some .bool
  | "U8" => some .u8
  | "U32" => some .u32
  | "U64" => some .u64
  | "U512" => some .u512
  | "String" => some .string
  | "Key" => some .key
  | "Any" => some .any
  | _ => none

def ofBareName (name : String) : Except ShapeError Ty :=
  match ofName? name with
  | some t => .ok t
  | none =>
    if name = "Map" then .error (.wrongType .bareName "struct variant")
    else if name ∈ names then .error (.wrongType .bareName "newtype variant")
    else .error (.unknownName name names)

def ofNameAndUnit (name : String) (j : Json) : Except ShapeError Ty := do
  let t ← ofBareName name
  if j = .null then return t else Shape.mismatch "unit" j

def ofPair : Option Ty × Option Ty → Except ShapeError Ty
  | (some k, some v) => .ok (.map k v)
  | (none, _) => .error (.missing "key")
  | (_, none) => .error (.missing "value")

mutual
def ofJson : Json → Except ShapeError Ty
  | .str name => ofBareName name
  | .obj [(name, j)] =>
    if name = "ByteArray" then .byteArray <$> Shape.u32 j
    else if name = "Option" then .option <$> ofJson j
    else if name = "List" then .list <$> ofJson j
    else if name = "Map" then
      match j with
      | .obj members => ofMembers members >>= ofPair
      | j => Shape.mismatch "struct variant" j
    else ofNameAndUnit name j
  | .obj members => .error (.wrongValue (.document (.obj members)) "map with a single key")
  | j => Shape.mismatch "string or map" j

def ofMembers : List (String × Json) → Except ShapeError (Option Ty × Option Ty)
  | [] => .ok (none, none)
  | (name, j) :: rest =>
    if name = "key" then do
      let k ← ofJson j
      let (_, v) ← ofMembers rest
      return (some k, v)
    else if name = "value" then do
      let v ← ofJson j
      let (k, _) ← ofMembers rest
      return (k, some v)
    else ofMembers rest
end

end NftLedger.Ty
