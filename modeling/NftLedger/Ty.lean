import NftLedger.Bytes

namespace NftLedger

/-- `any` stands for values that carry their own type. -/
inductive Ty
  | bool
  | u8
  | u32
  | u64
  | u512
  | string
  | key
  | byteArray (length : UInt32)
  | option (inner : Ty)
  | list (item : Ty)
  | map (key value : Ty)
  | any
deriving DecidableEq, Repr

namespace Ty

def tag : Ty → UInt8
  | .bool => 0
  | .u8 => 3
  | .u32 => 4
  | .u64 => 5
  | .u512 => 8
  | .string => 10
  | .key => 11
  | .option _ => 13
  | .list _ => 14
  | .byteArray _ => 15
  | .map _ _ => 17
  | .any => 21

def descriptor : Ty → Bytes
  | .byteArray length => tag (byteArray length) :: Bytes.ofNat 4 length.toNat
  | .option inner => tag (option inner) :: inner.descriptor
  | .list item => tag (list item) :: item.descriptor
  | .map k v => tag (map k v) :: (k.descriptor ++ v.descriptor)
  | t => [t.tag]

/-- The least number of bytes that an encoded value of the type takes. -/
def minWidth : Ty → Nat
  | .bool | .u8 | .u512 | .option _ => 1
  | .u32 | .string | .list _ | .map _ _ => 4
  | .any => 5
  | .u64 => 8
  | .key => 33
  | .byteArray length => length.toNat

/-- How many constructors with parts stand inside one another. -/
def nesting : Ty → Nat
  | .option inner => inner.nesting + 1
  | .list item => item.nesting + 1
  | .map k v => max k.nesting v.nesting + 1
  | _ => 0

def text : Ty → String
  | .bool => "Bool"
  | .u8 => "U8"
  | .u32 => "U32"
  | .u64 => "U64"
  | .u512 => "U512"
  | .string => "String"
  | .key => "Key"
  | .byteArray length => "ByteArray[" ++ toString length.toNat ++ "]"
  | .option inner => "Option<" ++ inner.text ++ ">"
  | .list item => "List<" ++ item.text ++ ">"
  | .map k v => "Map<" ++ k.text ++ ", " ++ v.text ++ ">"
  | .any => "Any"

end Ty

end NftLedger
