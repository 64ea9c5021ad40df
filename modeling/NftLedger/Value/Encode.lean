import NftLedger.Value

namespace NftLedger.Value

def envelope (own : Ty) (body : Bytes) : Bytes := body.withLength ++ own.descriptor

/-- A place of declared type `any` takes an envelope, every other place the body alone. -/
def placed (declared own : Ty) (body : Bytes) : Bytes :=
  if declared = .any then envelope own body else body

mutual
def bytes : Value → Bytes
  | .bool b => [if b then 1 else 0]
  | .u8 n => [n]
  | .u32 n => Bytes.ofNat 4 n.toNat
  | .u64 n => Bytes.ofNat 8 n.toNat
  | .u512 n =>
    let digits := Bytes.minimal 64 n.toNat
    UInt8.ofNat digits.length :: digits
  | .string s => (Bytes.ofText s).withLength
  | .key k => k.bytes
  | .byteArray bs => bs
  | .option inner content => contentBytes inner content
  | .list item items => Bytes.ofNat 4 items.length ++ itemBytes item items
  | .map k v entries => Bytes.ofNat 4 entries.length ++ entryBytes k v entries

def contentBytes (inner : Ty) : Option Value → Bytes
  | none => [0]
  | some v => 1 :: placed inner v.ty v.bytes

def itemBytes (item : Ty) : List Value → Bytes
  | [] => []
  | v :: vs => placed item v.ty v.bytes ++ itemBytes item vs

def entryBytes (keyType valueType : Ty) : List (Value × Value) → Bytes
  | [] => []
  | (k, v) :: rest =>
    placed keyType k.ty k.bytes ++ placed valueType v.ty v.bytes ++
      entryBytes keyType valueType rest
end

def encode (v : Value) (declared : Ty) : Bytes := placed declared v.ty v.bytes

def tagged (v : Value) : Bytes := v.encode .any

end NftLedger.Value
