import NftLedger.Wire.Reader

namespace NftLedger.Ty

/-- What a tag leaves to be read: nothing, a length, or the descriptors of parts. -/
inductive Head
  | plain (t : Ty)
  | byteArray
  | option
  | list
  | map

def head? (tag : UInt8) : Option Head :=
  match tag.toNat with
  | 0 => some (.plain bool)
  | 3 => some (.plain u8)
  | 4 => some (.plain u32)
  | 5 => some (.plain u64)
  | 8 => some (.plain u512)
  | 10 => some (.plain string)
  | 11 => some (.plain key)
  | 13 => some .option
  | 14 => some .list
  | 15 => some .byteArray
  | 17 => some .map
  | 21 => some (.plain any)
  | _ => none

def Head.read (part : Reader Ty) : Head → Reader Ty
  | plain t => return t
  | byteArray => return .byteArray (← Reader.u32)
  | option => return .option (← part)
  | list => return .list (← part)
  | map => do
    let k ← part
    return .map k (← part)

def ofTag (part : Reader Ty) (tag : UInt8) : Reader Ty :=
  match head? tag with
  | some head => head.read part
  | none => .fail (.unknownTag tag)

def readWithin : Nat → Reader Ty
  | 0 => .fail .tooDeep
  | budget + 1 => do ofTag (readWithin budget) (← Reader.byte)

def read : Reader Ty := readWithin (nestingLimit + 1)

end NftLedger.Ty
