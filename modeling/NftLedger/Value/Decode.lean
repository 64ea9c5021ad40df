import NftLedger.Ty.Read
import NftLedger.Value

namespace NftLedger.Value

/-- A rule that may refuse a count of elements before any of them is read, from the least width of
an element, the count and the number of bytes left. -/
abbrev CountRule := Nat → Nat → Nat → Except DecodeError Unit

namespace CountRule

def zeroWidthLimit : Nat := 1024

def bounded : CountRule := fun width count _ =>
  if width = 0 ∧ zeroWidthLimit < count then .error (.malformed (.zeroWidth count)) else .ok ()

/-- The bytes left must also have room for the elements. The error names at most 2^64 - 1 bytes. -/
def roomy : CountRule := fun width count left =>
  if width = 0 then bounded width count left
  else
    let needed := min (count * width) (UInt64.size - 1)
    if left < needed then .error (.endOfInput needed left) else .ok ()

end CountRule

def readCount (rule : CountRule) (width : Nat) : Reader Nat := do
  let count ← Reader.number 4
  fun bs =>
    match rule width count bs.length with
    | .ok () => .ok (count, bs)
    | .error e => .error e

/-- A body behind its length, then its type; the body must be used up. -/
def readEnvelope (ty : Reader Ty) (body : Ty → Reader Value) : Reader (Ty × Value) := do
  let bs ← Reader.take (← Reader.number 4)
  let own ← ty
  if own = .any then .fail (.malformed .typedAny)
  else
    let (v, left) ← Reader.within bs (body own)
    if left = [] then pure (own, v) else .fail (.malformed (.envelopeRest left.length own))

def readBool : Reader Value := do
  let b ← Reader.byte
  if b = 0 then return .bool false
  else if b = 1 then return .bool true
  else .fail (.malformed (.bool b))

def readU512 : Reader Value := do
  let length ← Reader.number 1
  if 64 < length then .fail (.malformed (.magnitude length))
  else return .u512 (.ofNat (← Reader.number length))

def readWithin (rule : CountRule) : Nat → Ty → Reader Value
  | 0, _ => .fail .tooDeep
  | budget + 1, ty =>
    match ty with
    | .bool => readBool
    | .u8 => u8 <$> Reader.byte
    | .u32 => u32 <$> Reader.u32
    | .u64 => u64 <$> Reader.u64
    | .u512 => readU512
    | .string => string <$> Reader.text
    | .key => key <$> Key.read
    | .byteArray length => byteArray <$> Reader.take length.toNat
    | .option inner => do
      let b ← Reader.byte
      if b = 0 then return .option inner none
      else if b = 1 then return .option inner (some (← readWithin rule budget inner))
      else .fail (.malformed (.presence b))
    | .list item => do
      let count ← readCount rule item.minWidth
      return .list item (← Reader.many (readWithin rule budget item) count)
    | .map k v => do
      let count ← readCount rule (k.minWidth + v.minWidth)
      let entry := Reader.pair (readWithin rule budget k) (readWithin rule budget v)
      return .map k v (← Reader.many entry count)
    | .any => Prod.snd <$> readEnvelope (Ty.readWithin budget) (readWithin rule budget)

def read (declared : Ty) : Reader Value :=
  readWithin .roomy (nestingLimit + 1) declared

def readTagged (expected : Ty) : Reader Value := do
  let (own, v) ← readEnvelope Ty.read read
  if expected ≠ .any ∧ own ≠ expected then .fail (.typeMismatch expected own) else pure v

end NftLedger.Value
