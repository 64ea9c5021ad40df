import NftLedger.Wire.Error

namespace NftLedger

abbrev Reader := StateT Bytes (Except DecodeError)

namespace Reader

variable {α β : Type}

def fail (e : DecodeError) : Reader α := fun _ => .error e

def take (n : Nat) : Reader Bytes := fun bs =>
  if n ≤ bs.length then .ok (bs.take n, bs.drop n) else .error (.endOfInput n bs.length)

def byte : Reader UInt8
  | [] => .error (.endOfInput 1 0)
  | b :: bs => .ok (b, bs)

def number (width : Nat) : Reader Nat := Bytes.toNat <$> take width

def u32 : Reader UInt32 := UInt32.ofNat <$> number 4

def u64 : Reader UInt64 := UInt64.ofNat <$> number 8

def text : Reader String := do
  let length ← number 4
  let bs ← take length
  match Bytes.toText? bs with
  | some s => pure s
  | none => fail (.malformed (.text ((Utf8.fault? bs).getD (.incomplete 0))))

def many (item : Reader α) : Nat → Reader (List α)
  | 0 => pure []
  | n + 1 => do
    let x ← item
    return x :: (← many item n)

def pair (first : Reader α) (second : Reader β) : Reader (α × β) := do
  let x ← first
  return (x, ← second)

def within (bs : Bytes) (inner : Reader α) : Reader (α × Bytes) := fun rest =>
  match inner bs with
  | .ok result => .ok (result, rest)
  | .error e => .error e

end Reader

def Bytes.withLength (bs : Bytes) : Bytes := Bytes.ofNat 4 bs.length ++ bs

end NftLedger
