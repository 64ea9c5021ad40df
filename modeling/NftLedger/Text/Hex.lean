import NftLedger.Bytes
import NftLedger.Text.Quoted
import NftLedger.Text.Utf8

namespace NftLedger.Hex

inductive Fault
  | oddLength
  | notDigit (byte : UInt8) (position : Nat)
deriving DecidableEq, Repr

def Fault.message : Fault → String
  | oddLength => "Odd number of digits"
  | notDigit byte position =>
    "Invalid character " ++ Quoted.char (Char.ofNat byte.toNat) ++
      " at position " ++ toString position

def digit (n : Nat) : Char := Char.ofNat (if n < 10 then 48 + n else 87 + n)

def chars : Bytes → List Char
  | [] => []
  | b :: bs => digit (b.toNat / 16) :: digit (b.toNat % 16) :: chars bs

def encode (bs : Bytes) : String := String.ofList (chars bs)

def digitValue? (c : Char) : Option Nat :=
  if '0' ≤ c ∧ c ≤ '9' then some (c.toNat - 48)
  else if 'a' ≤ c ∧ c ≤ 'f' then some (c.toNat - 87)
  else if 'A' ≤ c ∧ c ≤ 'F' then some (c.toNat - 55)
  else none

/-- Only digits, of one byte each, stand before the first foreign character, so its index is also
the index of its first byte. -/
def nibble (c : Char) (index : Nat) : Except Fault Nat :=
  match digitValue? c with
  | some n => .ok n
  | none => .error (.notDigit ((String.utf8EncodeChar c).headD 0) index)

def pairs (index : Nat) : List Char → Except Fault Bytes
  | [] => .ok []
  | [c] => do
    let _ ← nibble c index
    .error .oddLength
  | high :: low :: rest => do
    let h ← nibble high index
    let l ← nibble low (index + 1)
    return UInt8.ofNat (16 * h + l) :: (← pairs (index + 2) rest)

def ofChars (cs : List Char) : Except Fault Bytes :=
  if Utf8.length cs % 2 = 1 then .error .oddLength else pairs 0 cs

def decode (s : String) : Except Fault Bytes := ofChars s.toList

end NftLedger.Hex
