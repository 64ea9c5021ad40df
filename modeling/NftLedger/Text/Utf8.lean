import NftLedger.Bytes

namespace NftLedger.Utf8

inductive Fault
  | incomplete (index : Nat)
  | invalid (length index : Nat)
deriving DecidableEq, Repr

def Fault.message : Fault → String
  | incomplete index => "incomplete utf-8 byte sequence from index " ++ toString index
  | invalid length index =>
    "invalid utf-8 sequence of " ++ toString length ++ " bytes from index " ++ toString index

def length : List Char → Nat
  | [] => 0
  | c :: cs => c.utf8Size + length cs

abbrev Range := Nat × Nat

def tail : Range := (0x80, 0xBF)

def owed (b : Nat) : Option (List Range) :=
  if b ≤ 0x7F then some []
  else if 0xC2 ≤ b ∧ b ≤ 0xDF then some [tail]
  else if b = 0xE0 then some [(0xA0, 0xBF), tail]
  else if b = 0xED then some [(0x80, 0x9F), tail]
  else if 0xE1 ≤ b ∧ b ≤ 0xEF then some [tail, tail]
  else if b = 0xF0 then some [(0x90, 0xBF), tail, tail]
  else if 0xF1 ≤ b ∧ b ≤ 0xF3 then some [tail, tail, tail]
  else if b = 0xF4 then some [(0x80, 0x8F), tail, tail]
  else none

def scan (start index : Nat) : List Range → Bytes → Option Fault
  | [], [] => none
  | _ :: _, [] => some (.incomplete start)
  | [], b :: bs =>
    match owed b.toNat with
    | none => some (.invalid 1 index)
    | some ranges => scan index (index + 1) ranges bs
  | (low, high) :: ranges, b :: bs =>
    if low ≤ b.toNat ∧ b.toNat ≤ high then scan start (index + 1) ranges bs
    else some (.invalid (index - start) start)

def fault? (bs : Bytes) : Option Fault := scan 0 0 [] bs

end NftLedger.Utf8
