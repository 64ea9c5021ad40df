namespace NftLedger

/-- The number `significand * 2 ^ shift / 2 ^ 1074`, possibly negated. Zero has both signs. -/
structure Double where
  negative : Bool
  significand : Nat
  shift : Nat
deriving DecidableEq, Repr

namespace Double

def scaled (d : Double) : Nat := d.significand * Nat.pow 2 d.shift

def roundDiv (n d : Nat) : Nat :=
  let q := n / d
  let r := n % d
  if 2 * r < d then q else if d < 2 * r then q + 1 else q + q % 2

/-- The number nearest to a quotient, of two the one with an even significand, unless it lies beyond
the largest one. -/
def nearest? (num den : Nat) : Option Double :=
  let n := num * Nat.pow 2 1074
  let shift := Nat.log2 (n / den) - 52
  let s := roundDiv n (den * Nat.pow 2 shift)
  let d : Double := if s = Nat.pow 2 53 then ⟨false, Nat.pow 2 52, shift + 1⟩ else ⟨false, s, shift⟩
  if d.shift ≤ 2045 then some d else none

def mul? (a b : Double) : Option Double := nearest? (a.scaled * b.scaled) (Nat.pow 2 2148)

def div? (a b : Double) : Option Double := nearest? a.scaled b.scaled

def powerOfTen? (k : Nat) : Option Double := nearest? (Nat.pow 10 k) 1

def zero : Double := ⟨false, 0, 0⟩

/-- The number read for a decimal: its digits and the power of ten are each rounded, then multiplied
or divided. Powers stop at 10^308; a smaller number is divided twice. -/
def ofDecimal? (digits : Nat) (exponent : Int) : Option Double := do
  let d ← nearest? digits 1
  if digits = 0 then return zero
  else if 308 < exponent then none
  else if 0 ≤ exponent then d.mul? (← powerOfTen? exponent.toNat)
  else if -308 ≤ exponent then d.div? (← powerOfTen? (-exponent).toNat)
  else if -616 ≤ exponent then
    let d ← d.div? (← powerOfTen? 308)
    d.div? (← powerOfTen? (-exponent - 308).toNat)
  else return zero

end Double

end NftLedger
