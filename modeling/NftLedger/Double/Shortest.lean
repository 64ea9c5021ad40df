import NftLedger.Double

namespace NftLedger.Double

structure Decimal where
  digits : Nat
  exponent : Int
deriving DecidableEq, Repr

def digitCount (n : Nat) : Nat := (Nat.toDigits 10 n).length

def leadingExponent (d : Double) : Int :=
  if Nat.pow 2 1074 ≤ d.scaled then digitCount (d.scaled / Nat.pow 2 1074) - 1
  else -digitCount ((Nat.pow 2 1074 - 1) / d.scaled)

def below (d : Double) : Nat := if d.significand = Nat.pow 2 52 ∧ d.shift ≠ 0 then 1 else 2

/-- Quarters of the last significant bit, and decimals of the given exponent, as multiples of one
number. -/
def quarter (d : Double) (exponent : Int) : Nat :=
  Nat.pow 2 d.shift * Nat.pow 10 (-exponent).toNat

def gridStep (exponent : Int) : Nat := Nat.pow 2 1076 * Nat.pow 10 exponent.toNat

/-- Whether a decimal reads back to the number: it then lies between the midpoints to the neighbouring
numbers, which count when the significand is even. -/
def reads (d : Double) (exponent : Int) (k : Nat) : Bool :=
  let low := (4 * d.significand - d.below) * d.quarter exponent
  let high := (4 * d.significand + 2) * d.quarter exponent
  if d.significand % 2 = 0 then low ≤ k * gridStep exponent && k * gridStep exponent ≤ high
  else low < k * gridStep exponent && k * gridStep exponent < high

/-- The decimal of the given exponent that is nearest to the number, if it reads back to it. Of two
decimals at one distance the even one is taken. -/
def onGrid? (d : Double) (exponent : Int) : Option Decimal :=
  let value := 4 * d.significand * d.quarter exponent
  let step := gridStep exponent
  let k := value / step
  let up := 2 * (value % step) > step ∨ 2 * (value % step) = step ∧ k % 2 = 1
  match d.reads exponent k, d.reads exponent (k + 1) with
  | true, true => some ⟨if up then k + 1 else k, exponent⟩
  | true, false => some ⟨k, exponent⟩
  | false, true => some ⟨k + 1, exponent⟩
  | false, false => none

def shortestFrom (d : Double) (leading : Int) : Nat → Nat → Decimal
  | _, 0 => ⟨0, 0⟩
  | count, fuel + 1 =>
    match d.onGrid? (leading + 1 - count) with
    | some result =>
      if result.digits = Nat.pow 10 count then ⟨Nat.pow 10 (count - 1), result.exponent + 1⟩ else result
    | none => shortestFrom d leading (count + 1) fuel

def shortest (d : Double) : Decimal :=
  if d.significand = 0 then ⟨0, 0⟩ else shortestFrom d d.leadingExponent 1 17

/-- Positional with a point when the exponent of the first digit lies between -5 and 15, else one
digit before the point and a signed exponent. -/
def Decimal.chars (d : Decimal) : List Char :=
  let ds := Nat.toDigits 10 d.digits
  let leading : Int := d.exponent + ds.length - 1
  if -5 ≤ leading ∧ leading ≤ 15 then
    if 0 ≤ d.exponent then ds ++ List.replicate d.exponent.toNat '0' ++ ['.', '0']
    else if 0 ≤ leading then ds.take (leading.toNat + 1) ++ '.' :: ds.drop (leading.toNat + 1)
    else '0' :: '.' :: List.replicate (-leading - 1).toNat '0' ++ ds
  else
    let sign := if leading < 0 then '-' else '+'
    ds.take 1 ++ (if ds.length = 1 then [] else '.' :: ds.drop 1) ++
      'e' :: sign :: Nat.toDigits 10 leading.natAbs

def chars (d : Double) : List Char :=
  (if d.negative then ['-'] else []) ++ d.shortest.chars

end NftLedger.Double
