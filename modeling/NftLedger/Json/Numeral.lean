import NftLedger.Json.Scan

namespace NftLedger.Json

structure Numeral where
  negative : Bool
  whole : List Nat
  fraction : Option (List Nat)
  exponent : Option Int

namespace Numeral

def digit? (c : Char) : Option Nat := if c.isDigit then some (c.toNat - 48) else none

def digits : Scan (List Nat) := fun cs =>
  .ok ((cs.takeWhile Char.isDigit).filterMap digit?, cs.dropWhile Char.isDigit)

def someDigits : Scan (List Nat) := do
  let ds ← digits
  if ds = [] then fun cs => if cs = [] then .error .ended else .error .unexpected
  else return ds

def ofDigits (ds : List Nat) : Nat := ds.foldl (10 * · + ·) 0

def next? (chars : List Char) : Scan (Option Char) := fun cs =>
  match cs with
  | c :: rest => if c ∈ chars then .ok (some c, rest) else .ok (none, cs)
  | [] => .ok (none, [])

def scanWhole : Scan (List Nat) := do
  let ds ← someDigits
  match ds with
  | 0 :: _ :: _ => .fail .unexpected
  | _ => return ds

def scan : Scan Numeral := do
  let sign ← next? ['-']
  let whole ← scanWhole
  let fraction ← match ← next? ['.'] with
    | some _ => some <$> someDigits
    | none => pure none
  let exponent ← match ← next? ['e', 'E'] with
    | some _ => do
      let sign ← next? ['+', '-']
      let n ← ofDigits <$> someDigits
      pure (some (if sign = some '-' then -(n : Int) else n))
    | none => pure none
  return ⟨sign.isSome, whole, fraction, exponent⟩

def skip : Scan Unit := fun cs =>
  match scan cs with
  | .ok (_, rest) => .ok ((), rest)
  | .error _ => .error .unexpected

/-- The leading digits that fit 64 bits, and how many were used. From the first digit that does not
fit, all are dropped. -/
def leading : Nat → List Nat → Nat × Nat
  | n, [] => (n, 0)
  | n, d :: ds =>
    if 10 * n + d < UInt64.size then
      let (m, used) := leading (10 * n + d) ds
      (m, used + 1)
    else (n, 0)

def toDouble? (n : Numeral) : Option Double :=
  let (whole, usedWhole) := leading 0 n.whole
  let (all, usedFraction) := leading whole (n.fraction.getD [])
  let exponent : Int := (n.whole.length - usedWhole : Nat) - usedFraction + n.exponent.getD 0
  (fun d => { d with negative := n.negative }) <$> Double.ofDecimal? all exponent

/-- A whole number is exact between -2^63 and 2^64 - 1, except that a negative zero is no
integer. -/
def toJson? (n : Numeral) : Option Json :=
  let magnitude := ofDigits n.whole
  if n.fraction.isNone ∧ n.exponent.isNone ∧
      (if n.negative then 0 < magnitude ∧ 2 * magnitude ≤ UInt64.size else magnitude < UInt64.size) then
    some (.int (if n.negative then -magnitude else magnitude))
  else .double <$> n.toDouble?

end Numeral

end NftLedger.Json
