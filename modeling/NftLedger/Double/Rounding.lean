import Mathlib.Algebra.Order.Field.Rat
import NftLedger.Double

namespace NftLedger.Double

def Canonical (d : Double) : Prop :=
  d.significand < 2 ^ 53 ∧ (d.shift = 0 ∨ 2 ^ 52 ≤ d.significand)

instance : DecidablePred Canonical := fun _ => inferInstanceAs (Decidable (_ ∧ _))

def magnitude (d : Double) : ℚ := d.significand * 2 ^ d.shift / 2 ^ 1074

/-- No number is nearer to `x`, and only an even one may be as near as another. -/
structure NearestEven (d : Double) (x : ℚ) : Prop where
  nearest (other : Double) (h : other.Canonical) : |x - d.magnitude| ≤ |x - other.magnitude|
  even (other : Double) (h : other.Canonical) (tie : |x - d.magnitude| = |x - other.magnitude|) :
    other.magnitude = d.magnitude ∨ d.significand % 2 = 0

end NftLedger.Double
