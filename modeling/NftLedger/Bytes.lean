namespace NftLedger

abbrev Bytes := List UInt8

namespace Bytes

def ofNat : Nat → Nat → Bytes
  | 0, _ => []
  | width + 1, n => UInt8.ofNat n :: ofNat width (n / 256)

/-- The base-256 digits of a number up to its last non-zero one, at most `width` of them. -/
def minimal : Nat → Nat → Bytes
  | 0, _ => []
  | width + 1, n => if n = 0 then [] else UInt8.ofNat n :: minimal width (n / 256)

def toNat : Bytes → Nat
  | [] => 0
  | b :: bs => b.toNat + 256 * toNat bs

def ofText (s : String) : Bytes := s.toByteArray.data.toList

def toText? (bs : Bytes) : Option String := String.fromUTF8? ⟨bs.toArray⟩

theorem length_ofNat (width n : Nat) : (ofNat width n).length = width := by
  induction width generalizing n with
  | zero => rfl
  | succ width ih => simp [ofNat, ih]

theorem toText?_ofText (s : String) : toText? (ofText s) = some s := by
  unfold toText? ofText String.fromUTF8?
  rw [Array.toArray_toList, dif_pos s.isValidUTF8]
  rfl

end Bytes

end NftLedger
