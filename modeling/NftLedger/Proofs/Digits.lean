import Mathlib.Algebra.Order.Ring.Nat
import NftLedger.Bytes

namespace NftLedger.Bytes

theorem toNat_lt (bs : Bytes) : bs.toNat < 256 ^ bs.length := by
  induction bs with
  | nil => simp [toNat]
  | cons b bs ih =>
    have hb := b.toNat_lt
    simp only [toNat, List.length_cons, Nat.pow_succ]
    omega

theorem div_lt_pow {width n : Nat} (h : n < 256 ^ (width + 1)) : n / 256 < 256 ^ width := by
  rw [Nat.div_lt_iff_lt_mul (by decide)]
  rwa [Nat.pow_succ] at h

theorem ofNat_toNat_cons (b : UInt8) (bs : Bytes) : UInt8.ofNat (toNat (b :: bs)) = b := by
  have hb := b.toNat_lt
  apply UInt8.toNat_inj.mp
  rw [UInt8.toNat_ofNat', toNat]
  omega

theorem toNat_cons_div (b : UInt8) (bs : Bytes) : toNat (b :: bs) / 256 = toNat bs := by
  have hb := b.toNat_lt
  rw [toNat]
  omega

theorem toNat_ofNat (width n : Nat) (h : n < 256 ^ width) : (ofNat width n).toNat = n := by
  induction width generalizing n with
  | zero =>
    have hn : n = 0 := by simpa using h
    simp [ofNat, toNat, hn]
  | succ width ih =>
    rw [ofNat, toNat, ih _ (div_lt_pow h), UInt8.toNat_ofNat']
    omega

theorem ofNat_toNat (bs : Bytes) : ofNat bs.length (toNat bs) = bs := by
  induction bs with
  | nil => rfl
  | cons b bs ih => rw [List.length_cons, ofNat, ofNat_toNat_cons, toNat_cons_div, ih]

theorem length_minimal_le (width n : Nat) : (minimal width n).length ≤ width := by
  induction width generalizing n with
  | zero => simp [minimal]
  | succ width ih =>
    have h := ih (n / 256)
    rw [minimal]
    split
    · simp
    · simpa using h

theorem toNat_minimal (width n : Nat) (h : n < 256 ^ width) : (minimal width n).toNat = n := by
  induction width generalizing n with
  | zero =>
    have hn : n = 0 := by simpa using h
    simp [minimal, toNat, hn]
  | succ width ih =>
    rw [minimal]
    split
    · simp [toNat, *]
    · rw [toNat, ih _ (div_lt_pow h), UInt8.toNat_ofNat']
      omega

theorem length_minimal_le_of_lt {width count n : Nat} (h : n < 256 ^ count) :
    (minimal width n).length ≤ count := by
  induction width generalizing count n with
  | zero => simp [minimal]
  | succ width ih =>
    rw [minimal]
    split
    next => simp
    next hn =>
      cases count with
      | zero => exact absurd (by simpa using h) hn
      | succ count => exact Nat.succ_le_succ (ih (div_lt_pow h))

theorem toNat_append_zero (bs : Bytes) : toNat (bs ++ [0]) = toNat bs := by
  induction bs with
  | nil => rfl
  | cons b bs ih => rw [List.cons_append, toNat, ih, toNat]

theorem eq_append_zero_of_toNat_eq_zero {bs : Bytes} (hne : bs ≠ []) (h : toNat bs = 0) :
    ∃ shorter, bs = shorter ++ [0] := by
  refine ⟨bs.dropLast, ?_⟩
  induction bs with
  | nil => exact absurd rfl hne
  | cons b bs ih =>
    rw [toNat] at h
    have hb : b = 0 := UInt8.toNat_inj.mp (by simp; omega)
    cases bs with
    | nil => rw [hb]; rfl
    | cons c cs => rw [List.dropLast_cons_cons, List.cons_append, ← ih (by simp) (by omega)]

/-- Digits are minimal unless the highest one is zero. -/
theorem minimal_toNat (width : Nat) (bs : Bytes) (h : bs.length ≤ width) :
    minimal width (toNat bs) = bs ∨ ∃ shorter, bs = shorter ++ [0] := by
  induction bs generalizing width with
  | nil => cases width <;> exact .inl rfl
  | cons b bs ih =>
    by_cases hzero : toNat (b :: bs) = 0
    · exact .inr (eq_append_zero_of_toNat_eq_zero (by simp) hzero)
    · cases width with
      | zero => simp at h
      | succ width =>
        rw [minimal, if_neg hzero, ofNat_toNat_cons, toNat_cons_div]
        rcases ih width (by simpa using h) with hbs | ⟨shorter, hbs⟩
        · exact .inl (by rw [hbs])
        · exact .inr ⟨b :: shorter, by rw [hbs, List.cons_append]⟩

theorem eq_ofText_of_toText? {bs : Bytes} {s : String} (h : toText? bs = some s) :
    bs = ofText s := by
  unfold toText? String.fromUTF8? at h
  split at h
  · simp only [Option.some.injEq] at h
    subst h
    simp [ofText, String.fromUTF8]
  · simp at h

end NftLedger.Bytes
