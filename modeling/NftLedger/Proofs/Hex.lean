import NftLedger.Proofs.Identity
import NftLedger.Proofs.Success
import NftLedger.Text.Hex

namespace NftLedger.Hex

theorem toNat_digit : ∀ n < 16, (digit n).toNat = if n < 10 then 48 + n else 87 + n := by decide

theorem digitValue?_eq (c : Char) :
    digitValue? c =
      if 48 ≤ c.toNat ∧ c.toNat ≤ 57 then some (c.toNat - 48)
      else if 97 ≤ c.toNat ∧ c.toNat ≤ 102 then some (c.toNat - 87)
      else if 65 ≤ c.toNat ∧ c.toNat ≤ 70 then some (c.toNat - 55)
      else none := rfl

theorem toNat_of_toLower {c : Char} {n : Nat} (h : n < 16) (hc : c.toLower = digit n) :
    c.toNat = 48 + n ∧ n < 10 ∨ c.toNat = 87 + n ∧ 10 ≤ n ∨ c.toNat = 55 + n ∧ 10 ≤ n := by
  have hlower := Text.toNat_toLower c
  rw [hc, toNat_digit n h] at hlower
  split at hlower <;> split at hlower <;> omega

theorem digitValue?_of_toLower {c : Char} {n : Nat} (h : n < 16) (hc : c.toLower = digit n) :
    digitValue? c = some n := by
  rw [digitValue?_eq]
  rcases toNat_of_toLower h hc with ⟨hn, hsmall⟩ | ⟨hn, hlarge⟩ | ⟨hn, hlarge⟩
  · rw [hn, if_pos (by omega), Nat.add_sub_cancel_left]
  · rw [hn, if_neg (by omega), if_pos (by omega), Nat.add_sub_cancel_left]
  · rw [hn, if_neg (by omega), if_neg (by omega), if_pos (by omega), Nat.add_sub_cancel_left]

theorem utf8Size_of_toLower {c : Char} {n : Nat} (h : n < 16) (hc : c.toLower = digit n) :
    c.utf8Size = 1 := by
  have hsmall : c.toNat ≤ 127 := by
    rcases toNat_of_toLower h hc with hn | hn | hn <;> omega
  exact Char.utf8Size_eq_one_iff.mpr hsmall

theorem nibble_of_toLower {c : Char} {n : Nat} (h : n < 16) (hc : c.toLower = digit n)
    (index : Nat) : nibble c index = .ok n := by
  rw [nibble, digitValue?_of_toLower h hc]

theorem read_of_toLower {cs : List Char} {bs : Bytes} (h : cs.map Char.toLower = chars bs)
    (index : Nat) : Utf8.length cs = 2 * bs.length ∧ pairs index cs = .ok bs := by
  -- each byte stands for two digits, read at the next two places
  induction bs generalizing cs index with
  | nil =>
    obtain rfl := List.map_eq_nil_iff.mp h
    exact ⟨rfl, rfl⟩
  | cons b bs ih =>
    have hb := b.toNat_lt
    obtain ⟨high, cs, rfl, hhigh, h⟩ := List.map_eq_cons_iff.mp h
    obtain ⟨low, cs, rfl, hlow, h⟩ := List.map_eq_cons_iff.mp h
    have hhighLt : b.toNat / 16 < 16 := by omega
    have hlowLt : b.toNat % 16 < 16 := by omega
    obtain ⟨hlength, hpairs⟩ := ih h (index + 2)
    constructor
    · rw [Utf8.length, Utf8.length, utf8Size_of_toLower hhighLt hhigh,
        utf8Size_of_toLower hlowLt hlow, hlength, List.length_cons]
      omega
    · have hbyte : UInt8.ofNat (16 * (b.toNat / 16) + b.toNat % 16) = b := by
        rw [Nat.div_add_mod, UInt8.ofNat_toNat]
      rw [pairs, nibble_of_toLower hhighLt hhigh, nibble_of_toLower hlowLt hlow, hpairs]
      exact congrArg (fun b => Except.ok (b :: bs)) hbyte

theorem toLower_of_digitValue? {c : Char} {n : Nat} (h : digitValue? c = some n) :
    n < 16 ∧ c.toLower = digit n := by
  rw [digitValue?_eq] at h
  have hlower := Text.toNat_toLower c
  have hn : n < 16 ∧ c.toLower.toNat = if n < 10 then 48 + n else 87 + n := by
    repeat' split at h
    all_goals cases h
    all_goals split at hlower <;> split <;> omega
  exact ⟨hn.1, Char.toNat_inj.mp (by rw [hn.2, toNat_digit n hn.1])⟩

theorem toLower_of_nibble {c : Char} {index n : Nat} (h : nibble c index = .ok n) :
    n < 16 ∧ c.toLower = digit n := by
  rw [nibble] at h
  split at h
  next hvalue =>
    cases h
    exact toLower_of_digitValue? hvalue
  next => cases h

theorem toLower_of_pairs {cs : List Char} {bs : Bytes} {index : Nat} (h : pairs index cs = .ok bs) :
    cs.map Char.toLower = chars bs := by
  fun_induction pairs index cs generalizing bs with
  | case1 =>
    cases h
    rfl
  | case2 index c =>
    obtain ⟨n, hc, h⟩ := bind_eq_ok_iff.mp h
    cases h
  | case3 index high low rest ih =>
    simp only [bind_eq_ok_iff, pure_eq_ok_iff] at h
    obtain ⟨m, hhigh, n, hlow, tail, hrest, rfl⟩ := h
    obtain ⟨hm, hhigh⟩ := toLower_of_nibble hhigh
    obtain ⟨hn, hlow⟩ := toLower_of_nibble hlow
    have hbyte : (UInt8.ofNat (16 * m + n)).toNat = 16 * m + n :=
      UInt8.toNat_ofNat_of_lt (by change _ < 256; omega)
    rw [chars, hbyte, show (16 * m + n) / 16 = m by omega, show (16 * m + n) % 16 = n by omega,
      List.map_cons, List.map_cons, hhigh, hlow, ih hrest]

/-- Bytes are read from their digits, each in either letter case, and from nothing else. -/
theorem ofChars_eq_ok {cs : List Char} {bs : Bytes} :
    ofChars cs = .ok bs ↔ cs.map Char.toLower = chars bs := by
  constructor
  · intro h
    rw [ofChars] at h
    split at h
    next => cases h
    next => exact toLower_of_pairs h
  · intro h
    obtain ⟨hlength, hpairs⟩ := read_of_toLower h 0
    rw [ofChars, if_neg (by omega), hpairs]

theorem decode_of_toLower {text : String} {bs : Bytes}
    (h : text.toList.map Char.toLower = chars bs) : decode text = .ok bs :=
  ofChars_eq_ok.mpr h

theorem length_chars (bs : Bytes) : (chars bs).length = 2 * bs.length := by
  induction bs with
  | nil => rfl
  | cons b bs ih =>
    rw [chars, List.length_cons, List.length_cons, List.length_cons, ih]
    omega

end NftLedger.Hex
