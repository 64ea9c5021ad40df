import NftLedger.Json.Compact
import NftLedger.Json.Print
import NftLedger.Proofs.Shortest

namespace NftLedger

namespace Double

open Json (Digits DecimalText)

theorem digits_toDigits (n : Nat) : Digits (Nat.toDigits 10 n) :=
  ⟨Nat.toDigits_ne_nil, fun _ => Nat.isDigit_of_mem_toDigits (by decide) (by decide)⟩

theorem head?_toDigits_ne {n : Nat} (h : 0 < n) : (Nat.toDigits 10 n).head? ≠ some '0' := by
  induction n using Nat.strongRecOn with
  | ind n ih =>
    rw [Nat.toDigits_eq_if (by decide)]
    split
    next hlt =>
      have hdigit : ∀ n < 10, 0 < n → Nat.digitChar n ≠ '0' := by decide
      simpa using hdigit n hlt h
    next hle =>
      rw [List.head?_append_of_ne_nil _ Nat.toDigits_ne_nil]
      exact ih (n / 10) (by omega) (by omega)

variable {r : Decimal}

theorem div_pow_eq (n k : Nat) : (n / 10 ^ k : ℚ) = n * 10 ^ (-k : Int) := by
  rw [zpow_neg, zpow_natCast, div_eq_mul_inv]

theorem isDigit_zeros (n : Nat) : ∀ c ∈ List.replicate n '0', c.isDigit = true := by
  intro c hc
  rw [List.eq_of_mem_replicate hc]
  rfl

theorem decimalText_whole (h : r.digits = 0 → r.exponent = 0) {e : Nat} (he : r.exponent = e) :
    DecimalText (Nat.toDigits 10 r.digits ++ List.replicate e '0' ++ ['.', '0']) r.value := by
  have hvalue : (Nat.ofDigitChars 10 ((Nat.toDigits 10 r.digits ++ List.replicate e '0') ++ ['0']) 0 /
      10 ^ ['0'].length : ℚ) = r.value := by
    rw [Nat.ofDigitChars_append, Nat.ofDigitChars_append, Nat.ofDigitChars_ten_toDigits,
      Nat.ofDigitChars_replicate_zero, Nat.ofDigitChars_cons, Nat.ofDigitChars_nil, Decimal.value, he]
    simp
    ring
  rw [← hvalue]
  refine .positional _ ['0'] ⟨?_, ?_⟩ ⟨List.cons_ne_nil _ _, isDigit_zeros 1⟩ fun hzero => ?_
  · exact List.append_ne_nil_of_left_ne_nil Nat.toDigits_ne_nil _
  · exact List.forall_mem_append.mpr ⟨(digits_toDigits r.digits).2, isDigit_zeros e⟩
  · rw [List.head?_append_of_ne_nil _ Nat.toDigits_ne_nil] at hzero
    have hdigits : r.digits = 0 := Nat.eq_zero_of_not_pos fun hpos => head?_toDigits_ne hpos hzero
    have hexp : e = 0 := by
      rw [h hdigits] at he
      omega
    rw [hdigits, hexp]
    rfl

theorem decimalText_split (hpos : 0 < r.digits) {n : Nat} (hn : 0 < n)
    (hlength : n < (Nat.toDigits 10 r.digits).length)
    (he : r.exponent = n - (Nat.toDigits 10 r.digits).length) :
    DecimalText ((Nat.toDigits 10 r.digits).take n ++ '.' :: (Nat.toDigits 10 r.digits).drop n)
      r.value := by
  have hvalue : (Nat.ofDigitChars 10
      ((Nat.toDigits 10 r.digits).take n ++ (Nat.toDigits 10 r.digits).drop n) 0 /
        10 ^ ((Nat.toDigits 10 r.digits).drop n).length : ℚ) = r.value := by
    have hexp : (-((Nat.toDigits 10 r.digits).drop n).length : Int) = r.exponent := by
      rw [List.length_drop, he]
      omega
    rw [List.take_append_drop, Nat.ofDigitChars_ten_toDigits, div_pow_eq, hexp, Decimal.value]
  rw [← hvalue]
  have hdigits := digits_toDigits r.digits
  refine .positional _ _ ⟨?_, fun c hc => hdigits.2 c (List.mem_of_mem_take hc)⟩
    ⟨?_, fun c hc => hdigits.2 c (List.mem_of_mem_drop hc)⟩ fun hzero => ?_
  · simp [hn.ne']
  · simp [hlength]
  · rw [List.head?_take, if_neg hn.ne'] at hzero
    exact absurd hzero (head?_toDigits_ne hpos)

theorem decimalText_small {zeros : Nat}
    (he : r.exponent = -(zeros + (Nat.toDigits 10 r.digits).length)) :
    DecimalText ('0' :: '.' :: List.replicate zeros '0' ++ Nat.toDigits 10 r.digits) r.value := by
  have hvalue : (Nat.ofDigitChars 10
      (['0'] ++ (List.replicate zeros '0' ++ Nat.toDigits 10 r.digits)) 0 /
        10 ^ (List.replicate zeros '0' ++ Nat.toDigits 10 r.digits).length : ℚ) = r.value := by
    have hexp : (-(List.replicate zeros '0' ++ Nat.toDigits 10 r.digits).length : Int) =
        r.exponent := by
      rw [List.length_append, List.length_replicate, he]
      omega
    have hzeros : Nat.ofDigitChars 10 (['0'] ++ (List.replicate zeros '0' ++ Nat.toDigits 10 r.digits))
        0 = r.digits := by
      rw [Nat.ofDigitChars_append, Nat.ofDigitChars_append, Nat.ofDigitChars_cons,
        Nat.ofDigitChars_nil, Nat.ofDigitChars_replicate_zero]
      simp [Nat.ofDigitChars_ten_toDigits]
    rw [hzeros, div_pow_eq, hexp, Decimal.value]
  rw [← hvalue]
  have hdigits := digits_toDigits r.digits
  refine .positional ['0'] _ ⟨List.cons_ne_nil _ _, isDigit_zeros 1⟩ ⟨?_, ?_⟩ fun _ => rfl
  · exact List.append_ne_nil_of_right_ne_nil _ hdigits.1
  · exact List.forall_mem_append.mpr ⟨isDigit_zeros zeros, hdigits.2⟩

theorem decimalText_scientific {leading : Int}
    (hleading : leading = r.exponent + (Nat.toDigits 10 r.digits).length - 1) :
    DecimalText ((Nat.toDigits 10 r.digits).take 1 ++
      (if (Nat.toDigits 10 r.digits).length = 1 then [] else '.' :: (Nat.toDigits 10 r.digits).drop 1) ++
        'e' :: (if leading < 0 then '-' else '+') :: Nat.toDigits 10 leading.natAbs) r.value := by
  have hdigits := digits_toDigits r.digits
  have hnumber : Nat.ofDigitChars 10 (Nat.toDigits 10 r.digits) 0 = r.digits :=
    Nat.ofDigitChars_ten_toDigits
  generalize Nat.toDigits 10 r.digits = ds at hdigits hnumber hleading
  cases ds with
  | nil => exact absurd rfl hdigits.1
  | cons first fraction =>
    have hpower : (if leading < 0 then -(leading.natAbs : Int) else leading.natAbs) = leading := by
      split <;> omega
    have hvalue : (Nat.ofDigitChars 10 (first :: fraction) 0 / 10 ^ fraction.length *
        10 ^ (if leading < 0 then -(leading.natAbs : Int) else leading.natAbs) : ℚ) = r.value := by
      have hexp : -(fraction.length : Int) + leading = r.exponent := by
        rw [hleading, List.length_cons]
        omega
      rw [hnumber, hpower, div_pow_eq, mul_assoc, ← zpow_add₀ (by norm_num), hexp, Decimal.value]
    have htext := DecimalText.scientific first fraction hdigits (decide (leading < 0)) leading.natAbs
    simp only [decide_eq_true_eq] at htext
    rw [hvalue] at htext
    simpa using htext

theorem decimalText_chars (h : r.digits = 0 → r.exponent = 0) : DecimalText r.chars r.value := by
  rw [Decimal.chars]
  have hlength : 0 < (Nat.toDigits 10 r.digits).length := Nat.length_toDigits_pos
  by_cases hplain : -5 ≤ r.exponent + (Nat.toDigits 10 r.digits).length - 1 ∧
      r.exponent + (Nat.toDigits 10 r.digits).length - 1 ≤ 15
  · rw [if_pos hplain]
    by_cases hwhole : 0 ≤ r.exponent
    · rw [if_pos hwhole]
      exact decimalText_whole h (Int.toNat_of_nonneg hwhole).symm
    rw [if_neg hwhole]
    have hpos : 0 < r.digits := Nat.pos_of_ne_zero fun hzero => hwhole (h hzero).ge
    by_cases hsplit : 0 ≤ r.exponent + (Nat.toDigits 10 r.digits).length - 1
    · rw [if_pos hsplit]
      exact decimalText_split hpos (Nat.succ_pos _) (by omega) (by omega)
    · rw [if_neg hsplit]
      exact decimalText_small (by omega)
  · rw [if_neg hplain]
    exact decimalText_scientific rfl

end Double

namespace Json

theorem charText_escape (c : Char) : CharText c (escape c) := by
  rw [escape]
  cases h : shortEscape? c with
  | some e =>
    apply CharText.letter
    unfold shortEscape? at h
    split at h
    all_goals
      cases h
      try decide
  | none =>
    have hne (c' : Char) (h' : shortEscape? c' ≠ none) : c ≠ c' := by
      rintro rfl
      exact h' h
    by_cases hc : c < ' '
    · rw [if_pos hc]
      refine .code c hc ?_
      simp only [List.mem_cons, List.not_mem_nil, or_false, not_or]
      exact ⟨hne _ (by decide), hne _ (by decide), hne _ (by decide), hne _ (by decide),
        hne _ (by decide)⟩
    · rw [if_neg hc]
      exact .plain c (hne _ (by decide)) (hne _ (by decide)) (Char.not_lt.mp hc)

theorem stringText_quoted (s : String) : StringText s (quoted s) := by
  rw [quoted, List.flatMap_def]
  refine .mk s (s.toList.map escape) ?_
  rw [List.forall₂_map_right_iff]
  exact List.forall₂_same.mpr fun c _ => charText_escape c

theorem stringTexts_quoted (members : List (String × Json)) :
    List.Forall₂ StringText (members.map (·.1)) (members.map fun m => quoted m.1) := by
  rw [List.forall₂_map_left_iff, List.forall₂_map_right_iff]
  exact List.forall₂_same.mpr fun m _ => stringText_quoted m.1

theorem itemChars_eq (items : List Json) :
    itemChars items = [','].intercalate (items.map chars) := by
  induction items with
  | nil => rfl
  | cons j rest ih =>
    cases rest with
    | nil => simp [itemChars]
    | cons k rest => simp [itemChars, ih, List.intercalate_cons_cons]

theorem memberChars_eq (members : List (String × Json)) :
    memberChars members =
      [','].intercalate (members.map fun m => quoted m.1 ++ ':' :: m.2.chars) := by
  induction members with
  | nil => rfl
  | cons m rest ih =>
    cases rest with
    | nil => simp [memberChars]
    | cons k rest => simp [memberChars, ih, List.intercalate_cons_cons]

mutual
theorem compact_chars : (j : Json) → Compact j j.chars
  | .null => .null
  | .bool false => .false
  | .bool true => .true
  | .int n => .int n
  | .double d =>
    .double d _ _ (Double.decimalText_chars Double.exponent_shortest) Double.nearestEven_shortest
  | .str s => .str s _ (stringText_quoted s)
  | .arr items => by
    rw [chars, itemChars_eq]
    exact .arr items _ (compact_items items)
  | .obj members => by
    rw [chars, memberChars_eq]
    have h := Compact.obj members _ _ (stringTexts_quoted members) (compact_members members)
    rwa [List.zipWith_map, List.zipWith_self] at h

theorem compact_items : (items : List Json) → List.Forall₂ Compact items (items.map chars)
  | [] => .nil
  | j :: rest => .cons (compact_chars j) (compact_items rest)

theorem compact_members : (members : List (String × Json)) →
    List.Forall₂ Compact (members.map (·.2)) (members.map fun m => m.2.chars)
  | [] => .nil
  | (_, j) :: rest => .cons (compact_chars j) (compact_members rest)
end

theorem compact_print (j : Json) : j.Compact j.print.toList := by
  rw [print, String.toList_ofList]
  exact compact_chars j

end Json

end NftLedger
