import Mathlib.Algebra.Order.Field.Basic
import Mathlib.Data.Nat.Cast.Order.Field
import Mathlib.Tactic.FieldSimp
import Mathlib.Tactic.Linarith
import Mathlib.Tactic.Positivity
import Mathlib.Tactic.Ring
import NftLedger.Double.Rounding
import NftLedger.Double.Shortest

namespace NftLedger.Double

variable {d other : Double}

theorem scaled_eq (d : Double) : d.scaled = d.significand * 2 ^ d.shift := rfl

theorem two_pow_pred {k : Nat} (h : 0 < k) : 2 * 2 ^ (k - 1) = 2 ^ k := by
  rw [← Nat.pow_succ', Nat.succ_eq_add_one, Nat.sub_add_cancel h]

theorem scaled_add_le_of_shift_lt (h : other.Canonical) {k : Nat} (hk : other.shift < k) :
    other.scaled + 2 ^ (k - 1) ≤ 2 ^ 52 * 2 ^ k := by
  have hpow : 2 ^ other.shift ≤ 2 ^ (k - 1) := Nat.pow_le_pow_right (by decide) (by omega)
  have hs : other.significand ≤ 2 ^ 53 - 1 := Nat.le_pred_of_lt h.1
  have hmul : other.scaled ≤ (2 ^ 53 - 1) * 2 ^ (k - 1) := Nat.mul_le_mul hs hpow
  rw [← two_pow_pred (Nat.zero_lt_of_lt hk)]
  omega

theorem scaled_of_shift_le {k : Nat} (hk : k ≤ other.shift) :
    ∃ n, other.scaled = n * 2 ^ k := by
  refine ⟨other.significand * 2 ^ (other.shift - k), ?_⟩
  rw [scaled_eq, Nat.mul_assoc, ← Nat.pow_add, Nat.sub_add_cancel hk]

theorem two_pow_52_le (hd : d.Canonical) (h : other.shift < d.shift) : 2 ^ 52 ≤ d.significand :=
  hd.2.resolve_left (Nat.ne_zero_of_lt h)

theorem scaled_add_le (hd : d.Canonical) (ho : other.Canonical) (h : d.scaled < other.scaled) :
    d.scaled + 2 ^ d.shift ≤ other.scaled := by
  by_cases hk : d.shift ≤ other.shift
  · obtain ⟨n, hn⟩ := scaled_of_shift_le hk
    rw [hn, scaled_eq] at h ⊢
    rw [← Nat.succ_mul]
    exact Nat.mul_le_mul_right _ (Nat.lt_of_mul_lt_mul_right h)
  · have hlt := Nat.lt_of_not_le hk
    have hother := scaled_add_le_of_shift_lt ho hlt
    have hle : 2 ^ 52 * 2 ^ d.shift ≤ d.scaled := Nat.mul_le_mul_right _ (two_pow_52_le hd hlt)
    exact absurd h (Nat.not_lt_of_le ((Nat.le_of_add_right_le hother).trans hle))

theorem scaled_add_below_le (hd : d.Canonical) (ho : other.Canonical)
    (h : other.scaled < d.scaled) : 2 * other.scaled + d.below * 2 ^ d.shift ≤ 2 * d.scaled := by
  by_cases hk : d.shift ≤ other.shift
  · obtain ⟨n, hn⟩ := scaled_of_shift_le hk
    have hbelow : d.below * 2 ^ d.shift ≤ 2 * 2 ^ d.shift := by
      refine Nat.mul_le_mul_right _ ?_
      rw [below]
      split <;> decide
    have hle : (n + 1) * 2 ^ d.shift ≤ d.scaled := by
      rw [hn, scaled_eq] at h
      exact Nat.mul_le_mul_right _ (Nat.lt_of_mul_lt_mul_right h)
    rw [Nat.succ_mul] at hle
    omega
  · have hlt := Nat.lt_of_not_le hk
    have hother := scaled_add_le_of_shift_lt ho hlt
    have htwo := two_pow_pred (Nat.zero_lt_of_lt hlt)
    have hle := two_pow_52_le hd hlt
    rw [below]
    by_cases hs : d.significand = 2 ^ 52
    · rw [if_pos ⟨hs, Nat.ne_zero_of_lt hlt⟩, scaled_eq d, hs]
      omega
    · have hmore : (2 ^ 52 + 1) * 2 ^ d.shift ≤ d.scaled :=
        Nat.mul_le_mul_right _ (Nat.lt_of_le_of_ne hle (Ne.symm hs))
      rw [if_neg fun h => hs h.1]
      omega

theorem cast_scaled_add_le (hd : d.Canonical) (ho : other.Canonical) (h : d.scaled < other.scaled) :
    (d.scaled + 2 ^ d.shift : ℚ) ≤ other.scaled := by
  exact_mod_cast scaled_add_le hd ho h

theorem cast_scaled_add_below_le (hd : d.Canonical) (ho : other.Canonical)
    (h : other.scaled < d.scaled) :
    (2 * other.scaled + d.below * 2 ^ d.shift : ℚ) ≤ 2 * d.scaled := by
  exact_mod_cast scaled_add_below_le hd ho h

/-- Between the midpoints to the neighbours of the number, in units of the least positive one. The
midpoints count when the significand is even. -/
structure Within (d : Double) (y : ℚ) : Prop where
  low : 4 * d.scaled - d.below * 2 ^ d.shift ≤ 4 * y
  high : 4 * y ≤ 4 * d.scaled + 2 * 2 ^ d.shift
  strict (odd : d.significand % 2 ≠ 0) :
    4 * d.scaled - d.below * 2 ^ d.shift < 4 * y ∧ 4 * y < 4 * d.scaled + 2 * 2 ^ d.shift

theorem abs_sub_le_abs_sub_iff {a b y : ℚ} :
    |y - a| ≤ |y - b| ↔ 0 ≤ (b - a) * (a + b - 2 * y) := by
  have hsq : (y - b) ^ 2 - (y - a) ^ 2 = (b - a) * (a + b - 2 * y) := by ring
  rw [← sq_le_sq, ← sub_nonneg, hsq]

theorem abs_sub_lt_abs_sub_iff {a b y : ℚ} :
    |y - a| < |y - b| ↔ 0 < (b - a) * (a + b - 2 * y) := by
  have hsq : (y - b) ^ 2 - (y - a) ^ 2 = (b - a) * (a + b - 2 * y) := by ring
  rw [← sq_lt_sq, ← sub_pos, hsq]

theorem Within.abs_sub_le (hd : d.Canonical) (ho : other.Canonical) {y : ℚ} (h : d.Within y) :
    |y - d.scaled| ≤ |y - other.scaled| := by
  rcases lt_trichotomy d.scaled other.scaled with hlt | heq | hlt
  · have hgap := cast_scaled_add_le hd ho hlt
    have hlt' : (d.scaled : ℚ) < other.scaled := by exact_mod_cast hlt
    rw [abs_sub_le_abs_sub_iff]
    exact mul_nonneg (by linarith) (by linarith [h.high])
  · rw [heq]
  · have hgap := cast_scaled_add_below_le hd ho hlt
    have hlt' : (other.scaled : ℚ) < d.scaled := by exact_mod_cast hlt
    rw [abs_sub_le_abs_sub_iff]
    exact mul_nonneg_of_nonpos_of_nonpos (by linarith) (by linarith [h.low])

theorem Within.abs_sub_lt (hd : d.Canonical) (ho : other.Canonical) {y : ℚ} (h : d.Within y)
    (odd : d.significand % 2 ≠ 0) (hne : other.scaled ≠ d.scaled) :
    |y - d.scaled| < |y - other.scaled| := by
  obtain ⟨hlow, hhigh⟩ := h.strict odd
  rcases Nat.lt_or_gt_of_ne hne with hlt | hlt
  · have hgap := cast_scaled_add_below_le hd ho hlt
    have hlt' : (other.scaled : ℚ) < d.scaled := by exact_mod_cast hlt
    rw [abs_sub_lt_abs_sub_iff]
    exact mul_pos_of_neg_of_neg (by linarith) (by linarith)
  · have hgap := cast_scaled_add_le hd ho hlt
    have hlt' : (d.scaled : ℚ) < other.scaled := by exact_mod_cast hlt
    rw [abs_sub_lt_abs_sub_iff]
    exact mul_pos (by linarith) (by linarith)

theorem magnitude_eq (d : Double) : d.magnitude = d.scaled / 2 ^ 1074 := by
  rw [magnitude, scaled_eq, Nat.cast_mul, Nat.cast_pow, Nat.cast_ofNat]

theorem abs_sub_magnitude (d : Double) (y : ℚ) :
    |y / 2 ^ 1074 - d.magnitude| = |y - d.scaled| / 2 ^ 1074 := by
  rw [magnitude_eq, ← sub_div, abs_div, abs_of_pos (by positivity : (0 : ℚ) < 2 ^ 1074)]

theorem Within.nearestEven (hd : d.Canonical) {y : ℚ} (h : d.Within y) :
    d.NearestEven (y / 2 ^ 1074) where
  nearest other ho := by
    rw [abs_sub_magnitude, abs_sub_magnitude]
    exact div_le_div_of_nonneg_right (h.abs_sub_le hd ho) (by positivity)
  even other ho tie := by
    rw [abs_sub_magnitude, abs_sub_magnitude, div_left_inj' (by positivity)] at tie
    by_cases hsame : other.scaled = d.scaled
    · left
      rw [magnitude_eq, magnitude_eq, hsame]
    · right
      by_contra hodd
      exact absurd tie (h.abs_sub_lt hd ho hodd hsame).ne

theorem reads_of_onGrid? {exponent : Int} {result : Decimal}
    (h : d.onGrid? exponent = some result) :
    result.exponent = exponent ∧ d.reads exponent result.digits = true := by
  rw [onGrid?] at h
  split at h
  next hk hk' =>
    cases h
    refine ⟨rfl, ?_⟩
    dsimp only
    split
    · exact hk'
    · exact hk
  next hk _ =>
    cases h
    exact ⟨rfl, hk⟩
  next hk' =>
    cases h
    exact ⟨rfl, hk'⟩
  next => cases h

theorem pow_toNat (e : Int) : (10 : ℚ) ^ e.toNat = 10 ^ e * 10 ^ (-e).toNat := by
  have hten : (10 : ℚ) ≠ 0 := by norm_num
  rw [← zpow_natCast, ← zpow_natCast, ← zpow_add₀ hten]
  congr 1
  omega

theorem gridStep_eq (e : Int) (k : Nat) :
    (k * gridStep e : ℕ) = 4 * (k * 10 ^ e * 2 ^ 1074 : ℚ) * 10 ^ (-e).toNat := by
  have htwo : (2 : ℚ) ^ 1076 = 2 ^ 2 * 2 ^ 1074 := pow_add 2 2 1074
  simp only [gridStep, Nat.pow_eq]
  push_cast
  rw [pow_toNat, htwo]
  ring

theorem quarter_eq (d : Double) (e : Int) (n : Nat) :
    (n * d.quarter e : ℕ) = (n * 2 ^ d.shift : ℚ) * 10 ^ (-e).toNat := by
  simp only [quarter, Nat.pow_eq]
  push_cast
  ring

theorem le_of_scaled {m n : Nat} {x y c : ℚ} (hc : 0 < c) (hm : (m : ℚ) = x * c)
    (hn : (n : ℚ) = y * c) : (m ≤ n ↔ x ≤ y) ∧ (m < n ↔ x < y) := by
  rw [← Nat.cast_le (α := ℚ), ← Nat.cast_lt (α := ℚ), hm, hn]
  exact ⟨mul_le_mul_iff_of_pos_right hc, mul_lt_mul_iff_of_pos_right hc⟩

theorem below_le (d : Double) : d.below ≤ 2 := by
  rw [below]
  split <;> decide

theorem within_of_reads {e : Int} {k : Nat} (hpos : 0 < d.significand)
    (h : d.reads e k = true) : d.Within (k * 10 ^ e * 2 ^ 1074) := by
  have hc : (0 : ℚ) < 10 ^ (-e).toNat := by positivity
  have hbelow := below_le d
  have hlow : ((4 * d.significand - d.below) * d.quarter e : ℕ) =
      (4 * d.scaled - d.below * 2 ^ d.shift : ℚ) * 10 ^ (-e).toNat := by
    rw [quarter_eq, Nat.cast_sub (by omega), scaled_eq]
    push_cast
    ring
  have hhigh : ((4 * d.significand + 2) * d.quarter e : ℕ) =
      (4 * d.scaled + 2 * 2 ^ d.shift : ℚ) * 10 ^ (-e).toNat := by
    rw [quarter_eq, scaled_eq]
    push_cast
    ring
  obtain ⟨hlowLe, hlowLt⟩ := le_of_scaled hc hlow (gridStep_eq e k)
  obtain ⟨hhighLe, hhighLt⟩ := le_of_scaled hc (gridStep_eq e k) hhigh
  rw [reads] at h
  by_cases heven : d.significand % 2 = 0
  · simp only [if_pos heven, Bool.and_eq_true, decide_eq_true_eq, hlowLe, hhighLe] at h
    exact ⟨h.1, h.2, fun hodd => absurd heven hodd⟩
  · simp only [if_neg heven, Bool.and_eq_true, decide_eq_true_eq, hlowLt, hhighLt] at h
    exact ⟨h.1.le, h.2.le, fun _ => h⟩

theorem lt_pow_digitCount (n : Nat) : n < 10 ^ digitCount n :=
  (Nat.length_toDigits_le_iff (by decide) Nat.length_toDigits_pos).mp (Nat.le_refl _)

theorem pow_digitCount_pred_le {n : Nat} (h : 0 < n) : 10 ^ (digitCount n - 1) ≤ n := by
  by_cases hone : digitCount n = 1
  · rw [hone]
    exact h
  · have hpos : 0 < digitCount n := Nat.length_toDigits_pos
    have hlong : ¬ digitCount n ≤ digitCount n - 1 := by omega
    exact Nat.le_of_not_lt fun hlt =>
      hlong ((Nat.length_toDigits_le_iff (by decide) (by omega)).mpr hlt)

theorem pow_leadingExponent_le (hpos : 0 < d.scaled) :
    (10 : ℚ) ^ d.leadingExponent * 2 ^ 1074 ≤ d.scaled := by
  have hcast : (2 : ℚ) ^ 1074 = (2 ^ 1074 : ℕ) := by rw [Nat.cast_pow, Nat.cast_ofNat]
  have hunit : 0 < 2 ^ 1074 := Nat.two_pow_pos 1074
  rw [leadingExponent, Nat.pow_eq, hcast]
  -- what follows holds for any unit, and this one is too large to be computed with
  generalize 2 ^ 1074 = unit at hunit ⊢
  by_cases hlarge : unit ≤ d.scaled
  · have hle : 10 ^ (digitCount (d.scaled / unit) - 1) * unit ≤ d.scaled :=
      (Nat.mul_le_mul_right _ (pow_digitCount_pred_le (Nat.div_pos hlarge hunit))).trans
        (Nat.div_mul_le_self _ _)
    have hcount : 0 < digitCount (d.scaled / unit) := Nat.length_toDigits_pos
    have hexp : (digitCount (d.scaled / unit) - 1 : Int) =
        (digitCount (d.scaled / unit) - 1 : ℕ) := by omega
    rw [if_pos hlarge, hexp, zpow_natCast]
    exact_mod_cast hle
  · rw [if_neg hlarge, zpow_neg, zpow_natCast, inv_mul_le_iff₀ (by positivity)]
    have hlt : (unit - 1) / d.scaled < 10 ^ digitCount ((unit - 1) / d.scaled) :=
      lt_pow_digitCount _
    rw [Nat.div_lt_iff_lt_mul hpos] at hlt
    exact_mod_cast Nat.le_of_pred_lt hlt

/-- Decimals of seventeen digits lie dense. -/
theorem gridStep_le (hpos : 0 < d.scaled) :
    10 ^ 16 * gridStep (d.leadingExponent - 16) ≤
      4 * d.significand * d.quarter (d.leadingExponent - 16) := by
  have hc : (0 : ℚ) < 10 ^ (-(d.leadingExponent - 16)).toNat := by positivity
  have hten : (10 : ℚ) ^ 16 * 10 ^ (d.leadingExponent - 16) = 10 ^ d.leadingExponent := by
    rw [← zpow_natCast, ← zpow_add₀ (by norm_num), Nat.cast_ofNat, add_sub_cancel]
  refine ((le_of_scaled hc (gridStep_eq _ _) (quarter_eq _ _ _)).1).mpr ?_
  have hle := pow_leadingExponent_le hpos
  rw [← hten, scaled_eq] at hle
  generalize (2 : ℚ) ^ 1074 = unit at hle ⊢
  push_cast at hle ⊢
  linarith

theorem reads_of_lt {e : Int} {k : Nat}
    (hlow : (4 * d.significand - d.below) * d.quarter e < k * gridStep e)
    (hhigh : k * gridStep e < (4 * d.significand + 2) * d.quarter e) : d.reads e k = true := by
  rw [reads]
  split
  · simp [hlow.le, hhigh.le]
  · simp [hlow, hhigh]

theorem quarter_pos (d : Double) (e : Int) : 0 < d.quarter e :=
  Nat.mul_pos (Nat.two_pow_pos _) (Nat.pow_pos (by decide))

theorem gridStep_lt (hd : d.Canonical) {e : Int}
    (hfine : 10 ^ 16 * gridStep e ≤ 4 * d.significand * d.quarter e) :
    gridStep e < (d.below + 2) * d.quarter e := by
  have hs : d.significand ≤ 2 ^ 53 - 1 := Nat.le_pred_of_lt hd.1
  have hquarter := d.quarter_pos e
  have hmax : 4 * d.significand * d.quarter e ≤ 4 * (2 ^ 53 - 1) * d.quarter e :=
    Nat.mul_le_mul_right _ (Nat.mul_le_mul_left 4 hs)
  simp only [below, Nat.pow_eq]
  split
  next h =>
    rw [h.1] at hfine
    omega
  next => omega

theorem reads_or_reads_succ (hd : d.Canonical) (hpos : 0 < d.significand) {e : Int}
    (hfine : 10 ^ 16 * gridStep e ≤ 4 * d.significand * d.quarter e) :
    let k := 4 * d.significand * d.quarter e / gridStep e
    d.reads e k = true ∨ d.reads e (k + 1) = true := by
  intro k
  have hbelow := d.below_le
  have hquarter := d.quarter_pos e
  have hstep : 0 < gridStep e := Nat.mul_pos (Nat.pow_pos (by decide)) (Nat.pow_pos (by decide))
  have hnear := gridStep_lt hd hfine
  have hle : k * gridStep e ≤ 4 * d.significand * d.quarter e := Nat.div_mul_le_self _ _
  have hlt : 4 * d.significand * d.quarter e < gridStep e * (k + 1) := Nat.lt_mul_div_succ _ hstep
  have hlow : (4 * d.significand - d.below) * d.quarter e + d.below * d.quarter e =
      4 * d.significand * d.quarter e := by
    rw [← Nat.add_mul, Nat.sub_add_cancel (by omega)]
  rw [Nat.add_mul] at hnear
  rw [Nat.mul_add_one, Nat.mul_comm _ k] at hlt
  by_cases hk : (4 * d.significand - d.below) * d.quarter e < k * gridStep e
  · left
    apply reads_of_lt hk
    rw [Nat.add_mul]
    omega
  · right
    apply reads_of_lt
    · rw [Nat.add_one_mul k]
      omega
    · rw [Nat.add_one_mul k, Nat.add_mul]
      omega

theorem onGrid?_ne_none (hd : d.Canonical) (hpos : 0 < d.significand) {e : Int}
    (hfine : 10 ^ 16 * gridStep e ≤ 4 * d.significand * d.quarter e) : d.onGrid? e ≠ none := by
  have h := reads_or_reads_succ hd hpos hfine
  rw [onGrid?]
  split <;> simp_all

def Decimal.value (r : Decimal) : ℚ := r.digits * 10 ^ r.exponent

theorem within_of_onGrid? (hpos : 0 < d.significand) {e : Int} {r : Decimal}
    (h : d.onGrid? e = some r) : d.Within (r.value * 2 ^ 1074) := by
  obtain ⟨rfl, hreads⟩ := reads_of_onGrid? h
  exact within_of_reads hpos hreads

theorem value_carried {r : Decimal} {count : Nat} (hcount : 0 < count) (h : r.digits = 10 ^ count) :
    Decimal.value ⟨10 ^ (count - 1), r.exponent + 1⟩ = r.value := by
  obtain ⟨count, rfl⟩ := Nat.exists_eq_add_of_lt hcount
  rw [Decimal.value, Decimal.value, h, zpow_add_one₀ (by norm_num), Nat.add_sub_cancel]
  push_cast
  ring

/-- The search ends on a grid that holds a decimal, if there is one within reach. -/
theorem within_of_shortestFrom (hpos : 0 < d.significand) {leading : Int} {count fuel : Nat}
    (hcount : 0 < count)
    (h : ∃ more < fuel, d.onGrid? (leading + 1 - (count + more : Nat)) ≠ none) :
    d.Within ((d.shortestFrom leading count fuel).value * 2 ^ 1074) := by
  induction fuel generalizing count with
  | zero =>
    obtain ⟨more, hmore, -⟩ := h
    exact absurd hmore (Nat.not_lt_zero more)
  | succ fuel ih =>
    rw [shortestFrom]
    cases hgrid : d.onGrid? (leading + 1 - count) with
    | some r =>
      dsimp only
      have hwithin := within_of_onGrid? hpos hgrid
      split
      next hcarry => rwa [Nat.pow_eq, value_carried hcount hcarry]
      next => exact hwithin
    | none =>
      obtain ⟨more, hmore, hsome⟩ := h
      cases more with
      | zero => exact absurd hgrid hsome
      | succ more =>
        refine ih (Nat.succ_pos count) ⟨more, Nat.lt_of_succ_lt_succ hmore, ?_⟩
        rwa [Nat.succ_add_eq_add_succ]

theorem digits_pos_of_onGrid? (hpos : 0 < d.significand) {e : Int} {r : Decimal}
    (h : d.onGrid? e = some r) : 0 < r.digits := by
  obtain ⟨-, hreads⟩ := reads_of_onGrid? h
  have hbelow := d.below_le
  have hlow : 0 < (4 * d.significand - d.below) * d.quarter e :=
    Nat.mul_pos (by omega) (d.quarter_pos e)
  apply Nat.pos_of_ne_zero
  intro hzero
  rw [hzero, reads, Nat.zero_mul] at hreads
  split at hreads
  · simp [Nat.ne_of_gt hlow] at hreads
  · simp at hreads

theorem exponent_shortestFrom (hpos : 0 < d.significand) {leading : Int} {count fuel : Nat}
    (h : (d.shortestFrom leading count fuel).digits = 0) :
    (d.shortestFrom leading count fuel).exponent = 0 := by
  induction fuel generalizing count with
  | zero => rfl
  | succ fuel ih =>
    rw [shortestFrom] at h ⊢
    cases hgrid : d.onGrid? (leading + 1 - count) with
    | none =>
      rw [hgrid] at h
      exact ih h
    | some r =>
      rw [hgrid] at h
      have hdigits := digits_pos_of_onGrid? hpos hgrid
      have hpow : 0 < Nat.pow 10 (count - 1) := Nat.pow_pos (by decide)
      dsimp only at h
      split at h
      · exact absurd h hpow.ne'
      · exact absurd h hdigits.ne'

theorem exponent_shortest (h : d.shortest.digits = 0) : d.shortest.exponent = 0 := by
  rw [shortest] at h ⊢
  by_cases hzero : d.significand = 0
  · rw [if_pos hzero]
  · rw [if_neg hzero] at h ⊢
    exact exponent_shortestFrom (Nat.pos_of_ne_zero hzero) h

theorem nearestEven_zero (h : d.significand = 0) : d.NearestEven 0 := by
  have hzero : d.magnitude = 0 := by rw [magnitude, h, Nat.cast_zero, zero_mul, zero_div]
  constructor
  case nearest =>
    intro other _
    rw [hzero, sub_zero, abs_zero]
    exact abs_nonneg _
  case even => exact fun _ _ _ => .inr (by rw [h])

/-- The decimal printed for a number is nearest to that number and no other. -/
theorem nearestEven_shortest (hd : d.Canonical) : d.NearestEven d.shortest.value := by
  rw [shortest]
  by_cases hzero : d.significand = 0
  · have hvalue : Decimal.value ⟨0, 0⟩ = 0 := by rw [Decimal.value, Nat.cast_zero, zero_mul]
    rw [if_pos hzero, hvalue]
    exact nearestEven_zero hzero
  · have hpos := Nat.pos_of_ne_zero hzero
    have hscaled : 0 < d.scaled := Nat.mul_pos hpos (Nat.two_pow_pos _)
    have hgrid := onGrid?_ne_none hd hpos (gridStep_le hscaled)
    have hwithin : d.Within ((d.shortestFrom d.leadingExponent 1 17).value * 2 ^ 1074) := by
      refine within_of_shortestFrom hpos Nat.one_pos ⟨16, by decide, ?_⟩
      have hexp : d.leadingExponent + 1 - (1 + 16 : Nat) = d.leadingExponent - 16 := by omega
      rwa [hexp]
    have hnearest := hwithin.nearestEven hd
    rw [mul_div_cancel_right₀ _ (by positivity)] at hnearest
    rwa [if_neg hzero]

end NftLedger.Double
