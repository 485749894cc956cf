import Mathlib.Algebra.Order.Field.Power
import Mathlib.Tactic.FieldSimp
import Mathlib.Tactic.Linarith
import Mathlib.Tactic.NormNum
import Mathlib.Tactic.Positivity
import Mathlib.Tactic.Ring
import Guion.Number.Shortest

/-!
# The nearest pattern

The nearest pattern of a ratio is computed from its two numbers, but it depends on the ratio
only: numerator and denominator may both be multiplied. The exponent is the one that leaves a
significand of 53 bits, or the least there is; there is only one such exponent.
-/

namespace Guion.Number

/-! ### Ratios -/

theorem scale_pos {base num den : Nat} (hbase : 0 < base) (hden : 0 < den) (e : Int) :
    0 < (scale base num den e).2 := by
  cases e with
  | ofNat e => exact Nat.mul_pos hden (Nat.pow_pos hbase)
  | negSucc e => exact hden

/-- To scale a ratio is to divide it by a power. -/
theorem scale_value {base : Nat} (hbase : 0 < base) (num den : Nat) (e : Int) :
    ((scale base num den e).1 : ℚ) / (scale base num den e).2 = num / den / (base : ℚ) ^ e := by
  have nonzero : (base : ℚ) ≠ 0 := by exact_mod_cast hbase.ne'
  cases e with
  | ofNat e =>
      simp only [scale, Int.ofNat_eq_natCast, zpow_natCast, Nat.pow_eq]
      push_cast
      rw [div_div]
  | negSucc e =>
      simp only [scale, zpow_negSucc, Nat.pow_eq]
      push_cast
      rw [div_inv_eq_mul, mul_div_right_comm]

/-! ### The exponent of a ratio -/

/-- An exponent leaves a positive number with a significand of 53 bits, or it is the least and
leaves it with fewer. -/
structure Fits (q : ℚ) (e : Int) : Prop where
  least : leastExponent ≤ e
  upper : q < 2 ^ (e + 53)
  lower : e = leastExponent ∨ (2 : ℚ) ^ (e + 52) ≤ q

theorem Fits.le {q : ℚ} {e e' : Int} (h : Fits q e) (h' : Fits q e') : e' ≤ e := by
  by_contra less
  have apart : e' ≠ leastExponent := by
    have := h.least
    omega
  have above := h'.lower.resolve_left apart
  have order : (2 : ℚ) ^ (e + 53) ≤ 2 ^ (e' + 52) := zpow_le_zpow_right₀ (by norm_num) (by omega)
  exact absurd (h.upper.trans_le (order.trans above)) (lt_irrefl q)

theorem Fits.unique {q : ℚ} {e e' : Int} (h : Fits q e) (h' : Fits q e') : e = e' :=
  le_antisymm (h'.le h) (h.le h')

/-- The binary logarithms of two numbers tell their ratio up to a factor of four. -/
theorem ratio_bounds {num den : Nat} (hnum : num ≠ 0) (hden : den ≠ 0) :
    (2 : ℚ) ^ ((num.log2 : Int) - den.log2 - 1) < num / den ∧
      (num / den : ℚ) < 2 ^ ((num.log2 : Int) - den.log2 + 1) := by
  have two : (2 : ℚ) ≠ 0 := by norm_num
  have positive : (0 : ℚ) < den := by exact_mod_cast Nat.pos_of_ne_zero hden
  have numLower : (2 : ℚ) ^ (num.log2 : Int) ≤ num := by
    rw [zpow_natCast]
    exact_mod_cast Nat.log2_self_le hnum
  have numUpper : (num : ℚ) < 2 ^ ((num.log2 : Int) + 1) := by
    rw [← Nat.cast_succ, zpow_natCast]
    exact_mod_cast Nat.lt_log2_self
  have denLower : (2 : ℚ) ^ (den.log2 : Int) ≤ den := by
    rw [zpow_natCast]
    exact_mod_cast Nat.log2_self_le hden
  have denUpper : (den : ℚ) < 2 ^ ((den.log2 : Int) + 1) := by
    rw [← Nat.cast_succ, zpow_natCast]
    exact_mod_cast Nat.lt_log2_self
  constructor
  · rw [lt_div_iff₀ positive]
    calc (2 : ℚ) ^ ((num.log2 : Int) - den.log2 - 1) * den
        < 2 ^ ((num.log2 : Int) - den.log2 - 1) * 2 ^ ((den.log2 : Int) + 1) := by gcongr
      _ = 2 ^ (num.log2 : Int) := by
        rw [← zpow_add₀ two]
        congr 1
        omega
      _ ≤ num := numLower
  · rw [div_lt_iff₀ positive]
    calc (num : ℚ) < 2 ^ ((num.log2 : Int) + 1) := numUpper
      _ = 2 ^ ((num.log2 : Int) - den.log2 + 1) * 2 ^ (den.log2 : Int) := by
        rw [← zpow_add₀ two]
        congr 1
        omega
      _ ≤ 2 ^ ((num.log2 : Int) - den.log2 + 1) * den := by gcongr

/-- Whether a scaled ratio has a significand of at most 53 bits. -/
theorem scale_lt_iff (num : Nat) {den : Nat} (hden : 0 < den) (e : Int) :
    (scale 2 num den e).1 / (scale 2 num den e).2 < 2 * leadingBit ↔
      (num / den : ℚ) < 2 ^ (e + 53) := by
  have value := scale_value Nat.two_pos num den e
  have positive : 0 < (scale 2 num den e).2 := scale_pos Nat.two_pos hden e
  generalize scale 2 num den e = scaled at value positive
  obtain ⟨n, d⟩ := scaled
  have cast : (0 : ℚ) < d := by exact_mod_cast positive
  have power : (0 : ℚ) < 2 ^ e := by positivity
  have bits : ((2 * leadingBit : Nat) : ℚ) = 2 ^ (53 : Int) := by norm_num [leadingBit]
  calc n / d < 2 * leadingBit
      ↔ (n : ℚ) < (2 * leadingBit : Nat) * d := by
        rw [Nat.div_lt_iff_lt_mul positive]
        exact_mod_cast Iff.rfl
    _ ↔ (num / den : ℚ) / 2 ^ e < 2 ^ (53 : Int) := by
        rw [← div_lt_iff₀ cast, bits]
        exact value ▸ Iff.rfl
    _ ↔ (num / den : ℚ) < 2 ^ (e + 53) := by
        rw [div_lt_iff₀ power, ← zpow_add₀ two_ne_zero, add_comm]

theorem fits_exponentFor {num den : Nat} (hnum : num ≠ 0) (hden : den ≠ 0) :
    Fits (num / den) (exponentFor num den) := by
  obtain ⟨lower, upper⟩ := ratio_bounds hnum hden
  have mono {i j : Int} (le : i ≤ j) : (2 : ℚ) ^ i ≤ 2 ^ j :=
    zpow_le_zpow_right₀ (by norm_num) le
  unfold exponentFor
  simp only [scale_lt_iff num (Nat.pos_of_ne_zero hden)]
  generalize hguess : max ((num.log2 : Int) - den.log2 - 53) leastExponent = guess
  have least : leastExponent ≤ guess := by omega
  split
  · next small =>
    refine ⟨least, small, ?_⟩
    by_cases same : guess = leastExponent
    · exact .inl same
    · exact .inr ((mono (by omega)).trans lower.le)
  · next large =>
    rw [not_lt] at large
    -- the guess is not raised to the least exponent: the ratio would be too small
    have exact : guess = (num.log2 : Int) - den.log2 - 53 := by
      by_contra raised
      have order : (2 : ℚ) ^ ((num.log2 : Int) - den.log2 + 1) ≤ 2 ^ (guess + 53) :=
        mono (by omega)
      exact absurd (upper.trans_le (order.trans large)) (lt_irrefl _)
    refine ⟨by omega, upper.trans_le (mono (by omega)), .inr ?_⟩
    rwa [show guess + 1 + 52 = guess + 53 by ring]

/-! ### Rounding -/

theorem compare_mul (a b : Nat) {k : Nat} (hk : 0 < k) :
    compare (a * k) (b * k) = compare a b := by
  rcases Nat.lt_trichotomy a b with less | rfl | more
  · rw [Nat.compare_eq_lt.mpr less, Nat.compare_eq_lt.mpr (Nat.mul_lt_mul_of_pos_right less hk)]
  · rw [Nat.compare_eq_eq.mpr rfl, Nat.compare_eq_eq.mpr rfl]
  · rw [Nat.compare_eq_gt.mpr more, Nat.compare_eq_gt.mpr (Nat.mul_lt_mul_of_pos_right more hk)]

theorem roundHalfEven_mul (num den : Nat) {k : Nat} (hk : 0 < k) :
    roundHalfEven (num * k) (den * k) = roundHalfEven num den := by
  unfold roundHalfEven
  rw [Nat.mul_mod_mul_right, ← Nat.mul_assoc, compare_mul _ _ hk, Nat.mul_div_mul_right num den hk]

/-- Rounding depends on the ratio only. -/
theorem roundHalfEven_congr {num den num' den' : Nat} (hden : 0 < den) (hden' : 0 < den')
    (same : (num / den : ℚ) = num' / den') : roundHalfEven num den = roundHalfEven num' den' := by
  have cross : num * den' = num' * den := by
    have cast : (den : ℚ) ≠ 0 := by exact_mod_cast hden.ne'
    have cast' : (den' : ℚ) ≠ 0 := by exact_mod_cast hden'.ne'
    rw [div_eq_div_iff cast cast'] at same
    exact_mod_cast same
  rw [← roundHalfEven_mul num den hden', cross, Nat.mul_comm den, roundHalfEven_mul num' den' hden]

/-- The pattern of a positive ratio, by the exponent that fits it. -/
theorem nearest_of_fits {num den : Nat} (hnum : num ≠ 0) (hden : 0 < den) {e : Int}
    (fits : Fits (num / den) e) :
    nearest num den = min ((e - leastExponent).toNat * leadingBit +
      roundHalfEven (scale 2 num den e).1 (scale 2 num den e).2) infinity := by
  rw [nearest, if_neg hnum, (fits_exponentFor hnum hden.ne').unique fits]

/-- The nearest pattern depends on the ratio only. -/
theorem nearest_congr {num den num' den' : Nat} (hnum : num ≠ 0) (hden : 0 < den)
    (hden' : 0 < den') (same : (num / den : ℚ) = num' / den') :
    nearest num den = nearest num' den' := by
  have hnum' : num' ≠ 0 := by
    rintro rfl
    rw [Nat.cast_zero, zero_div, div_eq_zero_iff] at same
    rcases same with zero | zero
    · exact hnum (by exact_mod_cast zero)
    · exact hden.ne' (by exact_mod_cast zero)
  have fits := fits_exponentFor hnum hden.ne'
  rw [nearest_of_fits hnum hden fits, nearest_of_fits hnum' hden' (same ▸ fits)]
  congr 2
  refine roundHalfEven_congr (scale_pos Nat.two_pos hden _) (scale_pos Nat.two_pos hden' _) ?_
  rw [scale_value Nat.two_pos, scale_value Nat.two_pos, same]

theorem roundHalfEven_of_lt {num den : Nat} (h : 2 * num < den) : roundHalfEven num den = 0 := by
  have less : num < den := by omega
  have below : compare (2 * num) den = .lt := Nat.compare_eq_lt.mpr h
  simp [roundHalfEven, Nat.mod_eq_of_lt less, below, Nat.div_eq_of_lt less]

/-- A whole number is not rounded. -/
theorem roundHalfEven_mul_self (n : Nat) {den : Nat} (hden : 0 < den) :
    roundHalfEven (n * den) den = n := by
  have below : compare 0 den = .lt := Nat.compare_eq_lt.mpr hden
  simp [roundHalfEven, below, Nat.mul_div_cancel n hden]

/-- A ratio that is less than half of the least pattern is nearest to zero. -/
theorem nearest_eq_zero {num den : Nat} (hnum : num ≠ 0) (hden : 0 < den)
    (tiny : (num / den : ℚ) < 2 ^ (leastExponent - 1)) : nearest num den = 0 := by
  have fits : Fits (num / den) leastExponent :=
    ⟨le_refl _, tiny.trans_le (zpow_le_zpow_right₀ (by norm_num) (by omega)), .inl rfl⟩
  have value := scale_value Nat.two_pos num den leastExponent
  have positive : 0 < (scale 2 num den leastExponent).2 := scale_pos Nat.two_pos hden _
  rw [nearest_of_fits hnum hden fits]
  generalize scale 2 num den leastExponent = scaled at value positive ⊢
  obtain ⟨n, d⟩ := scaled
  have half : 2 * n < d := by
    have cast : (0 : ℚ) < d := by exact_mod_cast positive
    have power : (0 : ℚ) < 2 ^ leastExponent := by positivity
    have ratio : (n / d : ℚ) < 1 / 2 := by
      rw [zpow_sub_one₀ two_ne_zero, ← div_eq_mul_inv] at tiny
      rw [value, Nat.cast_two, div_lt_iff₀ power]
      linarith
    rw [div_lt_iff₀ cast] at ratio
    have double : (2 * n : ℚ) < d := by linarith
    exact_mod_cast double
  rw [roundHalfEven_of_lt half]
  simp

/-! ### Patterns are nearest to themselves -/

theorem significand_lt (bits : Nat) : significand bits < 2 * leadingBit := by
  have := Nat.mod_lt bits (show 0 < leadingBit by decide)
  unfold significand
  split <;> omega

theorem leastExponent_le_exponent (bits : Nat) : leastExponent ≤ exponent bits := by
  unfold exponent
  split <;> omega

/-- A pattern is its exponent, counted from the least, and its significand. -/
theorem pattern_eq (bits : Nat) :
    (exponent bits - leastExponent).toNat * leadingBit + significand bits = bits := by
  unfold exponent significand
  split
  · simp
  · next large =>
    rw [not_lt] at large
    have whole := Nat.div_add_mod bits leadingBit
    have first : 1 ≤ bits / leadingBit := (Nat.one_le_div_iff (by decide)).mpr large
    have shifted : (leastExponent + (bits / leadingBit - 1 : Nat) - leastExponent).toNat =
        bits / leadingBit - 1 := by omega
    rw [shifted, ← Nat.add_assoc, Nat.sub_one_mul,
      Nat.sub_add_cancel (Nat.le_mul_of_pos_left _ first), Nat.mul_comm, whole]

theorem fits_exponent (bits : Nat) :
    Fits (significand bits * 2 ^ exponent bits) (exponent bits) where
  least := leastExponent_le_exponent bits
  upper := by
    have small : (significand bits : ℚ) < 2 ^ (53 : Int) := by
      have cast : (significand bits : ℚ) < (2 * leadingBit : Nat) := by
        exact_mod_cast significand_lt bits
      exact cast.trans_eq (by norm_num [leadingBit])
    rw [zpow_add₀ two_ne_zero, mul_comm]
    gcongr
  lower := by
    by_cases few : bits < leadingBit
    · left
      rw [exponent, if_pos few]
    · right
      have large : (2 : ℚ) ^ (52 : Int) ≤ significand bits := by
        have cast : (leadingBit : ℚ) ≤ significand bits := by
          rw [significand, if_neg few]
          exact_mod_cast Nat.le_add_right _ _
        exact (by norm_num [leadingBit] : (2 : ℚ) ^ (52 : Int) = leadingBit).trans_le cast
      rw [zpow_add₀ two_ne_zero, mul_comm]
      gcongr

/-- A ratio that is the value of a finite pattern is nearest to that pattern. -/
theorem nearest_ratio {bits num den : Nat} (finite : bits < infinity) (hnum : num ≠ 0)
    (hden : 0 < den) (value : (num / den : ℚ) = significand bits * 2 ^ exponent bits) :
    nearest num den = bits := by
  have scaled := scale_value Nat.two_pos num den (exponent bits)
  have positive : 0 < (scale 2 num den (exponent bits)).2 := scale_pos Nat.two_pos hden _
  rw [nearest_of_fits hnum hden (value ▸ fits_exponent bits)]
  generalize scale 2 num den (exponent bits) = ratio at scaled positive ⊢
  obtain ⟨n, d⟩ := ratio
  have exact : n = significand bits * d := by
    have cast : (d : ℚ) ≠ 0 := by exact_mod_cast positive.ne'
    have power : (2 : ℚ) ^ exponent bits ≠ 0 := by positivity
    rw [value, Nat.cast_two, mul_div_cancel_right₀ _ power, div_eq_iff cast] at scaled
    exact_mod_cast scaled
  rw [exact, roundHalfEven_mul_self _ positive, pattern_eq, Nat.min_eq_left finite.le]

end Guion.Number
