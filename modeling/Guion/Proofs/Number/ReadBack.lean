import Mathlib
import Guion.Number.Display
import Guion.Proofs.Number.Nearest
import Guion.Proofs.Token.Numbers

/-!
# Numbers read back from their texts

The text of a finite number is a decimal that was found to lead back to the number, or else
the full expansion of the number, which leads back because it is exact. Written positionally
it may gain zeros behind it, and lose zeros at its end; neither changes its value, and only
its value decides which number is read.
-/

namespace Guion.Number

/-! ### Decimals -/

/-- A negative power of ten is at most that of eight. -/
theorem ten_zpow_le {e : Int} (negative : e ≤ 0) : (10 : ℚ) ^ e ≤ 2 ^ (3 * e) := by
  obtain ⟨n, rfl⟩ := Int.exists_eq_neg_ofNat negative
  have eight : (2 : ℚ) ^ (3 * -(n : Int)) = (8 ^ n)⁻¹ := by
    rw [mul_neg, zpow_neg, zpow_mul, zpow_natCast]
    norm_num
  rw [eight, zpow_neg, zpow_natCast]
  gcongr
  norm_num

/-- The decimals that are decided without a ratio are too small for any other pattern than
zero. -/
theorem decimal_lt {digits : Nat} {e : Int} (tiny : e < -(400 + digits.log2)) :
    (digits * 10 ^ e : ℚ) < 2 ^ (leastExponent - 1) := by
  have bound : (digits : ℚ) < 2 ^ ((digits.log2 : Int) + 1) := by
    rw [← Nat.cast_succ, zpow_natCast]
    exact_mod_cast Nat.lt_log2_self
  have power : (0 : ℚ) < 2 ^ (3 * e) := by positivity
  calc (digits * 10 ^ e : ℚ) ≤ digits * 2 ^ (3 * e) := by
        gcongr
        exact ten_zpow_le (by omega)
    _ < 2 ^ ((digits.log2 : Int) + 1) * 2 ^ (3 * e) := by gcongr
    _ = 2 ^ ((digits.log2 : Int) + 1 + 3 * e) := (zpow_add₀ two_ne_zero _ _).symm
    _ ≤ 2 ^ (leastExponent - 1) := zpow_le_zpow_right₀ (by norm_num) (by
        have : leastExponent = -1074 := rfl
        omega)

/-- The ratio that a decimal is turned into has its value. -/
theorem scale_decimal (digits : Nat) (e : Int) :
    0 < (scale 10 digits 1 (-e)).2 ∧
      ((scale 10 digits 1 (-e)).1 / (scale 10 digits 1 (-e)).2 : ℚ) = digits * 10 ^ e := by
  refine ⟨scale_pos (by decide) Nat.one_pos _, ?_⟩
  rw [scale_value (by decide), zpow_neg, div_inv_eq_mul, Nat.cast_one, div_one, Nat.cast_ofNat]

/-- The pattern nearest to a decimal is that of any ratio with the same value. -/
theorem nearestDecimal_eq {digits : Nat} {e : Int} (nonzero : digits ≠ 0) (small : e ≤ 310)
    {num den : Nat} (hnum : num ≠ 0) (hden : 0 < den)
    (value : (num / den : ℚ) = digits * 10 ^ e) : nearestDecimal digits e = nearest num den := by
  unfold nearestDecimal
  rw [if_neg nonzero, if_neg (by omega)]
  split
  · next tiny =>
    exact (nearest_eq_zero hnum hden (value ▸ decimal_lt tiny)).symm
  · obtain ⟨positive, scaled⟩ := scale_decimal digits e
    exact (nearest_congr hnum hden positive (value.trans scaled.symm)).symm

/-- Only the value of a decimal decides which pattern is nearest. -/
theorem nearestDecimal_congr {digits digits' : Nat} {e e' : Int} (nonzero : digits ≠ 0)
    (small : e ≤ 310) (small' : e' ≤ 310)
    (value : (digits * 10 ^ e : ℚ) = digits' * 10 ^ e') :
    nearestDecimal digits e = nearestDecimal digits' e' := by
  have valued : (digits * 10 ^ e : ℚ) ≠ 0 :=
    mul_ne_zero (by exact_mod_cast nonzero) (zpow_ne_zero _ (by norm_num))
  have nonzero' : digits' ≠ 0 := by
    rintro rfl
    exact valued (value.trans (by simp))
  obtain ⟨positive, scaled⟩ := scale_decimal digits e
  generalize scale 10 digits 1 (-e) = ratio at positive scaled
  obtain ⟨num, den⟩ := ratio
  have hnum : num ≠ 0 := by
    rintro rfl
    exact valued (scaled.symm.trans (by simp))
  rw [nearestDecimal_eq nonzero small hnum positive scaled,
    nearestDecimal_eq nonzero' small' hnum positive (scaled.trans value)]

/-! ### The shortest decimal leads back -/

theorem decimalWith?_readsAs {bits num den count : Nat} {d : Decimal}
    (h : decimalWith? bits num den count = some d) : d.readsAs bits = true := by
  unfold decimalWith? at h
  simp only at h
  split at h
  · next lower upper =>
    cases h
    split
    · exact lower
    · exact upper
  · next lower _ =>
    cases h
    exact lower
  · next _ upper =>
    cases h
    exact upper
  · cases h

theorem ratio_value (bits : Nat) :
    ((ratio bits).1 / (ratio bits).2 : ℚ) = significand bits * 2 ^ exponent bits := by
  rw [ratio, scale_value Nat.two_pos, zpow_neg]
  simp

theorem exactDecimal_value (bits : Nat) :
    ((exactDecimal bits).digits * 10 ^ (exactDecimal bits).exponent : ℚ) =
      significand bits * 2 ^ exponent bits := by
  unfold exactDecimal
  split
  · next e same =>
    rw [same]
    simp
  · next e same =>
    rw [same]
    have ten : (10 : ℚ) = 2 * 5 := by norm_num
    simp only [zpow_negSucc, ten, Nat.pow_eq]
    push_cast
    field_simp
    rw [mul_pow]
    ring

theorem significand_ne_zero {bits : Nat} (h : bits ≠ 0) : significand bits ≠ 0 := by
  have : 0 < leadingBit := by decide
  unfold significand
  split <;> omega

/-- The full expansion of a pattern leads back to it, because it is exact. -/
theorem exactDecimal_readsAs {bits : Nat} (nonzero : bits ≠ 0) (finite : bits < infinity) :
    (exactDecimal bits).readsAs bits = true := by
  have value : (significand bits * 2 ^ exponent bits : ℚ) ≠ 0 :=
    mul_ne_zero (by exact_mod_cast significand_ne_zero nonzero) (zpow_ne_zero _ two_ne_zero)
  have exact := exactDecimal_value bits
  have ratioValue := ratio_value bits
  have digits : (exactDecimal bits).digits ≠ 0 := by
    intro zero
    rw [zero] at exact
    exact value (exact.symm.trans (by simp))
  have small : (exactDecimal bits).exponent ≤ 310 := by
    unfold exactDecimal
    split
    · exact Int.natCast_nonneg 310
    · exact (Int.negSucc_lt_zero _).le.trans (Int.natCast_nonneg 310)
  have hden : 0 < (ratio bits).2 := scale_pos Nat.two_pos Nat.one_pos _
  have hnum : (ratio bits).1 ≠ 0 := by
    intro zero
    rw [zero] at ratioValue
    exact value (ratioValue.symm.trans (by simp))
  rw [Decimal.readsAs, decide_eq_true_iff,
    nearestDecimal_eq digits small hnum hden (ratioValue.trans exact.symm)]
  exact nearest_ratio finite hnum hden ratioValue

/-- The shortest decimal of a positive finite pattern leads back to it. -/
theorem shortest_readsAs {bits : Nat} (nonzero : bits ≠ 0) (finite : bits < infinity) :
    (shortest bits).readsAs bits = true := by
  unfold shortest
  simp only
  generalize hfound : (List.range 17).findSome? _ = found
  cases found with
  | none => exact exactDecimal_readsAs nonzero finite
  | some d =>
      obtain ⟨i, -, hd⟩ := List.exists_of_findSome?_eq_some hfound
      exact decimalWith?_readsAs hd

/-- A decimal that leads to a pattern other than zero and infinity is not zero, and not too large
to be computed. -/
theorem Decimal.bounds {d : Decimal} {bits : Nat} (nonzero : bits ≠ 0) (finite : bits < infinity)
    (h : d.readsAs bits = true) : d.digits ≠ 0 ∧ d.exponent ≤ 310 := by
  rw [readsAs, decide_eq_true_iff] at h
  unfold nearestDecimal at h
  constructor
  · intro zero
    rw [if_pos zero] at h
    exact nonzero h.symm
  · by_contra large
    rw [if_pos (not_le.mp large)] at h
    split at h
    · exact nonzero h.symm
    · exact absurd h finite.ne'

/-! ### Positional texts -/

theorem ofDigits_eq (digits : List Char) : ofDigits digits = Nat.ofDigitChars 10 digits 0 :=
  ofDigits_eq_foldl digits

/-- Each zero at the end makes a number ten times as large. -/
theorem ofDigits_append_zeros (digits : List Char) (k : Nat) :
    ofDigits (digits ++ List.replicate k '0') = 10 ^ k * ofDigits digits := by
  rw [ofDigits_eq, ofDigits_eq, Nat.ofDigitChars_append, Nat.ofDigitChars_replicate_zero]

/-- Zeros before a number make no difference. -/
theorem ofDigits_zeros_append (k : Nat) (digits : List Char) :
    ofDigits (List.replicate k '0' ++ digits) = ofDigits digits := by
  rw [ofDigits_eq, ofDigits_eq, Nat.ofDigitChars_append, Nat.ofDigitChars_replicate_zero,
    Nat.mul_zero]

theorem ofDigits_toDigits (n : Nat) : ofDigits (Nat.toDigits 10 n) = n := by
  rw [ofDigits_eq, Nat.ofDigitChars_ten_toDigits]

/-- What is left of a list without the zeros at its end, and these zeros. -/
theorem exists_zeros (list : List Char) :
    ∃ k, list = (list.reverse.dropWhile (· == '0')).reverse ++ List.replicate k '0' := by
  have whole := congrArg List.reverse
    (List.takeWhile_append_dropWhile (p := (· == '0')) (l := list.reverse))
  rw [List.reverse_append, List.reverse_reverse] at whole
  refine ⟨(list.reverse.takeWhile (· == '0')).length, ?_⟩
  have zeros : (list.reverse.takeWhile (· == '0')).reverse =
      List.replicate (list.reverse.takeWhile (· == '0')).length '0' := by
    refine List.eq_replicate_iff.mpr ⟨List.length_reverse, fun c hc => ?_⟩
    have taken : c ∈ list.reverse.takeWhile (· == '0') := List.mem_reverse.mp hc
    exact eq_of_beq (List.mem_takeWhile_imp (p := (· == '0')) taken)
  rw [← zeros, whole]

/-- Digits around a point. The zeros at the end may be left out, and the point with them. -/
theorem pointed_reads {whole more shown : List Char} (hwhole : isDigits whole)
    (hmore : ∀ c ∈ more, c.isDigit) (nonzero : ofDigits (whole ++ more) ≠ 0)
    (hshown : shown = more.reverse.dropWhile (· == '0')) :
    let text := if shown.isEmpty then whole else whole ++ '.' :: shown.reverse
    Guion.Decimal text ∧
      readDecimal? text = some (nearestDecimal (ofDigits (whole ++ more)) (-more.length)) := by
  obtain ⟨k, zeros⟩ := exists_zeros more
  rw [← hshown] at zeros
  have same : nearestDecimal (ofDigits (whole ++ more)) (-more.length) =
      nearestDecimal (ofDigits (whole ++ shown.reverse)) (-shown.length) := by
    refine nearestDecimal_congr nonzero (by omega) (by omega) ?_
    rw [zeros, ← List.append_assoc, ofDigits_append_zeros, List.length_append,
      List.length_replicate, List.length_reverse]
    push_cast
    rw [neg_add, zpow_add₀ (by norm_num), zpow_neg _ (k : Int), zpow_natCast]
    field_simp
  rw [same]
  cases shown with
  | nil =>
      simp only [List.isEmpty_nil, if_true, List.reverse_nil, List.append_nil, List.length_nil]
      exact ⟨.whole hwhole, readDecimal?_whole hwhole⟩
  | cons c rest =>
      have fraction : isDigits (c :: rest).reverse := by
        refine isDigits_iff.mpr ⟨by simp, fun d hd => hmore d ?_⟩
        rw [zeros]
        exact List.mem_append_left _ hd
      simp only [List.isEmpty_cons, Bool.false_eq_true, if_false]
      rw [readDecimal?_fraction hwhole fraction, List.length_reverse]
      exact ⟨.fraction hwhole fraction, rfl⟩

/-- The last of some digits stand behind a point, but not all of them. -/
theorem divided_reads {digits : List Char} {places : Nat} (all : ∀ c ∈ digits, c.isDigit)
    (long : places < digits.length) (nonzero : ofDigits digits ≠ 0) :
    let whole := digits.take (digits.length - places)
    let shown := (digits.drop (digits.length - places)).reverse.dropWhile (· == '0')
    let text := if shown.isEmpty then whole else whole ++ '.' :: shown.reverse
    Guion.Decimal text ∧ readDecimal? text = some (nearestDecimal (ofDigits digits) (-places)) := by
  have hwhole : isDigits (digits.take (digits.length - places)) := by
    refine isDigits_iff.mpr ⟨List.ne_nil_of_length_pos ?_, fun c hc => ?_⟩
    · rw [List.length_take]
      omega
    · exact all c (List.mem_of_mem_take hc)
  have hmore : ∀ c ∈ digits.drop (digits.length - places), c.isDigit :=
    fun c hc => all c (List.mem_of_mem_drop hc)
  have count : (digits.drop (digits.length - places)).length = places := by
    rw [List.length_drop]
    omega
  have reads := pointed_reads hwhole hmore (by rwa [List.take_append_drop]) rfl
  rwa [List.take_append_drop, count] at reads

theorem isDigit_of_mem_zeros {k : Nat} : ∀ c ∈ List.replicate k '0', c.isDigit := by
  intro c hc
  rw [List.eq_of_mem_replicate hc]
  rfl

theorem isDigits_toDigits (n : Nat) : isDigits (Nat.toDigits 10 n) := by
  refine isDigits_iff.mpr ⟨Nat.toDigits_ne_nil, fun c hc => ?_⟩
  exact Nat.isDigit_of_mem_toDigits (by decide) (by decide) hc

/-- A decimal written positionally is a number of a source, and it is read as this decimal. -/
theorem positional_reads {d : Decimal} (nonzero : d.digits ≠ 0) (small : d.exponent ≤ 310) :
    Guion.Decimal d.positional ∧
      readDecimal? d.positional = some (nearestDecimal d.digits d.exponent) := by
  obtain ⟨n, e⟩ := d
  obtain ⟨nonempty, digits⟩ := isDigits_iff.mp (isDigits_toDigits n)
  cases e with
  | ofNat e =>
      have all : isDigits (Nat.toDigits 10 n ++ List.replicate e '0') := by
        refine isDigits_iff.mpr ⟨by simp [nonempty], ?_⟩
        exact List.forall_mem_append.mpr ⟨digits, isDigit_of_mem_zeros⟩
      refine ⟨.whole all, ?_⟩
      rw [Decimal.positional, readDecimal?_whole all, ofDigits_append_zeros, ofDigits_toDigits]
      congr 1
      refine nearestDecimal_congr ?_ (by omega) small ?_
      · exact Nat.mul_ne_zero (by positivity) nonzero
      · simp [mul_comm]
  | negSucc e =>
      have reads := @divided_reads
        (List.replicate (e + 1 + 1 - (Nat.toDigits 10 n).length) '0' ++ Nat.toDigits 10 n) (e + 1)
      rw [ofDigits_zeros_append, ofDigits_toDigits] at reads
      refine reads (List.forall_mem_append.mpr ⟨isDigit_of_mem_zeros, digits⟩) ?_ nonzero
      rw [List.length_append, List.length_replicate]
      omega

/-! ### Numbers -/

/-- A number that is not infinite, and a number at all. -/
def IsFinite (x : Float) : Prop := magnitude x < infinity

instance (x : Float) : Decidable (IsFinite x) := inferInstanceAs (Decidable (_ < _))

/-- The text of a finite pattern is a number of a source, and it is read as this pattern. -/
theorem displayMagnitude_reads (style : Style) {bits : Nat} (finite : bits < infinity) :
    Guion.Decimal (displayMagnitude style bits).toList ∧
      readDecimal? (displayMagnitude style bits).toList = some bits := by
  unfold displayMagnitude
  rw [if_neg finite.ne]
  split
  · next zero =>
    have digit : isDigits "0".toList := rfl
    refine ⟨.whole digit, ?_⟩
    rw [readDecimal?_whole digit, zero]
    rfl
  · next nonzero =>
    have leads := shortest_readsAs nonzero finite
    obtain ⟨digits, small⟩ := Decimal.bounds nonzero finite leads
    have reads := positional_reads digits small
    rw [Decimal.readsAs, decide_eq_true_iff] at leads
    rwa [leads, ← String.toList_ofList (l := (shortest bits).positional)] at reads

/-- A number is its sign and its pattern. -/
theorem ofMagnitude_magnitude (x : Float) : ofMagnitude (isNegative x) (magnitude x) = x := by
  have bound : x.toBits.toNat < 2 * signBit := x.toBits.toNat_lt
  have bits : (if isNegative x then signBit + magnitude x else magnitude x) = x.toBits.toNat := by
    by_cases large : signBit ≤ x.toBits.toNat
    · rw [isNegative, if_pos (decide_eq_true large), magnitude, Nat.mod_eq_sub_mod large,
        Nat.mod_eq_of_lt (by omega), Nat.add_sub_cancel' large]
    · rw [isNegative, if_neg (by rwa [decide_eq_true_iff]), magnitude,
        Nat.mod_eq_of_lt (not_le.mp large)]
  rw [ofMagnitude, bits, UInt64.ofNat_toNat, Float.ofBits_toBits]

/-- A finite number has a text that is a number of a source, and it is read as this number. -/
theorem display_reads (style : Style) {x : Float} (finite : IsFinite x) :
    Numeral (display style x).toList ∧ read? (display style x).toList = some x := by
  obtain ⟨decimal, reads⟩ := displayMagnitude_reads style finite
  have same := ofMagnitude_magnitude x
  unfold display
  rw [if_neg (not_lt.mpr (Nat.le_of_lt finite))]
  cases sign : isNegative x with
  | false =>
      rw [sign] at same
      refine ⟨.unsigned decimal, ?_⟩
      simp [read?, splitSign_of_decimal decimal, reads, same]
  | true =>
      rw [sign] at same
      have minus : ("-" ++ displayMagnitude style (magnitude x)).toList =
          '-' :: (displayMagnitude style (magnitude x)).toList := String.toList_append
      rw [if_pos rfl, minus]
      refine ⟨.negative decimal, ?_⟩
      simp [read?, splitSign, reads, same]

end Guion.Number
