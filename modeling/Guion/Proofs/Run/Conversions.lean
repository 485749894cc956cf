import Mathlib
import Guion.Proofs.Number.ReadBack
import Guion.Run.Builtin

/-!
# Numbers to texts and back

A number that is converted to a text is found again if the text is converted to a number:
the text of a finite number is read back, no blanks stand around it, and what is read is a
number. An infinite number has a text too, but a word of the language that no number is
read from.
-/

namespace Guion

namespace Number

/-! ### Finite and infinite numbers -/

/-- The pattern of a number that is none lies above that of infinity, and no other does. -/
theorem infinity_lt_magnitude_iff {x : Float} : infinity < magnitude x ↔ x.isNaN := by
  rw [Float.isNaN_eq_decide_eq_nan, decide_eq_true_iff]
  constructor
  · intro above
    have valid := x.toModel.valid.eq_packedNaN
    have bound : x.toBits.toNat < 2 ^ 64 := x.toBits.toNat_lt
    change 0x7FF0000000000000 < x.toBits.toNat % 0x8000000000000000 at above
    have exponent : @Float.Model.UnpackedFloat.unpackExponent .binary64
        x.toBits.toBitVec = -1#_ := by
      apply BitVec.eq_of_toNat_eq
      rw [Float.Model.UnpackedFloat.unpackExponent_def, BitVec.extractLsb'_toNat,
        Nat.shiftRight_eq_div_pow]
      change x.toBits.toNat / 2 ^ 52 % 2 ^ 11 = 2047
      omega
    have mantissa : @Float.Model.UnpackedFloat.unpackMantissa .binary64
        x.toBits.toBitVec ≠ 0#_ := by
      intro zero
      have value := congrArg BitVec.toNat zero
      rw [Float.Model.UnpackedFloat.unpackMantissa_def, BitVec.extractLsb'_toNat,
        Nat.shiftRight_eq_div_pow] at value
      change x.toBits.toNat / 2 ^ 0 % 2 ^ 52 = 0 at value
      omega
    have bits : x.toBits = Float.nan.toBits := UInt64.eq_of_toBitVec_eq (valid exponent mantissa)
    rw [← Float.ofBits_toBits x, bits, Float.ofBits_toBits]
  · rintro rfl
    decide

/-- A number is finite or infinite. -/
theorem magnitude_eq_infinity {x : Float} (number : x.isNaN = false) (h : ¬IsFinite x) :
    magnitude x = infinity := by
  have le := mt infinity_lt_magnitude_iff.mp (Bool.eq_false_iff.mp number)
  exact le_antisymm (not_lt.mp le) (not_lt.mp h)

/-- The words for the infinite numbers. -/
theorem display_of_infinite {x : Float} (number : x.isNaN = false) (h : ¬IsFinite x) :
    display .value x = if isNegative x then "-Infinito" else "Infinito" := by
  have infinite := magnitude_eq_infinity number h
  have word : displayMagnitude .value infinity = "Infinito" := if_pos rfl
  rw [display, infinite, if_neg (lt_irrefl _), word]
  rfl

end Number

/-! ### Texts without blanks -/

theorem Text.trim_eq_self {text : List Char} (h : ∀ c ∈ text, isBlank c = false) :
    trim text = text := by
  have same {list : List Char} (h : ∀ c ∈ list, isBlank c = false) :
      list.dropWhile isBlank = list := by
    cases list with
    | nil => rfl
    | cons c list => rw [List.dropWhile_cons_of_neg (by simp [h c List.mem_cons_self])]
  rw [trim, same h, same fun c hc => h c (List.mem_reverse.mp hc), List.reverse_reverse]

theorem Text.not_isBlank_of_isDigit {c : Char} (h : c.isDigit) : isBlank c = false := by
  obtain ⟨low, high⟩ := Char.isDigit_iff_toNat.mp h
  have digits : ∀ n ≤ '9'.toNat, '0'.toNat ≤ n → isBlank (Char.ofNat n) = false := by decide
  have plain := digits c.toNat high low
  rwa [Char.ofNat_toNat] at plain

theorem Decimal.not_isBlank {text : List Char} (h : Decimal text) :
    ∀ c ∈ text, Text.isBlank c = false := by
  have digits {list : List Char} (h : isDigits list) : ∀ c ∈ list, Text.isBlank c = false :=
    fun c hc => Text.not_isBlank_of_isDigit ((isDigits_iff.mp h).2 c hc)
  cases h with
  | whole whole => exact digits whole
  | fraction whole more =>
      intro c hc
      rcases List.mem_append.mp hc with hc | hc
      · exact digits whole c hc
      rcases List.mem_cons.mp hc with rfl | hc
      · rfl
      · exact digits more c hc

theorem Numeral.not_isBlank {text : List Char} (h : Numeral text) :
    ∀ c ∈ text, Text.isBlank c = false := by
  cases h with
  | unsigned decimal => exact decimal.not_isBlank
  | negative decimal => exact List.forall_mem_cons.mpr ⟨rfl, decimal.not_isBlank⟩

theorem Numeral.ne_nil {text : List Char} (h : Numeral text) : text ≠ [] := by
  cases h with
  | unsigned decimal =>
      obtain ⟨c, more, rfl, -⟩ := decimal.first
      exact List.cons_ne_nil c more
  | negative => exact List.cons_ne_nil _ _

/-! ### The conversions -/

namespace Builtin

/-- What a source writes as a number is converted to the number that is read from it. -/
theorem numeral_eq {text : String} {x : Float} (written : Numeral text.toList)
    (reads : Number.read? text.toList = some x) (number : x.isNaN = false) :
    numeral text = .ok x := by
  have trimmed := Text.trim_eq_self written.not_isBlank
  rw [numeral, trimmed]
  split
  · next nothing => exact absurd nothing written.ne_nil
  · rw [reads]
    exact if_neg (Bool.eq_false_iff.mp number)

variable {ρ : Type} (range : ρ) (m : Machine ρ)

theorem call_toText (x : Float) :
    call range .toText [.number x] m = .ok (.text (Number.display .value x)) m :=
  rfl

theorem call_toNumber {text : String} {x : Float} (h : numeral text = .ok x) :
    call range .toNumber [.text text] m = .ok (.number x) m := by
  change Exec.bind (Effects.ofExcept range (numeral text)) _ m = _
  rw [h]
  rfl

theorem call_toNumber_refused {text : String} (h : numeral text = .error (.notANumeral text)) :
    call range .toNumber [.text text] m = .error ⟨range, .notANumeral text⟩ m := by
  change Exec.bind (Effects.ofExcept range (numeral text)) _ m = _
  rw [h]
  rfl

/-- The words for the infinite numbers are no numbers. -/
theorem numeral_infinite (negative : Bool) :
    numeral (if negative then "-Infinito" else "Infinito") =
      .error (.notANumeral (if negative then "-Infinito" else "Infinito")) := by
  cases negative with
  | false => rfl
  | true => rfl

end Builtin

/-- A number has a text. If it is finite, the text is converted to this number again, which
is equal to itself. The text of an infinite number is a word that is refused. -/
theorem toNumber_undoes_toText {ρ : Type} (range range' : ρ) (m m' : Machine ρ) {x : Float}
    (number : x.isNaN = false) :
    ∃ text, Builtin.call range .toText [.number x] m = .ok (.text text) m ∧
      (Number.IsFinite x →
        Builtin.call range' .toNumber [.text text] m' = .ok (.number x) m' ∧
          (Value.number x).equals (.number x)) ∧
      (¬Number.IsFinite x →
        text = (if Number.isNegative x then "-Infinito" else "Infinito") ∧
          Builtin.call range' .toNumber [.text text] m' =
            .error ⟨range', .notANumeral text⟩ m') := by
  refine ⟨Number.display .value x, Builtin.call_toText range m x, fun finite => ?_,
    fun infinite => ?_⟩
  · obtain ⟨written, reads⟩ := Number.display_reads .value finite
    have read := Builtin.numeral_eq written reads number
    have apart : x ≠ Float.nan := by
      rintro rfl
      exact absurd number (by decide)
    exact ⟨Builtin.call_toNumber range' m' read,
      Float.beq_iff_ne_nan_and_eq.mpr ⟨apart, apart, .inl rfl⟩⟩
  · have word := Number.display_of_infinite number infinite
    have refused := Builtin.numeral_infinite (Number.isNegative x)
    rw [← word] at refused
    exact ⟨word, Builtin.call_toNumber_refused range' m' refused⟩

/-- The smallest number above zero is found again behind all its zeros. -/
theorem toNumber_undoes_toText_smallest :
    (Float.ofBits 1).isNaN = false ∧
      ∃ text, Builtin.call () .toText [.number (Float.ofBits 1)] (.initial none) =
          .ok (.text text) (.initial none) ∧
        Builtin.call () .toNumber [.text text] (.initial none) =
          .ok (.number (Float.ofBits 1)) (.initial none) := by
  have number : (Float.ofBits 1).isNaN = false := by decide
  have finite : Number.IsFinite (Float.ofBits 1) := by decide
  obtain ⟨text, toText, toNumber, -⟩ :=
    toNumber_undoes_toText () () (.initial none) (.initial none) number
  exact ⟨number, text, toText, (toNumber finite).1⟩

/-- Infinity is not found again. -/
theorem toNumber_refuses_infinity :
    ¬∀ x : Float, x.isNaN = false →
      ∃ text y, Builtin.call () .toText [.number x] (.initial none) =
          .ok (.text text) (.initial none) ∧
        Builtin.call () .toNumber [.text text] (.initial none) =
          .ok (.number y) (.initial none) ∧
        (Value.number y).equals (.number x) := by
  intro undone
  have number : (Float.ofBits 0x7FF0000000000000).isNaN = false := by decide
  obtain ⟨text, y, toText, toNumber, -⟩ := undone (Float.ofBits 0x7FF0000000000000) number
  have word : Number.display .value (Float.ofBits 0x7FF0000000000000) = "Infinito" := rfl
  rw [Builtin.call_toText, word] at toText
  cases toText
  have refused := Builtin.call_toNumber_refused () (.initial none) (Builtin.numeral_infinite false)
  cases refused.symm.trans toNumber

end Guion
