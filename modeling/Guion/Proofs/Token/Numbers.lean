import Mathlib.Data.List.TakeDrop
import Guion.Number.Reader
import Guion.Proofs.Token.Partition

/-!
# The numbers of a source can be read

The scanner makes numbers of digits only, maybe with a point between them and a minus sign in
front. All of these are numbers to the reader of numbers, so whatever stands in a source as a
number has a value.
-/

namespace Guion

/-- Digits make a text that is all taken, and nothing stands behind them. -/
theorem span_isDigit {digits rest : List Char} (all : ∀ c ∈ digits, c.isDigit)
    (stop : ∀ c ∈ rest.head?, c.isDigit = false) :
    (digits ++ rest).span Char.isDigit = (digits, rest) := by
  obtain ⟨taken, left⟩ := takeWhile_append_of_stop all rest stop
  rw [List.span_eq_takeWhile_dropWhile, taken, left]

/-- Digits are read as a whole number. -/
theorem readDecimal?_whole {digits : List Char} (h : isDigits digits) :
    Number.readDecimal? digits = some (Number.nearestDecimal (Number.ofDigits digits) 0) := by
  obtain ⟨some, digits'⟩ := isDigits_iff.mp h
  have split : (digits ++ []).span Char.isDigit = (digits, []) := span_isDigit digits' nofun
  rw [List.append_nil] at split
  unfold Number.readDecimal?
  rw [split]
  simp [Number.splitFraction, Number.readExponent?, some]

/-- Digits behind a point count as tenths, hundredths and so on. -/
theorem readDecimal?_fraction {digits more : List Char} (h : isDigits digits)
    (h' : isDigits more) :
    Number.readDecimal? (digits ++ '.' :: more) =
      some (Number.nearestDecimal (Number.ofDigits (digits ++ more)) (-more.length)) := by
  obtain ⟨some, hdigits⟩ := isDigits_iff.mp h
  obtain ⟨-, hmore⟩ := isDigits_iff.mp h'
  have split : (digits ++ '.' :: more).span Char.isDigit = (digits, '.' :: more) :=
    span_isDigit hdigits (by simp)
  have fraction : Number.splitFraction ('.' :: (more ++ [])) = (more, []) :=
    span_isDigit hmore nofun
  rw [List.append_nil] at fraction
  unfold Number.readDecimal?
  rw [split]
  simp [fraction, Number.readExponent?, some]

/-- A decimal is taken apart into its digits, and nothing is left for an exponent. -/
theorem readDecimal?_of_decimal {text : List Char} (h : Decimal text) :
    (Number.readDecimal? text).isSome := by
  cases h with
  | whole digits => rw [readDecimal?_whole digits, Option.isSome_some]
  | fraction digits more => rw [readDecimal?_fraction digits more, Option.isSome_some]

theorem splitSign_of_decimal {text : List Char} (h : Decimal text) :
    Number.splitSign text = (false, text) := by
  obtain ⟨c, more, rfl, digit⟩ := h.first
  have minus : c ≠ '-' := by
    rintro rfl
    cases digit
  have plus : c ≠ '+' := by
    rintro rfl
    cases digit
  unfold Number.splitSign
  split
  · next same => exact absurd (List.cons.inj same).1 minus
  · next same => exact absurd (List.cons.inj same).1 plus
  · rfl

/-- Every numeral is a number. -/
theorem read?_of_numeral {text : List Char} (h : Numeral text) :
    (Number.read? text).isSome := by
  have decimal {rest : List Char} (h : Decimal rest) {negative : Bool}
      (split : Number.splitSign text = (negative, rest)) : (Number.read? text).isSome := by
    unfold Number.read?
    rw [split]
    simp [readDecimal?_of_decimal h]
  cases h with
  | unsigned h => exact decimal h (splitSign_of_decimal h)
  | negative h => exact decimal h rfl

/-- A token is no number, or it is one that can be read. -/
def Token.HasValue {ρ : Type} (t : Token ρ) : Prop :=
  ∀ literal, t.lexeme = .number literal → (Number.read? literal.toList).isSome

theorem Tiles.hasValue {before text : List Char} {tokens : List (Token Span)}
    (h : Tiles before tokens text) : ∀ t ∈ tokens, t.HasValue := by
  induction h with
  | stop => exact List.forall_mem_singleton.mpr nofun
  | token _ spells _ ih =>
      refine List.forall_mem_cons.mpr ⟨?_, ih⟩
      rintro literal rfl
      cases spells with
      | number numeral => exact read?_of_numeral numeral

/-- Every number in a source has a value. -/
theorem hasValue_of_tokenize {source : String} {tokens : List (Token Span)}
    (h : tokenize source = .ok tokens) : ∀ t ∈ tokens, t.HasValue :=
  (tiles_of_tokenize h).hasValue

end Guion
