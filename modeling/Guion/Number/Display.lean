import Guion.Number.Shortest

/-!
# Numbers as text

Numbers are written positionally, however large or small, with no point where
there is no fraction, and a zero keeps its sign. What is not finite has a word of
its own: programs see one word, the syntax of a literal another.
-/

namespace Guion.Number

/-- A decimal written positionally. -/
def Decimal.positional (d : Decimal) : List Char :=
  let digits := Nat.toDigits 10 d.digits
  match d.exponent with
  | .ofNat e => digits ++ List.replicate e '0'
  | .negSucc e =>
    let places := e + 1
    let padded := List.replicate (places + 1 - digits.length) '0' ++ digits
    let whole := padded.take (padded.length - places)
    let fraction := (padded.drop (padded.length - places)).reverse.dropWhile (· == '0')
    if fraction.isEmpty then whole else whole ++ '.' :: fraction.reverse

/-- The words for what is not finite. -/
structure Style where
  infinity : String
  notANumber : String

/-- Values of a running program. -/
def Style.value : Style := ⟨"Infinito", "NaN"⟩

/-- Literals in a syntax tree. -/
def Style.literal : Style := ⟨"inf", "NaN"⟩

/-- The text of a pattern. -/
def displayMagnitude (style : Style) (bits : Nat) : String :=
  if bits = infinity then style.infinity
  else if bits = 0 then "0"
  else String.ofList (shortest bits).positional

/-- The text of a number. -/
def display (style : Style) (x : Float) : String :=
  if infinity < magnitude x then style.notANumber
  else if isNegative x then "-" ++ displayMagnitude style (magnitude x)
  else displayMagnitude style (magnitude x)

end Guion.Number
