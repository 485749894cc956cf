import Guion.Text.CharRange

/-!
# Blanks

A blank is a character with the Unicode property White_Space. Program text is
laid out with four of them only; the whole set matters where a text is trimmed
before it is read as a number, and where a source line counts as empty.
-/

namespace Guion.Text

/-- The blanks, as ascending ranges of code points. -/
def blankRanges : List CharRange :=
  [(0x9, 0xD), (0x20, 0x20), (0x85, 0x85), (0xA0, 0xA0), (0x1680, 0x1680), (0x2000, 0x200A),
   (0x2028, 0x2029), (0x202F, 0x202F), (0x205F, 0x205F), (0x3000, 0x3000)]

/-- Whether a character is a blank. -/
def isBlank (c : Char) : Bool := inRanges blankRanges c

/-- A text without the blanks at its two ends. -/
def trim (text : List Char) : List Char :=
  ((text.dropWhile isBlank).reverse.dropWhile isBlank).reverse

end Guion.Text
