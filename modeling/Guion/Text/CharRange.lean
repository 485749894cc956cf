/-!
# Ranges of characters

Character classes beyond ASCII are data: a list of ranges of code points, both
ends included.
-/

namespace Guion.Text

/-- The code points from the first component to the second. -/
abbrev CharRange := Nat × Nat

/-- Whether one of the ranges holds the character. -/
def inRanges (ranges : List CharRange) (c : Char) : Bool :=
  ranges.any fun range => range.1 ≤ c.toNat && c.toNat ≤ range.2

end Guion.Text
