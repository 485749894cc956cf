import Guion.Number.Magnitude

/-!
# Remainders

The remainder of a division that rounds toward zero. It is exact: both operands
are whole multiples of one power of two, and so is what is left over. It has the
sign of the dividend, also when it is zero.
-/

namespace Guion.Number

/-- The remainder of two finite patterns, the second not zero. -/
def remainderMagnitude (a b : Nat) : Nat :=
  let e := min (exponent a) (exponent b)
  let n := significand a * Nat.pow 2 (exponent a - e).toNat
  let d := significand b * Nat.pow 2 (exponent b - e).toNat
  let (num, den) := scale 2 (n % d) 1 (-e)
  nearest num den

/-- The remainder of a division. Nothing remains of an infinite dividend or by a
zero divisor, and an infinite divisor leaves the dividend as it is. -/
def remainder (x y : Float) : Float :=
  let a := magnitude x
  let b := magnitude y
  if infinity ≤ a || infinity < b || b = 0 then
    ofMagnitude false 0x7FF8000000000000
  else if b = infinity then
    x
  else
    ofMagnitude (isNegative x) (remainderMagnitude a b)

end Guion.Number
