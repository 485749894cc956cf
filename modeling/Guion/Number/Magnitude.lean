/-!
# Magnitudes of floating-point numbers

A double without its sign is a natural number, its bit pattern, and the order
of the patterns is the order of the numbers. A pattern below that of infinity
stands for a significand times a power of two. Every ratio of natural numbers
has a nearest pattern; between two equally near ones the even one is taken.
-/

namespace Guion.Number

/-- The pattern of infinity; the patterns above it are not numbers. -/
def infinity : Nat := 0x7FF0000000000000

/-- The bit above those of the significand that a pattern spells out: the fifty-third. -/
def leadingBit : Nat := 0x10000000000000

/-- The bit of the sign. -/
def signBit : Nat := 0x8000000000000000

/-- The least exponent. -/
def leastExponent : Int := -1074

/-- The significand of a finite pattern. -/
def significand (bits : Nat) : Nat :=
  if bits < leadingBit then bits else leadingBit + bits % leadingBit

/-- The exponent of a finite pattern. -/
def exponent (bits : Nat) : Int :=
  if bits < leadingBit then leastExponent else leastExponent + (bits / leadingBit - 1 : Nat)

/-- The ratio `num / den`, divided by a power of `base`. -/
def scale (base num den : Nat) : Int → Nat × Nat
  | .ofNat e => (num, den * Nat.pow base e)
  | .negSucc e => (num * Nat.pow base (e + 1), den)

/-- The value of a finite pattern, as a ratio. -/
def ratio (bits : Nat) : Nat × Nat :=
  scale 2 (significand bits) 1 (-exponent bits)

/-- The natural number nearest to a ratio, the even one of two. -/
def roundHalfEven (num den : Nat) : Nat :=
  let quotient := num / den
  match compare (2 * (num % den)) den with
  | .lt => quotient
  | .eq => quotient + quotient % 2
  | .gt => quotient + 1

/-- The exponent that leaves a positive ratio with a significand of 53 bits, or
the least exponent if that is larger. -/
def exponentFor (num den : Nat) : Int :=
  let guess := max ((num.log2 : Int) - den.log2 - 53) leastExponent
  let (n, d) := scale 2 num den guess
  if n / d < 2 * leadingBit then guess else guess + 1

/-- The pattern nearest to a ratio. A significand that rounds up to one more bit
carries into the exponent, and beyond the largest finite pattern lies infinity. -/
def nearest (num den : Nat) : Nat :=
  if num = 0 then
    0
  else
    let e := exponentFor num den
    let (n, d) := scale 2 num den e
    min ((e - leastExponent).toNat * leadingBit + roundHalfEven n d) infinity

/-- The pattern nearest to `digits * 10 ^ e`. Decimals far outside the range of
finite patterns are decided without computing a huge power. -/
def nearestDecimal (digits : Nat) (e : Int) : Nat :=
  if digits = 0 then 0
  else if 310 < e then infinity
  else if e < -(400 + digits.log2) then 0
  else
    let (num, den) := scale 10 digits 1 (-e)
    nearest num den

/-- The pattern of a number, without its sign. -/
def magnitude (x : Float) : Nat := x.toBits.toNat % signBit

/-- Whether the sign of a number is negative, that of a zero included. -/
def isNegative (x : Float) : Bool := signBit ≤ x.toBits.toNat

/-- The number with a given sign and pattern. -/
def ofMagnitude (negative : Bool) (bits : Nat) : Float :=
  Float.ofBits (UInt64.ofNat (if negative then signBit + bits else bits))

end Guion.Number
