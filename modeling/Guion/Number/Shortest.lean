import Guion.Number.Magnitude

/-!
# The fewest digits that read back

A finite number is written with the fewest decimal digits that lead back to it.
For a given count of digits only the two neighbours of the number on that grid
can qualify; if both do, the nearer is taken, and the upper one in the middle.
-/

namespace Guion.Number

/-- The decimal `digits * 10 ^ exponent`. -/
structure Decimal where
  digits : Nat
  exponent : Int
  deriving DecidableEq, Repr

/-- How many decimal digits a natural number has. -/
def digitCount (n : Nat) : Nat := (Nat.toDigits 10 n).length

/-- The `k` with `10 ^ (k - 1) ≤ num / den < 10 ^ k`, for a positive ratio. -/
def decimalExponent (num den : Nat) : Int :=
  if den ≤ num then digitCount (num / den) else 1 - (digitCount ((den - 1) / num) : Int)

/-- Whether a decimal leads back to a pattern. -/
def Decimal.readsAs (d : Decimal) (bits : Nat) : Bool :=
  nearestDecimal d.digits d.exponent = bits

/-- The decimal with `count` digits that leads back to the pattern of a ratio. -/
def decimalWith? (bits num den count : Nat) : Option Decimal :=
  let e := decimalExponent num den - count
  let (n, d) := scale 10 num den e
  let lower : Decimal := ⟨n / d, e⟩
  let upper : Decimal := ⟨n / d + 1, e⟩
  match lower.readsAs bits, upper.readsAs bits with
  | true, true => some (if 2 * (n % d) < d then lower else upper)
  | true, false => some lower
  | false, true => some upper
  | false, false => none

/-- The full decimal expansion of a finite pattern. It always ends, because a
half is five tenths. -/
def exactDecimal (bits : Nat) : Decimal :=
  match exponent bits with
  | .ofNat e => ⟨significand bits * Nat.pow 2 e, 0⟩
  | .negSucc e => ⟨significand bits * Nat.pow 5 (e + 1), .negSucc e⟩

/-- The shortest decimal that leads back to a positive finite pattern. -/
def shortest (bits : Nat) : Decimal :=
  let (num, den) := ratio bits
  let found := (List.range 17).findSome? fun i => decimalWith? bits num den (i + 1)
  found.getD (exactDecimal bits)

end Guion.Number
