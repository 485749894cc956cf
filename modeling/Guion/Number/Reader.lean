import Guion.Number.Digits
import Guion.Number.Magnitude

/-!
# Reading numbers

A number is an optional sign and then digits with at most one point among or
around them and an optional exponent, or one of three words in any case. There
must be a digit before the exponent, and one in it; an exponent stops growing once
it has reached a limit. The value is the nearest double; what is too large is
infinite and what is too small is zero.
-/

namespace Guion.Number

/-- Takes a sign off the head of a text and tells whether it is a minus. -/
def splitSign : List Char → Bool × List Char
  | '-' :: rest => (true, rest)
  | '+' :: rest => (false, rest)
  | text => (false, text)

/-- The size at which an exponent stops growing. It lies far beyond the range of
finite numbers, so only a very long row of digits can bring the value back. -/
def exponentLimit : Nat := 0x10000

/-- The exponent that a list of digits writes. The digits that stand behind an
exponent of at least `exponentLimit` do not count. -/
def ofExponentDigits (digits : List Char) : Nat :=
  digits.foldl (fun n digit => if n < exponentLimit then 10 * n + digitValue digit else n) 0

/-- The exponent that a text ends in: nothing, or a mark, a sign and digits, at
least one of them. -/
def readExponent? : List Char → Option Int
  | [] => some 0
  | mark :: rest =>
    let (negative, digits) := splitSign rest
    if (mark = 'e' || mark = 'E') && !digits.isEmpty && digits.all Char.isDigit then
      let size : Int := ofExponentDigits digits
      some (if negative then -size else size)
    else
      none

/-- Divides a text behind an optional point and the digits after it, which come
first in the result. -/
def splitFraction : List Char → List Char × List Char
  | '.' :: rest => rest.span Char.isDigit
  | rest => ([], rest)

/-- The pattern of an unsigned decimal. -/
def readDecimal? (text : List Char) : Option Nat :=
  let (whole, rest) := text.span Char.isDigit
  let (fraction, rest) := splitFraction rest
  if whole.isEmpty && fraction.isEmpty then
    none
  else
    (readExponent? rest).map fun e =>
      nearestDecimal (ofDigits (whole ++ fraction)) (e - fraction.length)

/-- The pattern that stands for what is not a number. -/
def notANumber : Nat := 0x7FF8000000000000

/-- The pattern of a word for what is not finite, in any case. -/
def readWord? (text : List Char) : Option Nat :=
  match String.ofList (text.map Char.toLower) with
  | "inf" | "infinity" => some infinity
  | "nan" => some notANumber
  | _ => none

/-- The number that a text writes. -/
def read? (text : List Char) : Option Float :=
  let (negative, rest) := splitSign text
  ((readDecimal? rest).or (readWord? rest)).map (ofMagnitude negative)

end Guion.Number
