import Guion.Number.Reader
import Guion.Settings.Document
import Guion.Settings.Text

/-!
# Plain values in settings

Booleans, numbers, dates and times are single words, except that a blank may stand
between a date and a time. Underscores may stand between the digits of a number.
Whole numbers have sixty-four bits; a number with a fraction or an exponent must
not be too large; dates and times must exist.
-/

namespace Guion.Settings

/-- Whether a character belongs to a word. -/
def isWordChar (c : Char) : Bool := c.isAlphanum || "+-._:".toList.contains c

/-- The digits of a group, without the underscores between them. There is at least
one digit, and an underscore has one on each side. -/
def ungroup? (isDigit : Char → Bool) : List Char → Option (List Char)
  | [] => none
  | [d] => if isDigit d then some [d] else none
  | d :: '_' :: rest => if isDigit d then (ungroup? isDigit rest).map (d :: ·) else none
  | d :: rest => if isDigit d then (ungroup? isDigit rest).map (d :: ·) else none

/-- Whether a text is a group of decimal digits. -/
def isGroup (text : List Char) : Bool := (ungroup? Char.isDigit text).isSome

/-- Whether a text is a group of decimal digits that begins with a zero only if
that is all. -/
def isWhole (text : List Char) : Bool :=
  isGroup text && (text == ['0'] || text.head? != some '0')

/-- The largest whole number. -/
def largest : Nat := 0x7FFFFFFFFFFFFFFF

/-- Whether the digits of a whole number in some base are in order and it is not too
large. -/
def isInBase (base : Nat) (isDigit : Char → Bool) (digits : List Char) : Bool :=
  (ungroup? isDigit digits).any (ofDigits base · ≤ largest)

/-- Whether a word is a whole number. Only decimal ones may have a sign. -/
def isInteger : List Char → Bool
  | '0' :: 'x' :: digits => isInBase 16 isHexDigit digits
  | '0' :: 'o' :: digits => isInBase 8 (fun c => '0' ≤ c && c ≤ '7') digits
  | '0' :: 'b' :: digits => isInBase 2 (fun c => c == '0' || c == '1') digits
  | word =>
    let (negative, digits) := Number.splitSign word
    isWhole digits &&
      (ungroup? Char.isDigit digits).any (ofDigits 10 · ≤ if negative then largest + 1 else largest)

/-- Whether a text is a fraction, an exponent, or the one behind the other. -/
def isScale : List Char → Bool
  | '.' :: rest =>
    let (fraction, left) := rest.span fun c => c.isDigit || c == '_'
    isGroup fraction && (left.isEmpty || isExponent left)
  | rest => isExponent rest
where
  /-- Whether a text is an exponent. -/
  isExponent : List Char → Bool
    | 'e' :: rest | 'E' :: rest => isGroup (Number.splitSign rest).2
    | _ => false

/-- Whether a word is a number with a fraction or an exponent, or the name of one
that is not finite. -/
def isFractional (word : List Char) : Bool :=
  let (_, body) := Number.splitSign word
  let (whole, rest) := body.span fun c => c.isDigit || c == '_'
  body == "inf".toList || body == "nan".toList ||
    (isWhole whole && isScale rest &&
      (Number.read? (word.filter (· != '_'))).any (· != Number.ofMagnitude false Number.infinity))

/-- Whether two characters are the digits of a number within bounds. -/
def isPair (low high : Nat) (tens ones : Char) : Bool :=
  tens.isDigit && ones.isDigit &&
    low ≤ ofDigits 10 [tens, ones] && ofDigits 10 [tens, ones] ≤ high

/-- The number of days in a month. -/
def daysIn (year month : Nat) : Nat :=
  match month with
  | 2 => if year % 4 = 0 && (year % 100 ≠ 0 || year % 400 = 0) then 29 else 28
  | 4 | 6 | 9 | 11 => 30
  | _ => 31

/-- Whether a text is the date of a day that exists. -/
def isDate : List Char → Bool
  | [a, b, c, d, '-', m, n, '-', x, y] =>
    [a, b, c, d].all Char.isDigit && isPair 1 12 m n &&
      isPair 1 (daysIn (ofDigits 10 [a, b, c, d]) (ofDigits 10 [m, n])) x y
  | _ => false

/-- What is left of a text behind the time of day that it begins with. A minute may
have a leap second. -/
def afterTime? : List Char → Option (List Char)
  | h :: i :: ':' :: m :: n :: ':' :: s :: t :: rest =>
    if isPair 0 23 h i && isPair 0 59 m n && isPair 0 60 s t then
      match rest with
      | '.' :: rest =>
        if (rest.takeWhile Char.isDigit).isEmpty then none else some (rest.dropWhile Char.isDigit)
      | rest => some rest
    else
      none
  | _ => none

/-- Whether a text is the distance from universal time, or nothing. -/
def isOffset : List Char → Bool
  | [] | ['Z'] | ['z'] => true
  | [sign, h, i, ':', m, n] =>
    (sign == '+' || sign == '-') && isPair 0 23 h i && isPair 0 59 m n
  | _ => false

/-- Whether a word is a time of a certain day. -/
def isTimeOfDate (word : List Char) : Bool := (afterTime? word).any isOffset

/-- Whether a word is a date, a time, or a date and a time. -/
def isMoment (word : List Char) : Bool :=
  isDate word || (afterTime? word).any List.isEmpty ||
    (isDate (word.take 10) && match word.drop 10 with
      | 'T' :: time | 't' :: time => isTimeOfDate time
      | _ => false)

/-- Reads a plain value. -/
def scalar : Reader Item := do
  let word ← Reader.takeSome isWordChar
  if word = "true".toList then
    return .boolean true
  else if word = "false".toList then
    return .boolean false
  else if isInteger word || isFractional word then
    return .scalar
  else
    guard (isMoment word)
    if isDate word then
      match ← get with
      | ' ' :: d :: _ =>
        if d.isDigit then
          modify List.tail
          guard (isTimeOfDate (← Reader.takeWhile isWordChar))
      | _ => pure ()
    return .moment

end Guion.Settings
