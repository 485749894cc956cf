import Guion.Settings.Reader

/-!
# Texts in settings

A text stands between quotes. Between double quotes a backslash begins an escape,
between single ones it stands for itself. Tripled quotes hold several lines, and
one or two quotes inside them stand for themselves.
-/

namespace Guion.Settings

/-- Whether a character is a hexadecimal digit. -/
def isHexDigit (c : Char) : Bool :=
  c.isDigit || ('a' ≤ c && c ≤ 'f') || ('A' ≤ c && c ≤ 'F')

/-- The value of a hexadecimal digit. -/
def hexDigit (c : Char) : Nat :=
  if c.isDigit then c.toNat - '0'.toNat else c.toLower.toNat - 'a'.toNat + 10

/-- The number that some digits write in a base. -/
def ofDigits (base : Nat) (digits : List Char) : Nat :=
  digits.foldl (fun n d => base * n + hexDigit d) 0

/-- A character that is given by so many hexadecimal digits. -/
def codePoint (width : Nat) : Reader Char := do
  let code := ofDigits 16 (← Reader.takeExactly width isHexDigit)
  guard code.isValidChar
  return Char.ofNat code

/-- The character that an escape stands for, behind its backslash. -/
def escaped : Reader Char := do
  let taken ← Reader.takeExactly 1 fun _ => true
  match taken with
  | ['b'] => return '\x08'
  | ['t'] => return '\t'
  | ['n'] => return '\n'
  | ['f'] => return '\x0c'
  | ['r'] => return '\r'
  | ['"'] => return '"'
  | ['\\'] => return '\\'
  | ['u'] => codePoint 4
  | ['U'] => codePoint 8
  | _ => failure

/-- Whether a backslash begins an escape in a text with such quotes. -/
def escapes (quote : Char) : Bool := quote == '"'

/-- Reads a text on one line, behind its opening quote. -/
def text (quote : Char) : Reader String := do
  let contents ← Reader.collect do
    if ← Reader.accept quote then
      return none
    if escapes quote then
      if ← Reader.accept '\\' then
        return some (← escaped)
    let taken ← Reader.takeExactly 1 isShown
    return taken.head?
  return String.ofList contents

/-- Skips the end of the line behind a backslash, and the blanks and ends of lines
after it. -/
def continuation : Reader Unit := do
  gap
  newline
  let _ ← Reader.collect do
    gap
    match ← Reader.peek with
    | some '\n' | some '\r' => newline; return some ()
    | _ => return none

/-- Reads past a text of several lines, behind its opening quotes. A run of three
to five quotes closes it, and all but three of them belong to it. -/
def lines (quote : Char) : Reader Unit := do
  let _ ← Reader.collect do
    let quotes ← Reader.takeWhile (· == quote)
    if 3 ≤ quotes.length then
      guard (quotes.length ≤ 5)
      return none
    match ← Reader.peek with
    | some '\n' | some '\r' => newline; return some ()
    | _ => pure ()
    if escapes quote then
      if ← Reader.accept '\\' then
        continuation <|> discard escaped
        return some ()
    discard (Reader.takeExactly 1 isShown)
    return some ()

/-- Reads past a text of either kind. -/
def anyText (quote : Char) : Reader Unit := do
  let quotes ← Reader.takeWhile (· == quote)
  match quotes.length with
  | 1 => discard (text quote)
  | 2 => return ()
  | n + 3 =>
    modify fun rest => List.replicate n quote ++ rest
    lines quote
  | 0 => failure

end Guion.Settings
