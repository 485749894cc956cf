/-!
# Reading settings

A reader takes characters off the front of a text or refuses it. Repetitions are
bounded by the characters that are left, since each round takes at least one.
-/

namespace Guion.Settings

/-- A reader of values of type `α`. -/
abbrev Reader (α : Type) := StateT (List Char) Option α

namespace Reader

variable {α : Type}

/-- The next character, which is left where it is. -/
def peek : Reader (Option Char) := do return (← get).head?

/-- Takes a character if it is the next one, and tells whether it was. -/
def accept (c : Char) : Reader Bool := do
  if (← peek) = some c then
    modify List.tail
    return true
  return false

/-- Takes a character that must be the next one. -/
def expect (c : Char) : Reader Unit := do guard (← accept c)

/-- Takes the characters that belong to a class. -/
def takeWhile (p : Char → Bool) : Reader (List Char) :=
  modifyGet fun text => (text.takeWhile p, text.dropWhile p)

/-- Takes the characters that belong to a class, at least one. -/
def takeSome (p : Char → Bool) : Reader (List Char) := do
  let taken ← takeWhile p
  guard !taken.isEmpty
  return taken

/-- Takes exactly so many characters of a class. -/
def takeExactly (n : Nat) (p : Char → Bool) : Reader (List Char) := do
  let taken := (← get).take n
  guard (taken.length = n && taken.all p)
  modify (List.drop n)
  return taken

/-- Collects what a step finds, with a bound on the rounds. -/
def collectWithin (step : Reader (Option α)) : Nat → Reader (List α)
  | 0 => failure
  | n + 1 => do
    match ← step with
    | some a => return a :: (← collectWithin step n)
    | none => return []

/-- Collects what a step finds until it finds nothing more. -/
def collect (step : Reader (Option α)) : Reader (List α) := do
  collectWithin step ((← get).length + 1)

/-- The value of a whole text. -/
def run? (reader : Reader α) (text : List Char) : Option α := do
  let (a, rest) ← reader.run text
  guard rest.isEmpty
  return a

end Reader

/-- The blanks inside a line. -/
def isGap (c : Char) : Bool := c == ' ' || c == '\t'

/-- Whether a character may stand in a comment or a text: all but the control
characters, and the tab among those. -/
def isShown (c : Char) : Bool := c == '\t' || (' ' ≤ c && c ≠ '\x7f')

/-- Skips blanks. -/
def gap : Reader Unit := do
  let _ ← Reader.takeWhile isGap

/-- Takes the end of a line. A carriage return is part of it only before the feed. -/
def newline : Reader Unit := do
  let _ ← Reader.accept '\r'
  Reader.expect '\n'

/-- Skips a comment if there is one. -/
def comment : Reader Unit := do
  if ← Reader.accept '#' then
    let _ ← Reader.takeWhile isShown

/-- Takes the rest of a line on which nothing more is written. -/
def lineEnd : Reader Unit := do
  gap
  comment
  if (← Reader.peek).isSome then newline

/-- Skips blanks, comments and ends of lines. -/
def spacing : Reader Unit := do
  let _ ← Reader.collect do
    gap
    comment
    match ← Reader.peek with
    | some '\n' | some '\r' => newline; return some ()
    | _ => return none

end Guion.Settings
