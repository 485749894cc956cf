import Guion.Report.Paint
import Guion.Run.Fault
import Guion.Source.Span
import Guion.Text.Blank
import Guion.Text.Lines

/-!
# Diagnostics

A report shows a message with the line it is about, the line before and the line
after. Below the line stands a caret under the first character of the range, and
tildes under the rest of it as long as it stays on the line. A line that is too
long is shown through a window around that character.

The caret is placed by column and the window by column too: what a window hides on
the left the caret does not count, and the dots that stand for it are counted
instead. The caret is placed so even on a line that is shown in full.
-/

namespace Guion

/-- What a diagnostic says, and about what. -/
structure Report where
  category : Category
  message : String
  hint : Option String
  range : Span
  path : String
  source : String

namespace Report

/-- How many characters of a line are shown at most. -/
def maxWidth : Nat := 100

/-- What stands for the hidden part of a line. -/
def dots : String := "..."

variable (r : Report)

/-- The number of the line that a report is about. -/
def line : Nat := r.range.start.line

/-- How many characters stand before the first character of the range. -/
def indent : Nat := r.range.start.column - 1

/-- How many characters of a long line are hidden on the left. -/
def windowStart : Nat := r.indent - maxWidth / 2

/-- The lines to show, with their numbers. -/
def context : List (Nat × List Char) :=
  let first := max (r.line - 1) 1
  let numbered := (Text.lines r.source.toList).zipIdx 1 |>.map fun (text, n) => (n, text)
  (numbered.drop (first - 1)).take (r.line + 2 - first)

/-- The width of the largest line number shown. -/
def numberWidth : Nat :=
  match r.context.getLast? with
  | some (n, _) => (toString n).length
  | none => 1

/-- A number, or nothing, at the right of a column of the width of the numbers. -/
def gutter (number : Option Nat) : Row :=
  let text := (number.map toString).getD ""
  let padded := String.ofList (List.replicate (r.numberWidth - text.length) ' ') ++ text
  [⟨.boldBlue, padded⟩, ⟨.boldBlue, " | "⟩]

/-- A line as it is shown. -/
def shown (text : List Char) : String :=
  if text.length ≤ maxWidth then
    String.ofList text
  else
    (if 0 < r.windowStart then dots else "")
      ++ String.ofList ((text.drop r.windowStart).take maxWidth)
      ++ (if r.windowStart + maxWidth < text.length then dots else "")

/-- How far the caret stands behind the gutter. -/
def caretOffset : Nat :=
  r.indent - r.windowStart + (if 0 < r.windowStart then dots.length else 0)

/-- How many tildes follow the caret. -/
def tildes : Nat :=
  (if r.range.isSingleLine then r.range.columnWidth else 1) - 1

/-- The row with the caret. -/
def indicator : Row :=
  r.gutter none
    ++ [⟨.plain, String.ofList (List.replicate r.caretOffset ' ')⟩, ⟨.boldRed, "^"⟩,
      ⟨.red, String.ofList (List.replicate r.tildes '~')⟩]
    ++ match r.hint with
      | some hint => [⟨.plain, " "⟩, ⟨.boldRed, "pista: " ++ hint⟩]
      | none => []

/-- The row of a line, and the caret below it if the report is about that line. A
blank line before it is left out. -/
def lineRows (number : Nat) (text : List Char) : List Row :=
  if number < r.line && text.all Text.isBlank then
    []
  else
    (r.gutter (some number) ++ [⟨.plain, r.shown text⟩])
      :: if number = r.line then [r.indicator] else []

/-- The rows of the lines. Where the report is about a line that does not exist,
behind the end of the source, the caret comes last. -/
def body : List Row :=
  r.context.flatMap (fun (number, text) => r.lineRows number text)
    ++ if r.context.all fun (number, _) => number ≠ r.line then [r.indicator] else []

/-- The rows before the lines. -/
def header : List Row :=
  [[⟨.boldRed, r.category.description⟩, ⟨.plain, ": "⟩, ⟨.bold, r.message⟩], []]

/-- The rows behind the lines. -/
def trailer : List Row :=
  [[], [⟨.plain, "En " ++ r.path ++ ":" ++ toString r.range.start.line ++ ":"
    ++ toString r.range.start.column⟩]]

/-- All rows of a report. -/
def rows : List Row := r.header ++ r.body ++ r.trailer

/-- The text of a report, each row on a line of its own. -/
def render (color : Bool) : String :=
  String.join (r.rows.map fun row => Row.render color row ++ "\n")

end Report

end Guion
