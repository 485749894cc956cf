/-!
# Layout

Between tokens stand blanks and comments. A line comment stops before the end
of its line. Block comments nest, and one that is never closed runs to the end
of the text. Skipping layout walks over the text once, remembering only whether
it is inside a comment.
-/

namespace Guion

/-- The four characters that separate tokens. -/
def isLayoutBlank (c : Char) : Bool :=
  c == ' ' || c == '\t' || c == '\n' || c == '\r'

/-- Whether a character ends a line comment. -/
def isLineEnd (c : Char) : Bool :=
  c == '\n' || c == '\r'

/-- Where a walk over layout is: between tokens, in a line comment, or in a
block comment with so many more around it. -/
inductive LayoutState where
  | between
  | line
  | block (around : Nat)
  deriving DecidableEq, Repr

/-- The state behind the end of a block comment. -/
def LayoutState.closed : Nat → LayoutState
  | 0 => .between
  | around + 1 => .block around

/-- Splits a text into the layout at its head and the rest. -/
def splitLayout : LayoutState → List Char → List Char × List Char
  | _, [] => ([], [])
  | .between, '/' :: '/' :: rest =>
    let (layout, left) := splitLayout .line rest
    ('/' :: '/' :: layout, left)
  | .between, '/' :: '*' :: rest =>
    let (layout, left) := splitLayout (.block 0) rest
    ('/' :: '*' :: layout, left)
  | .between, c :: rest =>
    if isLayoutBlank c then
      let (layout, left) := splitLayout .between rest
      (c :: layout, left)
    else
      ([], c :: rest)
  | .line, c :: rest =>
    let (layout, left) := splitLayout (if isLineEnd c then .between else .line) rest
    (c :: layout, left)
  | .block around, '/' :: '*' :: rest =>
    let (layout, left) := splitLayout (.block (around + 1)) rest
    ('/' :: '*' :: layout, left)
  | .block around, '*' :: '/' :: rest =>
    let (layout, left) := splitLayout (.closed around) rest
    ('*' :: '/' :: layout, left)
  | .block around, c :: rest =>
    let (layout, left) := splitLayout (.block around) rest
    (c :: layout, left)

/-- The two parts of the split are the text again. -/
theorem splitLayout_append (state : LayoutState) (text : List Char) :
    (splitLayout state text).1 ++ (splitLayout state text).2 = text := by
  fun_induction splitLayout state text <;> simp_all

/-- Skipping layout never makes a text longer. -/
theorem length_splitLayout_le (state : LayoutState) (text : List Char) :
    (splitLayout state text).2.length ≤ text.length := by
  have h := congrArg List.length (splitLayout_append state text)
  simp only [List.length_append] at h
  omega

end Guion
