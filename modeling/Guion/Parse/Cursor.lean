import Guion.Parse.Complaint

/-!
# Cursors and parsers

A cursor stands in a token list. It can always look at a token: behind the last
one there is an end of input that is never used up, and neither is one that
stands in the list itself. A parser moves a cursor and gives a value or a
complaint; the cursor is kept either way, so that parsing can go on.

Productions repeat and nest. Each repetition uses up a token, so the tokens that
are left bound every loop; `bounded` passes that bound on.
-/

namespace Guion

/-- A place in a token list: what is left, the range of the token taken last, and
where the end of the input stands that is seen behind the last token. -/
structure Cursor (ρ : Type) where
  rest : List (Token ρ)
  last : ρ
  finish : ρ

namespace Cursor

variable {ρ : Type}

/-- A cursor before the first of some tokens. -/
def ofTokens [Extent ρ] (tokens : List (Token ρ)) : Cursor ρ where
  rest := tokens
  last := Extent.origin
  finish := match tokens.getLast? with
    | some token => Extent.behind token.range
    | none => Extent.origin

/-- The end of the input, as it is seen behind the last token. -/
def sentinel (c : Cursor ρ) : Token ρ := ⟨.endOfFile, c.finish⟩

/-- The token at the cursor. -/
def peek (c : Cursor ρ) : Token ρ := c.rest.head?.getD c.sentinel

/-- The token behind the one at the cursor. -/
def peekSecond (c : Cursor ρ) : Token ρ := c.rest.tail.head?.getD c.sentinel

/-- Whether nothing but the end of the input is at the cursor. -/
def atEnd (c : Cursor ρ) : Bool := c.peek.lexeme.isEnd

/-- The cursor behind the token at the cursor. The end is not passed. -/
def advance (c : Cursor ρ) : Cursor ρ where
  rest := if c.atEnd then c.rest else c.rest.tail
  last := c.peek.range
  finish := c.finish

theorem length_advance_le (c : Cursor ρ) : c.advance.rest.length ≤ c.rest.length := by
  unfold advance
  split <;> simp

end Cursor

/-- What a parser answers. -/
inductive Reply (ρ α : Type) where
  | ok (value : α) (next : Cursor ρ)
  | error (complaint : Complaint ρ) (next : Cursor ρ)

/-- The cursor that a parser leaves behind, whatever it answers. -/
def Reply.next {ρ α : Type} : Reply ρ α → Cursor ρ
  | ok _ c | error _ c => c

/-- A parser of values of type `α`. -/
def Parser (ρ α : Type) := Cursor ρ → Reply ρ α

namespace Parser

variable {ρ α β : Type}

/-- Parses nothing. -/
protected def pure (a : α) : Parser ρ α := fun c => .ok a c

/-- One parser after another. A complaint ends the parse. -/
protected def bind (p : Parser ρ α) (f : α → Parser ρ β) : Parser ρ β := fun c =>
  match p c with
  | .ok a next => f a next
  | .error complaint next => .error complaint next

instance : Monad (Parser ρ) where
  pure := Parser.pure
  bind := Parser.bind

@[simp] theorem pure_apply (a : α) (c : Cursor ρ) : (Pure.pure a : Parser ρ α) c = .ok a c := rfl

/-- A sequence succeeds only if both of its parts do. -/
theorem bind_eq_ok_iff {p : Parser ρ α} {f : α → Parser ρ β} {c next : Cursor ρ} {b : β} :
    (p >>= f) c = .ok b next ↔ ∃ a middle, p c = .ok a middle ∧ f a middle = .ok b next := by
  change Parser.bind p f c = _ ↔ _
  unfold Parser.bind
  cases p c <;> simp [and_assoc]

/-- Complains. -/
def fail (complaint : Complaint ρ) : Parser ρ α := fun c => .error complaint c

/-- Looks at the token at the cursor. -/
def peek : Parser ρ (Token ρ) := fun c => .ok c.peek c

/-- Takes the token at the cursor. -/
def take : Parser ρ (Token ρ) := fun c => .ok c.peek c.advance

/-- The range of the token taken last. -/
def last : Parser ρ ρ := fun c => .ok c.last c

/-- Whether a sign is at the cursor. -/
def sees (mark : Punctuator) : Parser ρ Bool := fun c =>
  .ok (c.peek.lexeme = .punctuator mark) c

/-- Takes a sign if it is at the cursor, and tells whether it was. -/
def accept (mark : Punctuator) : Parser ρ Bool := fun c =>
  if c.peek.lexeme = .punctuator mark then .ok true c.advance else .ok false c

/-- Takes a token that must be a certain sign, and gives its range. -/
def expect (mark : Punctuator) (complain : Token ρ → Complaint ρ) : Parser ρ ρ := do
  let token ← take
  if token.lexeme = .punctuator mark then return token.range else fail (complain token)

/-- Takes a token that must be a name. -/
def name (context : Context) : Parser ρ (Located ρ String) := do
  let token ← take
  match token.asName? with
  | some name => return name
  | none => fail (.expectedName context token)

/-- Complains about the token at the cursor where no production fits. -/
def stuck : Parser ρ α := fun c => .error (.unknownStart c.peek) c

/-- Runs a parser with a bound that no repetition over the remaining tokens can
exceed. -/
def bounded (p : Nat → Parser ρ α) : Parser ρ α := fun c => p (c.rest.length + 1) c

/-- Extends a value for as long as a step finds something to extend it with. -/
def extendWithin (step : α → Parser ρ (Option α)) : Nat → α → Cursor ρ → Reply ρ α
  | 0, _, c => stuck c
  | n + 1, a, c =>
    match step a c with
    | .ok (some longer) next => extendWithin step n longer next
    | .ok none next => .ok a next
    | .error complaint next => .error complaint next

/-- Extends a value for as long as a step finds something to extend it with. -/
def extend (step : α → Parser ρ (Option α)) (a : α) : Parser ρ α :=
  bounded fun n => extendWithin step n a

/-- Collects what a step finds until it finds nothing more. -/
def collectWithin (step : Parser ρ (Option α)) : Nat → Cursor ρ → Reply ρ (List α)
  | 0, c => stuck c
  | n + 1, c =>
    match step c with
    | .ok (some a) next =>
      match collectWithin step n next with
      | .ok more final => .ok (a :: more) final
      | .error complaint final => .error complaint final
    | .ok none next => .ok [] next
    | .error complaint next => .error complaint next

/-- Collects what a step finds until it finds nothing more. -/
def collect (step : Parser ρ (Option α)) : Parser ρ (List α) :=
  bounded fun n => collectWithin step n

/-- The comma behind an item, unless a closing sign is next. -/
def comma (close : Punctuator) (context : Context) : Parser ρ Unit := do
  if ← sees close then
    return
  else
    let _ ← expect .comma (.expectedComma context)

/-- One item and its comma, or nothing if a closing sign is next. -/
def separatedStep (close : Punctuator) (context : Context) (item : Parser ρ α) :
    Parser ρ (Option α) := do
  if ← sees close then
    return none
  else
    let a ← item
    comma close context
    return some a

/-- Items with commas between them, up to a closing sign that is not taken. A
comma may also stand behind the last item. -/
def separated (close : Punctuator) (context : Context) (item : Parser ρ α) :
    Parser ρ (List α) :=
  collect (separatedStep close context item)

end Parser

end Guion
