import Guion.Failure
import Guion.Parse.Statement
import Guion.Run.Eval

/-!
# Running sources

A session is a machine that is kept from one source to the next. A source is read
as a whole program, as one statement, or as one expression with whatever follows
it ignored. A source that cannot be read leaves the machine alone; one that fails
while it runs leaves what it did.
-/

namespace Guion

/-- How running a source ends. -/
inductive Finish (α : Type) where
  | ok (value : α) (machine : Machine Span)
  | failed (failure : Failure) (machine : Machine Span)
  | unfinished

/-- Reads a source with a parser. -/
def readWith {α : Type} (parser : Parser Span α) (source : String) : Except Failure α :=
  match tokenize source with
  | .error e => .error (.lexical e)
  | .ok tokens =>
    match parser (Cursor.ofTokens tokens) with
    | .ok a _ => .ok a
    | .error e _ => .error (.grammatical e)

/-- Reading succeeds if the source has tokens and the parser accepts them. -/
theorem readWith_eq_ok_iff {α : Type} {parser : Parser Span α} {source : String} {a : α} :
    readWith parser source = .ok a ↔
      ∃ tokens next, tokenize source = .ok tokens ∧
        parser (Cursor.ofTokens tokens) = .ok a next := by
  unfold readWith
  cases tokenize source with
  | error e => simp
  | ok tokens =>
      dsimp only
      cases hp : parser (Cursor.ofTokens tokens) with
      | error e next => simp [hp]
      | ok b next => simp [hp]

namespace Machine

/-- Reads a source and runs what was read. -/
def perform {α β : Type} (parser : Parser Span α) (exec : α → Exec Span β) (source : String)
    (m : Machine Span) : Finish β :=
  match readWith parser source with
  | .error failure => .failed failure m
  | .ok a =>
    match exec a m with
    | .ok b m => .ok b m
    | .error fault m => .failed (.runtime fault) m
    | .unfinished => .unfinished

/-- Runs a source as a program. -/
def run (bound : Nat) (source : String) (m : Machine Span) : Finish Value :=
  m.perform Parser.program (Exec.program bound) source

/-- Runs a source as a statement. -/
def runStatement (bound : Nat) (source : String) (m : Machine Span) : Finish Signal :=
  m.perform Parser.statement (Exec.statement bound) source

/-- Runs a source as an expression. -/
def runExpression (bound : Nat) (source : String) (m : Machine Span) : Finish Value :=
  m.perform Parser.expression (Exec.expression bound) source

end Machine

/-- What a program is given to run with: more than any computer will use up. -/
def ample : Nat := 1000000000000000000

end Guion
