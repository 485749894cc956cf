import Guion.Parse.Complaint
import Guion.Report.Basic
import Guion.Token.Lexer

/-!
# Failures

A source can fail in three ways: a token cannot be read, the tokens do not form a
program, or the program runs into a fault. All three are reported alike.
-/

namespace Guion

/-- Why a source gave no result. -/
inductive Failure where
  | lexical (e : LexError)
  | grammatical (e : Complaint Span)
  | runtime (e : Located Span Fault)
  deriving DecidableEq, Repr

namespace Failure

/-- The category of a failure. -/
def category : Failure → Category
  | lexical _ | grammatical _ => .syntactic
  | runtime e => e.value.category

/-- Where a failure points. -/
def range : Failure → Span
  | lexical e => .point e.place
  | grammatical e => e.range
  | runtime e => e.range

/-- The wording of a failure. -/
def message : Failure → String
  | lexical e => e.cause.message
  | grammatical e => e.message
  | runtime e => e.value.message

/-- Advice on how to mend a program. -/
def hint? : Failure → Option String
  | lexical _ => none
  | grammatical e => e.hint?
  | runtime e => e.value.hint?

/-- The report of a failure of a source. -/
def report (failure : Failure) (path source : String) : Report where
  category := failure.category
  message := failure.message
  hint := failure.hint?
  range := failure.range
  path := path
  source := source

end Failure

end Guion
