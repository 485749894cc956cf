import Guion.Source.Span
import Guion.Token.Keyword
import Guion.Token.Punctuator

/-!
# Tokens

A lexeme is what a piece of source text says; a token is a lexeme together with
its position. The position is a parameter, so that a token list can forget where
it came from.
-/

namespace Guion

/-- What a token says. A number keeps its literal text, with the minus sign if
one was read as part of it; a text has its escapes expanded. -/
inductive Lexeme where
  | keyword (word : Keyword)
  | name (spelled : String)
  | number (literal : String)
  | text (contents : String)
  | punctuator (mark : Punctuator)
  | endOfFile
  deriving DecidableEq, Repr, Inhabited

namespace Lexeme

/-- How a lexeme appears in a message. A text appears between quotes as it is. -/
def display : Lexeme → String
  | .keyword word => word.spelling
  | .name spelled => spelled
  | .number literal => literal
  | .text contents => "\"" ++ contents ++ "\""
  | .punctuator mark => mark.spelling
  | .endOfFile => "fin del archivo"

/-- What a lexeme of this sort is called in a message. -/
def sort : Lexeme → String
  | .keyword _ => "palabra clave"
  | .name _ => "identificador"
  | .number _ => "número"
  | .text _ => "texto"
  | .punctuator mark => mark.name
  | .endOfFile => "fin del archivo"

/-- The name that a lexeme can stand for. The logical operators are names too
wherever a name is expected. -/
def asName? : Lexeme → Option String
  | .name spelled => some spelled
  | .keyword word => if word.isLogical then some word.spelling else none
  | _ => none

/-- Whether a lexeme marks the end of the input. -/
def isEnd : Lexeme → Bool
  | .endOfFile => true
  | _ => false

@[simp] theorem isEnd_iff {l : Lexeme} : l.isEnd = true ↔ l = endOfFile := by
  cases l <;> simp [isEnd]

end Lexeme

/-- A lexeme at a position. -/
structure Token (ρ : Type) where
  lexeme : Lexeme
  range : ρ
  deriving DecidableEq, Repr, Inhabited

namespace Token

variable {ρ σ : Type}

/-- Moves a token. -/
def map (f : ρ → σ) (t : Token ρ) : Token σ := ⟨t.lexeme, f t.range⟩

/-- The name that a token can stand for, where it stands. -/
def asName? (t : Token ρ) : Option (Located ρ String) :=
  t.lexeme.asName?.map fun name => ⟨t.range, name⟩

end Token

end Guion
