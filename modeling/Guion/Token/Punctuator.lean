/-!
# Punctuators

Brackets, separators and operator signs. Three signs have a longer form with an
equals sign behind them, and the longer form always wins.
-/

namespace Guion

/-- The signs of the language. -/
inductive Punctuator where
  | colon
  | comma
  | leftParen
  | rightParen
  | leftBrace
  | rightBrace
  | leftBracket
  | rightBracket
  | semicolon
  | period
  | assign
  | equal
  | notEqual
  | greater
  | greaterEqual
  | less
  | lessEqual
  | plus
  | minus
  | star
  | slash
  | percent
  | caret
  deriving DecidableEq, Repr, Inhabited

namespace Punctuator

/-- How a sign is written. -/
def spelling : Punctuator → String
  | colon => ":"
  | comma => ","
  | leftParen => "("
  | rightParen => ")"
  | leftBrace => "\x7b"
  | rightBrace => "\x7d"
  | leftBracket => "["
  | rightBracket => "]"
  | semicolon => ";"
  | period => "."
  | assign => "="
  | equal => "=="
  | notEqual => "!="
  | greater => ">"
  | greaterEqual => ">="
  | less => "<"
  | lessEqual => "<="
  | plus => "+"
  | minus => "-"
  | star => "*"
  | slash => "/"
  | percent => "%"
  | caret => "^"

/-- What a sign is called in a message. -/
def name : Punctuator → String
  | colon => "dos puntos"
  | comma => "coma"
  | leftParen => "paréntesis de apertura"
  | rightParen => "paréntesis de cierre"
  | leftBrace => "llave de apertura"
  | rightBrace => "llave de cierre"
  | leftBracket => "corchete de apertura"
  | rightBracket => "corchete de cierre"
  | semicolon => "punto y coma"
  | period => "punto"
  | assign => "asignación"
  | equal => "igualdad"
  | notEqual => "desigualdad"
  | greater => "mayor que"
  | greaterEqual => "mayor o igual que"
  | less => "menor que"
  | lessEqual => "menor o igual que"
  | plus => "más"
  | minus => "menos"
  | star => "asterisco"
  | slash => "barra"
  | percent => "porcentaje"
  | caret => "circunflejo"

/-- The sign that a single character writes. -/
def ofChar? : Char → Option Punctuator
  | ':' => some colon
  | ',' => some comma
  | '(' => some leftParen
  | ')' => some rightParen
  | '\x7b' => some leftBrace
  | '\x7d' => some rightBrace
  | '[' => some leftBracket
  | ']' => some rightBracket
  | ';' => some semicolon
  | '.' => some period
  | '=' => some assign
  | '>' => some greater
  | '<' => some less
  | '+' => some plus
  | '-' => some minus
  | '*' => some star
  | '/' => some slash
  | '%' => some percent
  | '^' => some caret
  | _ => none

/-- The longer sign that an equals sign behind a sign makes. -/
def withEquals? : Punctuator → Option Punctuator
  | assign => some equal
  | greater => some greaterEqual
  | less => some lessEqual
  | _ => none

/-- Every sign. -/
def all : List Punctuator :=
  [colon, comma, leftParen, rightParen, leftBrace, rightBrace, leftBracket, rightBracket,
   semicolon, period, assign, equal, notEqual, greater, greaterEqual, less, lessEqual, plus,
   minus, star, slash, percent, caret]

/-- The sign with a given spelling. -/
def ofSpelling? (mark : String) : Option Punctuator :=
  all.find? (·.spelling == mark)

/-- A character read as a sign is that sign's whole spelling. -/
theorem spelling_of_ofChar? {c : Char} {p : Punctuator} (h : ofChar? c = some p) :
    p.spelling.toList = [c] := by
  unfold ofChar? at h
  split at h <;> cases h <;> rfl

/-- An equals sign is appended to the spelling, and to nothing else. -/
theorem spelling_of_withEquals? {p q : Punctuator} (h : p.withEquals? = some q) :
    q.spelling = p.spelling ++ "=" := by
  cases p <;> simp [withEquals?] at h <;> subst h <;> decide

end Punctuator

end Guion
