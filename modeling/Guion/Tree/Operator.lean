/-!
# Binary operators

Three families: arithmetic on numbers, comparison of values, and the logical
joins of conditions.
-/

namespace Guion

/-- Operators that compute a number, or join two texts. -/
inductive Arithmetic where
  | add
  | subtract
  | multiply
  | divide
  | modulo
  | power
  deriving DecidableEq, Repr, Inhabited

/-- How an arithmetic operator is written. -/
def Arithmetic.spelling : Arithmetic → String
  | add => "+"
  | subtract => "-"
  | multiply => "*"
  | divide => "/"
  | modulo => "%"
  | power => "^"

/-- Operators that compare two values. -/
inductive Comparison where
  | equal
  | notEqual
  | less
  | lessEqual
  | greater
  | greaterEqual
  deriving DecidableEq, Repr, Inhabited

/-- How a comparison is written. -/
def Comparison.spelling : Comparison → String
  | equal => "=="
  | notEqual => "!="
  | less => "<"
  | lessEqual => "<="
  | greater => ">"
  | greaterEqual => ">="

/-- Operators that join two conditions. -/
inductive Logical where
  | and
  | or
  deriving DecidableEq, Repr, Inhabited

/-- How a logical operator is written. -/
def Logical.spelling : Logical → String
  | and => "y"
  | or => "o"

/-- A binary operator. -/
inductive Operator where
  | arithmetic (op : Arithmetic)
  | comparison (op : Comparison)
  | logical (op : Logical)
  deriving DecidableEq, Repr, Inhabited

/-- How an operator is written. -/
def Operator.spelling : Operator → String
  | arithmetic op => op.spelling
  | comparison op => op.spelling
  | logical op => op.spelling

end Guion
