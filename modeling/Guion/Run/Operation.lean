import Guion.Number.Remainder
import Guion.Run.Fault
import Guion.Run.Value

/-!
# What operators do

Arithmetic takes two numbers, but a sum also joins two texts. Any two values can
be compared for equality; only numbers have an order. The logical operators take
two truth values, both of which have been computed by then.
-/

namespace Guion

/-- An arithmetic operator on two numbers. -/
def Arithmetic.compute : Arithmetic → Float → Float → Float
  | add, a, b => a + b
  | subtract, a, b => a - b
  | multiply, a, b => a * b
  | divide, a, b => a / b
  | modulo, a, b => Number.remainder a b
  | power, a, b => a.pow b

/-- A comparison of two numbers that asks for their order. -/
def Comparison.holds? : Comparison → Option (Float → Float → Bool)
  | less => some fun a b => a < b
  | lessEqual => some fun a b => a ≤ b
  | greater => some fun a b => b < a
  | greaterEqual => some fun a b => b ≤ a
  | equal | notEqual => none

/-- A logical operator on two truth values. -/
def Logical.join : Logical → Bool → Bool → Bool
  | and, a, b => a && b
  | or, a, b => a || b

/-- The result of an operator on two values. -/
def Operator.apply (operator : Operator) (lhs rhs : Value) : Except Fault Value :=
  match operator, lhs, rhs with
  | .arithmetic op, .number a, .number b => .ok (.number (op.compute a b))
  | .arithmetic .add, .text a, .text b => .ok (.text (a ++ b))
  | .comparison .equal, a, b => .ok (.boolean (a.equals b))
  | .comparison .notEqual, a, b => .ok (.boolean (!a.equals b))
  | .comparison op, .number a, .number b =>
    match op.holds? with
    | some holds => .ok (.boolean (holds a b))
    | none => .error (.invalidOperands operator lhs.type rhs.type)
  | .logical op, .boolean a, .boolean b => .ok (.boolean (op.join a b))
  | _, _, _ => .error (.invalidOperands operator lhs.type rhs.type)

end Guion
