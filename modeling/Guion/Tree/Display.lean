import Guion.Number.Display
import Guion.Tree.Basic

/-!
# Expressions as text

An expression is written on one line, every binary expression in parentheses. A
function shows its signature only, and a text stands between quotes as it is.
-/

namespace Guion

variable {ρ : Type}

/-- A parameter, as in a signature. -/
def Parameter.display (p : Parameter ρ) : String :=
  p.name.value ++ ": " ++ p.type.value

/-- The signature of a function, without its name. -/
def Function.display (f : Function ρ) : String :=
  let parameters := "(" ++ ", ".intercalate (f.parameters.map Parameter.display) ++ ")"
  match f.returnType with
  | some type => parameters ++ ": " ++ type.value
  | none => parameters

mutual

/-- The text of an expression. -/
def Expr.display : Expr ρ → String
  | .assign _ target source => target.display ++ " = " ++ source.display
  | .binary _ operator lhs rhs =>
    "(" ++ lhs.display ++ " " ++ operator.value.spelling ++ " " ++ rhs.display ++ ")"
  | .function _ definition => "fun " ++ definition.display
  | .object _ properties =>
    match Expr.displayProperties properties with
    | [] => "\x7b\x7d"
    | texts => "\x7b " ++ ", ".intercalate texts ++ " \x7d"
  | .call _ callee arguments _ _ _ =>
    callee.display ++ "(" ++ ", ".intercalate (Expr.displayAll arguments) ++ ")"
  | .member _ base name _ => base.display ++ "." ++ name.value
  | .subscript _ base key _ => base.display ++ "[" ++ key.display ++ "]"
  | .number _ value => Number.display .literal value
  | .text _ contents => "\"" ++ contents ++ "\""
  | .reference _ name => name.value

/-- The texts of several expressions. -/
def Expr.displayAll : List (Expr ρ) → List String
  | [] => []
  | e :: rest => e.display :: Expr.displayAll rest

/-- The text of a property in an object literal. -/
def Property.display : Property ρ → String
  | ⟨key, some value⟩ => key.value ++ ": " ++ value.display
  | ⟨key, none⟩ => key.value

/-- The texts of several properties. -/
def Expr.displayProperties : List (Property ρ) → List String
  | [] => []
  | p :: rest => p.display :: Expr.displayProperties rest

end

end Guion
