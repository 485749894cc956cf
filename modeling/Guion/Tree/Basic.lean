import Guion.Source.Span
import Guion.Tree.Operator

/-!
# Syntax trees

A tree is parametric in the positions it carries. Nothing that runs a tree may
look into a position, and with an arbitrary type of positions it cannot: all that
can be done with one is to report it.

An expression in parentheses is the expression inside with a wider range.
-/

namespace Guion

/-- What a block of statements belongs to. -/
inductive BlockKind where
  | function
  | conditional
  | loop
  deriving DecidableEq, Repr, Inhabited

/-- Whether a declared name may be assigned again. -/
inductive VariableKind where
  | var
  | const
  deriving DecidableEq, Repr, Inhabited

/-- How a declaration begins. -/
def VariableKind.spelling : VariableKind → String
  | var => "var"
  | const => "const"

/-- A parameter of a function: its name and the name of its type. -/
structure Parameter (ρ : Type) where
  name : Located ρ String
  type : Located ρ String
  deriving DecidableEq, Repr

mutual

/-- An expression. Calls and the two ways to name a property keep the range of the
part behind what they are applied to; a call keeps the ranges of its two
parentheses as well. -/
inductive Expr (ρ : Type) : Type where
  | assign (range : ρ) (target source : Expr ρ)
  | binary (range : ρ) (operator : Located ρ Operator) (lhs rhs : Expr ρ)
  | function (range : ρ) (definition : Function ρ)
  | object (range : ρ) (properties : List (Property ρ))
  | call (range : ρ) (callee : Expr ρ) (arguments : List (Expr ρ)) (opening closing part : ρ)
  | member (range : ρ) (base : Expr ρ) (name : Located ρ String) (part : ρ)
  | subscript (range : ρ) (base key : Expr ρ) (part : ρ)
  | number (range : ρ) (value : Float)
  | text (range : ρ) (contents : String)
  | reference (range : ρ) (name : Located ρ String)

/-- A property of an object literal. Without a value it is short for the variable
of the same name. -/
structure Property (ρ : Type) : Type where
  key : Located ρ String
  value : Option (Expr ρ)

/-- What function declarations and function literals have in common. -/
structure Function (ρ : Type) : Type where
  parameters : List (Parameter ρ)
  returnType : Option (Located ρ String)
  body : Block ρ
  range : ρ

/-- Statements in braces. -/
structure Block (ρ : Type) : Type where
  kind : BlockKind
  range : ρ
  statements : List (Stmt ρ)

/-- A statement. -/
inductive Stmt (ρ : Type) : Type where
  | breakLoop (range : ρ)
  | continueLoop (range : ρ)
  | expression (range : ρ) (value : Expr ρ)
  | function (range : ρ) (name : Located ρ String) (definition : Function ρ)
  | conditional (range : ρ) (choice : Conditional ρ)
  | giveBack (range : ρ) (keyword : ρ) (value : Option (Expr ρ))
  | declare (range : ρ) (kind : Located ρ VariableKind) (name : Located ρ String)
      (type : Option (Located ρ String)) (value : Option (Expr ρ))
  | loop (range : ρ) (condition : Expr ρ) (body : Block ρ)

/-- A condition, the block for it, and what else there is. -/
structure Conditional (ρ : Type) : Type where
  range : ρ
  condition : Expr ρ
  consequent : Block ρ
  alternate : Alternate ρ

/-- What follows the block of a condition. -/
inductive Alternate (ρ : Type) : Type where
  | nothing
  | otherwise (block : Block ρ)
  | elseIf (choice : Conditional ρ)

end

/-- A whole program. -/
structure Program (ρ : Type) where
  range : ρ
  statements : List (Stmt ρ)

variable {ρ : Type}

namespace Expr

/-- Where an expression stands, its parentheses included. -/
def range : Expr ρ → ρ
  | assign r .. | binary r .. | function r .. | object r .. | call r .. | member r ..
  | subscript r .. | number r .. | text r .. | reference r .. => r

/-- The same expression at another range. -/
def withRange (r : ρ) : Expr ρ → Expr ρ
  | assign _ target source => assign r target source
  | binary _ operator lhs rhs => binary r operator lhs rhs
  | function _ definition => function r definition
  | object _ properties => object r properties
  | call _ callee arguments opening closing part =>
    call r callee arguments opening closing part
  | member _ base name part => member r base name part
  | subscript _ base key part => subscript r base key part
  | number _ value => number r value
  | text _ contents => text r contents
  | reference _ name => reference r name

/-- The name that an expression consists of. -/
def asName? : Expr ρ → Option (Located ρ String)
  | reference _ name => some name
  | _ => none

/-- Only names and properties can be assigned to. -/
def isAssignable : Expr ρ → Bool
  | reference .. | member .. | subscript .. => true
  | _ => false

@[simp] theorem range_withRange (r : ρ) (e : Expr ρ) : (e.withRange r).range = r := by
  cases e <;> rfl

end Expr

/-- Where a statement stands, its semicolon included. -/
def Stmt.range : Stmt ρ → ρ
  | breakLoop r | continueLoop r | expression r .. | function r .. | conditional r ..
  | giveBack r .. | declare r .. | loop r .. => r

/-- Whether a statement is an expression on its own. -/
def Stmt.isExpression : Stmt ρ → Bool
  | expression .. => true
  | _ => false

/-- Whether a statement declares a function. -/
def Stmt.isFunction : Stmt ρ → Bool
  | function .. => true
  | _ => false

end Guion
