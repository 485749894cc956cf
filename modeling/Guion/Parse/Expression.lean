import Guion.Number.Reader
import Guion.Parse.Cursor
import Guion.Tree.Basic

/-!
# The grammar of expressions

An assignment is loosest, then come object and function literals, then six tiers
of binary operators that all join to the left, then calls and accesses, and last
the names, literals and parentheses. The productions here are open: they are told
how to parse a whole expression and a whole block.
-/

namespace Guion.Parser

variable {ρ : Type} [Extent ρ]

/-- The binary operators, from the loosest tier to the tightest. -/
def tiers : List (Lexeme → Option Operator) :=
  [fun
    | .keyword .y => some (.logical .and)
    | .keyword .o => some (.logical .or)
    | _ => none,
  fun
    | .punctuator .equal => some (.comparison .equal)
    | .punctuator .notEqual => some (.comparison .notEqual)
    | _ => none,
  fun
    | .punctuator .greater => some (.comparison .greater)
    | .punctuator .greaterEqual => some (.comparison .greaterEqual)
    | .punctuator .less => some (.comparison .less)
    | .punctuator .lessEqual => some (.comparison .lessEqual)
    | _ => none,
  fun
    | .punctuator .plus => some (.arithmetic .add)
    | .punctuator .minus => some (.arithmetic .subtract)
    | _ => none,
  fun
    | .punctuator .star => some (.arithmetic .multiply)
    | .punctuator .slash => some (.arithmetic .divide)
    | .punctuator .percent => some (.arithmetic .modulo)
    | _ => none,
  fun
    | .punctuator .caret => some (.arithmetic .power)
    | _ => none]

/-- A name, a literal or an expression in parentheses. -/
def primary (expression : Parser ρ (Expr ρ)) : Parser ρ (Expr ρ) := do
  let token ← take
  match token.asName?, token.lexeme with
  | some name, _ => return .reference token.range name
  | none, .number literal =>
    match Number.read? literal.toList with
    | some value => return .number token.range value
    | none => fail (.invalidNumber token)
  | none, .text contents => return .text token.range contents
  | none, .punctuator .leftParen =>
    let inner ← expression
    let close ← expect .rightParen (.expectedRightParen .expression)
    return inner.withRange (Extent.through token.range close)
  | none, _ => fail (.unknownStart token)

/-- One call or access behind an expression. -/
def postfixStep (expression : Parser ρ (Expr ρ)) (base : Expr ρ) :
    Parser ρ (Option (Expr ρ)) := do
  let token ← peek
  match token.lexeme with
  | .punctuator .leftParen =>
    let _ ← take
    let arguments ← separated .rightParen .argument expression
    let close ← expect .rightParen (.expectedRightParen .arguments)
    return some (.call (Extent.through base.range close) base arguments token.range close
      (Extent.through token.range close))
  | .punctuator .period =>
    let _ ← take
    let name ← name .period
    return some (.member (Extent.through base.range name.range) base name
      (Extent.through token.range name.range))
  | .punctuator .leftBracket =>
    let _ ← take
    let key ← expression
    let close ← expect .rightBracket (.expectedRightBracket .key)
    return some (.subscript (Extent.through base.range close) base key
      (Extent.through token.range close))
  | _ => return none

/-- An expression with its calls and accesses, the leftmost applied first. -/
def chain (expression : Parser ρ (Expr ρ)) : Parser ρ (Expr ρ) := do
  let base ← primary expression
  extend (postfixStep expression) base

/-- One operator of a tier and the operand to its right. -/
def operatorStep (operator? : Lexeme → Option Operator) (operand : Parser ρ (Expr ρ))
    (lhs : Expr ρ) : Parser ρ (Option (Expr ρ)) := do
  let token ← peek
  match operator? token.lexeme with
  | none => return none
  | some operator =>
    let _ ← take
    let rhs ← operand
    return some (.binary (Extent.through lhs.range rhs.range) ⟨token.range, operator⟩ lhs rhs)

/-- Binary expressions of the given tiers, whose tightest operands are `operand`. -/
def binary (operand : Parser ρ (Expr ρ)) : List (Lexeme → Option Operator) → Parser ρ (Expr ρ)
  | [] => operand
  | tier :: tighter => do
    let lhs ← binary operand tighter
    extend (operatorStep tier (binary operand tighter)) lhs

/-- A property of an object literal. -/
def property (expression : Parser ρ (Expr ρ)) : Parser ρ (Property ρ) := do
  let key ← name .property
  if ← accept .colon then
    let value ← expression
    return ⟨key, some value⟩
  else
    return ⟨key, none⟩

/-- An object literal. Its opening brace is at the cursor. -/
def object (expression : Parser ρ (Expr ρ)) : Parser ρ (Expr ρ) := do
  let opening ← take
  let properties ← separated .rightBrace .property (property expression)
  let closing ← take
  return .object (Extent.through opening.range closing.range) properties

/-- A parameter with its type. -/
def parameter : Parser ρ (Parameter ρ) := do
  let parameterName ← name .parameterName
  let _ ← expect .colon (.expectedColon .parameterName)
  let type ← name .parameterType
  return ⟨parameterName, type⟩

/-- The parameters of a function in their parentheses. What stands before them is
given for the complaint. -/
def parameters (before : Context) : Parser ρ (List (Parameter ρ)) := do
  let _ ← expect .leftParen (.expectedLeftParen before)
  let list ← separated .rightParen .parameter parameter
  let _ ← expect .rightParen (.expectedRightParen .parameterList)
  return list

/-- The return type of a function behind its colon. -/
def returnType : Parser ρ (Located ρ String) := do
  let _ ← expect .colon (.expectedColon .parameterList)
  name .returnType

/-- A type behind a colon, where there may be none. -/
def ascription (context : Context) : Parser ρ (Option (Located ρ String)) := do
  if ← accept .colon then
    let type ← name context
    return some type
  else
    return none

/-- A function literal. The keyword is at the cursor; a return type may be left
out. -/
def functionLiteral (block : BlockKind → Context → Parser ρ (Block ρ)) :
    Parser ρ (Expr ρ) := do
  let keyword ← take
  let list ← parameters .funcion
  let type ← ascription .returnType
  let body ← block .function .signature
  let final ← last
  let range := Extent.through keyword.range final
  return .function range ⟨list, type, body, range⟩

/-- An object literal, a function literal, or an expression of operators. -/
def unit (expression : Parser ρ (Expr ρ)) (block : BlockKind → Context → Parser ρ (Block ρ)) :
    Parser ρ (Expr ρ) := do
  let token ← peek
  match token.lexeme with
  | .punctuator .leftBrace => object expression
  | .keyword .funcion => functionLiteral block
  | _ => binary (chain expression) tiers

/-- An expression, given how to parse the expressions and blocks inside it. What
is assigned to is looked at only once the equals sign has been taken. -/
def expressionStep (expression : Parser ρ (Expr ρ))
    (block : BlockKind → Context → Parser ρ (Block ρ)) : Parser ρ (Expr ρ) := do
  let target ← unit expression block
  if ← sees .assign then
    let equals ← take
    if target.isAssignable then
      let source ← expression
      return .assign (Extent.cover target.range source.range) target source
    else
      fail (.invalidTarget equals target.range)
  else
    return target

end Guion.Parser
