import Guion.Parse.Expression

/-!
# The grammar of statements

A statement is told by its first token, a function declaration by its first two.
As with expressions, the productions are open: they are told how to parse a whole
expression and a whole statement.
-/

namespace Guion.Parser

variable {ρ : Type} [Extent ρ]

/-- One statement of a block, or nothing once its closing brace has been taken. -/
def blockStep (statement : Parser ρ (Stmt ρ)) : Parser ρ (Option (Stmt ρ)) := do
  let token ← peek
  match token.lexeme with
  | .punctuator .rightBrace =>
    let _ ← take
    return none
  | .endOfFile => fail (.expectedRightBrace .block token)
  | _ =>
    let s ← statement
    return some s

/-- Statements in braces. -/
def block (statement : Parser ρ (Stmt ρ)) (kind : BlockKind) (before : Context) :
    Parser ρ (Block ρ) := do
  let opening ← expect .leftBrace (.expectedLeftBrace before)
  let statements ← collect (blockStep statement)
  let final ← last
  return ⟨kind, Extent.through opening final, statements⟩

/-- The semicolon that ends a statement. -/
def semicolon : Parser ρ Unit := do
  let _ ← expect .semicolon .expectedSemicolon

/-- What a declaration gives its name: a value behind an equals sign, or nothing
for a variable that has a type. -/
def initial (expression : Parser ρ (Expr ρ)) (kind : VariableKind)
    (declared : Located ρ String) (type : Option (Located ρ String)) :
    Parser ρ (Option (Expr ρ)) := do
  if ← accept .assign then
    let value ← expression
    return some value
  else
    match kind, type with
    | .const, _ => fail (.constantWithoutValue declared)
    | .var, none => fail (.missingType declared)
    | .var, some _ => return none

/-- A declaration of a variable or a constant. Its keyword is at the cursor. -/
def declaration (expression : Parser ρ (Expr ρ)) (kind : VariableKind) : Parser ρ (Stmt ρ) := do
  let keyword ← take
  let declared ← name .variableName
  let type ← ascription .variableType
  let value ← initial expression kind declared type
  semicolon
  let final ← last
  return .declare (Extent.through keyword.range final) ⟨keyword.range, kind⟩ declared type value

/-- A declaration of a function. Its keyword is at the cursor. -/
def functionDeclaration (statement : Parser ρ (Stmt ρ)) : Parser ρ (Stmt ρ) := do
  let keyword ← take
  let declared ← name .funcion
  let list ← parameters .functionName
  let type ← returnType
  let body ← block statement .function .signature
  let final ← last
  let range := Extent.through keyword.range final
  return .function range declared ⟨list, some type, body, range⟩

/-- The result that a function is left with, where there may be none. -/
def result (expression : Parser ρ (Expr ρ)) : Parser ρ (Option (Expr ρ)) := do
  if ← sees .semicolon then
    return none
  else
    let value ← expression
    return some value

/-- The end of a function with or without a result. Its keyword is at the cursor. -/
def giveBack (expression : Parser ρ (Expr ρ)) : Parser ρ (Stmt ρ) := do
  let keyword ← take
  let value ← result expression
  semicolon
  let final ← last
  return .giveBack (Extent.through keyword.range final) keyword.range value

/-- What follows the block of a condition, given how to parse one more condition. -/
def alternate (statement : Parser ρ (Stmt ρ)) (choice : Parser ρ (Conditional ρ)) :
    Parser ρ (Alternate ρ) := do
  let token ← peek
  match token.lexeme with
  | .keyword .sino =>
    let _ ← take
    let b ← block statement .conditional .sino
    return .otherwise b
  | .keyword .peroSi =>
    let another ← choice
    return .elseIf another
  | _ => return .nothing

/-- A condition and what depends on it, given how to parse one more condition. The
keyword is at the cursor. -/
def conditionalStep (expression : Parser ρ (Expr ρ)) (statement : Parser ρ (Stmt ρ))
    (choice : Parser ρ (Conditional ρ)) : Parser ρ (Conditional ρ) := do
  let keyword ← take
  let before := if keyword.lexeme = .keyword .peroSi then Context.peroSi else .si
  let _ ← expect .leftParen (.expectedLeftParen before)
  let condition ← expression
  let _ ← expect .rightParen (.expectedRightParen .condition)
  let consequent ← block statement .conditional .condition
  let rest ← alternate statement choice
  let final ← last
  return ⟨Extent.through keyword.range final, condition, consequent, rest⟩

/-- A condition with every alternative that follows, at most so many. -/
def conditionalWithin (expression : Parser ρ (Expr ρ)) (statement : Parser ρ (Stmt ρ)) :
    Nat → Cursor ρ → Reply ρ (Conditional ρ)
  | 0, c => stuck c
  | n + 1, c => conditionalStep expression statement (conditionalWithin expression statement n) c

/-- A condition with every alternative that follows. -/
def conditional (expression : Parser ρ (Expr ρ)) (statement : Parser ρ (Stmt ρ)) :
    Parser ρ (Conditional ρ) :=
  bounded (conditionalWithin expression statement)

/-- The word between the condition of a loop and its block. -/
def hacer : Parser ρ Unit := do
  let token ← take
  if token.lexeme = .keyword .hacer then return else fail (.expectedHacer token)

/-- A loop. Its keyword is at the cursor. -/
def loop (expression : Parser ρ (Expr ρ)) (statement : Parser ρ (Stmt ρ)) :
    Parser ρ (Stmt ρ) := do
  let keyword ← take
  let _ ← expect .leftParen (.expectedLeftParen .mientras)
  let condition ← expression
  let _ ← expect .rightParen (.expectedRightParen .condition)
  hacer
  let body ← block statement .loop .hacer
  let final ← last
  return .loop (Extent.through keyword.range final) condition body

/-- A single keyword and its semicolon. -/
def control (form : ρ → Stmt ρ) : Parser ρ (Stmt ρ) := do
  let keyword ← take
  semicolon
  let final ← last
  return form (Extent.through keyword.range final)

/-- An expression and its semicolon. -/
def expressionStatement (expression : Parser ρ (Expr ρ)) : Parser ρ (Stmt ρ) := do
  let first ← peek
  let value ← expression
  semicolon
  let final ← last
  return .expression (Extent.through first.range final) value

/-- A condition with its alternatives, as a statement. -/
def conditionalStatement (expression : Parser ρ (Expr ρ)) (statement : Parser ρ (Stmt ρ)) :
    Parser ρ (Stmt ρ) := do
  let choice ← conditional expression statement
  return .conditional choice.range choice

/-- A statement, given how to parse the expressions and statements inside it. -/
def statementStep (expression : Parser ρ (Expr ρ)) (statement : Parser ρ (Stmt ρ)) :
    Parser ρ (Stmt ρ) := fun c =>
  match c.peek.lexeme with
  | .keyword .var => declaration expression .var c
  | .keyword .const => declaration expression .const c
  | .keyword .funcion =>
    if c.peekSecond.asName?.isSome then
      functionDeclaration statement c
    else
      expressionStatement expression c
  | .keyword .devolver => giveBack expression c
  | .keyword .si => conditionalStatement expression statement c
  | .keyword .peroSi | .keyword .sino => .error (.danglingAlternate c.peek) c
  | .keyword .mientras => loop expression statement c
  | .keyword .romper => control .breakLoop c
  | .keyword .continuar => control .continueLoop c
  | _ => expressionStatement expression c

mutual

/-- An expression nested at most so deep. -/
def expressionWithin : Nat → Cursor ρ → Reply ρ (Expr ρ)
  | 0, c => stuck c
  | n + 1, c => expressionStep (expressionWithin n) (block (statementWithin n)) c

/-- A statement nested at most so deep. -/
def statementWithin : Nat → Cursor ρ → Reply ρ (Stmt ρ)
  | 0, c => stuck c
  | n + 1, c => statementStep (expressionWithin n) (statementWithin n) c

end

/-- A depth that the remaining tokens cannot exceed: whatever is nested begins
behind at least one token more, and a statement may begin with its expression. -/
def depthBound (c : Cursor ρ) : Nat := 2 * c.rest.length + 2

/-- An expression at the cursor. -/
def expression : Parser ρ (Expr ρ) := fun c => expressionWithin (depthBound c) c

/-- A statement at the cursor. -/
def statement : Parser ρ (Stmt ρ) := fun c => statementWithin (depthBound c) c

/-- One statement of a program, or nothing at the end of the input. -/
def programStep : Parser ρ (Option (Stmt ρ)) := do
  let token ← peek
  if token.lexeme.isEnd then
    return none
  else
    let s ← statement
    return some s

/-- All statements up to the end of the input. -/
def program : Parser ρ (Program ρ) := do
  let first ← peek
  let statements ← collect programStep
  let final ← peek
  return ⟨Extent.through first.range final.range, statements⟩

end Guion.Parser
