import Guion.Run.Builtin
import Guion.Run.Operation

/-!
# Running programs

Each construct has a rule of its own, told how to run the expressions and the lists
of statements inside it. The rules are tied together by recursion on how much a run
may still do: every level of nesting and every turn of a loop uses some of it. A run
that ends is the same whatever more it is given.

Statements end with a signal. Anything but `normal` skips the statements that
follow, up to a loop or a call that takes the signal in.
-/

namespace Guion

/-- How control leaves a statement. -/
inductive Signal where
  | normal
  | giveBack (value : Value)
  | breakLoop
  | continueLoop
  deriving DecidableEq, Repr, Inhabited

/-- The kind of frame that a block runs in. -/
def BlockKind.scopeKind : BlockKind → ScopeKind
  | function => .function
  | conditional => .conditional
  | loop => .loop

namespace Rules

open Effects

variable {ρ : Type} {M : Type → Type} [Effects ρ M]

/-! ### Types and functions -/

/-- The type that an ascription names. -/
@[specialize] def resolveType (spelled : Located ρ String) : M ValueType :=
  match ValueType.ofName? spelled.value with
  | some type => return type
  | none => fail spelled.range (.unknownType spelled.value)

/-- The type that an ascription names, where there may be none. -/
@[specialize] def resolveType? : Option (Located ρ String) → M (Option ValueType)
  | some spelled => do
    let type ← resolveType spelled
    return some type
  | none => return none

/-- The names and types of parameters. -/
@[specialize] def resolveParameters : List (Parameter ρ) → M (List (String × ValueType))
  | [] => return []
  | p :: rest => do
    let type ← resolveType p.type
    let more ← resolveParameters rest
    return (p.name.value, type) :: more

/-- Makes a function in the current scope. -/
@[specialize] def createFunction (name : Option String) (f : Function ρ) : M Value := do
  let parameters ← resolveParameters f.parameters
  let returnType ← resolveType? f.returnType
  let here ← scope
  newFunction ⟨name, parameters, returnType, f.body, here⟩

/-! ### Statements -/

/-- Runs statements up to the first that does not end normally. -/
@[specialize] def statements (statement : Stmt ρ → M Signal) : List (Stmt ρ) → M Signal
  | [] => return .normal
  | s :: rest => do
    match ← statement s with
    | .normal => statements statement rest
    | signal => return signal

/-- Runs a block in a frame of its own inside the current scope. -/
@[specialize] def block (body : List (Stmt ρ) → M Signal) (b : Block ρ) : M Signal :=
  inBlock b.kind.scopeKind (body b.statements)

/-- The truth value of a condition. -/
@[specialize] def condition (expression : Expr ρ → M Value) (e : Expr ρ) : M Bool := do
  let v ← expression e
  match v.asBoolean? with
  | some b => return b
  | none => fail e.range (.conditionNotBoolean v.type)

mutual

/-- Runs the block of the first condition that holds. -/
@[specialize] def conditional (expression : Expr ρ → M Value) (body : List (Stmt ρ) → M Signal) :
    Conditional ρ → M Signal
  | ⟨_, test, consequent, alternate⟩ => do
    if ← condition expression test then
      block body consequent
    else
      otherwise expression body alternate

/-- Runs what else there is when a condition does not hold. -/
@[specialize] def otherwise (expression : Expr ρ → M Value) (body : List (Stmt ρ) → M Signal) :
    Alternate ρ → M Signal
  | .nothing => return .normal
  | .otherwise b => block body b
  | .elseIf choice => conditional expression body choice

end

/-- One turn of a loop: nothing if there is to be another one, and else the signal
that the loop ends with. -/
@[specialize] def turn (expression : Expr ρ → M Value) (body : List (Stmt ρ) → M Signal)
    (test : Expr ρ) (repeated : Block ρ) : M (Option Signal) := do
  if ← condition expression test then
    match ← block body repeated with
    | .normal | .continueLoop => return none
    | .breakLoop => return some .normal
    | .giveBack v => return some (.giveBack v)
  else
    return some .normal

/-- Gives a signal that only a loop can take in. -/
@[specialize] def loopControl (range : ρ) (keyword : Keyword) (signal : Signal) : M Signal := do
  if ← insideLoop then
    return signal
  else
    fail range (.controlOutsideLoop keyword)

/-- The value of an expression, where there may be none. -/
@[specialize] def optional (expression : Expr ρ → M Value) : Option (Expr ρ) → M (Option Value)
  | some e => do
    let v ← expression e
    return some v
  | none => return none

/-- Leaves a function with a value. -/
@[specialize] def giveBack (expression : Expr ρ → M Value) (keyword : ρ) (value : Option (Expr ρ)) :
    M Signal := do
  if ← insideFunction then
    let v ← optional expression value
    return .giveBack (v.getD .null)
  else
    fail keyword .returnOutsideFunction

/-- Declares a variable or a constant in the current scope. -/
@[specialize] def declareVariable (expression : Expr ρ → M Value) (kind : VariableKind)
    (name : Located ρ String) (type : Option (Located ρ String)) (value : Option (Expr ρ)) :
    M Unit := do
  let type ← resolveType? type
  let v ← optional expression value
  let current ← scope
  declare name.range current.here name.value v type (kind = .const)

/-- Declares a function in the current scope. -/
@[specialize] def declareFunction (name : Located ρ String) (f : Function ρ) : M Unit := do
  let v ← createFunction (some name.value) f
  let current ← scope
  declare name.range current.here name.value (some v) (some .function) true

/-- Runs a statement, given how to run what is inside it and how many turns a loop
may take. -/
@[specialize] def statementStep (turns : Nat) (expression : Expr ρ → M Value)
    (body : List (Stmt ρ) → M Signal) : Stmt ρ → M Signal
  | .breakLoop range => loopControl range .romper .breakLoop
  | .continueLoop range => loopControl range .continuar .continueLoop
  | .expression _ value => do
    let _ ← expression value
    return .normal
  | .function _ name definition => do
    declareFunction name definition
    return .normal
  | .conditional _ choice => conditional expression body choice
  | .giveBack _ keyword value => giveBack expression keyword value
  | .declare _ kind name type value => do
    declareVariable expression kind.value name type value
    return .normal
  | .loop _ test repeated => repeatWithin (turn expression body test repeated) turns

/-! ### Expressions -/

/-- The values of several expressions, from left to right. -/
@[specialize] def all (expression : Expr ρ → M Value) : List (Expr ρ) → M (List Value)
  | [] => return []
  | e :: rest => do
    let v ← expression e
    let more ← all expression rest
    return v :: more

/-- The fields of an object literal. A later property replaces an earlier one of
the same key. -/
@[specialize] def properties (expression : Expr ρ → M Value) (fields : Fields) :
    List (Property ρ) → M Fields
  | [] => return fields
  | p :: rest => do
    let v ← match p.value with
      | some e => expression e
      | none => lookup p.key
    properties expression (fields.insert p.key.value v) rest

/-- The key that an expression in brackets gives. -/
@[specialize] def computedKey (expression : Expr ρ → M Value) (key : Expr ρ) : M String := do
  match ← expression key with
  | .text s => return s
  | other => fail key.range (.invalidPropertyKey other.type)

/-- The object that a value is. -/
@[specialize] def asObject (range : ρ) : Value → M Nat
  | .object id => return id
  | other => fail range (.notAnObject other.type)

/-- The value under a key of an object. -/
@[specialize] def readProperty (range : ρ) (object : Nat) (key : String) : M Value := do
  match ← field? object key with
  | some v => return v
  | none => fail range (.missingProperty key)

/-- The value of a property. The key is computed before the base is looked at. -/
@[specialize] def access (expression : Expr ρ → M Value) (base : Expr ρ) (key : M String)
    (part : ρ) : M Value := do
  let v ← expression base
  let k ← key
  let object ← asObject base.range v
  readProperty part object k

/-- Puts a value under a key of an object. The key is computed before the base is
looked at. -/
@[specialize] def store (expression : Expr ρ → M Value) (base : Expr ρ) (key : M String)
    (value : Value) : M Unit := do
  let v ← expression base
  let k ← key
  let object ← asObject base.range v
  putField object k value

/-- Assigns a value to what an expression denotes. That a call denotes nothing is found
out once its callee has been computed. -/
@[specialize] def assignTo (expression : Expr ρ → M Value) (value : Value) : Expr ρ → M Unit
  | .reference _ name => assign name.range name.value value
  | .member _ base name _ => store expression base (return name.value) value
  | .subscript _ base key _ => store expression base (computedKey expression key) value
  | .call _ callee _ _ _ part => do
    let _ ← expression callee
    fail part .invalidTarget
  | other => fail other.range .invalidTarget

/-- Declares the parameters of a call in its frame. An argument of the wrong type is
reported where it stands, anything else at the call. -/
@[specialize] def bindParameters (range : ρ) (frame : Nat) :
    List (String × ValueType) → List Value → List (Expr ρ) → M Unit
  | (name, type) :: parameters, v :: values, e :: arguments => do
    if v.type = type then
      declare range frame name (some v) (some type) true
      bindParameters range frame parameters values arguments
    else
      fail e.range (.argumentTypeMismatch name type v.type)
  | _, _, _ => return

/-- Runs the statements of a function on values. Their frame stands inside the scope
that the function was made in, not inside that of the caller. -/
@[specialize] def runBody (body : List (Stmt ρ) → M Signal) (range : ρ) (f : Closure ρ)
    (values : List Value) (arguments : List (Expr ρ)) : M Signal :=
  inCall range f.scope (fun frame => bindParameters range frame f.parameters values arguments)
    (body f.body.statements)

/-- The value of a function on values: what it gives back, or else null. -/
@[specialize] def enter (body : List (Stmt ρ) → M Signal) (range : ρ) (f : Closure ρ)
    (values : List Value) (arguments : List (Expr ρ)) : M Value := do
  match ← runBody body range f values arguments with
  | .giveBack v => return v
  | _ => return .null

/-- Calls a value. How many arguments a function takes is checked before any of
them is computed. -/
@[specialize] def call (expression : Expr ρ → M Value) (body : List (Stmt ρ) → M Signal) (range : ρ)
    (arguments : List (Expr ρ)) : Value → M Value
  | .function id => do
    match ← closure? id with
    | none => fail range (.notCallable .function)
    | some f =>
      if arguments.length = f.parameters.length then
        let values ← all expression arguments
        enter body range f values arguments
      else
        fail range (.arityMismatch f.label f.parameters.length arguments.length)
  | .builtin f => do
    let values ← all expression arguments
    f.apply range values
  | other => do
    let _ ← all expression arguments
    fail range (.notCallable other.type)

/-- Computes an expression, given how to run what is inside it. -/
@[specialize] def expressionStep (expression : Expr ρ → M Value) (body : List (Stmt ρ) → M Signal) :
    Expr ρ → M Value
  | .assign _ target source => do
    let v ← expression source
    assignTo expression v target
    return v
  | .binary _ operator lhs rhs => do
    let a ← expression lhs
    let b ← expression rhs
    ofExcept operator.range (operator.value.apply a b)
  | .function _ definition => createFunction none definition
  | .object _ list => do
    let fields ← properties expression [] list
    newObject fields
  | .call range callee arguments _ _ _ => do
    let f ← expression callee
    call expression body range arguments f
  | .member _ base name part => access expression base (return name.value) part
  | .subscript _ base key part => access expression base (computedKey expression key) part
  | .number _ x => return .number x
  | .text _ s => return .text s
  | .reference _ name => lookup name

/-! ### Programs -/

/-- Runs the statements of a program, given how to run each of them and the result so
far. The result is that of the last statement if it is an expression. -/
@[specialize] def programStep (expression : Expr ρ → M Value) (statement : Stmt ρ → M Signal)
    (last : Value) : List (Stmt ρ) → M Value
  | [] => return last
  | .expression _ e :: rest => do
    let v ← expression e
    programStep expression statement v rest
  | s :: rest => do
    let _ ← statement s
    programStep expression statement .null rest

/-! ### The knot -/

mutual

/-- Computes an expression within a bound. -/
@[specialize] def expression : Nat → Expr ρ → M Value
  | 0, _ => unfinished
  | n + 1, e => expressionStep (expression n) (statements (statement n)) e

/-- Runs a statement within a bound. -/
@[specialize] def statement : Nat → Stmt ρ → M Signal
  | 0, _ => unfinished
  | n + 1, s => statementStep n (expression n) (statements (statement n)) s

end

/-- Runs a program within a bound. -/
@[specialize] def program (bound : Nat) (p : Program ρ) : M Value :=
  programStep (expression bound) (statement bound) .null p.statements

end Rules

namespace Exec

variable {ρ : Type}

/-- Computes an expression on a machine within a bound. -/
def expression (bound : Nat) (e : Expr ρ) : Exec ρ Value := Rules.expression bound e

/-- Runs a statement on a machine within a bound. -/
def statement (bound : Nat) (s : Stmt ρ) : Exec ρ Signal := Rules.statement bound s

/-- Runs a program on a machine within a bound. -/
def program (bound : Nat) (p : Program ρ) : Exec ρ Value := Rules.program bound p

end Exec

end Guion
