import Guion.Run.Machine
import Guion.Text.Quoted

/-!
# Inspection

Scopes and functions have a second text, for looking at a session from outside.
It names the parts of what it shows; names and documentation stand in quotes.
-/

namespace Guion

variable {ρ : Type}

/-- A type in an inspection. -/
def ValueType.tag : ValueType → String
  | null => "Null"
  | boolean => "Boolean"
  | number => "Number"
  | text => "Text"
  | object => "Object"
  | function => "Function"

/-- A kind of frame in an inspection. -/
def ScopeKind.tag : ScopeKind → String
  | global => "Global"
  | function => "Function"
  | conditional => "If"
  | loop => "While"

/-- A named record of parts. -/
def inspectRecord (name : String) (parts : List String) : String :=
  name ++ " \x7b " ++ ", ".intercalate parts ++ " \x7d"

/-- A list in brackets. -/
def inspectList (items : List String) : String :=
  "[" ++ ", ".intercalate items ++ "]"

/-- Something that may be absent. -/
def inspectOption : Option String → String
  | some text => "Some(" ++ text ++ ")"
  | none => "None"

/-- The inspection of a scope: the names bound in its innermost frame, sorted. -/
def Frames.inspect (frames : Frames) (scope : Scope) : String :=
  let frame := frames[scope.here]?.getD default
  let names := (frame.bindings.map (·.1)).mergeSort fun a b => decide (a ≤ b)
  inspectRecord "Environment" ["kind: " ++ frame.kind.tag, "depth: " ++ toString scope.depth,
    "bindings: " ++ inspectList (names.map Text.quote)]

/-- The inspection of a function value. -/
def Closure.inspect (f : Closure ρ) (frames : Frames) : String :=
  let parameters := f.parameters.map fun (name, type) =>
    "(" ++ Text.quote name ++ ", " ++ type.tag ++ ")"
  let kind := (frames.kind? f.scope.here).getD default
  inspectRecord "FunctionValue" ["name: " ++ inspectOption (f.name.map Text.quote),
    "parameters: " ++ inspectList parameters,
    "return_type: " ++ inspectOption (f.returnType.map ValueType.tag), "closure: " ++ kind.tag,
    ".."]

/-- The inspection of a built-in function. -/
def Builtin.inspect (f : Builtin) : String :=
  inspectRecord "BuiltinFunction" ["name: " ++ Text.quote f.name,
    "documentation: " ++ Text.quote f.documentation, "function: " ++ Text.quote "(nativa)"]

/-- A built-in function as it is called. -/
def Builtin.display (f : Builtin) : String := f.name ++ "()"

end Guion
