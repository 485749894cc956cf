import Guion.Run.Fault
import Guion.Run.Value

/-!
# Scopes

A scope is a frame of bindings and the frames around it. Frames are kept in one
table and scopes are paths into it, so that functions which captured a scope and
blocks which still run in it share its bindings.

Declaring and assigning come in two halves. The first half only looks, and says
which binding there is to be or why there can be none; the second half writes it.
A failing operation therefore leaves the table untouched.
-/

namespace Guion

/-- What a frame was made for. -/
inductive ScopeKind where
  | global
  | function
  | conditional
  | loop
  deriving DecidableEq, Repr, Inhabited

/-- What a name stands for. The type never changes; a variable may be without a
value until it is first assigned. -/
inductive Binding where
  | var (type : ValueType) (value : Option Value)
  | const (type : ValueType) (value : Value)
  deriving DecidableEq, Repr

namespace Binding

/-- The declared type. -/
def type : Binding → ValueType
  | var type _ | const type _ => type

/-- The value, if there is one. -/
def value? : Binding → Option Value
  | var _ value => value
  | const _ value => some value

/-- The binding after an assignment. -/
def set (name : String) (new : Value) : Binding → Except Fault Binding
  | const _ _ => .error (.assignToConstant name)
  | var type _ =>
    if new.type = type then .ok (var type (some new))
    else .error (.typeMismatch name type new.type)

end Binding

/-- A frame: the names declared in one block, function call or program. -/
structure Frame where
  kind : ScopeKind
  bindings : List (String × Binding)
  deriving DecidableEq, Repr, Inhabited

namespace Frame

/-- The binding of a name in this frame. -/
def find? (frame : Frame) (name : String) : Option Binding :=
  frame.bindings.lookup name

/-- Writes a binding, over one that is there already. -/
def put (frame : Frame) (name : String) (binding : Binding) : Frame :=
  { frame with bindings := go frame.bindings }
where
  /-- Replaces the binding in a list, or adds it behind the others. -/
  go : List (String × Binding) → List (String × Binding)
    | [] => [(name, binding)]
    | (n, b) :: rest => if n = name then (n, binding) :: rest else (n, b) :: go rest

end Frame

/-- A frame and those around it, the nearest first. -/
structure Scope where
  here : Nat
  around : List Nat
  deriving DecidableEq, Repr, Inhabited

namespace Scope

/-- The scope that a run begins in. -/
def outermost : Scope := ⟨0, []⟩

/-- The frames of a scope, the innermost first. -/
def path (s : Scope) : List Nat := s.here :: s.around

/-- How many frames a scope has. -/
def depth (s : Scope) : Nat := s.path.length

/-- The scope with one more frame inside. -/
def inner (s : Scope) (frame : Nat) : Scope := ⟨frame, s.path⟩

end Scope

/-- The frames of a run. -/
abbrev Frames := Array Frame

namespace Frames

/-- The binding of a name in one frame. -/
def find? (frames : Frames) (frame : Nat) (name : String) : Option Binding :=
  frames[frame]?.bind (·.find? name)

/-- What a frame was made for. -/
def kind? (frames : Frames) (frame : Nat) : Option ScopeKind :=
  frames[frame]?.map (·.kind)

/-- The nearest frame on a path that binds a name, with the binding. -/
def resolve (frames : Frames) (name : String) : List Nat → Option (Nat × Binding)
  | [] => none
  | frame :: around =>
    match frames.find? frame name with
    | some binding => some (frame, binding)
    | none => resolve frames name around

/-- Writes a binding into a frame. -/
def put (frames : Frames) (frame : Nat) (name : String) (binding : Binding) : Frames :=
  frames.modify frame (·.put name binding)

/-- The value of a name. -/
def lookup (frames : Frames) (scope : Scope) (name : String) : Except Fault Value :=
  match frames.resolve name scope.path with
  | none => .error (.undeclared name)
  | some (_, binding) =>
    match binding.value? with
    | none => .error (.uninitialized name)
    | some value => .ok value

/-- The binding that a declaration makes in a frame. Its type is the ascription
if there is one, and else the type of the value. -/
def declared (frames : Frames) (frame : Nat) (name : String) (value : Option Value)
    (type : Option ValueType) (isConstant : Bool) : Except Fault Binding :=
  if (frames.find? frame name).isSome then
    .error (.alreadyDeclared name)
  else
    match type.or (value.map Value.type) with
    | none => .error (.missingType name)
    | some type =>
      match value with
      | none => if isConstant then .error (.constantWithoutValue name) else .ok (.var type none)
      | some v =>
        if v.type = type then
          .ok (if isConstant then .const type v else .var type (some v))
        else
          .error (.typeMismatch name type v.type)

/-- The frame and binding that an assignment changes. -/
def assigned (frames : Frames) (scope : Scope) (name : String) (value : Value) :
    Except Fault (Nat × Binding) :=
  match frames.resolve name scope.path with
  | none => .error (.undeclared name)
  | some (frame, binding) => (binding.set name value).map fun new => (frame, new)

/-- Declares a name in a frame. -/
def declare (frames : Frames) (frame : Nat) (name : String) (value : Option Value)
    (type : Option ValueType) (isConstant : Bool) : Except Fault Frames :=
  (frames.declared frame name value type isConstant).map fun binding =>
    frames.put frame name binding

/-- Assigns to the nearest binding of a name. -/
def assign (frames : Frames) (scope : Scope) (name : String) (value : Value) :
    Except Fault Frames :=
  (frames.assigned scope name value).map fun (frame, binding) => frames.put frame name binding

/-- Whether a path leads to a function before it leads to the outermost frame. -/
def insideFunction (frames : Frames) : List Nat → Bool
  | [] => false
  | frame :: around =>
    match frames.kind? frame with
    | some .function => true
    | some .conditional | some .loop => insideFunction frames around
    | some .global | none => false

/-- Whether a path leads to a loop before it leaves the function it is in. -/
def insideLoop (frames : Frames) : List Nat → Bool
  | [] => false
  | frame :: around =>
    match frames.kind? frame with
    | some .loop => true
    | some .conditional => insideLoop frames around
    | some .function | some .global | none => false

end Frames

end Guion
