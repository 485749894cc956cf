import Guion.Run.Output
import Guion.Run.Scope
import Guion.Tree.Basic

/-!
# Machines

The state of a run: the frames, objects and functions made so far, what was
printed, the scope that statements run in now, and how many calls are under way.
Nothing that was made is ever removed, so a number given out once always means
the same frame, object or function.

A computation on a machine ends with a value or with a fault at a position, and
then the machine is kept; or it does not end within what it was given, and then
there is no machine to speak of.
-/

namespace Guion

/-- A function value: its signature, its body and the scope it was made in. -/
structure Closure (ρ : Type) where
  name : Option String
  parameters : List (String × ValueType)
  returnType : Option ValueType
  body : Block ρ
  scope : Scope

/-- The name of a function in a message. -/
def Closure.label {ρ : Type} (f : Closure ρ) : String := f.name.getD "<anónima>"

/-- The state of a run. -/
structure Machine (ρ : Type) where
  frames : Frames
  objects : Array Fields
  closures : Array (Closure ρ)
  output : Output
  scope : Scope
  depth : Nat

/-- How a computation ends. -/
inductive Outcome (ρ α : Type) where
  | ok (value : α) (machine : Machine ρ)
  | error (fault : Located ρ Fault) (machine : Machine ρ)
  | unfinished

end Guion
