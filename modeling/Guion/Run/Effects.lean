import Guion.Run.Display

/-!
# Effects

What running a program can do to a machine, one operation for each thing it does.
The rules of the language are written in these operations and know nothing else of
machines, so they can be read as computations of any kind that has them. `Exec` is
the kind that runs.
-/

namespace Guion

/-- How many calls may be under way at once. -/
def callLimit : Nat := 2000

/-- The operations that the rules of the language are made of, for computations of
kind `M` on trees with positions in `ρ`. -/
class Effects (ρ : outParam Type) (M : Type → Type) extends Monad M where
  /-- Ends with a fault at a position. -/
  fail {α : Type} (range : ρ) (fault : Fault) : M α
  /-- Does not end. -/
  unfinished {α : Type} : M α
  /-- The scope that statements run in now. -/
  scope : M Scope
  /-- Whether that scope is inside a function. -/
  insideFunction : M Bool
  /-- Whether that scope is inside a loop. -/
  insideLoop : M Bool
  /-- The value of a name where it stands. -/
  lookup (name : Located ρ String) : M Value
  /-- Declares a name in a frame. -/
  declare (range : ρ) (frame : Nat) (name : String) (value : Option Value)
    (type : Option ValueType) (isConstant : Bool) : M Unit
  /-- Assigns to the nearest binding of a name. -/
  assign (range : ρ) (name : String) (value : Value) : M Unit
  /-- Makes an object and gives its value. -/
  newObject (fields : Fields) : M Value
  /-- Makes a function and gives its value. -/
  newFunction (f : Closure ρ) : M Value
  /-- The function with a number. -/
  closure? (id : Nat) : M (Option (Closure ρ))
  /-- The value under a key of an object. -/
  field? (object : Nat) (key : String) : M (Option Value)
  /-- Puts a value under a key of an object. -/
  putField (object : Nat) (key : String) (value : Value) : M Unit
  /-- The text of a value. There is none for an object that contains itself. -/
  display (v : Value) : M String
  /-- Prints a text. -/
  write (range : ρ) (text : String) : M Unit
  /-- Prints the text of a value. An object that contains itself is printed for ever, or
  until the output is full. -/
  print (range : ρ) (v : Value) : M Unit
  /-- Runs something in a new frame inside the current scope. Afterwards the scope is
  what it was before, however the run ends. -/
  inBlock {α : Type} (kind : ScopeKind) (x : M α) : M α
  /-- Makes the frame of a call inside a scope and prepares it, and then runs something
  there one call deeper, unless as many calls as may be are under way. Afterwards scope
  and depth are what they were before, however the run ends. -/
  inCall {α : Type} (range : ρ) (around : Scope) (prepare : Nat → M Unit) (x : M α) : M α
  /-- Repeats a step until it gives a result, at most so many times. -/
  repeatWithin {α : Type} (step : M (Option α)) (turns : Nat) : M α

/-- A result that may be a fault, with a position for the fault. -/
@[specialize] def Effects.ofExcept {ρ : Type} {M : Type → Type} [Effects ρ M] {α : Type}
    (range : ρ) : Except Fault α → M α
  | .ok a => return a
  | .error fault => fail range fault

/-- A computation on a machine. -/
def Exec (ρ α : Type) := Machine ρ → Outcome ρ α

namespace Exec

variable {ρ α β : Type}

/-- Gives a value and does nothing. -/
@[inline] protected def pure (a : α) : Exec ρ α := fun m => .ok a m

/-- One computation after another. -/
@[inline] protected def bind (x : Exec ρ α) (f : α → Exec ρ β) : Exec ρ β := fun m =>
  match x m with
  | .ok a m => f a m
  | .error fault m => .error fault m
  | .unfinished => .unfinished

@[always_inline]
instance : Monad (Exec ρ) where
  pure := Exec.pure
  bind := Exec.bind

@[simp] theorem pure_apply (a : α) (m : Machine ρ) : (Pure.pure a : Exec ρ α) m = .ok a m := rfl

/-- A sequence ends with a value only if both of its parts do. -/
theorem bind_eq_ok_iff {x : Exec ρ α} {f : α → Exec ρ β} {m final : Machine ρ} {b : β} :
    (x >>= f) m = .ok b final ↔ ∃ a middle, x m = .ok a middle ∧ f a middle = .ok b final := by
  change Exec.bind x f m = _ ↔ _
  unfold Exec.bind
  cases x m <;> simp [and_assoc]

/-- Declares a name in a frame. A failure leaves the frames as they are. -/
def declare (range : ρ) (frame : Nat) (name : String) (value : Option Value)
    (type : Option ValueType) (isConstant : Bool) : Exec ρ Unit := fun m =>
  match m.frames.declared frame name value type isConstant with
  | .ok binding => .ok () { m with frames := m.frames.put frame name binding }
  | .error fault => .error ⟨range, fault⟩ m

/-- Assigns to the nearest binding of a name. A failure leaves the frames as they
are. -/
def assign (range : ρ) (name : String) (value : Value) : Exec ρ Unit := fun m =>
  match m.frames.assigned m.scope name value with
  | .ok (frame, binding) => .ok () { m with frames := m.frames.put frame name binding }
  | .error fault => .error ⟨range, fault⟩ m

/-- Prints a text as far as it fits. -/
def write (range : ρ) (text : String) : Exec ρ Unit := fun m =>
  let ⟨frames, objects, closures, output, scope, depth⟩ := m
  match output.write text with
  | (output, true) => .ok () ⟨frames, objects, closures, output, scope, depth⟩
  | (output, false) =>
    .error ⟨range, .outputFailed Output.full⟩ ⟨frames, objects, closures, output, scope, depth⟩

theorem write_eq (range : ρ) (text : String) (m : Machine ρ) :
    write range text m = if (m.output.write text).2 then
        .ok () { m with output := (m.output.write text).1 }
      else
        .error ⟨range, .outputFailed Output.full⟩ { m with output := (m.output.write text).1 } := by
  obtain ⟨frames, objects, closures, output, scope, depth⟩ := m
  simp only [write]
  rcases output.write text with ⟨written, _ | _⟩ <;> rfl

/-- Prints the text of a value as far as it fits. -/
def print (range : ρ) (v : Value) : Exec ρ Unit := fun m =>
  let printed := m.printed v
  match write range printed.text m with
  | .ok _ m => if printed.whole then .ok () m else .unfinished
  | .error fault m => .error fault m
  | .unfinished => .unfinished

/-- Runs something in another scope and comes back, however the run ends. -/
def within (scope : Scope) (x : Exec ρ α) : Exec ρ α := fun m =>
  let before := m.scope
  match x { m with scope := scope } with
  | .ok a m => .ok a { m with scope := before }
  | .error fault m => .error fault { m with scope := before }
  | .unfinished => .unfinished

/-- Runs something with one more call under way. -/
def counted (x : Exec ρ α) : Exec ρ α := fun m =>
  match x { m with depth := m.depth + 1 } with
  | .ok a m => .ok a { m with depth := m.depth - 1 }
  | .error fault m => .error fault { m with depth := m.depth - 1 }
  | .unfinished => .unfinished

/-- Runs something in a new frame inside the current scope. -/
def inBlock (kind : ScopeKind) (x : Exec ρ α) : Exec ρ α := fun m =>
  within (m.scope.inner m.frames.size) x { m with frames := m.frames.push ⟨kind, []⟩ }

/-- Runs something in the prepared frame of a call, if there may be one more call. -/
def inCall (range : ρ) (around : Scope) (prepare : Nat → Exec ρ Unit) (x : Exec ρ α) :
    Exec ρ α := fun m =>
  if callLimit ≤ m.depth then
    .error ⟨range, .callDepthExceeded callLimit⟩ m
  else
    let frame := m.frames.size
    Exec.bind (prepare frame) (fun _ => counted (within (around.inner frame) x))
      { m with frames := m.frames.push ⟨.function, []⟩ }

/-- Repeats a step until it gives a result, at most so many times. -/
def repeatWithin (step : Exec ρ (Option α)) : Nat → Machine ρ → Outcome ρ α
  | 0, _ => .unfinished
  | n + 1, m =>
    match step m with
    | .ok (some a) m => .ok a m
    | .ok none m => repeatWithin step n m
    | .error fault m => .error fault m
    | .unfinished => .unfinished

@[always_inline]
instance : Effects ρ (Exec ρ) where
  fail range fault := fun m => .error ⟨range, fault⟩ m
  unfinished := fun _ => .unfinished
  scope := fun m => .ok m.scope m
  insideFunction := fun m => .ok (m.frames.insideFunction m.scope.path) m
  insideLoop := fun m => .ok (m.frames.insideLoop m.scope.path) m
  lookup name := fun m =>
    match m.frames.lookup m.scope name.value with
    | .ok v => .ok v m
    | .error fault => .error ⟨name.range, fault⟩ m
  declare := declare
  assign := assign
  newObject fields := fun m =>
    .ok (.object m.objects.size) { m with objects := m.objects.push fields }
  newFunction f := fun m =>
    .ok (.function m.closures.size) { m with closures := m.closures.push f }
  closure? id := fun m => .ok m.closures[id]? m
  field? object key := fun m => .ok ((m.objects[object]?.getD []).get? key) m
  putField object key value := fun m =>
    .ok () { m with objects := m.objects.modify object (·.insert key value) }
  display v := fun m =>
    match m.display? v with
    | some text => .ok text m
    | none => .unfinished
  write := write
  print := print
  inBlock := inBlock
  inCall := inCall
  repeatWithin step turns := repeatWithin step turns

end Exec

end Guion
