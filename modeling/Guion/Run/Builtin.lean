import Guion.Number.Reader
import Guion.Run.Effects
import Guion.Text.Blank

/-!
# Built-in functions

Printing, asking for a type, and the three conversions. All but printing take a
single argument.
-/

namespace Guion

variable {ρ : Type}

namespace Builtin

section

variable {M : Type → Type} [Effects ρ M]

open Effects

/-- Prints values, each behind a space. -/
@[specialize] def printMore (range : ρ) : List Value → M Unit
  | [] => return
  | v :: rest => do
    write range " "
    Effects.print range v
    printMore range rest

/-- Prints values on a line, with spaces between them. -/
@[specialize] def printLine (range : ρ) : List Value → M Unit
  | [] => write range "\n"
  | v :: rest => do
    Effects.print range v
    printMore range rest
    write range "\n"

end

/-- The number that a text stands for. Blanks around it do not count, nothing at
all is zero, and what is not a number is refused. -/
def numeral (text : String) : Except Fault Float :=
  match Text.trim text.toList with
  | [] => .ok 0
  | trimmed =>
    match Number.read? trimmed with
    | some x => if x.isNaN then .error (.notANumeral text) else .ok x
    | none => .error (.notANumeral text)

/-- The number that a value converts to. -/
def toFloat : Value → Except Fault Float
  | .number x => .ok x
  | .boolean b => .ok (if b then 1 else 0)
  | .null => .ok 0
  | .text s => numeral s
  | other => .error (.invalidConversion other.type .number)

/-- Calls a built-in function. Faults are placed at the call. -/
@[specialize] def apply {M : Type → Type} [Effects ρ M] (range : ρ) : Builtin → List Value → M Value
  | .print, arguments => do
    printLine range arguments
    return .null
  | .typeOf, [v] => return .text v.type.name
  | .toNumber, [v] => do
    let x ← Effects.ofExcept range (toFloat v)
    return .number x
  | .toText, [v] => do
    let text ← Effects.display v
    return .text text
  | .toBoolean, [v] => return .boolean v.isTruthy
  | f, arguments => Effects.fail range (.arityMismatch f.name 1 arguments.length)

/-- Calls a built-in function on a machine. -/
def call (range : ρ) (f : Builtin) (arguments : List Value) : Exec ρ Value :=
  f.apply range arguments

/-- The constants that every program starts with. -/
def values : List (String × Value) :=
  [("nulo", .null), ("verdadero", .boolean true), ("falso", .boolean false)]
    ++ all.map fun f => (f.name, .builtin f)

/-- Declares the built-in constants in a frame, one after the other, up to the
first that cannot be declared. -/
def install (frames : Frames) (frame : Nat) : Frames × Except Fault Unit :=
  go frames values
where
  /-- Declares the constants of a list. -/
  go (frames : Frames) : List (String × Value) → Frames × Except Fault Unit
    | [] => (frames, .ok ())
    | (name, value) :: rest =>
      match frames.declare frame name (some value) none true with
      | .ok frames => go frames rest
      | .error fault => (frames, .error fault)

end Builtin

/-- A machine before anything has run: the outermost frame holds the built-in
constants, and nothing else exists. -/
def Machine.initial (limit : Option Nat) : Machine ρ where
  frames := (Builtin.install #[⟨.global, []⟩] 0).1
  objects := #[]
  closures := #[]
  output := .upTo limit
  scope := .outermost
  depth := 0

end Guion
