/-!
# Invocations

A command is given one program and any of a few flags, in any order. A flag may be
given once, in one of its spellings. Two dashes end the flags, so that what follows
is a program even if it begins with a dash; one dash on its own is a program.
-/

namespace Guion.Command

/-- What a command can be told besides its program. -/
inductive Flag where
  | verbose
  | colorless
  | showValue
  deriving DecidableEq, Repr

/-- The flag with a spelling. -/
def Flag.ofSpelling? : String → Option Flag
  | "-v" | "--verbose" => some .verbose
  | "--sin-color" => some .colorless
  | "--mostrar-valor" => some .showValue
  | _ => none

/-- What a command was told so far. -/
structure Draft where
  program : Option String := none
  flags : List Flag := []
  deriving DecidableEq, Repr

namespace Draft

/-- Adds the program. There is one, and it has a name. -/
def addProgram (d : Draft) (program : String) : Option Draft :=
  if d.program.isSome || program.isEmpty then none else some { d with program := some program }

/-- Adds a flag that was not given before. -/
def addFlag (d : Draft) (spelling : String) : Option Draft :=
  match Flag.ofSpelling? spelling with
  | none => none
  | some flag => if flag ∈ d.flags then none else some { d with flags := flag :: d.flags }

/-- Adds all the arguments. -/
def addAll (d : Draft) : List String → Option Draft
  | [] => some d
  | "--" :: programs => programs.foldlM addProgram d
  | argument :: rest =>
    if argument.toList.head? = some '-' && argument ≠ "-" then
      (d.addFlag argument).bind (addAll · rest)
    else
      (d.addProgram argument).bind (addAll · rest)

end Draft

/-- A program and the flags to run it with. -/
structure Invocation where
  program : String
  flags : List Flag
  deriving DecidableEq, Repr

/-- The invocation that some arguments spell out. -/
def Invocation.ofArguments? (arguments : List String) : Option Invocation := do
  let draft ← Draft.addAll {} arguments
  let program ← draft.program
  return ⟨program, draft.flags⟩

end Guion.Command
