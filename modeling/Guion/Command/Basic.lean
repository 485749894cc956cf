import Guion.Command.Folder
import Guion.Command.Invocation
import Guion.Run.Display
import Guion.Session
import Guion.Settings.Basic

/-!
# The command

The command runs one program from beginning to end. Settings that stand beside the
program are read before it. What the program prints comes first and its value, if
asked for, last; a failure is reported apart from both.
-/

namespace Guion.Command

/-- How a command ends. -/
inductive Ending where
  | misused
  | unfinished
  | ended (code : UInt32) (output errors : String)
  deriving DecidableEq, Repr

/-- Why a command never got to its program. -/
inductive Obstacle where
  | unreadable (path : String) (reason : ReadError)
  | wrongSettings (path : String)
  deriving DecidableEq, Repr

/-- The report of an obstacle, which is painted in any case. The details of wrong
settings are not part of it. -/
def Obstacle.report (o : Obstacle) : String :=
  Piece.render true ⟨.boldRed, "error"⟩ ++ match o with
    | unreadable path reason => ": No se pudo leer " ++ path ++ ": " ++ reason.message ++ "\n"
    | wrongSettings path => ": Configuración no válida en " ++ path

/-- The name of a file with settings. -/
def settingsName : String := "parlante.toml"

namespace Invocation

variable (call : Invocation)

/-- Where the settings of a program are: beside it. -/
def settingsPath : String :=
  String.ofList (inDirectory (directory call.program.toList) settingsName.toList)

/-- The text at a path. -/
def readText (look : String → Entry) (path : String) : Except Obstacle String :=
  (look path).text.mapError (Obstacle.unreadable path)

/-- The settings of a program. What is not a file has none to offer. -/
def settings (look : String → Entry) : Except Obstacle Settings := do
  match look call.settingsPath with
  | .file _ =>
    match Settings.read? (← readText look call.settingsPath) with
    | some settings => return settings
    | none => throw (.wrongSettings call.settingsPath)
  | _ => return {}

/-- Whether a failure is reported in colour: settings and flags must both allow it. -/
def color (settings : Settings) : Bool := settings.color && .colorless ∉ call.flags

/-- What a program's value adds to its output. Nothing is shown of null. -/
def valueText? (value : Value) (m : Machine Span) : Option String :=
  match value with
  | .null => some ""
  | value => if .showValue ∈ call.flags then (m.display? value).map (· ++ "\n") else some ""

/-- Runs the text of a program. -/
def execute (settings : Settings) (source : String) : Ending :=
  match (Machine.initial none).run ample source with
  | .unfinished => .unfinished
  | .ok value m =>
    match call.valueText? value m with
    | some text => .ended 0 (m.output.text ++ text) ""
    | none => .unfinished
  | .failed failure m =>
    .ended 1 m.output.text ((failure.report call.program source).render (call.color settings))

/-- Reads the settings, then the program, and runs it. -/
def perform (look : String → Entry) : Ending :=
  let prepared : Except Obstacle (Settings × String) := do
    return (← call.settings look, ← readText look call.program)
  match prepared with
  | .error obstacle => .ended 1 "" obstacle.report
  | .ok (settings, source) => call.execute settings source

end Invocation

/-- Runs a command. -/
def run (look : String → Entry) (arguments : List String) : Ending :=
  match Invocation.ofArguments? arguments with
  | none => .misused
  | some call => call.perform look

end Guion.Command
