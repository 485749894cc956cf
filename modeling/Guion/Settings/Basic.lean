import Guion.Settings.Grammar

/-!
# Settings

A program may have settings beside it. There are two switches, each in a section
of its own, and each has a value when it is not given. What the settings do not
know is ignored, wherever it stands.
-/

namespace Guion

/-- How a program is to be run. -/
structure Settings where
  debug : Bool := false
  color : Bool := true
  deriving DecidableEq, Repr

namespace Settings

/-- The value of a switch, given what its section is. A section can also be a list
with the switch in front. A date is a section that lacks the switch. -/
def switch? (name : String) (default : Bool) : Option Item → Option Bool
  | none | some .moment | some (.array []) => some default
  | some (.array (.boolean b :: _)) => some b
  | some (.table t) =>
    match t.item? name with
    | none => some default
    | some (.boolean b) => some b
    | some _ => none
  | some _ => none

/-- The settings in a document. -/
def ofTable? (t : Table) : Option Settings := do
  return {
    debug := ← switch? "depurar" false (t.item? "registro")
    color := ← switch? "color" true (t.item? "salida") }

/-- The settings that a text writes. -/
def read? (text : String) : Option Settings := do
  ofTable? (← document.run? text.toList)

end Settings

end Guion
