import Guion.Command.Basic

/-!
# The command line

Reads the files that a command looks at, runs it, and writes what it has to say.
-/

namespace Guion.Command

/-- What a path leads to in the file system. -/
def look (path : String) : IO Entry := do
  try
    return .file (← IO.FS.readBinFile path)
  catch
    | .inappropriateType _ 21 _ => return .directory
    | .inappropriateType _ _ _ => return .obstructed
    | _ => return .missing

/-- What is said about arguments that make no command. -/
def usage : String := "uso: parlante [-v] [--sin-color] [--mostrar-valor] <archivo>\n"

end Guion.Command

/-- Runs the program that the arguments name. -/
def main (arguments : List String) : IO UInt32 := do
  let some call := Guion.Command.Invocation.ofArguments? arguments
    | IO.eprint Guion.Command.usage
      return 2
  let settings ← Guion.Command.look call.settingsPath
  let program ← Guion.Command.look call.program
  match call.perform fun path => if path = call.settingsPath then settings else program with
  | .misused | .unfinished => return 2
  | .ended code output errors =>
    IO.print output
    IO.eprint errors
    return code
