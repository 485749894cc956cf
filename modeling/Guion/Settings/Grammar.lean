import Guion.Settings.Scalar

/-!
# The grammar of settings

A document has one header or one entry on a line. Keys are words or texts with
dots between them. A list may go over several lines and a comma may stand behind
its last item; a table between braces is kept on one line. Lists and tables nest
to a fixed depth, and keys are not longer than that.
-/

namespace Guion.Settings

/-- How deep values nest, and how many names a key has. -/
def depthLimit : Nat := 79

/-- Whether a character may stand in a name without quotes. -/
def isNameChar (c : Char) : Bool := c.isAlphanum || c == '_' || c == '-'

/-- Reads one name of a key and the blanks around it. -/
def name : Reader String := do
  gap
  let name ←
    if ← Reader.accept '"' then text '"'
    else if ← Reader.accept '\'' then text '\''
    else String.ofList <$> Reader.takeSome isNameChar
  gap
  return name

/-- Reads a key. -/
def key : Reader Key := do
  let first ← name
  let more ← Reader.collect do
    if ← Reader.accept '.' then return some (← name) else return none
  guard (more.length < depthLimit)
  return ⟨(first :: more).dropLast, more.getLast?.getD first⟩

/-- Reads a key and what it stands for, up to the value's end. -/
def assignment (value : Reader Item) : Reader (Key × Item) := do
  let key ← key
  Reader.expect '='
  gap
  return (key, ← value)

/-- Reads a list, behind its opening bracket. -/
def array (value : Reader Item) : Reader Item := do
  let items ← Reader.collect do
    spacing
    if (← Reader.peek) = some ']' then
      return none
    let item ← value
    spacing
    unless (← Reader.peek) = some ']' do
      Reader.expect ','
    return some item
  Reader.expect ']'
  return .array items

/-- Reads a table, behind its opening brace. -/
def braced (value : Reader Item) : Reader Item := do
  let entry : Reader (Key × Item) := do
    let entry ← assignment value
    gap
    return entry
  gap
  let entries ←
    if (← Reader.peek) = some '\x7d' then
      pure []
    else do
      let first ← entry
      let more ← Reader.collect do
        if ← Reader.accept ',' then return some (← entry) else return none
      pure (first :: more)
  Reader.expect '\x7d'
  match Table.ofEntries? entries with
  | some t => return .table t
  | none => failure

/-- Reads a value that nests at most so deep. -/
def value (depth : Nat) : Reader Item := do
  match ← Reader.peek, depth with
  | some '"', _ => anyText '"'; return .scalar
  | some '\'', _ => anyText '\''; return .scalar
  | some '[', depth + 1 => Reader.expect '['; array (value depth)
  | some '\x7b', depth + 1 => Reader.expect '\x7b'; braced (value depth)
  | _, _ => scalar

/-- Reads a header. -/
def header : Reader Line := do
  Reader.expect '['
  let several ← Reader.accept '['
  let key ← key
  Reader.expect ']'
  if several then
    Reader.expect ']'
    return .element key
  return .header key

/-- Reads a line, if there is one. -/
def line : Reader (Option Line) := do
  gap
  let line ← match ← Reader.peek with
    | none => return none
    | some '#' | some '\n' | some '\r' => pure .empty
    | some '[' => header
    | some _ => do
      let (key, item) ← assignment (value depthLimit)
      pure (.entry key item)
  lineEnd
  return some line

/-- Reads a document. A mark of the byte order may stand before it. -/
def document : Reader Table := do
  let _ ← Reader.accept '\ufeff'
  match Table.ofLines? (← Reader.collect line) with
  | some t => return t
  | none => failure

end Guion.Settings
