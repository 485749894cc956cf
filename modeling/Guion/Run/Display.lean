import Guion.Number.Display
import Guion.Run.Machine

/-!
# Values as text

An object shows its fields, and a text inside an object stands between quotes as
it is. A function shows its signature; what it captured is not followed. An
object can contain itself, and then it has no text: with more steps inward than
there are objects one comes by some object twice. What is printed is written piece
by piece nevertheless, so that it fills an output that takes only so many bytes.
-/

namespace Guion

variable {ρ : Type}

/-- The signature of a function value. -/
def Closure.display (f : Closure ρ) : String :=
  let parameters := f.parameters.map fun (name, type) => name ++ ": " ++ type.name
  let signature := "fun " ++ f.name.getD "" ++ "(" ++ ", ".intercalate parameters ++ ")"
  match f.returnType with
  | some type => signature ++ ": " ++ type.name
  | none => signature

/-- A text as far as it was written, and whether that is the whole of it. -/
structure Rendered where
  text : String
  whole : Bool

namespace Rendered

/-- A text that is written at once. -/
def piece (text : String) : Rendered := ⟨text, true⟩

/-- Where the writing of a text is given up. -/
def cut : Rendered := ⟨"", false⟩

/-- One text behind the other. Nothing is written behind a text that was given up. -/
protected def append (a b : Rendered) : Rendered :=
  if a.whole then ⟨a.text ++ b.text, b.whole⟩ else a

instance : Append Rendered := ⟨Rendered.append⟩

/-- The text, if it is the whole of it. -/
def whole? (r : Rendered) : Option String := if r.whole then some r.text else none

@[simp] theorem whole?_piece (text : String) : (piece text).whole? = some text := rfl

@[simp] theorem whole?_append (a b : Rendered) :
    (a ++ b).whole? = a.whole?.bind fun text => b.whole?.map (text ++ ·) := by
  obtain ⟨text, whole⟩ := a
  obtain ⟨more, whole'⟩ := b
  cases whole <;> cases whole' <;> rfl

end Rendered

namespace Fields

/-- A field: its key, and behind a colon what it holds. -/
def renderField (inside : Value → Rendered) (key : String) (value : Value) : Rendered :=
  .piece (key ++ ": ") ++ match value with
    | .text s => .piece ("\"" ++ s ++ "\"")
    | other => inside other

/-- Fields, each behind a comma. -/
def renderMore (inside : Value → Rendered) : Fields → Rendered
  | [] => .piece ""
  | (key, value) :: rest =>
    .piece ", " ++ (renderField inside key value ++ renderMore inside rest)

/-- The fields of an object in braces. -/
def render (inside : Value → Rendered) : Fields → Rendered
  | [] => .piece "\x7b\x7d"
  | (key, value) :: rest =>
    .piece "\x7b " ++ (renderField inside key value ++ (renderMore inside rest ++ .piece " \x7d"))

end Fields

/-- The text of a value, written so many objects deep. -/
def Value.render (objects : Array Fields) (closures : Array (Closure ρ)) : Nat → Value → Rendered
  | _, .null => .piece "nulo"
  | _, .boolean true => .piece "verdadero"
  | _, .boolean false => .piece "falso"
  | _, .number x => .piece (Number.display .value x)
  | _, .text s => .piece s
  | _, .builtin f => .piece ("fun " ++ f.name ++ "(...)")
  | _, .function id => .piece ((closures[id]?.map Closure.display).getD "")
  | 0, .object _ => .cut
  | n + 1, .object id => (objects[id]?.getD []).render (render objects closures n)

/-- The text of a value, looking at most so many objects deep. -/
def Value.displayWithin (objects : Array Fields) (closures : Array (Closure ρ)) (n : Nat)
    (v : Value) : Option String :=
  (v.render objects closures n).whole?

/-- The text of a value, if it has one. -/
def Machine.display? (m : Machine ρ) (v : Value) : Option String :=
  v.displayWithin m.objects m.closures (m.objects.size + 1)

/-- The text of a value as far as it is printed. One that is not whole by then is longer
than what a limited output still takes, since each step inward writes something. -/
def Machine.printed (m : Machine ρ) (v : Value) : Rendered :=
  v.render m.objects m.closures (m.objects.size + 1 + m.output.room)

end Guion
