/-!
# Output

What a program prints is a growing sequence of bytes. It may be limited: the
bytes that still fit are written, and the first that does not makes the write
fail. Nothing that was written is ever changed.
-/

namespace Guion

/-- The bytes printed so far, and how many there may be in all. -/
structure Output where
  bytes : ByteArray := .empty
  limit : Option Nat := none
  deriving Inhabited

namespace Output

/-- Nothing printed, up to a limit. -/
def upTo (limit : Option Nat) : Output := ⟨.empty, limit⟩

/-- How many bytes a limited output still takes. -/
def room : Output → Nat
  | ⟨bytes, some limit⟩ => limit - bytes.size
  | ⟨_, none⟩ => 0

/-- How a full output puts it. -/
def full : String := "salida llena"

/-- Writes a text as far as it fits, and tells whether all of it did. -/
def write (output : Output) (text : String) : Output × Bool :=
  match output with
  | ⟨bytes, none⟩ => (⟨bytes ++ text.toUTF8, none⟩, true)
  | ⟨bytes, some limit⟩ =>
    let room := limit - bytes.size
    let new := text.toUTF8
    if new.size ≤ room then
      (⟨bytes ++ new, some limit⟩, true)
    else
      (⟨bytes ++ new.extract 0 room, some limit⟩, false)

/-- The text of a piece of output. A limit may have cut a character off in the
middle; the replacement character stands for what is left of it. -/
def decode (bytes : ByteArray) : String :=
  match String.fromUTF8? bytes with
  | some text => text
  | none =>
    let cut := [1, 2, 3].findSome? fun lost =>
      String.fromUTF8? (bytes.extract 0 (bytes.size - lost))
    cut.getD "" ++ "\uFFFD"

/-- The text printed so far. -/
def text (output : Output) : String := decode output.bytes

end Output

end Guion
