/-!
# Places in a source text

A place is known three ways at once: by the bytes before it, and by its line
and column. Moving over a character is the only way a place changes, so the
place reached after a text is a fold, and it depends on nothing but the text.
-/

namespace Guion

/-- A place in a text. The offset counts the bytes before the place; line and
column count from one, and a column is a character, not a byte, so that a mark
printed below a line of accented letters stands under the right one. -/
structure Location where
  offset : Nat
  line : Nat
  column : Nat
  deriving DecidableEq, Repr

namespace Location

/-- The place before the first character. -/
def origin : Location := ⟨0, 1, 1⟩

instance : Inhabited Location := ⟨origin⟩

/-- The place behind one character. Only a line feed starts a new line. -/
def next (place : Location) (c : Char) : Location :=
  if c = '\n' then
    ⟨place.offset + c.utf8Size, place.line + 1, 1⟩
  else
    ⟨place.offset + c.utf8Size, place.line, place.column + 1⟩

/-- The place behind a whole text. -/
def after (place : Location) (text : List Char) : Location :=
  text.foldl next place

@[simp] theorem after_nil (place : Location) : place.after [] = place := rfl

@[simp] theorem after_cons (place : Location) (c : Char) (text : List Char) :
    place.after (c :: text) = (place.next c).after text := rfl

@[simp] theorem after_append (place : Location) (text more : List Char) :
    place.after (text ++ more) = (place.after text).after more :=
  List.foldl_append

/-- Places are ordered by offset, then line, then column. Within one text the
offset alone decides; the rest matters for places that come from elsewhere. -/
def order (a b : Location) : Ordering :=
  (compare a.offset b.offset).then
    ((compare a.line b.line).then (compare a.column b.column))

instance : Ord Location := ⟨order⟩

/-- The earlier of two places. -/
def earlier (a b : Location) : Location :=
  if order b a = .lt then b else a

/-- The later of two places. -/
def later (a b : Location) : Location :=
  if order b a = .lt then a else b

end Location

end Guion
