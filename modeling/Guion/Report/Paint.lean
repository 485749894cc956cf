/-!
# Painted text

A row of text is made of pieces, each of which may have a paint. Without colour
the paints are ignored; with colour a painted piece is put between the sequence
that opens its paint and the one that resets it.
-/

namespace Guion

/-- How a piece of text is painted. -/
inductive Paint where
  | plain
  | bold
  | red
  | boldRed
  | boldBlue
  deriving DecidableEq, Repr, Inhabited

namespace Paint

/-- The codes of a paint. -/
def codes? : Paint → Option String
  | plain => none
  | bold => some "1"
  | red => some "31"
  | boldRed => some "1;31"
  | boldBlue => some "1;34"

/-- The sequence that opens a paint with the given codes. -/
def opening (codes : String) : String := "\x1b[" ++ codes ++ "m"

/-- The sequence that ends any paint. -/
def reset : String := "\x1b[0m"

/-- Opens a paint again behind every reset inside a text. -/
def reopen (opening : List Char) : List Char → List Char
  | '\x1b' :: '[' :: '0' :: 'm' :: rest =>
    '\x1b' :: '[' :: '0' :: 'm' :: (opening ++ reopen opening rest)
  | c :: rest => c :: reopen opening rest
  | [] => []

end Paint

/-- A piece of text with its paint. -/
structure Piece where
  paint : Paint
  text : String
  deriving DecidableEq, Repr

/-- A row of pieces. -/
abbrev Row := List Piece

/-- The text of a piece, with or without colour. -/
def Piece.render (color : Bool) (piece : Piece) : String :=
  match color, piece.paint.codes? with
  | true, some codes =>
    let opening := Paint.opening codes
    opening ++ String.ofList (Paint.reopen opening.toList piece.text.toList) ++ Paint.reset
  | _, _ => piece.text

/-- The text of a row. -/
def Row.render (color : Bool) (row : Row) : String :=
  String.join (row.map (·.render color))

end Guion
