/-!
# Keywords

The words with a meaning of their own. Two of them, `y` and `o`, are operators
only between two operands; anywhere else they are ordinary names.
-/

namespace Guion

/-- The reserved words, each called by its spelling where Lean allows it. -/
inductive Keyword where
  | const
  | continuar
  | devolver
  | funcion
  | hacer
  | mientras
  | peroSi
  | romper
  | si
  | sino
  | var
  | y
  | o
  deriving DecidableEq, Repr, Inhabited

namespace Keyword

/-- How a keyword is written. -/
def spelling : Keyword → String
  | const => "const"
  | continuar => "continuar"
  | devolver => "devolver"
  | funcion => "fun"
  | hacer => "hacer"
  | mientras => "mientras"
  | peroSi => "pero_si"
  | romper => "romper"
  | si => "si"
  | sino => "sino"
  | var => "var"
  | y => "y"
  | o => "o"

/-- Every keyword. -/
def all : List Keyword :=
  [const, continuar, devolver, funcion, hacer, mientras, peroSi, romper, si, sino, var, y, o]

/-- The keyword with a given spelling. -/
def ofSpelling? (word : String) : Option Keyword :=
  all.find? (·.spelling == word)

/-- Whether a keyword joins two conditions. -/
def isLogical : Keyword → Bool
  | y | o => true
  | _ => false

theorem mem_all (k : Keyword) : k ∈ all := by
  cases k <;> decide

/-- A spelling leads back to its keyword. -/
theorem ofSpelling?_spelling (k : Keyword) : ofSpelling? k.spelling = some k := by
  cases k <;> decide

/-- A word read as a keyword is that keyword's spelling. -/
theorem spelling_of_ofSpelling? {word : String} {k : Keyword}
    (h : ofSpelling? word = some k) : k.spelling = word := by
  have := List.find?_some h
  simpa using this

end Keyword

end Guion
