/-!
# Paths

A path is names with slashes between them. Empty names and single dots do not
lead anywhere, except that a dot in front is kept and a slash in front starts at
the root.
-/

namespace Guion.Command

/-- The parts of a path between its slashes. -/
def segments : List Char → List (List Char)
  | [] => [[]]
  | '/' :: rest => [] :: segments rest
  | c :: rest =>
    match segments rest with
    | first :: more => (c :: first) :: more
    | [] => [[c]]

/-- The path with the given parts. -/
def join (parts : List (List Char)) : List Char := ['/'].intercalate parts

/-- Whether a part leads nowhere. -/
def isIdle (part : List Char) : Bool := part.isEmpty || part == ['.']

/-- Drops the parts at the end that lead nowhere, and never the first. -/
def settle : List (List Char) → List (List Char)
  | [] => []
  | first :: more => first :: (more.reverse.dropWhile isIdle).reverse

/-- The directory that a path is in: nothing for a bare name, and the current one
for the root, which is in none. -/
def directory (path : List Char) : List Char :=
  match settle (segments path) with
  | [[]] => ['.']
  | parts =>
    match settle parts.dropLast with
    | [[]] => ['/']
    | parts => join parts

/-- A name in a directory. -/
def inDirectory (directory name : List Char) : List Char :=
  if directory.isEmpty then name
  else if directory.getLast? = some '/' then directory ++ name
  else directory ++ '/' :: name

end Guion.Command
