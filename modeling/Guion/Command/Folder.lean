import Guion.Command.Path

/-!
# Folders

Programs and settings are found by their paths. A path leads to a file, to a
directory, or nowhere; a path that goes on behind a file is obstructed. A folder is
a collection of files under their paths from it, with every directory on the way.
-/

namespace Guion.Command

/-- What a path leads to. -/
inductive Entry where
  | missing
  | obstructed
  | directory
  | file (contents : ByteArray)

/-- Why there is no text at a path. -/
inductive ReadError where
  | missing
  | obstructed
  | directory
  | malformed
  deriving DecidableEq, Repr

/-- The wording of an error. -/
def ReadError.message : ReadError → String
  | missing => "No such file or directory (os error 2)"
  | obstructed => "Not a directory (os error 20)"
  | directory => "Is a directory (os error 21)"
  | malformed => "stream did not contain valid UTF-8"

/-- The text of a file. -/
def Entry.text : Entry → Except ReadError String
  | missing => .error .missing
  | obstructed => .error .obstructed
  | directory => .error .directory
  | file contents =>
    match String.fromUTF8? contents with
    | some text => .ok text
    | none => .error .malformed

/-- Files under the names that lead to them. -/
structure Folder where
  files : List (List (List Char) × ByteArray)

namespace Folder

/-- A folder with the given files. -/
def ofFiles (files : List (String × ByteArray)) : Folder :=
  ⟨files.map fun (path, contents) =>
    ((segments path.toList).filter (!isIdle ·), contents)⟩

/-- What stands under some names. -/
def entryAt (f : Folder) (names : List (List Char)) : Entry :=
  match f.files.lookup names with
  | some contents => .file contents
  | none =>
    if names.isEmpty || f.files.any (fun (path, _) => names.isPrefixOf path) then .directory
    else .missing

/-- The part of a path that leads out of a directory. -/
def isUpward (part : List Char) : Bool := part == ['.', '.']

/-- What the parts of a path lead to from a place. Of what is outside the folder only
the directories around it are known. -/
def follow (f : Folder) (place : List (List Char)) : List (List Char) → Entry
  | [] => f.entryAt place
  | part :: rest =>
    match f.entryAt place with
    | .directory =>
      if isIdle part then f.follow place rest
      else if !isUpward part then f.follow (place ++ [part]) rest
      else if !place.isEmpty then f.follow place.dropLast rest
      else if rest.all fun part => isIdle part || isUpward part then .directory
      else .missing
    | .file _ => .obstructed
    | other => other

/-- What a path leads to. -/
def entry (f : Folder) (path : String) : Entry :=
  match segments path.toList with
  | [] :: _ => .missing
  | parts => f.follow [] parts

end Folder

end Guion.Command
