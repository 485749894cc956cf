/-!
# Settings documents

A document is a tree of tables. Its lines open tables by name and give entries to
the table that was opened last. A table remembers how it came about, because that
decides what later lines may still add to it: a key may be given once, a header may
open a table once, and a table that is written out between braces is closed.

Settings are switches, so of the values only booleans keep what was written.
-/

namespace Guion.Settings

/-- How a table came about. -/
inductive Origin where
  /-- Opened by a header, or the document itself. -/
  | header
  /-- Passed on the way to a header, and not opened yet. -/
  | implied
  /-- Made by a key with dots. -/
  | dotted
  /-- Written out between braces. -/
  | inline
  deriving DecidableEq, Repr

mutual

/-- What a key stands for. Tables that share a header are kept as the earlier
ones and the last, which is the one that is open. -/
inductive Item where
  | boolean (b : Bool)
  | moment
  | scalar
  | array (items : List Item)
  | table (t : Table)
  | tables (earlier : List Table) (last : Table)

/-- Entries under their keys. -/
inductive Table where
  | mk (origin : Origin) (entries : List (String × Item))

end

/-- A key: the tables that lead to it and its own name. -/
structure Key where
  path : List String
  name : String
  deriving DecidableEq, Repr

/-- All the names of a key. -/
def Key.names (key : Key) : List String := key.path ++ [key.name]

/-- A line of a document. -/
inductive Line where
  | empty
  | header (key : Key)
  | element (key : Key)
  | entry (key : Key) (item : Item)

/-- Puts an item under a name, in the place of the one that was there. -/
def put (name : String) (item : Item) : List (String × Item) → List (String × Item)
  | [] => [(name, item)]
  | (other, old) :: rest =>
    if other = name then (name, item) :: rest else (other, old) :: put name item rest

/-- How a path is followed: to a header, or by the dots of a key. -/
inductive Way where
  | header
  | dotted
  deriving DecidableEq, Repr

/-- Whether a path leads through a table. A header leads through all but the
closed ones, a key with dots only through those that no header has opened. -/
def Way.enters : Way → Origin → Bool
  | header, origin => origin ≠ .inline
  | dotted, origin => origin = .implied || origin = .dotted

/-- The origin of a table that a path finds missing. -/
def Way.origin : Way → Origin
  | header => .implied
  | dotted => .dotted

namespace Table

/-- How a table came about. -/
def origin : Table → Origin
  | mk origin _ => origin

/-- The entries of a table, in the order in which their keys appeared. -/
def entries : Table → List (String × Item)
  | mk _ entries => entries

/-- A table without entries. -/
def empty (origin : Origin) : Table := mk origin []

/-- The item under a name. -/
def item? (t : Table) (name : String) : Option Item := t.entries.lookup name

/-- The table with an item put under a name. -/
def put (t : Table) (name : String) (item : Item) : Table :=
  mk t.origin (Settings.put name item t.entries)

/-- Changes the table at the end of a path. Tables that are missing on the way
are made, and a path through tables with one header goes to the last of them. -/
def changeAt (way : Way) (change : Table → Option Table) : List String → Table → Option Table
  | [], t => change t
  | name :: path, t =>
    match t.item? name with
    | none => (changeAt way change path (.empty way.origin)).map fun child =>
        t.put name (.table child)
    | some (.table child) =>
      if way.enters child.origin then
        (changeAt way change path child).map fun child => t.put name (.table child)
      else
        none
    | some (.tables earlier last) =>
      (changeAt way change path last).map fun last => t.put name (.tables earlier last)
    | some _ => none

/-- Gives a new key to a table. A key with dots must end in a table that dots made. -/
def assign (key : Key) (item : Item) (t : Table) : Option Table :=
  t.changeAt .dotted (fun owner =>
    if (owner.origin == .dotted) == key.path.isEmpty || (owner.item? key.name).isSome then
      none
    else
      some (owner.put key.name item)) key.path

/-- The table of some keys and items, written out between braces. -/
def ofEntries? (entries : List (Key × Item)) : Option Table :=
  entries.foldlM (fun t (key, item) => t.assign key item) (.empty .inline)

/-- Opens the table that a header names. It must be new, or only implied so far. -/
def openTable (key : Key) (t : Table) : Option Table :=
  t.changeAt .header (fun owner =>
    match owner.item? key.name with
    | none => some (owner.put key.name (.table (.empty .header)))
    | some (.table (.mk .implied entries)) =>
      some (owner.put key.name (.table (.mk .header entries)))
    | some _ => none) key.path

/-- Opens one more of the tables that share a header. -/
def openElement (key : Key) (t : Table) : Option Table :=
  t.changeAt .header (fun owner =>
    match owner.item? key.name with
    | none => some (owner.put key.name (.tables [] (.empty .header)))
    | some (.tables earlier last) =>
      some (owner.put key.name (.tables (earlier ++ [last]) (.empty .header)))
    | some _ => none) key.path

end Table

/-- A document that is being put together, and the names of the open table. -/
structure Draft where
  root : Table
  opened : List String

namespace Draft

/-- A document without lines. -/
def blank : Draft := ⟨.empty .header, []⟩

/-- The document with one more line. -/
def add (d : Draft) : Line → Option Draft
  | .empty => some d
  | .header key => (d.root.openTable key).map fun root => ⟨root, key.names⟩
  | .element key => (d.root.openElement key).map fun root => ⟨root, key.names⟩
  | .entry key item =>
    (d.root.changeAt .header (Table.assign key item) d.opened).map fun root => ⟨root, d.opened⟩

end Draft

/-- The document that some lines make up. -/
def Table.ofLines? (lines : List Line) : Option Table :=
  (lines.foldlM Draft.add Draft.blank).map Draft.root

end Guion.Settings
