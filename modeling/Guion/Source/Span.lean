import Guion.Source.Location

/-!
# Stretches of a source text

A span runs from one place to another. Syntax trees carry spans only to report
them, so everything that builds or runs a tree asks for no more than the four
operations of `Extent`. Two instances matter: spans themselves, and `Unit`,
which forgets where anything stood.
-/

namespace Guion

/-- The stretch of text between two places. -/
structure Span where
  start : Location
  stop : Location
  deriving DecidableEq, Repr, Inhabited

namespace Span

/-- The empty span at a place. -/
def point (place : Location) : Span := ⟨place, place⟩

/-- Length in bytes. -/
def length (s : Span) : Nat := s.stop.offset - s.start.offset

/-- Whether both ends are the same place. -/
def isEmpty (s : Span) : Bool := s.start = s.stop

/-- Whether both ends are on one line. -/
def isSingleLine (s : Span) : Bool := s.start.line = s.stop.line

/-- Width in columns. It says something only about a span on a single line;
where the stop is left of the start it is zero. -/
def columnWidth (s : Span) : Nat := s.stop.column - s.start.column

/-- The span from the start of one to the stop of another. -/
def through (first last : Span) : Span := ⟨first.start, last.stop⟩

/-- The least span that covers both. -/
def cover (a b : Span) : Span :=
  ⟨a.start.earlier b.start, a.stop.later b.stop⟩

/-- The empty span behind a span. -/
def behind (s : Span) : Span := point s.stop

/-- Spans are ordered by start, then by stop. -/
def order (a b : Span) : Ordering :=
  (a.start.order b.start).then (a.stop.order b.stop)

instance : Ord Span := ⟨order⟩

end Span

/-- What a parser needs of the positions it attaches to a tree. -/
class Extent (ρ : Type) where
  /-- The position of nothing, before the first character. -/
  origin : ρ
  /-- From the start of the first to the stop of the second. -/
  through : ρ → ρ → ρ
  /-- The least position that covers both. -/
  cover : ρ → ρ → ρ
  /-- The empty position right behind one. -/
  behind : ρ → ρ

instance : Extent Span where
  origin := Span.point Location.origin
  through := Span.through
  cover := Span.cover
  behind := Span.behind

instance : Extent Unit where
  origin := ()
  through _ _ := ()
  cover _ _ := ()
  behind _ := ()

/-- Something that stands at a position: a name, an operator, a keyword. -/
structure Located (ρ : Type) (α : Type) where
  range : ρ
  value : α
  deriving DecidableEq, Repr, Inhabited

/-- Moves the position and keeps what stands there. -/
def Located.map {ρ σ α : Type} (f : ρ → σ) (x : Located ρ α) : Located σ α :=
  ⟨f x.range, x.value⟩

end Guion
