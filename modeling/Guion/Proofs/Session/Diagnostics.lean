import Guion.Proofs.Parse.Placed
import Guion.Proofs.Parse.Rejection
import Guion.Proofs.Run.Moved
import Guion.Proofs.Token.Failures
import Guion.Session

/-!
# Where failures point

A failure points into its source, whichever of the three kinds it is. The scanner fails at a
place that it has come to. A complaint points to a range of tokens. And a fault stands at a
position of the program, however deep in the calls it happens: a run cannot make positions
of its own, so a map that leaves those of the program alone leaves that of the fault alone.
-/

namespace Guion

/-! ### Ranges of a source -/

/-- A range of a source: it begins and ends at places there, and not before it begins. -/
structure Span.IsIn (source : String) (range : Span) : Prop where
  start : range.start.IsIn source
  stop : range.stop.IsIn source
  le : range.start.offset ≤ range.stop.offset

namespace Location.IsIn

variable {source : String} {place : Location}

theorem origin (source : String) : Location.origin.IsIn source :=
  ⟨[], source.toList, rfl, rfl⟩

theorem offset_le (h : place.IsIn source) : place.offset ≤ source.utf8ByteSize := by
  obtain ⟨before, behind, split, rfl⟩ := h
  have le := offset_atEnd_le before behind
  rw [← split] at le
  simpa [atEnd] using le

theorem point (h : place.IsIn source) : (Span.point place).IsIn source := ⟨h, h, Nat.le_refl _⟩

end Location.IsIn

open Classical in
/-- A range of the source is left alone; any other becomes the place at the start. -/
noncomputable def Span.clamp (source : String) (range : Span) : Span :=
  if range.IsIn source then range else .point .origin

theorem Span.clamp_eq_iff {source : String} {range : Span} :
    range.clamp source = range ↔ range.IsIn source := by
  unfold clamp
  constructor
  · intro h
    split at h
    · assumption
    · exact h ▸ (Location.IsIn.origin source).point
  · exact fun h => if_pos h

/-! ### Ranges of tokens -/

namespace Tiles

variable {source : String} {tokens : List (Token Span)}

/-- What points to tokens of a source points into the source. -/
theorem isIn_of_points (h : Tiles [] tokens source.toList) {range : Span}
    (points : Points tokens range) : range.IsIn source := by
  obtain ⟨first, hfirst, last, hlast, rfl, le⟩ := points.exists_ends h.inOrder
  have start := (h.isIn rfl first hfirst).1
  have stop := (h.isIn rfl last hlast).2
  exact ⟨start, stop, Nat.le_trans le (h.inOrder.le last hlast)⟩

end Tiles

/-! ### Faults -/

/-- A fault stands at a position of the program, or of a function that was there before. -/
theorem Program.fault_fixed {ρ : Type} {f : ρ → ρ} {p : Program ρ} {m m' : Machine ρ}
    {bound : Nat} {fault : Located ρ Fault}
    (fixed : p.statements.map (Stmt.map f) = p.statements) (machine : m.map f = m)
    (h : Exec.program bound p m = .error fault m') : f fault.range = fault.range := by
  have moved : Exec.program bound (p.map f) (m.map f) = (Exec.program bound p m).map f :=
    (Task.program p).run_map f bound m
  have same : Exec.program bound (p.map f) = Exec.program bound p := by
    unfold Exec.program Rules.program
    rw [Program.map, fixed]
  rw [same, machine, h] at moved
  exact congrArg Located.range (Outcome.error.inj moved).1.symm

/-! ### Failures of a source -/

variable {source : String} {failure : Failure}

/-- A source that cannot be read fails at a range of it. -/
theorem isIn_of_readWith_error (h : readWith Parser.program source = .error failure) :
    failure.range.IsIn source := by
  unfold readWith at h
  cases lexed : tokenize source with
  | error e =>
      rw [lexed] at h
      cases h
      exact (isIn_of_tokenize_error lexed).point
  | ok tokens =>
      rw [lexed] at h
      dsimp only at h
      have tiles := tiles_of_tokenize lexed
      cases parsed : Parser.program (Cursor.ofTokens tokens) with
      | ok p next =>
          rw [parsed] at h
          cases h
      | error complaint next =>
          rw [parsed] at h
          cases h
          obtain ⟨used, rest, split, -, points, -⟩ :=
            Parser.exists_viable_of_program tiles.end_mem parsed
          refine tiles.isIn_of_points (points.mono ?_)
          rw [split]
          exact List.Sublist.append_left (by simp) used

/-- A fresh machine has no functions, and so no positions. -/
theorem Machine.map_initial {ρ σ : Type} (f : ρ → σ) (limit : Option Nat) :
    (Machine.initial limit).map f = Machine.initial limit := by
  simp [Machine.map, Machine.initial]

/-- All positions in a program are ranges of its source. -/
theorem clamp_statements {p : Program Span} (h : readWith Parser.program source = .ok p) :
    p.statements.map (Stmt.map (Span.clamp source)) = p.statements := by
  obtain ⟨tokens, next, lexed, parsed⟩ := readWith_eq_ok_iff.mp h
  have tiles := tiles_of_tokenize lexed
  obtain ⟨used, begins, covers⟩ := Parser.exists_covers_of_program parsed
  have inside : used.Sublist tokens := begins.sublist
  refine covers.fixed ⟨tiles.ordered inside covers.derives.no_end, fun r points => ?_⟩
  exact Span.clamp_eq_iff.mpr (tiles.isIn_of_points (points.mono inside))

/-- Every failure of a run points into the source: it ends at or behind its start and within
the source, and both ends are places between characters of the source, with the line and the
column counted there. -/
theorem failures_point_into_source {limit : Option Nat} {bound : Nat} {m : Machine Span}
    (h : (Machine.initial limit).run bound source = .failed failure m) :
    failure.range.start.offset ≤ failure.range.stop.offset ∧
      failure.range.stop.offset ≤ source.utf8ByteSize ∧
      failure.range.start.IsIn source ∧ failure.range.stop.IsIn source := by
  have inside : failure.range.IsIn source := by
    unfold Machine.run Machine.perform at h
    cases read : readWith Parser.program source with
    | error failure' =>
        rw [read] at h
        cases h
        exact isIn_of_readWith_error read
    | ok p =>
        rw [read] at h
        dsimp only at h
        cases run : Exec.program bound p (Machine.initial limit) with
        | ok v m' =>
            rw [run] at h
            cases h
        | error fault m' =>
            rw [run] at h
            cases h
            have fixed := Program.fault_fixed (clamp_statements read) (Machine.map_initial _ _) run
            exact Span.clamp_eq_iff.mp fixed
        | unfinished =>
            rw [run] at h
            cases h
  exact ⟨inside.le, inside.stop.offset_le, inside.start, inside.stop⟩

/-- A name that is missing in the body of a function, on another line than the call. -/
theorem failures_point_into_source_called :
    ∃ m, (Machine.initial none).run 4 "(fun() \x7b\n\"é\";x; \x7d)();" =
        .failed (.runtime ⟨⟨⟨14, 2, 5⟩, ⟨15, 2, 6⟩⟩, .undeclared "x"⟩) m ∧
      Location.IsIn "(fun() \x7b\n\"é\";x; \x7d)();" ⟨14, 2, 5⟩ ∧
      Location.IsIn "(fun() \x7b\n\"é\";x; \x7d)();" ⟨15, 2, 6⟩ := by
  have reads : (Scanner.ofText "(fun() \x7b\n\"é\";x; \x7d)();".toList).Reads
      [⟨.punctuator .leftParen, ⟨⟨0, 1, 1⟩, ⟨1, 1, 2⟩⟩⟩,
        ⟨.keyword .funcion, ⟨⟨1, 1, 2⟩, ⟨4, 1, 5⟩⟩⟩,
        ⟨.punctuator .leftParen, ⟨⟨4, 1, 5⟩, ⟨5, 1, 6⟩⟩⟩,
        ⟨.punctuator .rightParen, ⟨⟨5, 1, 6⟩, ⟨6, 1, 7⟩⟩⟩,
        ⟨.punctuator .leftBrace, ⟨⟨7, 1, 8⟩, ⟨8, 1, 9⟩⟩⟩,
        ⟨.text "é", ⟨⟨9, 2, 1⟩, ⟨13, 2, 4⟩⟩⟩,
        ⟨.punctuator .semicolon, ⟨⟨13, 2, 4⟩, ⟨14, 2, 5⟩⟩⟩,
        ⟨.name "x", ⟨⟨14, 2, 5⟩, ⟨15, 2, 6⟩⟩⟩,
        ⟨.punctuator .semicolon, ⟨⟨15, 2, 6⟩, ⟨16, 2, 7⟩⟩⟩,
        ⟨.punctuator .rightBrace, ⟨⟨17, 2, 8⟩, ⟨18, 2, 9⟩⟩⟩,
        ⟨.punctuator .rightParen, ⟨⟨18, 2, 9⟩, ⟨19, 2, 10⟩⟩⟩,
        ⟨.punctuator .leftParen, ⟨⟨19, 2, 10⟩, ⟨20, 2, 11⟩⟩⟩,
        ⟨.punctuator .rightParen, ⟨⟨20, 2, 11⟩, ⟨21, 2, 12⟩⟩⟩,
        ⟨.punctuator .semicolon, ⟨⟨21, 2, 12⟩, ⟨22, 2, 13⟩⟩⟩] ⟨[], ⟨22, 2, 13⟩, some ';'⟩ := by
    repeat' apply Scanner.Reads.token rfl (by decide)
    exact .done
  have lexed : tokenize "(fun() \x7b\n\"é\";x; \x7d)();" = .ok _ :=
    reads.tokens_eq (Scanner.tokens_of_end rfl rfl)
  have read : readWith Parser.program "(fun() \x7b\n\"é\";x; \x7d)();" = .ok _ :=
    readWith_eq_ok_iff.mpr ⟨_, _, lexed, rfl⟩
  obtain ⟨m, fails⟩ : ∃ m, (Machine.initial none).run 4 "(fun() \x7b\n\"é\";x; \x7d)();" =
      .failed (.runtime ⟨⟨⟨14, 2, 5⟩, ⟨15, 2, 6⟩⟩, .undeclared "x"⟩) m := by
    rw [Machine.run, Machine.perform, read]
    exact ⟨_, rfl⟩
  exact ⟨m, fails, (failures_point_into_source fails).2.2⟩

end Guion
