import Guion.Proofs.Parse.Seam
import Guion.Proofs.Run.Moved
import Guion.Proofs.Token.Joined
import Guion.Session

/-!
# Concatenation

Writing a source behind another one, with a line feed between them, is running one after
the other. The program that is read has the statements of both, and those of the second
stand where the text puts them. A run of it goes through the statements of the first
source, and unless they fail it goes on with those of the second on the machine that they
leave.

The positions of the second program are not those it has on its own. To say which of the
positions in a machine come from it, a run is made with positions that are marked: those
of the program as its own, those in the machine before it as foreign. Its own positions
are then the ones that move.
-/

namespace Guion

variable {ρ σ α : Type}

/-! ### Reading -/

section Shift

variable {bytes lines : Nat}

theorem Location.earlier_shift (a b : Location) :
    (a.shift bytes lines).earlier (b.shift bytes lines) = (a.earlier b).shift bytes lines := by
  unfold earlier
  rw [order_shift]
  split
  · rfl
  · rfl

theorem Location.later_shift (a b : Location) :
    (a.shift bytes lines).later (b.shift bytes lines) = (a.later b).shift bytes lines := by
  unfold later
  rw [order_shift]
  split
  · rfl
  · rfl

/-- Parsers do with moved spans what they do with spans. -/
theorem Span.respects_shift : Extent.Respects (Span.shift bytes lines) where
  through _ _ := rfl
  cover a b := by
    simp only [Extent.cover, Span.cover, Span.shift, Location.earlier_shift, Location.later_shift]

end Shift

/-- Two sources with a line feed between them are read as the statements of the first and
those of the second, moved behind the first. -/
theorem readWith_append {source₁ source₂ : String} {p₁ p₂ : Program Span}
    (read₁ : readWith Parser.program source₁ = .ok p₁)
    (read₂ : readWith Parser.program source₂ = .ok p₂) (closed : ¬EndsInComment source₁) :
    ∃ p, readWith Parser.program (source₁ ++ "\n" ++ source₂) = .ok p ∧
      p.statements = p₁.statements ++ (p₂.map (Span.behindSource source₁)).statements := by
  obtain ⟨tokens₁, next₁, lexed₁, parsed₁⟩ := readWith_eq_ok_iff.mp read₁
  obtain ⟨tokens₂, next₂, lexed₂, parsed₂⟩ := readWith_eq_ok_iff.mp read₂
  obtain ⟨body, stop, rfl, hbody, hstop, lexed⟩ := tokenize_append lexed₁ lexed₂ closed
  obtain ⟨body₂, stop₂, -, -, rfl, -⟩ := Scanner.reads_of_tokens lexed₂
  have moved := (Parser.parallel_program (M := .positions (Span.behindSource source₁))
    Span.respects_shift _).reply (Nat.le_refl (Cursor.ofTokens (body₂ ++ [stop₂])).rest.length)
  rw [parsed₂] at moved
  have filled :
      ((Cursor.ofTokens (body₂ ++ [stop₂])).map (Span.behindSource source₁)).rest ≠ [] := by
    simp [Cursor.map, Cursor.ofTokens]
  have finish : (Cursor.ofTokens ((Cursor.ofTokens (body₂ ++ [stop₂])).map
      (Span.behindSource source₁)).rest).finish =
      ((Cursor.ofTokens (body₂ ++ [stop₂])).map (Span.behindSource source₁)).finish := by
    simp [Cursor.ofTokens, Cursor.map]
    rfl
  obtain ⟨p, next, parsed, statements⟩ :=
    Parser.program_append hbody hstop filled finish parsed₁ moved
  exact ⟨p, readWith_eq_ok_iff.mpr ⟨_, next, lexed, parsed⟩, statements⟩

/-! ### Running -/

/-- How a session reports the end of a run. -/
def Finish.ofOutcome : Outcome Span α → Finish α
  | .ok a m => .ok a m
  | .error fault m => .failed (.runtime fault) m
  | .unfinished => .unfinished

theorem Finish.eq_ok_of_ofOutcome {out : Outcome Span α} {a : α} {m : Machine Span}
    (h : ofOutcome out = .ok a m) : out = .ok a m := by
  cases out with
  | ok b n =>
      cases h
      rfl
  | error fault n => cases h
  | unfinished => cases h

theorem Machine.run_of_read {source : String} {p : Program Span}
    (read : readWith Parser.program source = .ok p) (bound : Nat) (m : Machine Span) :
    m.run bound source = .ofOutcome (Exec.program bound p m) := by
  simp only [Machine.run, Machine.perform, read]
  cases Exec.program bound p m <;> rfl

/-- What a computation goes on with if it ends well. -/
def Outcome.andThen {β : Type} (out : Outcome ρ α) (k : α → Exec ρ β) : Outcome ρ β :=
  match out with
  | .ok a m => k a m
  | .error fault m => .error fault m
  | .unfinished => .unfinished

theorem Exec.bind_apply {β : Type} (x : Exec ρ α) (k : α → Exec ρ β) (m : Machine ρ) :
    (x >>= k) m = (x m).andThen k := by
  change Exec.bind x k m = _
  unfold Exec.bind
  cases x m <;> rfl

theorem Outcome.andThen_andThen {β γ : Type} (out : Outcome ρ α) (k : α → Exec ρ β)
    (l : β → Exec ρ γ) :
    (out.andThen k).andThen l = out.andThen fun a m => (k a m).andThen l := by
  cases out <;> rfl

/-- Statements run one list after the other, with the result so far handed on. -/
theorem programStep_append (bound : Nat) (last : Value) (list more : List (Stmt ρ))
    (m : Machine ρ) :
    Rules.programStep (Exec.expression bound) (Exec.statement bound) last (list ++ more) m =
      (Rules.programStep (Exec.expression bound) (Exec.statement bound) last list m).andThen
        fun v => Rules.programStep (Exec.expression bound) (Exec.statement bound) v more := by
  induction list generalizing last m with
  | nil => rfl
  | cons s list ih =>
      have step {β : Type} (x : Exec ρ β) (value : β → Value) :
          (x >>= fun b => Rules.programStep (Exec.expression bound) (Exec.statement bound)
            (value b) (list ++ more)) m =
          ((x >>= fun b => Rules.programStep (Exec.expression bound) (Exec.statement bound)
            (value b) list) m).andThen
            fun v => Rules.programStep (Exec.expression bound) (Exec.statement bound) v more := by
        rw [Exec.bind_apply, Exec.bind_apply, Outcome.andThen_andThen]
        congr 1
        funext b m'
        exact ih (value b) m'
      cases s with
      | expression r e => exact step (Exec.expression bound e) id
      | _ => exact step (Exec.statement bound _) fun _ => .null

/-- The result so far matters only if there is no further statement. -/
theorem programStep_of_ne_nil (bound : Nat) (last last' : Value) {list : List (Stmt ρ)}
    (h : list ≠ []) :
    Rules.programStep (M := Exec ρ) (Exec.expression bound) (Exec.statement bound) last list =
      Rules.programStep (Exec.expression bound) (Exec.statement bound) last' list := by
  cases list with
  | nil => exact absurd rfl h
  | cons s list => cases s <;> rfl

/-- Moves the positions that are marked as a program's own. -/
def moveOwn (f : ρ → ρ) : ρ × Bool → ρ
  | (r, true) => f r
  | (r, false) => r

/-- Runs a program with its positions marked as its own and those in the machine marked as
foreign. -/
def Program.runMarked (bound : Nat) (p : Program ρ) (m : Machine ρ) : Outcome (ρ × Bool) Value :=
  Exec.program bound (p.map (·, true)) (m.map (·, false))

/-- Whatever is then done with the marked positions might as well be done before. -/
theorem Program.map_runMarked (g : ρ × Bool → σ) (bound : Nat) (p : Program ρ) (m : Machine ρ) :
    (p.runMarked bound m).map g =
      Exec.program bound (p.map fun r => g (r, true)) (m.map fun r => g (r, false)) := by
  have run := (Task.program (p.map (·, true))).run_map g bound (m.map (·, false))
  rw [Machine.map_map] at run
  refine run.symm.trans ?_
  change Exec.program bound ((p.map _).map g) _ = _
  rw [Program.map_map]
  rfl

/-- Without the marks, the marked run is the run. -/
theorem Program.map_fst_runMarked (bound : Nat) (p : Program ρ) (m : Machine ρ) :
    (p.runMarked bound m).map Prod.fst = Exec.program bound p m := by
  rw [map_runMarked]
  change Exec.program bound (p.map id) (m.map id) = _
  rw [map_id_apply, Machine.map_id]

/-- With the marked positions moved, the marked run is the run of the moved program. -/
theorem Program.map_moveOwn_runMarked (f : ρ → ρ) (bound : Nat) (p : Program ρ) (m : Machine ρ) :
    (p.runMarked bound m).map (moveOwn f) = Exec.program bound (p.map f) m := by
  rw [map_runMarked]
  change Exec.program bound (p.map f) (m.map id) = _
  rw [Machine.map_id]

/-- Running is compatible with concatenation. Two sources that are read as programs, the
first of which does not end inside a block comment, are read together as the statements of
the first followed by those of the second, moved by the text before them. A run of both is
the run of the first, and if that succeeds it goes on as a run of the second does on the
machine that it leaves, but with the positions of the second moved. The value is that of
the second if it has a statement. -/
theorem running_is_compatible_with_concatenation {source₁ source₂ : String}
    {p₁ p₂ : Program Span} (read₁ : readWith Parser.program source₁ = .ok p₁)
    (read₂ : readWith Parser.program source₂ = .ok p₂) (closed : ¬EndsInComment source₁) :
    (∃ p, readWith Parser.program (source₁ ++ "\n" ++ source₂) = .ok p ∧
      p.statements = p₁.statements ++ p₂.statements.map (Stmt.map (.behindSource source₁))) ∧
    ∀ (bound : Nat) (m : Machine Span),
      (∀ v₁ m₁, m.run bound source₁ = .ok v₁ m₁ →
        m₁.run bound source₂ = .ofOutcome ((p₂.runMarked bound m₁).map Prod.fst) ∧
        m.run bound (source₁ ++ "\n" ++ source₂) =
          if p₂.statements.isEmpty then .ok v₁ m₁
          else .ofOutcome ((p₂.runMarked bound m₁).map (moveOwn (.behindSource source₁)))) ∧
      ((∀ v₁ m₁, m.run bound source₁ ≠ .ok v₁ m₁) →
        m.run bound (source₁ ++ "\n" ++ source₂) = m.run bound source₁) := by
  obtain ⟨p, read, statements⟩ := readWith_append read₁ read₂ closed
  refine ⟨⟨p, read, statements⟩, fun bound m => ?_⟩
  have both : Exec.program bound p m = (Exec.program bound p₁ m).andThen fun v =>
      Rules.programStep (Exec.expression bound) (Exec.statement bound) v
        (p₂.map (Span.behindSource source₁)).statements := by
    have append := programStep_append bound .null p₁.statements
      (p₂.map (Span.behindSource source₁)).statements m
    rw [← statements] at append
    exact append
  rw [Machine.run_of_read read, Machine.run_of_read read₁, both]
  constructor
  · intro v₁ m₁ first
    rw [Machine.run_of_read read₂, Program.map_fst_runMarked, Program.map_moveOwn_runMarked]
    refine ⟨rfl, ?_⟩
    rw [Finish.eq_ok_of_ofOutcome first]
    by_cases empty : p₂.statements = []
    · simp only [empty, List.isEmpty_nil, if_true, Program.map]
      rfl
    · have filled : (p₂.map (Span.behindSource source₁)).statements ≠ [] := by
        simpa [Program.map] using empty
      rw [if_neg (by simpa using empty)]
      exact congrArg (fun x : Exec Span Value => Finish.ofOutcome (x m₁))
        (programStep_of_ne_nil bound v₁ .null filled)
  · intro failed
    cases out : Exec.program bound p₁ m with
    | ok v₁ m₁ =>
        rw [out] at failed
        exact absurd rfl (failed v₁ m₁)
    | error fault m₁ => rfl
    | unfinished => rfl

/-- The program `"a"; // /*`. -/
def greeting : Program Span :=
  ⟨⟨⟨0, 1, 1⟩, ⟨10, 1, 11⟩⟩,
    [.expression ⟨⟨0, 1, 1⟩, ⟨4, 1, 5⟩⟩ (.text ⟨⟨0, 1, 1⟩, ⟨3, 1, 4⟩⟩ "a")]⟩

/-- The program `"b";`. -/
def farewell : Program Span :=
  ⟨⟨⟨0, 1, 1⟩, ⟨4, 1, 5⟩⟩,
    [.expression ⟨⟨0, 1, 1⟩, ⟨4, 1, 5⟩⟩ (.text ⟨⟨0, 1, 1⟩, ⟨3, 1, 4⟩⟩ "b")]⟩

/-- A line comment, even one that has the sign of a block comment in it, ends at the seam. -/
theorem running_is_compatible_with_concatenation_comment :
    readWith Parser.program "\"a\"; // /*" = .ok greeting ∧
      readWith Parser.program "\"b\";" = .ok farewell ∧ ¬EndsInComment "\"a\"; // /*" ∧
      (∃ p, readWith Parser.program ("\"a\"; // /*" ++ "\n" ++ "\"b\";") = .ok p ∧
        p.statements = greeting.statements ++
          [.expression ⟨⟨11, 2, 1⟩, ⟨15, 2, 5⟩⟩ (.text ⟨⟨11, 2, 1⟩, ⟨14, 2, 4⟩⟩ "b")]) ∧
      (Machine.initial none).run 2 ("\"a\"; // /*" ++ "\n" ++ "\"b\";") =
        .ok (.text "b") (Machine.initial none) := by
  have reads : (Scanner.ofText "\"a\"; // /*".toList).Reads
      [⟨.text "a", ⟨⟨0, 1, 1⟩, ⟨3, 1, 4⟩⟩⟩, ⟨.punctuator .semicolon, ⟨⟨3, 1, 4⟩, ⟨4, 1, 5⟩⟩⟩]
      ⟨[' ', '/', '/', ' ', '/', '*'], ⟨4, 1, 5⟩, some ';'⟩ :=
    .token rfl (by decide) (.token rfl (by decide) .done)
  have reads' : (Scanner.ofText "\"b\";".toList).Reads
      [⟨.text "b", ⟨⟨0, 1, 1⟩, ⟨3, 1, 4⟩⟩⟩, ⟨.punctuator .semicolon, ⟨⟨3, 1, 4⟩, ⟨4, 1, 5⟩⟩⟩]
      ⟨[], ⟨4, 1, 5⟩, some ';'⟩ :=
    .token rfl (by decide) (.token rfl (by decide) .done)
  have read₁ : readWith Parser.program "\"a\"; // /*" = .ok greeting :=
    readWith_eq_ok_iff.mpr ⟨_, _, reads.tokens_eq (Scanner.tokens_of_end rfl rfl), rfl⟩
  have read₂ : readWith Parser.program "\"b\";" = .ok farewell :=
    readWith_eq_ok_iff.mpr ⟨_, _, reads'.tokens_eq (Scanner.tokens_of_end rfl rfl), rfl⟩
  have closed : ¬EndsInComment "\"a\"; // /*" := by
    rw [endsInComment_iff reads (show layoutEnd .between _ = some .line by decide)]
    simp
  have first : (Machine.initial none).run 2 "\"a\"; // /*" =
      .ok (.text "a") (Machine.initial none) :=
    Machine.run_of_read read₁ 2 (Machine.initial none)
  obtain ⟨program, runs⟩ := running_is_compatible_with_concatenation read₁ read₂ closed
  refine ⟨read₁, read₂, closed, program, ((runs 2 (Machine.initial none)).1 _ _ first).2.trans ?_⟩
  rw [Program.map_moveOwn_runMarked]
  rfl

end Guion
