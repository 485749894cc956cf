import Guion.Proofs.Run.Watched
import Guion.Session

/-!
# Scope and depth come back

However a run ends, the machine is then in the scope and at the call depth that it
was in before, and no machine on the way has more calls under way than there may be.
A session is kept from source to source, so it always goes on in the outermost scope
with no call under way, whatever failed before.
-/

namespace Guion

variable {ρ α : Type}

/-- A task that ends leaves the machine in its scope and at its depth. -/
theorem Task.restored {bound : Nat} {t : Task ρ α} {m m' : Machine ρ}
    (h : (t.run bound m).machine? = some m') : Restored m m' := by
  rw [← t.outcome_watch] at h
  exact Run.restored h

/-- No change takes the depth over the limit. -/
theorem Change.depth_le {m m' : Machine ρ} (change : Change m m') (h : m.depth ≤ callLimit) :
    m'.depth ≤ callLimit := by
  cases change with
  | call room => exact room
  | back => exact Nat.le_trans (Nat.sub_le _ _) h
  | _ => exact h

/-! ### Sessions -/

/-- The machine that a session goes on with. -/
def Finish.machine? : Finish α → Option (Machine Span)
  | ok _ m | failed _ m => some m
  | unfinished => none

/-- The machines that a session can be at between two sources, each of them read as a
program, as a statement or as an expression. -/
inductive Session (limit : Option Nat) : Machine Span → Prop
  | start : Session limit (Machine.initial limit)
  | program {m m' : Machine Span} (bound : Nat) (source : String) : Session limit m →
      (m.run bound source).machine? = some m' → Session limit m'
  | statement {m m' : Machine Span} (bound : Nat) (source : String) : Session limit m →
      (m.runStatement bound source).machine? = some m' → Session limit m'
  | expression {m m' : Machine Span} (bound : Nat) (source : String) : Session limit m →
      (m.runExpression bound source).machine? = some m' → Session limit m'

/-- A source leaves the machine alone or runs what was read from it. -/
theorem Machine.perform_machine {β : Type} {parser : Parser Span α} {exec : α → Exec Span β}
    {source : String} {m m' : Machine Span}
    (h : (m.perform parser exec source).machine? = some m') :
    m' = m ∨ ∃ a, readWith parser source = .ok a ∧ (exec a m).machine? = some m' := by
  unfold Machine.perform at h
  cases hread : readWith parser source with
  | error failure =>
      rw [hread] at h
      cases h
      exact .inl rfl
  | ok a =>
      rw [hread] at h
      refine .inr ⟨a, rfl, ?_⟩
      simp only at h
      cases hexec : exec a m with
      | ok b next =>
          rw [hexec] at h
          exact h
      | error fault next =>
          rw [hexec] at h
          exact h
      | unfinished =>
          rw [hexec] at h
          cases h

theorem Session.restored {limit : Option Nat} {m : Machine Span} (h : Session limit m) :
    Restored (Machine.initial limit) m := by
  induction h with
  | start => exact .refl _
  | program bound source _ h ih =>
      rcases Machine.perform_machine h with rfl | ⟨p, -, hp⟩
      · exact ih
      · exact ih.trans (Task.restored (t := .program p) hp)
  | statement bound source _ h ih =>
      rcases Machine.perform_machine h with rfl | ⟨s, -, hs⟩
      · exact ih
      · exact ih.trans (Task.restored (t := .statement s) hs)
  | expression bound source _ h ih =>
      rcases Machine.perform_machine h with rfl | ⟨e, -, he⟩
      · exact ih
      · exact ih.trans (Task.restored (t := .expression e) he)

/-- Scope and depth come back on every exit, the depth stays within its limit on the
way, and a session is in the outermost scope at depth 0 before each of its steps. -/
theorem scope_and_depth_come_back :
    (∀ {ρ α : Type} (bound : Nat) (t : Task ρ α) (m : Machine ρ),
      (∀ m', (t.run bound m).machine? = some m' → m'.scope = m.scope ∧ m'.depth = m.depth) ∧
      (t.watch bound m).outcome = t.run bound m ∧
      (m.depth ≤ callLimit → ∀ m' ∈ (t.watch bound m).moments, m'.depth ≤ callLimit)) ∧
    ∀ (limit : Option Nat) (m : Machine Span), Session limit m →
      m.scope = .outermost ∧ m.depth = 0 := by
  constructor
  · intro ρ α bound t m
    refine ⟨fun m' h => ?_, t.outcome_watch bound m, fun h => ?_⟩
    · obtain ⟨scope, depth⟩ := Task.restored h
      exact ⟨scope, depth⟩
    · exact (t.watch bound m).invariant Change.depth_le h
  · intro limit m h
    obtain ⟨scope, depth⟩ := h.restored
    exact ⟨scope, depth⟩

/-- A program that calls a function whose body fails. -/
def failingCall : Program Unit :=
  ⟨(), [.function () ⟨(), "f"⟩
      ⟨[], none, ⟨.function, (), [.expression () (.reference () ⟨(), "x"⟩)]⟩, ()⟩,
    .expression () (.call () (.reference () ⟨(), "f"⟩) [] () () ())]⟩

theorem scope_and_depth_come_back_failingCall :
    ∃ m', (Task.program failingCall).run 4 (Machine.initial none) =
        .error ⟨(), .undeclared "x"⟩ m' ∧
      m'.scope = .outermost ∧ m'.depth = 0 := by
  refine ⟨_, rfl, ?_⟩
  exact (scope_and_depth_come_back.1 4 (.program failingCall) (Machine.initial none)).1 _ rfl

end Guion
