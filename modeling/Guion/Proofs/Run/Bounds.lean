import Guion.Proofs.Run.Simulation

/-!
# Larger bounds

A bound only cuts runs off. A run that ends within a bound ends in the same way within
every larger one, so that one can speak of how a run ends without naming a bound.
-/

namespace Guion

variable {ρ α β : Type}

/-- The second computation ends wherever the first one does, and in the same way. -/
def Exec.Extends (x y : Exec ρ α) : Prop := ∀ m, x m ≠ .unfinished → y m = x m

namespace Exec.Extends

variable {x y : Exec ρ α}

theorem refl (x : Exec ρ α) : x.Extends x := fun _ _ => rfl

theorem bind {k l : α → Exec ρ β} (hx : x.Extends y) (hk : ∀ a, (k a).Extends (l a)) :
    Exec.Extends (x >>= k) (y >>= l) := by
  intro m ended
  change Exec.bind x k m ≠ .unfinished at ended
  change Exec.bind y l m = Exec.bind x k m
  unfold Exec.bind at ended ⊢
  have same := hx m
  cases run : x m with
  | ok a last =>
      rw [run] at ended same
      rw [same nofun]
      exact hk a last ended
  | error fault last =>
      rw [run] at same
      rw [same nofun]
  | unfinished =>
      rw [run] at ended
      exact absurd rfl ended

theorem within (scope : Scope) (hx : x.Extends y) :
    (Exec.within scope x).Extends (Exec.within scope y) := by
  intro m ended
  rw [Exec.within_eq_alter] at ended
  rw [Exec.within_eq_alter, Exec.within_eq_alter, hx]
  exact fun cut => ended (congrArg _ cut)

theorem counted (hx : x.Extends y) : (Exec.counted x).Extends (Exec.counted y) := by
  intro m ended
  rw [Exec.counted_eq_alter] at ended
  rw [Exec.counted_eq_alter, Exec.counted_eq_alter, hx]
  exact fun cut => ended (congrArg _ cut)

theorem inBlock (kind : ScopeKind) (hx : x.Extends y) :
    (Exec.inBlock kind x).Extends (Exec.inBlock kind y) :=
  fun _ ended => within _ hx _ ended

theorem inCall {p q : Nat → Exec ρ Unit} (range : ρ) (around : Scope)
    (hp : ∀ frame, (p frame).Extends (q frame)) (hx : x.Extends y) :
    (Exec.inCall range around p x).Extends (Exec.inCall range around q y) := by
  intro m ended
  unfold Exec.inCall at ended ⊢
  by_cases limit : callLimit ≤ m.depth
  · rw [if_pos limit, if_pos limit]
  · rw [if_neg limit] at ended ⊢
    rw [if_neg limit]
    exact bind (hp m.frames.size) (fun _ => counted (within _ hx)) _ ended

/-- A loop that ends within so many turns ends in the same way if it may take more. -/
theorem repeatWithin {x y : Exec ρ (Option α)} (hx : x.Extends y) {turns more : Nat}
    (le : turns ≤ more) :
    Exec.Extends (Exec.repeatWithin x turns) (Exec.repeatWithin y more) := by
  induction turns generalizing more with
  | zero => exact fun m ended => absurd rfl ended
  | succ turns ih =>
      obtain ⟨more, rfl⟩ : ∃ k, more = k + 1 := ⟨more - 1, by omega⟩
      intro m ended
      have same := hx m
      unfold Exec.repeatWithin at ended ⊢
      cases run : x m with
      | ok found last =>
          rw [run] at ended same
          rw [same (by simp)]
          cases found with
          | some a => rfl
          | none => exact ih (by omega) last ended
      | error fault last =>
          rw [run] at same
          rw [same (by simp)]
      | unfinished =>
          rw [run] at ended
          exact absurd rfl ended

/-- Every effect leads from extended computations to extended ones. -/
theorem respects :
    Respects id (.free : Discipline ρ) .free .all
      (fun α (_ : Demand α) (x y : Exec ρ α) => x.Extends y)
      (fun α (_ : Demand α) (x y : Exec ρ α) => x.Extends y) where
  pure _ := refl _
  bind hx hk := bind hx fun a => hk a (Demand.holds_all _ a)
  fail _ _ := refl _
  scope := refl _
  insideFunction := refl _
  insideLoop := refl _
  lookup _ := refl _
  declare _ _ _ _ _ _ _ _ := refl _
  assign _ _ _ _ := refl _
  newObject _ := refl _
  newFunction {c} _ _ := by
    rw [Closure.map_id]
    exact refl _
  closure? {_ _ k l id} _ hnone hsome := by
    refine bind (refl _) fun found => ?_
    cases found with
    | none => exact hnone
    | some c =>
        have run := hsome c c.body.obeys_free (Realm.hasScope_all _)
        rwa [Closure.map_id] at run
  field? _ _ := refl _
  putField _ _ _ _ := refl _
  display _ := refl _
  write _ _ := refl _
  print _ _ _ := refl _
  inBlock kind hx := inBlock kind hx
  inCall range _ _ hp hx := inCall range _ (fun frame => hp frame trivial) hx

end Exec.Extends

/-- Expressions and statements within a bound and within a larger one. -/
theorem Rules.extends_of_le {n more : Nat} (le : n ≤ more) :
    (∀ e : Expr ρ, (Rules.expression n e : Exec ρ Value).Extends (Rules.expression more e)) ∧
      ∀ s : Stmt ρ, (Rules.statement n s : Exec ρ Signal).Extends (Rules.statement more s) := by
  induction n generalizing more with
  | zero => exact ⟨fun _ _ ended => absurd rfl ended, fun _ _ ended => absurd rfl ended⟩
  | succ n ih =>
      obtain ⟨more, rfl⟩ : ∃ k, more = k + 1 := ⟨more - 1, by omega⟩
      obtain ⟨expressions, statements⟩ := ih (show n ≤ more by omega)
      have h := Exec.Extends.respects (ρ := ρ)
      have he : ∀ e : Expr ρ, e.Obeys .free →
          (Rules.expression n e : Exec ρ Value).Extends (Rules.expression more (e.map id)) := by
        intro e _
        rw [Expr.map_id_apply]
        exact expressions e
      have hs : ∀ s : Stmt ρ, s.Obeys .free →
          (Rules.statement n s : Exec ρ Signal).Extends (Rules.statement more (s.map id)) := by
        intro s _
        rw [Stmt.map_id_apply]
        exact statements s
      constructor
      · intro e
        have run := h.expressionStep he (fun _ => h.statements hs) e.obeys_free.inside
        rwa [Expr.map_id_apply] at run
      · intro s
        have run := h.statementStep he (fun _ => h.statements hs) n more s.obeys_free.inside
          fun _ _ _ hturn => hturn.repeatWithin (by omega)
        rwa [Stmt.map_id_apply] at run

/-- A task that ends within a bound ends in the same way within every larger one. -/
theorem Task.run_of_le (t : Task ρ α) {m : Machine ρ} {n more : Nat} (le : n ≤ more)
    (ended : t.run n m ≠ .unfinished) : t.run more m = t.run n m := by
  obtain ⟨expressions, statements⟩ := Rules.extends_of_le (ρ := ρ) le
  have run := Exec.Extends.respects.task (fun e _ => by simpa using expressions e)
    (fun s _ => by simpa using statements s) t.obeys_free
  rw [map_id] at run
  exact run m ended

/-- A task ends in a certain way: it does so within every bound that is large enough. -/
def Task.Ends (t : Task ρ α) (m : Machine ρ) (out : Outcome ρ α) : Prop :=
  out ≠ .unfinished ∧ ∃ bound, ∀ more, bound ≤ more → t.run more m = out

/-- To end within one bound is to end. -/
theorem Task.ends_iff {t : Task ρ α} {m : Machine ρ} {out : Outcome ρ α} :
    t.Ends m out ↔ out ≠ .unfinished ∧ ∃ bound, t.run bound m = out := by
  constructor
  · rintro ⟨ended, bound, same⟩
    exact ⟨ended, bound, same bound (Nat.le_refl _)⟩
  · rintro ⟨ended, bound, rfl⟩
    exact ⟨ended, bound, fun more le => t.run_of_le le ended⟩

end Guion
