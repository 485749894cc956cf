import Guion.Proofs.Run.Logged

/-!
# What a run computes

A run computes many expressions, and some of them many times. Here it notes each one once it
has been computed, with the machine before, so that one can tell which expression it was that
printed a text or put a value into an object. The notes of what is inside an expression come
before its own.
-/

namespace Guion

variable {ρ α : Type}

/-- The computation of an expression: what bound there was for what is inside the expression,
and the machine before. -/
structure Visit (ρ : Type) where
  bound : Nat
  expr : Expr ρ
  machine : Machine ρ

/-- How the computation ended. -/
def Visit.outcome (visit : Visit ρ) : Outcome ρ Value :=
  (Task.expression visit.expr).run (visit.bound + 1) visit.machine

/-- Single effects compute no expressions. -/
instance : Records (Visit ρ) ρ where

/-- A computation of an expression, noted behind what is inside it. -/
def Logged.noted (bound : Nat) (e : Expr ρ) (x : Logged (Visit ρ) ρ Value) :
    Logged (Visit ρ) ρ Value where
  exec := x.exec
  log m := x.log m ++ [⟨bound, e, m⟩]

namespace Visiting

mutual

/-- Computes an expression within a bound and notes what it computes. -/
def expression : Nat → Expr ρ → Logged (Visit ρ) ρ Value
  | 0, _ => Effects.unfinished
  | n + 1, e =>
    .noted n e (Rules.expressionStep (expression n) (Rules.statements (statement n)) e)

/-- Runs a statement within a bound and notes what it computes. -/
def statement : Nat → Stmt ρ → Logged (Visit ρ) ρ Signal
  | 0, _ => Effects.unfinished
  | n + 1, s => Rules.statementStep n (expression n) (Rules.statements (statement n)) s

end

/-- Runs a task within a bound and notes what it computes. -/
def task (bound : Nat) : {α : Type} → Task ρ α → Logged (Visit ρ) ρ α
  | _, .expression e => expression bound e
  | _, .statement s => statement bound s
  | _, .block b => Rules.block (Rules.statements (statement bound)) b
  | _, .program p =>
    Rules.programStep (expression bound) (statement bound) .null p.statements

end Visiting

/-- What a task computes on a machine within a bound. -/
def Task.visits (bound : Nat) (t : Task ρ α) (m : Machine ρ) : List (Visit ρ) :=
  (Visiting.task bound t).log m

/-! ### Relations with other runs -/

/-- What relates computations with notes to computations of another kind. Nothing is asked about
built-in functions and about what is put into objects: how an expression is related that does
either, may depend on the note behind it. -/
structure Attends {M : Type → Type} [Effects ρ M]
    (Rel : ∀ α : Type, Demand α → Logged (Visit ρ) ρ α → M α → Prop) : Prop
    extends Executes id (Closure.Moved id .free) (Closure.Moved id .free) .all Rel Rel where
  declaration (range : ρ) (frame : Nat) (name : String) (value : Option Value)
    (type : Option ValueType) (isConstant : Bool) :
    Rel Unit .anything (Effects.declare range frame name value type isConstant)
      (Effects.declare range frame name value type isConstant)
  unfinished {α : Type} {d : Demand α} : Rel α d Effects.unfinished Effects.unfinished
  repeatWithin {α : Type} {d : Demand α} {x : Logged (Visit ρ) ρ (Option α)} {y : M (Option α)}
    (turns : Nat) : Rel (Option α) (.option d) x y →
    Rel α d (Effects.repeatWithin x turns) (Effects.repeatWithin y turns)
  noted {n : Nat} :
    (∀ e : Expr ρ, e.Obeys .free →
      Rel _ .value (Visiting.expression n e) (Rules.expression n (e.map id))) →
    (∀ list : List (Stmt ρ), Stmt.ObeyAll .free list →
      Rel _ .signal (Rules.statements (Visiting.statement n) list)
        (Rules.statements (Rules.statement n) (list.map (Stmt.map id)))) →
    ∀ e : Expr ρ, Rel _ .value (Visiting.expression (n + 1) e)
      (Rules.expression (n + 1) (e.map id))

namespace Attends

variable {M : Type → Type} [Effects ρ M]
variable {Rel : ∀ α : Type, Demand α → Logged (Visit ρ) ρ α → M α → Prop} (h : Attends Rel)

include h

theorem within_bound (n : Nat) :
    (∀ e : Expr ρ, e.Obeys .free →
      Rel _ .value (Visiting.expression n e) (Rules.expression n (e.map id))) ∧
    ∀ s : Stmt ρ, s.Obeys .free →
      Rel _ .signal (Visiting.statement n s) (Rules.statement n (s.map id)) := by
  induction n with
  | zero => exact ⟨fun _ _ => h.unfinished, fun _ _ => h.unfinished⟩
  | succ n ih =>
      obtain ⟨he, hs⟩ := ih
      have hb (list : List (Stmt ρ)) (hlist : Stmt.ObeyAll .free list) :
          Rel _ .signal (Rules.statements (Visiting.statement n) list)
            (Rules.statements (Rules.statement n) (list.map (Stmt.map id))) :=
        h.statements fun s mem => hs s (Stmt.obeyAll_iff.mp hlist s mem)
      refine ⟨fun e _ => h.noted he hb e, fun s hobeys => ?_⟩
      refine h.statementStep he hb n n hobeys.inside (fun _ _ _ => h.repeatWithin n) ?_
      rintro range kind name type value rfl
      exact h.declareVariable kind.value name type (h.optional_map he hobeys.inside)
        fun frame v type _ _ => h.declaration name.range frame name.value v type _

/-- A task with notes and the task as another kind of computation. -/
theorem task (n : Nat) (t : Task ρ α) : Rel α t.demand (Visiting.task n t) (t.compute n) := by
  obtain ⟨he, hs⟩ := h.within_bound n
  have run : Rel α t.demand (Visiting.task n t) ((t.map id).compute n) := by
    cases t with
    | expression e => exact he e e.obeys_free
    | statement s => exact hs s s.obeys_free
    | block b =>
        exact h.block_map (fun list hlist => h.statements fun s mem =>
          hs s (Stmt.obeyAll_iff.mp hlist s mem)) b.obeys_free
    | program p =>
        have null : Realm.all.HasValue .null := trivial
        exact h.programStep_map he hs null (Stmt.obeyAll_free p.statements)
  rwa [Task.map_id] at run

end Attends

/-! ### Notes change nothing -/

theorem Visiting.attends : Attends fun α (_ : Demand α) (x : Logged (Visit ρ) ρ α)
    (y : Exec ρ α) => x.exec = y where
  toExecutes := Logged.congruence.simulation.accord.toExecutes
  declaration _ _ _ _ _ _ := rfl
  unfinished := rfl
  repeatWithin turns hx := Logged.congruence.repeatWithin turns hx
  noted he hb e := Logged.congruence.simulation.expressionStep he hb e.obeys_free.inside

theorem Visiting.exec_expression (n : Nat) (e : Expr ρ) :
    (expression n e).exec = Rules.expression n e :=
  attends.task n (.expression e)

theorem Visiting.exec_all (n : Nat) (list : List (Expr ρ)) :
    (Rules.all (expression n) list).exec = Rules.all (Exec.expression n) list := by
  have same : (Rules.all (expression n) list).exec = Rules.all (Exec.expression n) (list.map id) :=
    attends.all fun e _ => exec_expression n e
  rwa [List.map_id] at same

/-- To note what a task computes changes nothing. -/
theorem Task.exec_visiting (bound : Nat) (t : Task ρ α) (m : Machine ρ) :
    (Visiting.task bound t).exec m = t.run bound m :=
  congrFun (Visiting.attends.task bound t) m

/-- Built-in functions compute no expressions. -/
theorem Builtin.visits_apply (range : ρ) (b : Builtin) (values : List Value) (m : Machine ρ) :
    (b.apply range values : Logged (Visit ρ) ρ Value).log m = [] := by
  have silent : Speaks id .all fun α (_ : Demand α) (x _ : Logged (Visit ρ) ρ α) =>
      ∀ m, x.log m = [] :=
    { pure _ := fun _ => rfl
      bind := fun {_ _ _ _ x _ k _} hx hk => fun m => by
        change (x.bind k).log m = []
        cases run : x.exec m with
        | ok a last =>
            rw [Logged.log_bind_of_ok run, hx m, hk a (Demand.holds_all _ a) last]
            rfl
        | _ => rw [Logged.log_bind_of_fails (by simp [Outcome.Fails, run]), hx m]
      fail _ _ _ := fun _ => rfl
      display _ := fun _ => rfl
      write _ _ := fun _ => rfl
      print _ _ _ := fun _ => rfl }
  exact silent.builtin range b (fun v _ => Realm.hasValue_all v) m

end Guion
