import Guion.Proofs.Run.Bounds
import Guion.Proofs.Run.Logged
import Guion.Proofs.Run.Printing

/-!
# Runs without loops end

A call runs the body of a function that was found in the machine, not a part of the
tree that calls it, so trees alone do not get smaller along a run. But only so many
calls can be under way at once. A run without loops therefore ends: each step either
goes to a smaller tree at the same depth of calls, or to a body of limited size one
call deeper. What it may still need is the size of the tree and, for each call that
can still be made, the size of the largest body.

Printing a value and turning it into a text are the only effects that walk through
objects, and they may come to no end at an object that contains itself. So a run keeps
a log of the values it asks the texts of, with the one it may be caught in.
-/

namespace Guion

variable {ρ α β : Type}

/-! ### Trees without loops, up to a size -/

namespace Discipline

/-- No statement is a loop. -/
def loopFree : Discipline ρ := ⟨fun _ => True, fun s => s.isLoop = false, fun _ => True⟩

/-- No node is larger than so much. -/
def upTo (size : Nat) (D : Discipline ρ) : Discipline ρ where
  expr e := sizeOf e ≤ size ∧ D.expr e
  stmt s := sizeOf s ≤ size ∧ D.stmt s
  choice := D.choice

variable {D : Discipline ρ} {size : Nat}

theorem implies_upTo : D.Implies (D.upTo size) size where
  expr _ small met := ⟨small, met⟩
  stmt _ small met := ⟨small, met⟩
  choice _ met := met

/-- The size is all that a bound on the size asks of small nodes. -/
theorem upTo_implies {larger : Nat} : (D.upTo larger).Implies (D.upTo size) size where
  expr _ small met := ⟨small, met.2⟩
  stmt _ small met := ⟨small, met.2⟩
  choice _ met := met

theorem upTo_mono {larger : Nat} (le : size ≤ larger) (k : Nat) :
    (D.upTo size).Implies (D.upTo larger) k where
  expr _ _ met := ⟨met.1.trans le, met.2⟩
  stmt _ _ met := ⟨met.1.trans le, met.2⟩
  choice _ met := met

end Discipline

section

variable {D : Discipline ρ} {size : Nat}

theorem Expr.Obeys.sizeOf_le {e : Expr ρ} (h : e.Obeys (D.upTo size)) : sizeOf e ≤ size := by
  cases e with
  | number | text | reference => exact h.1
  | _ => exact h.1.1

theorem Stmt.Obeys.sizeOf_le {s : Stmt ρ} (h : s.Obeys (D.upTo size)) : sizeOf s ≤ size := by
  cases s with
  | breakLoop | continueLoop => exact h.1
  | _ => exact h.1.1

theorem Expr.Obeys.size_pos {e : Expr ρ} (h : e.Obeys (D.upTo size)) : 0 < size := by
  refine Nat.lt_of_lt_of_le ?_ h.sizeOf_le
  cases e <;> simp +arith

theorem Stmt.Obeys.size_pos {s : Stmt ρ} (h : s.Obeys (D.upTo size)) : 0 < size := by
  refine Nat.lt_of_lt_of_le ?_ h.sizeOf_le
  cases s <;> simp +arith

/-- What is inside an expression is smaller than it is. -/
theorem Expr.Obeys.inside_upTo {e : Expr ρ} (h : e.Obeys (D.upTo (size + 1))) :
    e.Inside (D.upTo size) := by
  have small := h.sizeOf_le
  have smaller : (D.upTo (size + 1)).Implies (D.upTo size) size := Discipline.upTo_implies
  cases e with
  | assign r target source =>
      simp only [Expr.assign.sizeOf_spec] at small
      exact ⟨Expr.Obeys.imp smaller target (by omega) h.2.1,
        Expr.Obeys.imp smaller source (by omega) h.2.2⟩
  | binary r operator lhs rhs =>
      simp only [Expr.binary.sizeOf_spec] at small
      exact ⟨Expr.Obeys.imp smaller lhs (by omega) h.2.1,
        Expr.Obeys.imp smaller rhs (by omega) h.2.2⟩
  | function r definition =>
      simp only [Expr.function.sizeOf_spec] at small
      exact Function.Obeys.imp smaller definition (by omega) h.2
  | object r properties =>
      simp only [Expr.object.sizeOf_spec] at small
      exact Property.ObeyAll.imp smaller properties (by omega) h.2
  | call r callee arguments opening closing part =>
      simp only [Expr.call.sizeOf_spec] at small
      exact ⟨Expr.Obeys.imp smaller callee (by omega) h.2.1,
        Expr.ObeyAll.imp smaller arguments (by omega) h.2.2⟩
  | member r base name part =>
      simp only [Expr.member.sizeOf_spec] at small
      exact Expr.Obeys.imp smaller base (by omega) h.2
  | subscript r base key part =>
      simp only [Expr.subscript.sizeOf_spec] at small
      exact ⟨Expr.Obeys.imp smaller base (by omega) h.2.1,
        Expr.Obeys.imp smaller key (by omega) h.2.2⟩
  | number | text | reference => trivial

/-- What is inside a statement is smaller than it is. -/
theorem Stmt.Obeys.inside_upTo {s : Stmt ρ} (h : s.Obeys (D.upTo (size + 1))) :
    s.Inside (D.upTo size) := by
  have small := h.sizeOf_le
  have smaller : (D.upTo (size + 1)).Implies (D.upTo size) size := Discipline.upTo_implies
  cases s with
  | expression r value =>
      simp only [Stmt.expression.sizeOf_spec] at small
      exact Expr.Obeys.imp smaller value (by omega) h.2
  | function r name definition =>
      simp only [Stmt.function.sizeOf_spec] at small
      exact Function.Obeys.imp smaller definition (by omega) h.2
  | conditional r choice =>
      simp only [Stmt.conditional.sizeOf_spec] at small
      exact Conditional.Obeys.imp smaller choice (by omega) h.2
  | giveBack r keyword value =>
      simp only [Stmt.giveBack.sizeOf_spec] at small
      exact Expr.ObeysOption.imp smaller value (by omega) h.2
  | declare r kind name type value =>
      simp only [Stmt.declare.sizeOf_spec] at small
      exact Expr.ObeysOption.imp smaller value (by omega) h.2
  | loop r condition body =>
      simp only [Stmt.loop.sizeOf_spec] at small
      exact ⟨Expr.Obeys.imp smaller condition (by omega) h.2.1,
        Block.Obeys.imp smaller body (by omega) h.2.2⟩
  | breakLoop | continueLoop => trivial

theorem Stmt.Obeys.isLoop {s : Stmt ρ} (h : s.Obeys (Discipline.loopFree.upTo size)) :
    s.isLoop = false := by
  cases s with
  | breakLoop | continueLoop => rfl
  | _ => exact h.1.2

end

/-! ### What a run shows -/

/-- A value whose text is asked for, with the machine at that moment. -/
structure Rendering (ρ : Type) where
  machine : Machine ρ
  value : Value

/-- A rendering of an object that contains itself. -/
def Rendering.Endless (r : Rendering ρ) : Prop := r.machine.ShowsCyclic r.value

instance : Records (Rendering ρ) ρ where
  display v m := [⟨m, v⟩]
  print _ v m := [⟨m, v⟩]

/-- What a task shows on a machine within a bound. -/
def Task.renderings (bound : Nat) (t : Task ρ α) (m : Machine ρ) : List (Rendering ρ) :=
  (t.compute bound : Logged (Rendering ρ) ρ α).log m

/-! ### Runs that come to an end -/

/-- No function has a loop, and no body is larger than so much. -/
def Machine.Tame (size : Nat) (m : Machine ρ) : Prop :=
  ∀ c ∈ m.closures, c.body.Obeys (Discipline.loopFree.upTo size)

/-- How a computation may end that began on a machine of some depth: with a tame machine of
the same depth, with a fault, or caught in showing an object that contains itself. -/
def Outcome.Settled (size depth : Nat) (shown : List (Rendering ρ)) : Outcome ρ α → Prop
  | ok _ last => last.Tame size ∧ last.depth = depth
  | error _ _ => True
  | unfinished => ∃ r ∈ shown, r.Endless

/-- A computation ends, or is caught in showing an object that contains itself, from every
tame machine where there is room for it. -/
def Logged.Settles (size : Nat) (room : Nat → Prop) (x : Logged (Rendering ρ) ρ α) : Prop :=
  ∀ m : Machine ρ, m.Tame size → room m.depth → (x.exec m).Settled size m.depth (x.log m)

namespace Logged

variable {size : Nat} {room inner : Nat → Prop} {x : Logged (Rendering ρ) ρ α}

theorem Settles.mono (hx : x.Settles size room) (h : ∀ depth, inner depth → room depth) :
    x.Settles size inner :=
  fun m tame fits => hx m tame (h _ fits)

theorem Settles.bind {k : α → Logged (Rendering ρ) ρ β} (hx : x.Settles size room)
    (hk : ∀ a, (k a).Settles size room) : (x.bind k).Settles size room := by
  intro m tame fits
  have first := hx m tame fits
  simp only [Logged.bind, Exec.bind]
  cases run : x.exec m with
  | ok a last =>
      rw [run] at first
      obtain ⟨tame', same⟩ := first
      have second := hk a last tame' (same ▸ fits)
      rw [same] at second
      change ((k a).exec last).Settled size m.depth (x.log m ++ (k a).log last)
      cases run' : (k a).exec last with
      | ok b final =>
          rw [run'] at second
          exact second
      | error fault final => trivial
      | unfinished =>
          rw [run'] at second
          obtain ⟨r, mem, endless⟩ := second
          exact ⟨r, List.mem_append_right _ mem, endless⟩
  | error fault last => trivial
  | unfinished =>
      rw [run] at first
      obtain ⟨r, mem, endless⟩ := first
      exact ⟨r, List.mem_append_left _ mem, endless⟩

/-- A computation that gives a value and keeps the machine. -/
theorem Settles.of_stay {x : Exec ρ α} (stays : ∀ m, ∃ a, x m = .ok a m) :
    (quiet x).Settles size room := by
  intro m tame _
  obtain ⟨a, run⟩ := stays m
  change (x m).Settled size m.depth []
  rw [run]
  exact ⟨tame, rfl⟩

theorem Settles.within {scope : Scope} (hx : x.Settles size room) :
    (x.within scope).Settles size room := by
  intro m tame fits
  have run := hx { m with scope := scope } tame fits
  simp only [Logged.within, Exec.within]
  cases out : x.exec { m with scope := scope } with
  | ok a last =>
      rw [out] at run
      exact run
  | error fault last => trivial
  | unfinished =>
      rw [out] at run
      exact run

theorem Settles.counted (hx : x.Settles size inner)
    (step : ∀ depth, room depth → inner (depth + 1)) :
    x.counted.Settles size room := by
  intro m tame fits
  have run := hx { m with depth := m.depth + 1 } tame (step _ fits)
  simp only [Logged.counted, Exec.counted]
  cases out : x.exec { m with depth := m.depth + 1 } with
  | ok a last =>
      rw [out] at run
      obtain ⟨tame', deeper⟩ := run
      refine ⟨tame', ?_⟩
      change last.depth - 1 = m.depth
      rw [deeper]
      rfl
  | error fault last => trivial
  | unfinished =>
      rw [out] at run
      exact run

theorem Settles.inBlock (kind : ScopeKind) (hx : x.Settles size room) :
    (x.inBlock kind).Settles size room :=
  fun m tame fits => hx.within { m with frames := m.frames.push ⟨kind, []⟩ } tame fits

theorem Settles.inCall {p : Nat → Logged (Rendering ρ) ρ Unit} (range : ρ) (around : Scope)
    (step : ∀ depth < callLimit, room depth → inner (depth + 1))
    (hp : ∀ frame, (p frame).Settles size room) (hx : x.Settles size inner) :
    (x.inCall range around p).Settles size room := by
  intro m tame fits
  simp only [Logged.inCall, Exec.inCall]
  by_cases limit : callLimit ≤ m.depth
  · rw [if_pos limit, if_pos limit]
    trivial
  · rw [if_neg limit, if_neg limit]
    have prepared : (p m.frames.size).Settles size fun depth => depth < callLimit ∧ room depth :=
      (hp _).mono fun _ fits => fits.2
    have body : (x.within (around.inner m.frames.size)).counted.Settles size
        fun depth => depth < callLimit ∧ room depth :=
      hx.within.counted fun depth fits => step depth fits.1 fits.2
    exact prepared.bind (fun _ => body) { m with frames := m.frames.push ⟨.function, []⟩ } tame
      ⟨by change m.depth < callLimit; omega, fits⟩

/-- `Settles` as a relation between computations, which only looks at the first. -/
def Settling (size : Nat) (room : Nat → Prop) (α : Type) (_ : Demand α)
    (x _ : Logged (Rendering ρ) ρ α) : Prop :=
  x.Settles size room

/-- Every effect comes to an end if a call leaves enough room for what runs inside it. -/
theorem Settles.respects {k : Nat} (le : k ≤ size)
    (step : ∀ depth < callLimit, room depth → inner (depth + 1)) :
    Respects id ((Discipline.loopFree : Discipline ρ).upTo k) (Discipline.loopFree.upTo size) .all
      (Settling size room) (Settling size inner) where
  pure _ := of_stay fun _ => ⟨_, rfl⟩
  bind hx hk := Settles.bind hx fun a => hk a (Demand.holds_all _ a)
  fail _ _ := fun _ _ _ => trivial
  scope := of_stay fun _ => ⟨_, rfl⟩
  insideFunction := of_stay fun _ => ⟨_, rfl⟩
  insideLoop := of_stay fun _ => ⟨_, rfl⟩
  lookup name := by
    intro m tame _
    simp only [Effects.lookup, quiet]
    cases m.frames.lookup m.scope name.value with
    | ok v => exact ⟨tame, rfl⟩
    | error fault => trivial
  declare range frame name value type isConstant _ _ := by
    intro m tame _
    simp only [Effects.declare, quiet, Exec.declare]
    cases m.frames.declared frame name value type isConstant with
    | ok binding => exact ⟨tame, rfl⟩
    | error fault => trivial
  assign range name value _ := by
    intro m tame _
    simp only [Effects.assign, quiet, Exec.assign]
    cases m.frames.assigned m.scope name value with
    | ok found => exact ⟨tame, rfl⟩
    | error fault => trivial
  newObject _ := fun m tame _ => ⟨tame, rfl⟩
  newFunction {c} hc _ := by
    intro m tame _
    refine ⟨fun other mem => ?_, rfl⟩
    rcases Array.mem_push.mp mem with mem | rfl
    · exact tame other mem
    · exact Block.Obeys.imp (Discipline.upTo_mono le _) other.body (Nat.le_refl _) hc
  closure? {_ _ k _ id} _ hnone hsome := by
    intro m tame fits
    change ((k m.closures[id]?).exec m).Settled size m.depth ((k m.closures[id]?).log m)
    cases found : m.closures[id]? with
    | none => exact hnone m tame fits
    | some c =>
        exact hsome c (tame c (Array.mem_of_getElem? found)) (Realm.hasScope_all _) m tame fits
  field? _ _ := of_stay fun _ => ⟨_, rfl⟩
  putField _ _ _ _ := fun m tame _ => ⟨tame, rfl⟩
  display {v} _ := by
    intro m tame _
    simp only [Effects.display]
    cases text : m.display? v with
    | some text => exact ⟨tame, rfl⟩
    | none => exact ⟨⟨m, v⟩, List.mem_singleton.mpr rfl, display?_eq_none_iff.mp text⟩
  write range text := by
    intro m tame _
    simp only [Effects.write, Exec.write_eq]
    split
    · exact ⟨tame, rfl⟩
    · trivial
  print range v _ := by
    intro m tame _
    cases text : m.display? v with
    | some text =>
        simp only [Effects.print, Exec.print_of_some range text, Exec.write_eq]
        split
        · exact ⟨tame, rfl⟩
        · trivial
    | none =>
        have caught : Outcome.Settled size m.depth [(⟨m, v⟩ : Rendering ρ)]
            (.unfinished : Outcome ρ Unit) :=
          ⟨⟨m, v⟩, List.mem_singleton.mpr rfl, display?_eq_none_iff.mp text⟩
        simp only [Effects.print, Exec.print_eq, Machine.printed_of_none text]
        split
        · exact caught
        · trivial
  inBlock kind hx := Settles.inBlock kind hx
  inCall range _ _ hp hx := Settles.inCall range _ step (fun frame => hp frame trivial) hx

end Logged

/-! ### Enough room -/

/-- What a tree of some size needs at some depth, if no body is larger than `size`. -/
def Enough (size tree bound depth : Nat) : Prop :=
  tree + (callLimit - depth) * (size + 1) ≤ bound

theorem Enough.call {size tree bound depth : Nat} (h : Enough size tree bound depth)
    (lt : depth < callLimit) : Enough size size bound (depth + 1) := by
  unfold Enough at *
  obtain ⟨calls, hcalls⟩ : ∃ calls, callLimit - depth = calls + 1 :=
    ⟨callLimit - depth - 1, by omega⟩
  have rest : callLimit - (depth + 1) = calls := by omega
  rw [hcalls, Nat.succ_mul] at h
  rw [rest]
  omega

/-- Trees without loops come to an end within a bound that is enough for them. -/
theorem settles_of_enough (size bound : Nat) {tree : Nat} (le : tree ≤ size) :
    (∀ e : Expr ρ, e.Obeys (Discipline.loopFree.upTo tree) →
      (Rules.expression bound e : Logged (Rendering ρ) ρ Value).Settles size
        (Enough size tree bound)) ∧
    ∀ s : Stmt ρ, s.Obeys (Discipline.loopFree.upTo tree) →
      (Rules.statement bound s : Logged (Rendering ρ) ρ Signal).Settles size
        (Enough size tree bound) := by
  -- The bound pays for one level of nesting at a time. A body is as large as any may be,
  -- but it runs one call deeper, so the same smaller bound is enough for it.
  induction bound generalizing tree with
  | zero =>
      constructor
      · intro e he m _ enough
        have pos := he.size_pos
        unfold Enough at enough
        omega
      · intro s hs m _ enough
        have pos := hs.size_pos
        unfold Enough at enough
        omega
  | succ bound ih =>
      cases tree with
      | zero =>
          exact ⟨fun e he => absurd he.size_pos (Nat.lt_irrefl 0),
            fun s hs => absurd hs.size_pos (Nat.lt_irrefl 0)⟩
      | succ tree =>
          have small : tree ≤ size := by omega
          have one : ∀ depth, Enough size (tree + 1) (bound + 1) depth →
              Enough size tree bound depth := by
            unfold Enough
            omega
          have inner := Logged.Settles.respects (ρ := ρ) (Nat.le_refl size)
            fun depth lt (enough : Enough size size bound depth) => enough.call lt
          have outer := Logged.Settles.respects (ρ := ρ) small
            fun depth lt (enough : Enough size tree bound depth) => enough.call lt
          have he : ∀ e : Expr ρ, e.Obeys (Discipline.loopFree.upTo tree) →
              Logged.Settling size (Enough size tree bound) _ .value (Rules.expression bound e)
                (Rules.expression bound (e.map id)) := (ih small).1
          have hs : ∀ s : Stmt ρ, s.Obeys (Discipline.loopFree.upTo tree) →
              Logged.Settling size (Enough size tree bound) _ .signal (Rules.statement bound s)
                (Rules.statement bound (s.map id)) := (ih small).2
          have hi : ∀ s : Stmt ρ, s.Obeys (Discipline.loopFree.upTo size) →
              Logged.Settling size (Enough size size bound) _ .signal (Rules.statement bound s)
                (Rules.statement bound (s.map id)) := (ih (Nat.le_refl size)).2
          constructor
          · intro e hobeys
            have run := outer.expressionStep he (fun _ => inner.statements hi) hobeys.inside_upTo
            exact Logged.Settles.mono run one
          · intro s hobeys
            have run := outer.statementStep he (fun _ => outer.statements hs) bound bound
              hobeys.inside_upTo fun loop => absurd loop (by simp [hobeys.isLoop])
            exact Logged.Settles.mono run one

/-- Every tree is as large as it is. -/
theorem Task.Obeys.upTo {D : Discipline ρ} {t : Task ρ α} (h : t.Obeys D) :
    ∃ least, ∀ size, least ≤ size → t.Obeys (D.upTo size) := by
  cases t with
  | expression e => exact ⟨sizeOf e, fun _ le => Expr.Obeys.imp Discipline.implies_upTo e le h⟩
  | statement s => exact ⟨sizeOf s, fun _ le => Stmt.Obeys.imp Discipline.implies_upTo s le h⟩
  | block b => exact ⟨sizeOf b, fun _ le => Block.Obeys.imp Discipline.implies_upTo b le h⟩
  | program p =>
      exact ⟨sizeOf p.statements,
        fun _ le => Stmt.ObeyAll.imp Discipline.implies_upTo p.statements le h⟩

/-- A machine whose functions have no loops is tame for some size. -/
theorem Machine.tame_of_loopFree {m : Machine ρ}
    (functions : ∀ c ∈ m.closures, c.body.Obeys .loopFree) {size : Nat}
    (le : sizeOf m.closures ≤ size) : m.Tame size := by
  intro c mem
  have small : sizeOf c.body ≤ size := by
    have inside := Array.sizeOf_lt_of_mem mem
    obtain ⟨name, parameters, returnType, body, scope⟩ := c
    simp only [Closure.mk.sizeOf_spec] at inside ⊢
    omega
  exact Block.Obeys.imp Discipline.implies_upTo c.body small (functions c mem)

/-- A task without loops, on a machine whose functions have none, ends with a value, a
signal or a fault, unless it shows an object that contains itself. It does so however its
functions call themselves and each other. -/
theorem loop_free_task_ends {m : Machine ρ} {t : Task ρ α}
    (functions : ∀ c ∈ m.closures, c.body.Obeys .loopFree) (loopFree : t.Obeys .loopFree)
    (shows : ∀ bound, ∀ r ∈ t.renderings bound m, ¬ r.Endless) : ∃ out, t.Ends m out := by
  obtain ⟨least, obeys⟩ := loopFree.upTo
  let size := sizeOf m.closures + least
  let bound := size + (callLimit - m.depth) * (size + 1)
  have tame : m.Tame size := m.tame_of_loopFree functions (by omega)
  have small : t.Obeys (Discipline.loopFree.upTo size) := obeys size (by omega)
  have respects := Logged.Settles.respects (ρ := ρ) (Nat.le_refl size)
    fun depth lt (enough : Enough size size bound depth) => enough.call lt
  have settles : Logged.Settling size (Enough size size bound) _ t.demand (t.compute bound)
      ((t.map id).compute bound) :=
    respects.task (settles_of_enough size bound (Nat.le_refl size)).1
      (settles_of_enough size bound (Nat.le_refl size)).2 small
  have settled := settles m tame (Nat.le_refl bound)
  rw [t.exec_compute] at settled
  refine ⟨t.run bound m, Task.ends_iff.mpr ⟨fun unfinished => ?_, bound, rfl⟩⟩
  rw [unfinished] at settled
  obtain ⟨r, mem, endless⟩ := settled
  exact shows bound r mem endless

/-- A program that prints an object which a function makes. -/
def printedObject : Program Unit :=
  ⟨(), [.function () ⟨(), "f"⟩
      ⟨[], none, ⟨.function, (), [.giveBack () () (some (.object () []))]⟩, ()⟩,
    .expression () (.call () (.reference () ⟨(), "imprimir"⟩)
      [.call () (.reference () ⟨(), "f"⟩) [] () () ()] () () ())]⟩

theorem loop_free_task_ends_printedObject :
    ∃ out, (Task.program printedObject).Ends (Machine.initial none) out := by
  have texts : ∀ bound, ((Task.program printedObject).renderings bound (Machine.initial none)).all
      (fun r => (r.machine.display? r.value).isSome) = true
    | 0 | 1 | 2 | 3 | 4 | 5 => by decide +kernel
    | n + 6 => rfl
  have loopFree : (Task.program printedObject).Obeys .loopFree :=
    ⟨⟨rfl, ⟨rfl, trivial, trivial⟩, trivial⟩, ⟨rfl, trivial, trivial, ⟨trivial, trivial, trivial⟩,
      trivial⟩, trivial⟩
  refine loop_free_task_ends nofun loopFree fun bound r mem endless => ?_
  have shown := List.all_eq_true.mp (texts bound) r mem
  rw [display?_eq_none_iff.mpr endless] at shown
  cases shown

end Guion
