import Guion.Proofs.Run.Ancestry
import Guion.Proofs.Run.Visits

/-!
# Only assignments to properties put values into objects

A watched run shows which machines a run passes through, and a run with notes which expressions
it computes. Here the two are put side by side: where the objects that were there do not keep
their fields, an assignment to a property has been computed.
-/

namespace Guion

variable {ρ α β : Type}

/-- An expression that was computed is an assignment to a property, and it ended with a value. -/
inductive Visit.Puts (visit : Visit ρ) : Prop
  | intro {range : ρ} {target source : Expr ρ} {v : Value} {last : Machine ρ} :
      visit.expr = .assign range target source → target.isProperty = true →
      visit.outcome = .ok v last → Puts visit

/-! ### Paths that spare the objects -/

/-- The changes of a run spare the objects. -/
def Run.Spares {m : Machine ρ} (r : Run m α) : Prop := r.path.Spares

theorem Run.spares_after {m m' : Machine ρ} {path : Path m m'} {restored : Restored m m'}
    {r : Run m' α} : (r.after path restored).Spares ↔ path.Spares ∧ r.Spares := by
  cases r <;> exact Path.spares_append

theorem Run.spares_once {m m' : Machine ρ} {a : α} {change : Change m m'}
    {restored : Restored m m'} (h : m.Spares m') : (Watched.once a change restored).Spares :=
  ⟨h, trivial⟩

theorem Path.Spares.bracket {a b c d : Machine ρ} {p : Path b c} (h : p.Spares)
    {opening : Change a b} {closing : Change c d} (entered : b.objects = a.objects)
    (left : d.objects = c.objects) : (p.bracket opening closing).Spares :=
  ⟨.of_eq entered, spares_append.mpr ⟨h, .of_eq left, trivial⟩⟩

/-! ### Watched runs and runs with notes -/

/-- A watched computation and the same computation with notes. If it ends in a certain way and
no assignment to a property is noted, the watched run spares the objects. -/
structure Logged.Warns (P : Outcome ρ α → Prop) (x : Logged (Visit ρ) ρ α)
    (y : Watched ρ α) : Prop where
  faithful : Faithful (fun _ => True) α y x.exec
  spares (m : Machine ρ) : P (x.exec m) → (∀ visit ∈ x.log m, ¬ visit.Puts) →
    (y m).Spares

namespace Logged.Warns

variable {P : Outcome ρ α → Prop} {Q : Outcome ρ β → Prop}
variable {x : Logged (Visit ρ) ρ α} {y : Watched ρ α}

/-- However it ends. -/
abbrev Always {α : Type} (x : Logged (Visit ρ) ρ α) (y : Watched ρ α) : Prop :=
  x.Warns (fun _ => True) y

/-- What changes no objects needs no warning. -/
theorem of_spares (faithful : Faithful (fun _ => True) α y x.exec)
    (spares : ∀ m, (y m).Spares) : x.Warns P y :=
  ⟨faithful, fun m _ _ => spares m⟩

/-- What does not end in the certain way needs none either. -/
theorem of_not (faithful : Faithful (fun _ => True) α y x.exec) (not : ∀ m, ¬ P (x.exec m)) :
    x.Warns P y :=
  ⟨faithful, fun m ended _ => absurd ended (not m)⟩

theorem bind {k : α → Logged (Visit ρ) ρ β} {l : α → Watched ρ β} (hx : Always x y)
    (hk : ∀ a, (k a).Warns Q (l a)) : (x.bind k).Warns Q (y >>= l) := by
  refine ⟨Faithful.bind_of_ok hx.faithful fun a _ => (hk a).faithful, fun m ended none => ?_⟩
  have first := hx.spares m trivial (forall_log_first none)
  have same := (hx.faithful m trivial).1
  change (Watched.bind y l m).Spares
  unfold Watched.bind
  generalize y m = r at first same
  cases r with
  | @ok a last path restored =>
      have run : x.exec m = .ok a last := same.symm
      rw [exec_bind_of_ok run] at ended
      exact Run.spares_after.mpr ⟨first, (hk a).spares last ended (forall_log_second run none)⟩
  | error fault path restored => exact first
  | unfinished path => exact first

/-- What only passes on a value fails where the computation before it does. -/
theorem pass_on (h : x.Warns Outcome.Fails y) (b : β) :
    (x.bind fun _ => .quiet (Exec.pure b)).Warns Outcome.Fails (y >>= fun _ => pure b) := by
  have done : Faithful (fun _ => True) β (pure b : Watched ρ β) (Exec.pure b) :=
    fun _ hm => Faithful.of_stay hm rfl rfl
  refine ⟨Faithful.bind_of_ok h.faithful fun _ _ => done, fun m ended none => ?_⟩
  have fails : (x.exec m).Fails := fun a last run =>
    absurd (exec_bind_of_ok run) (ended b last)
  have first := h.spares m fails (forall_log_first none)
  have same := (h.faithful m trivial).1
  change (Watched.bind y _ m).Spares
  unfold Watched.bind
  generalize y m = r at first same
  cases r with
  | @ok a last path restored => exact absurd same.symm (fails a last)
  | error fault path restored => exact first
  | unfinished path => exact first

theorem spares_within {scope : Scope} {m : Machine ρ}
    (h : (y { m with scope := scope }).Spares) : (Watched.within scope y m).Spares := by
  unfold Watched.within
  generalize y { m with scope := scope } = r at h
  cases r with
  | ok a path restored => exact h.bracket rfl rfl
  | error fault path restored => exact h.bracket rfl rfl
  | unfinished path => exact ⟨.of_eq rfl, h⟩

theorem spares_counted {m : Machine ρ} (room : m.depth < callLimit)
    (h : (y { m with depth := m.depth + 1 }).Spares) :
    (Watched.counted y m room).Spares := by
  unfold Watched.counted
  generalize y { m with depth := m.depth + 1 } = r at h
  cases r with
  | ok a path restored => exact h.bracket rfl rfl
  | error fault path restored => exact h.bracket rfl rfl
  | unfinished path => exact ⟨.of_eq rfl, h⟩

theorem spares_framed {kind : ScopeKind} {m : Machine ρ}
    {r : Run { m with frames := m.frames.push ⟨kind, []⟩ } α} (h : r.Spares) :
    (Watched.framed kind r).Spares := by
  unfold Watched.framed
  exact Run.spares_after.mpr ⟨⟨.of_eq rfl, trivial⟩, h⟩

theorem inBlock (kind : ScopeKind) (h : Always x y) : Always (x.inBlock kind) (y.inBlock kind) :=
  ⟨Faithful.inBlock .free kind h.faithful, fun _ _ none =>
    spares_framed (spares_within (h.spares _ trivial none))⟩

theorem spares_prepared {p : Logged (Visit ρ) ρ Unit} {q : Watched ρ Unit} (hp : Always p q)
    (h : Always x y) (scope : Scope) {m : Machine ρ} (room : m.depth < callLimit)
    (none : ∀ visit ∈ (p.bind fun _ => (x.within scope).counted).log m, ¬ visit.Puts) :
    (Watched.prepared q scope y m room).Spares := by
  have first := hp.spares m trivial (forall_log_first none)
  have same := (hp.faithful m trivial).1
  unfold Watched.prepared
  generalize q m = r at first same
  cases r with
  | ok _ path restored =>
      have inside := h.spares _ trivial (forall_log_second same.symm none)
      exact Run.spares_after.mpr ⟨first, spares_counted _ (spares_within inside)⟩
  | error fault path restored => exact first
  | unfinished path => exact first

theorem inCall {p : Nat → Logged (Visit ρ) ρ Unit} {q : Nat → Watched ρ Unit} (range : ρ)
    (around : Scope) (hp : ∀ frame, Always (p frame) (q frame)) (h : Always x y) :
    Always (x.inCall range around p) (y.inCall range around q) := by
  refine ⟨Faithful.inCall .free range around (fun frame => (hp frame).faithful) h.faithful,
    fun m _ none => ?_⟩
  unfold Watched.inCall
  simp only [Logged.inCall] at none
  split
  · trivial
  · next room =>
    rw [if_neg room] at none
    exact spares_framed (spares_prepared (hp _) h _ _ none)

theorem repeatWithin {x : Logged (Visit ρ) ρ (Option α)} {y : Watched ρ (Option α)}
    (h : Always x y) (turns : Nat) : Always (x.repeatWithin turns) (y.repeatWithin turns) := by
  have faithful := Faithful.repeatWithin h.faithful turns
  rw [← exec_repeatWithin] at faithful
  refine ⟨faithful, ?_⟩
  clear faithful
  induction turns with
  | zero => exact fun _ _ _ => trivial
  | succ turns ih =>
      intro m _ none
      have first := h.spares m trivial (forall_log_first none)
      have same := (h.faithful m trivial).1
      change Run.Spares (Watched.repeatWithin y (turns + 1) m)
      unfold Watched.repeatWithin
      generalize y m = r at first same
      cases r with
      | ok found path restored =>
          have more := forall_log_second same.symm none
          cases found with
          | some a => exact first
          | none => exact Run.spares_after.mpr ⟨first, ih _ trivial more⟩
      | error fault path restored => exact first
      | unfinished path => exact first

theorem chains : Chains id .all fun α (_ : Demand α) (x : Logged (Visit ρ) ρ α) y =>
    Always x y where
  pure _ := of_spares (fun _ hm => Faithful.of_stay hm rfl rfl) fun _ => trivial
  bind hx hk := bind hx fun a => hk a (Demand.holds_all _ a)
  fail _ _ _ := of_spares (fun _ hm => Faithful.of_stay hm rfl rfl) fun _ => trivial

theorem speaks : Speaks id .all fun α (_ : Demand α) (x : Logged (Visit ρ) ρ α) y =>
    Always x y where
  toChains := chains
  display hv := by
    refine of_spares ((Faithful.speaks .free).display hv) fun m => ?_
    simp only [Effects.display]
    split <;> trivial
  write range text := by
    refine of_spares ((Faithful.speaks .free).write range text) fun m => ?_
    simp only [Effects.write]
    split <;> exact ⟨.of_eq rfl, trivial⟩
  print range v hv := by
    refine of_spares ((Faithful.speaks .free).print range hv) fun m => ?_
    simp only [Effects.print]
    split
    · split <;> exact ⟨.of_eq rfl, trivial⟩
    · exact ⟨.of_eq rfl, trivial⟩

theorem declare (range : ρ) (frame : Nat) (name : String) (value : Option Value)
    (type : Option ValueType) (isConstant : Bool) :
    Always (Effects.declare range frame name value type isConstant)
      (Effects.declare range frame name value type isConstant) := by
  refine of_spares (Faithful.declare .free range frame name value type isConstant) fun m => ?_
  simp only [Effects.declare]
  split
  · exact ⟨.of_eq rfl, trivial⟩
  · trivial

theorem executes : Executes id (Closure.Moved id (.free : Discipline ρ)) (Closure.Moved id .free)
    .all (fun α (_ : Demand α) (x : Logged (Visit ρ) ρ α) y => Always x y)
    fun α (_ : Demand α) x y => Always x y where
  toChains := chains
  scope := of_spares (Faithful.accord .free).scope fun _ => trivial
  insideFunction := of_spares (Faithful.accord .free).insideFunction fun _ => trivial
  insideLoop := of_spares (Faithful.accord .free).insideLoop fun _ => trivial
  lookup name := by
    refine of_spares ((Faithful.accord .free).lookup name) fun m => ?_
    simp only [Effects.lookup]
    split <;> trivial
  declare range _ name _ type isConstant _ _ := declare range _ name _ type isConstant
  assign range name value hvalue := by
    refine of_spares ((Faithful.accord .free).assign range name hvalue) fun m => ?_
    simp only [Effects.assign]
    split
    · exact ⟨.of_eq rfl, trivial⟩
    · trivial
  literal := chains.literal fun _ => of_spares
    (fun _ hm => Faithful.of_once hm rfl rfl trivial) fun m =>
      Run.spares_once (.pushObject m _)
  newFunction := by
    rintro c _ ⟨-, rfl⟩ -
    rw [Closure.map_id]
    exact of_spares (fun _ hm => Faithful.of_once hm rfl rfl trivial) fun m =>
      Run.spares_once (.of_eq rfl)
  closure? {_ _ k l id} _ hnone hsome := by
    have look : Always (Effects.closure? id : Logged (Visit ρ) ρ (Option (Closure ρ)))
        (Effects.closure? id) :=
      of_spares (fun _ hm => Faithful.of_stay hm rfl rfl) fun _ => trivial
    refine bind look fun found => ?_
    cases found with
    | none => exact hnone
    | some c =>
        have run := hsome c _ ⟨c.body.obeys_free, rfl⟩ (Realm.hasScope_all _)
        rwa [Closure.map_id] at run
  field? key hobject := of_spares ((Faithful.accord .free).field? key hobject) fun _ => trivial
  inBlock kind hx := inBlock kind hx
  inCall range _ _ hp hx := inCall range _ (fun frame => hp frame trivial) hx

/-! ### Assignments -/

section

variable {expression : Expr ρ → Logged (Visit ρ) ρ Value} {expression' : Expr ρ → Watched ρ Value}
variable (he : ∀ e : Expr ρ, Always (expression e) (expression' e))

include he

/-- The last thing that a write access does is to put the value into the object, so that it has
not done so where it fails. -/
theorem store {base : Expr ρ} {key : Logged (Visit ρ) ρ String} {key' : Watched ρ String}
    (hkey : Always key key') (v : Value) : (Rules.store expression base key v).Warns
      Outcome.Fails (Rules.store expression' base key' v) := by
  refine bind (he base) fun found => bind hkey fun k => ?_
  refine bind (executes.asObject base.range (Realm.hasValue_all found)) fun object => ?_
  exact of_not ((Faithful.accord .free).putField k trivial (Realm.hasValue_all v))
    fun m fails => fails () _ rfl

theorem assign_property {target : Expr ρ} (property : target.isProperty = true) (range : ρ)
    (source : Expr ρ) (body : List (Stmt ρ) → Logged (Visit ρ) ρ Signal)
    (body' : List (Stmt ρ) → Watched ρ Signal) :
    (Rules.expressionStep expression body (.assign range target source)).Warns Outcome.Fails
      (Rules.expressionStep expression' body' (.assign range target source)) := by
  refine bind (he source) fun v => pass_on ?_ v
  cases target with
  | member range base name part => exact store he (executes.pure (d := .anything) trivial) v
  | subscript range base key part => exact store he (executes.computedKey rfl (he key)) v
  | _ => cases property

end

section

variable {n : Nat} {e : Expr ρ} {x : Logged (Visit ρ) ρ Value} {y : Watched ρ Value}

theorem noted (h : Always x y) : Always (x.noted n e) y :=
  ⟨h.faithful, fun m _ none => h.spares m trivial (List.forall_mem_append.mp none).1⟩

/-- What is noted behind a computation warns of all that it does if it ends with a value. -/
theorem noted_of_fails (h : x.Warns Outcome.Fails y)
    (puts : ∀ m v last, x.exec m = .ok v last → (⟨n, e, m⟩ : Visit ρ).Puts) :
    Always (x.noted n e) y := by
  refine ⟨h.faithful, fun m _ none => ?_⟩
  obtain ⟨inside, itself⟩ := List.forall_mem_append.mp none
  refine h.spares m (fun v last run => ?_) inside
  exact itself ⟨n, e, m⟩ (List.mem_singleton_self _) (puts m v last run)

end

/-- Assignments to properties are the only expressions that put values into objects. -/
theorem attends : Attends fun α (_ : Demand α) (x : Logged (Visit ρ) ρ α) y => Always x y where
  toExecutes := executes
  declaration := declare
  unfinished := of_spares (fun _ hm => Faithful.of_stay hm rfl rfl) fun _ => trivial
  repeatWithin turns hx := repeatWithin hx turns
  noted {n} he hb e := by
    cases e with
    | assign range target source =>
        cases property : target.isProperty with
        | true =>
            rw [Expr.map_id_apply]
            have parts (e : Expr ρ) : Always (Visiting.expression n e) (Rules.expression n e) := by
              have part := he e e.obeys_free
              rwa [Expr.map_id_apply] at part
            let task : Task ρ Value := .expression (.assign range target source)
            refine noted_of_fails (assign_property parts property range source _ _) ?_
            intro m v last run
            exact .intro rfl property ((task.exec_visiting (n + 1) m).symm.trans run)
        | false =>
            refine noted (executes.assign_map he range (Expr.obeys_free _) (Expr.obeys_free _)
              (fun isProperty => ?_) fun _ range => ?_)
            · rw [property] at isProperty
              cases isProperty
            · exact of_spares (fun _ hm => Faithful.of_stay hm rfl rfl) fun _ => trivial
    | call range callee arguments opening closing part =>
        refine noted (executes.call_map he range opening closing part (Expr.obeys_free _)
          (Expr.obeyAll_iff.mpr fun e _ => e.obeys_free) (fun c hc hscope values hvalues => ?_)
          fun b values hvalues => speaks.builtin range b hvalues)
        exact executes.runBody_map hb range hc hscope hvalues arguments
    | _ => exact noted (executes.expressionStep_map he (Expr.obeys_free _).inside nofun nofun)

end Logged.Warns

/-- A task spares the objects unless it computes an assignment to a property, and that one ends
with a value. -/
theorem Task.spares_of_visits {bound : Nat} {t : Task ρ α} {m : Machine ρ}
    (h : ∀ visit ∈ t.visits bound m, ¬ visit.Puts) : (t.watch bound m).path.Spares :=
  (Logged.Warns.attends.task bound t).spares m trivial h

end Guion
