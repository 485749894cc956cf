import Guion.Proofs.Run.Congruence
import Guion.Proofs.Run.Printing

/-!
# Runs at moved positions

A run looks at positions only to say where a fault is. So moving all positions, those in
the bodies of functions included, moves the fault and the functions that a run ends with
and changes nothing else.
-/

namespace Guion

variable {ρ σ α : Type}

/-- A machine with the positions in its functions moved. -/
def Machine.map (f : ρ → σ) (m : Machine ρ) : Machine σ :=
  ⟨m.frames, m.objects, m.closures.map (Closure.map f), m.output, m.scope, m.depth⟩

theorem Machine.map_map {τ : Type} (f : ρ → σ) (g : σ → τ) (m : Machine ρ) :
    (m.map f).map g = m.map (g ∘ f) := by
  have each : Closure.map g ∘ Closure.map f = Closure.map (g ∘ f) := by
    funext c
    simp only [Closure.map, Function.comp, Block.map_map]
  simp only [Machine.map, Array.map_map, each]

@[simp] theorem Machine.map_id (m : Machine ρ) : m.map id = m := by
  have each : (Closure.map id : Closure ρ → Closure ρ) = id := funext Closure.map_id
  simp only [Machine.map, each, Array.map_id]

/-- How a computation ends, with positions moved. -/
def Outcome.map (f : ρ → σ) : Outcome ρ α → Outcome σ α
  | ok a m => .ok a (m.map f)
  | error fault m => .error (fault.map f) (m.map f)
  | unfinished => .unfinished

theorem Outcome.alter_map {f : ρ → σ} {g : Machine ρ → Machine ρ} {g' : Machine σ → Machine σ}
    (out : Outcome ρ α) (same : ∀ m, g' (m.map f) = (g m).map f) :
    (out.map f).alter g' = (out.alter g).map f := by
  cases out with
  | ok a m => exact congrArg (Outcome.ok a) (same m)
  | error fault m => exact congrArg (Outcome.error (fault.map f)) (same m)
  | unfinished => rfl

/-- The text of a value shows no more of a function than its signature. -/
theorem Value.render_congr (objects : Array Fields) {closures : Array (Closure ρ)}
    {closures' : Array (Closure σ)}
    (found : ∀ id : Nat, closures'[id]?.map Closure.display = closures[id]?.map Closure.display)
    (n : Nat) (v : Value) : v.render objects closures' n = v.render objects closures n := by
  induction n generalizing v with
  | zero =>
      cases v with
      | boolean b => cases b <;> rfl
      | function id => simp only [render, found]
      | _ => rfl
  | succ n ih =>
      cases v with
      | boolean b => cases b <;> rfl
      | function id => simp only [render, found]
      | object id =>
          rw [render, render]
          exact Fields.render_congr fun entry _ => ih entry.2
      | _ => rfl

/-- The text of a function does not show where it stands. -/
theorem Machine.render_map (f : ρ → σ) (m : Machine ρ) (n : Nat) (v : Value) :
    v.render (m.map f).objects (m.map f).closures n = v.render m.objects m.closures n := by
  refine Value.render_congr m.objects (fun id => ?_) n v
  rw [Machine.map, Array.getElem?_map, Option.map_map]
  rfl

/-- Moving the positions of a machine and then computing is computing and then moving. -/
def Exec.Moves (f : ρ → σ) (α : Type) (x : Exec ρ α) (y : Exec σ α) : Prop :=
  ∀ m, y (m.map f) = (x m).map f

namespace Exec.Moves

variable {f : ρ → σ} {β : Type} {x : Exec ρ α} {y : Exec σ α}

theorem bind {k : α → Exec ρ β} {l : α → Exec σ β} (hx : Moves f α x y)
    (hk : ∀ a, Moves f β (k a) (l a)) : Moves f β (x >>= k) (y >>= l) := by
  intro m
  change Exec.bind y l (m.map f) = (Exec.bind x k m).map f
  unfold Exec.bind
  rw [hx m]
  cases x m with
  | ok a last => exact hk a last
  | error fault last => rfl
  | unfinished => rfl

theorem within (scope : Scope) (hx : Moves f α x y) :
    Moves f α (Exec.within scope x) (Exec.within scope y) := by
  intro m
  have run : y { m.map f with scope := scope } = _ := hx { m with scope := scope }
  rw [Exec.within_eq_alter, Exec.within_eq_alter, run]
  exact Outcome.alter_map _ fun _ => rfl

theorem counted (hx : Moves f α x y) : Moves f α (Exec.counted x) (Exec.counted y) := by
  intro m
  have run : y { m.map f with depth := m.depth + 1 } = _ := hx { m with depth := m.depth + 1 }
  rw [Exec.counted_eq_alter, Exec.counted_eq_alter]
  exact (congrArg _ run).trans (Outcome.alter_map _ fun _ => rfl)

theorem inBlock (kind : ScopeKind) (hx : Moves f α x y) :
    Moves f α (Exec.inBlock kind x) (Exec.inBlock kind y) :=
  fun m => within _ hx { m with frames := m.frames.push ⟨kind, []⟩ }

theorem inCall {p : Nat → Exec ρ Unit} {q : Nat → Exec σ Unit} (range : ρ) (around : Scope)
    (hp : ∀ frame, Moves f Unit (p frame) (q frame)) (hx : Moves f α x y) :
    Moves f α (Exec.inCall range around p x) (Exec.inCall (f range) around q y) := by
  intro m
  unfold Exec.inCall
  by_cases limit : callLimit ≤ m.depth
  · rw [if_pos limit]
    exact if_pos limit
  · rw [if_neg limit]
    refine (if_neg limit).trans ?_
    exact bind (hp m.frames.size) (fun _ => counted (within _ hx))
      { m with frames := m.frames.push ⟨.function, []⟩ }

theorem repeatWithin {x : Exec ρ (Option α)} {y : Exec σ (Option α)} (turns : Nat)
    (hx : Moves f (Option α) x y) :
    Moves f α (Exec.repeatWithin x turns) (Exec.repeatWithin y turns) := by
  induction turns with
  | zero => exact fun _ => rfl
  | succ turns ih =>
      intro m
      unfold Exec.repeatWithin
      rw [hx m]
      cases x m with
      | ok found last =>
          cases found with
          | some a => rfl
          | none => exact ih last
      | error fault last => rfl
      | unfinished => rfl

theorem congruence (f : ρ → σ) : Congruence f .free (Moves f) where
  pure _ := fun _ => rfl
  bind hx hk := hx.bind hk
  fail _ _ := fun _ => rfl
  unfinished := fun _ => rfl
  scope := fun _ => rfl
  insideFunction := fun _ => rfl
  insideLoop := fun _ => rfl
  lookup name := by
    intro m
    simp only [Effects.lookup, Machine.map, Located.map_value]
    cases m.frames.lookup m.scope name.value <;> rfl
  declare range frame name value type isConstant := by
    intro m
    simp only [Effects.declare, Exec.declare, Machine.map]
    cases m.frames.declared frame name value type isConstant <;> rfl
  assign range name value := by
    intro m
    simp only [Effects.assign, Exec.assign, Machine.map]
    cases m.frames.assigned m.scope name value <;> rfl
  newObject _ := fun _ => rfl
  newFunction c _ := by
    intro m
    simp [Effects.newFunction, Machine.map, Outcome.map]
  closure? {_ k l} id hnone hsome := by
    intro m
    change l (m.closures.map (Closure.map f))[id]? (m.map f) = (k m.closures[id]? m).map f
    rw [Array.getElem?_map]
    cases m.closures[id]? with
    | none => exact hnone m
    | some c => exact hsome c c.body.obeys_free m
  field? _ _ := fun _ => rfl
  putField _ _ _ := fun _ => rfl
  display v := by
    intro m
    have same : (m.map f).display? v = m.display? v :=
      congrArg Rendered.whole? (m.render_map f _ v)
    simp only [Effects.display, same]
    cases m.display? v <;> rfl
  write range text := by
    intro m
    simp only [Effects.write, Exec.write_eq]
    change (if (m.output.write text).2 then _ else _) = _
    split <;> rfl
  print range v := by
    intro m
    have same : (m.map f).printed v = m.printed v := m.render_map f _ v
    simp only [Effects.print, Exec.print_eq, same]
    change (if (m.output.write (m.printed v).text).2 then _ else _) = _
    split
    · split <;> rfl
    · rfl
  inBlock kind hx := hx.inBlock kind
  inCall range around hp hx := inCall range around hp hx
  repeatWithin turns hx := hx.repeatWithin turns

end Exec.Moves

/-- A task at moved positions, on a machine at moved positions, ends as the task does, at
moved positions. -/
theorem Task.run_map (f : ρ → σ) (bound : Nat) (t : Task ρ α) (m : Machine ρ) :
    (t.map f).run bound (m.map f) = (t.run bound m).map f :=
  (Exec.Moves.congruence f).simulation.task bound t.obeys_free m

end Guion
