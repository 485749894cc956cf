import Guion.Proofs.Run.Bounds
import Guion.Proofs.Run.Congruence
import Guion.Proofs.Run.Printing

/-!
# Room for calls

How many calls are under way is asked in one place only, before one more call, and all
that can come of it is the fault that says there are too many. So a run that does not end
with this fault cannot tell how much room it had: with fewer calls under way it does the
same.

The two runs keep their depths side by side. Each comes back to the depth it began at, so
what one has more room than the other is the same at every call.
-/

namespace Guion

variable {ρ α β : Type}

/-- The same machine with another number of calls under way. -/
def Machine.atDepth (depth : Nat) (m : Machine ρ) : Machine ρ := { m with depth := depth }

/-- How a computation ends, with another number of calls under way. -/
def Outcome.atDepth (depth : Nat) : Outcome ρ α → Outcome ρ α
  | ok a m => .ok a (m.atDepth depth)
  | error fault m => .error fault (m.atDepth depth)
  | unfinished => .unfinished

/-- How two computations end that began at depths `deep` and `high`: alike, and at these
depths, unless the first ran out of room. -/
inductive Outcome.Roomier (deep high : Nat) : Outcome ρ α → Outcome ρ α → Prop
  | ok (a : α) {m : Machine ρ} : m.depth = deep →
      Outcome.Roomier deep high (.ok a m) (.ok a (m.atDepth high))
  | error (fault : Located ρ Fault) {m : Machine ρ} : m.depth = deep →
      Outcome.Roomier deep high (.error fault m) (.error fault (m.atDepth high))
  | unfinished : Outcome.Roomier deep high .unfinished .unfinished
  | exceeded (range : ρ) (limit : Nat) (m : Machine ρ) (out : Outcome ρ α) :
      Outcome.Roomier deep high (.error ⟨range, .callDepthExceeded limit⟩ m) out

/-- What ends without the fault about the depth ends in the same way with more room. -/
theorem Outcome.Roomier.eq_atDepth {deep high : Nat} {out out' : Outcome ρ α}
    (h : out.Roomier deep high out')
    (within : ∀ range limit m, out ≠ .error ⟨range, .callDepthExceeded limit⟩ m) :
    out' = out.atDepth high := by
  cases h with
  | exceeded range limit m => exact absurd rfl (within range limit m)
  | _ => rfl

/-- Changes to the machines that take them to other depths, and agree but for these. -/
theorem Outcome.Roomier.alter {deep high deep' high' : Nat} {out out' : Outcome ρ α}
    (h : out.Roomier deep high out') {g g' : Machine ρ → Machine ρ}
    (depth : ∀ m, m.depth = deep → (g m).depth = deep')
    (same : ∀ m, m.depth = deep → g' (m.atDepth high) = (g m).atDepth high') :
    (out.alter g).Roomier deep' high' (out'.alter g') := by
  cases h with
  | @ok a m here =>
      change Outcome.Roomier deep' high' (.ok a (g m)) (.ok a (g' (m.atDepth high)))
      rw [same m here]
      exact .ok a (depth m here)
  | @error fault m here =>
      change Outcome.Roomier deep' high' (.error fault (g m)) (.error fault (g' (m.atDepth high)))
      rw [same m here]
      exact .error fault (depth m here)
  | unfinished => exact .unfinished
  | exceeded range limit m => exact .exceeded range limit (g m) _

/-- The second computation, begun with fewer calls under way, ends like the first. -/
def Exec.Roomier (α : Type) (x y : Exec ρ α) : Prop :=
  ∀ (m : Machine ρ) (high : Nat), high ≤ m.depth →
    (x m).Roomier m.depth high (y (m.atDepth high))

namespace Exec.Roomier

variable {x y : Exec ρ α}

theorem bind {k l : α → Exec ρ β} (hx : Roomier α x y) (hk : ∀ a, Roomier β (k a) (l a)) :
    Roomier β (x >>= k) (y >>= l) := by
  intro m high le
  change (Exec.bind x k m).Roomier m.depth high (Exec.bind y l (m.atDepth high))
  unfold Exec.bind
  have first := hx m high le
  generalize x m = out at first
  generalize y (m.atDepth high) = out' at first
  cases first with
  | @ok a last same =>
      have second := hk a last high (same ▸ le)
      rwa [same] at second
  | error fault same => exact .error fault same
  | unfinished => exact .unfinished
  | exceeded range limit last => exact .exceeded range limit last _

theorem within (scope : Scope) (hx : Roomier α x y) :
    Roomier α (Exec.within scope x) (Exec.within scope y) := by
  intro m high le
  rw [Exec.within_eq_alter, Exec.within_eq_alter]
  exact (hx { m with scope := scope } high le).alter (fun _ same => same) fun _ _ => rfl

/-- Both runs come back to the depths they were called at. -/
theorem counted (hx : Roomier α x y) : Roomier α (Exec.counted x) (Exec.counted y) := by
  intro m high le
  rw [Exec.counted_eq_alter, Exec.counted_eq_alter]
  refine (hx { m with depth := m.depth + 1 } (high + 1) (Nat.succ_le_succ le)).alter ?_ ?_
  · intro last same
    exact Nat.sub_eq_of_eq_add same
  · exact fun _ _ => rfl

theorem inBlock (kind : ScopeKind) (hx : Roomier α x y) :
    Roomier α (Exec.inBlock kind x) (Exec.inBlock kind y) :=
  fun m high le => within _ hx { m with frames := m.frames.push ⟨kind, []⟩ } high le

/-- Where there is room for a call, there is room for it with fewer calls under way. -/
theorem inCall {p q : Nat → Exec ρ Unit} (range : ρ) (around : Scope)
    (hp : ∀ frame, Roomier Unit (p frame) (q frame)) (hx : Roomier α x y) :
    Roomier α (Exec.inCall range around p x) (Exec.inCall range around q y) := by
  intro m high le
  unfold Exec.inCall
  by_cases full : callLimit ≤ m.depth
  · rw [if_pos full]
    exact .exceeded range callLimit m _
  · rw [if_neg full]
    have room : ¬ callLimit ≤ (m.atDepth high).depth := fun full' => full (Nat.le_trans full' le)
    rw [if_neg room]
    exact bind (hp m.frames.size) (fun _ => counted (within _ hx))
      { m with frames := m.frames.push ⟨.function, []⟩ } high le

theorem repeatWithin {x y : Exec ρ (Option α)} (turns : Nat) (hx : Roomier (Option α) x y) :
    Roomier α (Exec.repeatWithin x turns) (Exec.repeatWithin y turns) := by
  induction turns with
  | zero => exact fun _ _ _ => .unfinished
  | succ turns ih =>
      intro m high le
      have run := hx m high le
      unfold Exec.repeatWithin
      generalize x m = out at run
      generalize y (m.atDepth high) = out' at run
      cases run with
      | @ok found last same =>
          cases found with
          | some a => exact .ok a same
          | none =>
              have more := ih last high (same ▸ le)
              rwa [same] at more
      | error fault same => exact .error fault same
      | unfinished => exact .unfinished
      | exceeded range limit last => exact .exceeded range limit _ _

/-- No effect but a call looks at the depth. -/
theorem congruence : Congruence id (.free : Discipline ρ) Roomier where
  pure a := fun _ _ _ => .ok a rfl
  bind hx hk := hx.bind hk
  fail _ _ := fun _ _ _ => .error _ rfl
  unfinished := fun _ _ _ => .unfinished
  scope := fun _ _ _ => .ok _ rfl
  insideFunction := fun _ _ _ => .ok _ rfl
  insideLoop := fun _ _ _ => .ok _ rfl
  lookup name := by
    intro m high _
    simp only [Effects.lookup, Machine.atDepth, Located.map_value]
    cases m.frames.lookup m.scope name.value with
    | ok v => exact .ok v rfl
    | error fault => exact .error _ rfl
  declare range frame name value type isConstant := by
    intro m high _
    simp only [Effects.declare, Exec.declare, Machine.atDepth]
    cases m.frames.declared frame name value type isConstant with
    | ok binding => exact .ok () (m := { m with frames := m.frames.put frame name binding }) rfl
    | error fault => exact .error _ rfl
  assign range name value := by
    intro m high _
    simp only [Effects.assign, Exec.assign, Machine.atDepth]
    cases m.frames.assigned m.scope name value with
    | ok found => exact .ok () (m := { m with frames := m.frames.put found.1 name found.2 }) rfl
    | error fault => exact .error _ rfl
  newObject fields := fun m _ _ => .ok _ (m := { m with objects := m.objects.push fields }) rfl
  newFunction c _ := by
    intro m high _
    rw [Closure.map_id]
    exact .ok _ (m := { m with closures := m.closures.push c }) rfl
  closure? {_ k l} id hnone hsome := by
    intro m high le
    change (k m.closures[id]? m).Roomier m.depth high (l m.closures[id]? (m.atDepth high))
    cases m.closures[id]? with
    | none => exact hnone m high le
    | some c =>
        have run := hsome c c.body.obeys_free m high le
        rwa [Closure.map_id] at run
  field? _ _ := fun _ _ _ => .ok _ rfl
  putField object key value := fun m _ _ =>
    .ok () (m := { m with objects := m.objects.modify object (·.insert key value) }) rfl
  display v := by
    intro m high _
    have same : (m.atDepth high).display? v = m.display? v := rfl
    simp only [Effects.display, same]
    cases m.display? v with
    | some text => exact .ok text rfl
    | none => exact .unfinished
  write range text := by
    intro m high _
    simp only [Effects.write, Exec.write_eq, Machine.atDepth]
    split
    · exact .ok () (m := { m with output := (m.output.write text).1 }) rfl
    · exact .error _ (m := { m with output := (m.output.write text).1 }) rfl
  print range v := by
    intro m high _
    have same : (m.atDepth high).printed v = m.printed v := rfl
    have output : (m.atDepth high).output = m.output := rfl
    simp only [Effects.print, Exec.print_eq, same, output]
    generalize m.printed v = printed
    split
    · split
      · exact .ok () (m := { m with output := (m.output.write printed.text).1 }) rfl
      · exact .unfinished
    · exact .error _ (m := { m with output := (m.output.write printed.text).1 }) rfl
  inBlock kind hx := hx.inBlock kind
  inCall range around hp hx := inCall range around hp hx
  repeatWithin turns hx := hx.repeatWithin turns

end Exec.Roomier

/-- A task does with fewer calls under way what it does with more, unless it runs out of
room. -/
theorem Task.run_roomier (t : Task ρ α) (bound : Nat) {m : Machine ρ} {high : Nat}
    (le : high ≤ m.depth) :
    (t.run bound m).Roomier m.depth high (t.run bound (m.atDepth high)) := by
  have run := Exec.Roomier.congruence.simulation.task bound t.obeys_free
  rw [map_id] at run
  exact run m high le

/-- Of the number of calls under way a run shows no more than that there are too many of
them. If a task ends in some other way, it ends in the same way on the same machine with
fewer calls under way: with the same value, signal or fault, the same output, the same
frames, objects and functions. -/
theorem depth_shows_as_exceeded_only {t : Task ρ α} {m : Machine ρ} {high deep : Nat}
    {out : Outcome ρ α} (le : high ≤ deep) (ends : t.Ends (m.atDepth deep) out)
    (within : ∀ range limit last, out ≠ .error ⟨range, .callDepthExceeded limit⟩ last) :
    t.Ends (m.atDepth high) (out.atDepth high) := by
  obtain ⟨ended, bound, rfl⟩ := Task.ends_iff.mp ends
  have roomier := t.run_roomier bound (m := m.atDepth deep) le
  have same : t.run bound (m.atDepth high) = (t.run bound (m.atDepth deep)).atDepth high :=
    roomier.eq_atDepth within
  refine Task.ends_iff.mpr ⟨?_, bound, same⟩
  cases run : t.run bound (m.atDepth deep) with
  | unfinished => exact absurd run ended
  | _ => nofun

/-- A program that calls a function which gives back a text. -/
def calledLiteral : Program Unit :=
  ⟨(), [.expression () (.call ()
    (.function () ⟨[], none, ⟨.function, (), [.giveBack () () (some (.text () "a"))]⟩, ()⟩)
    [] () () ())]⟩

/-- The last call that there is room for, the same call where none is under way, and the
first that there is no room for. -/
theorem depth_shows_as_exceeded_only_calledLiteral :
    ∃ m m' : Machine Unit,
      (Task.program calledLiteral).Ends ((Machine.initial none).atDepth 1999) (.ok (.text "a") m) ∧
      (Task.program calledLiteral).Ends ((Machine.initial none).atDepth 0)
        (.ok (.text "a") (m.atDepth 0)) ∧
      (Task.program calledLiteral).Ends ((Machine.initial none).atDepth 2000)
        (.error ⟨(), .callDepthExceeded 2000⟩ m') := by
  have last : (Task.program calledLiteral).Ends ((Machine.initial none).atDepth 1999)
      (.ok (.text "a") _) := Task.ends_iff.mpr ⟨nofun, 4, rfl⟩
  have full : (Task.program calledLiteral).Ends ((Machine.initial none).atDepth 2000)
      (.error ⟨(), .callDepthExceeded 2000⟩ _) := Task.ends_iff.mpr ⟨nofun, 4, rfl⟩
  exact ⟨_, _, last, depth_shows_as_exceeded_only (Nat.zero_le 1999) last nofun, full⟩

end Guion
