import Guion.Proofs.Run.Bounds
import Guion.Proofs.Run.Reachability
import Guion.Proofs.Run.Watched

/-!
# Encapsulation

Two runs of the same tree, on machines that differ only in what cannot be reached, do
the same step by step. The realm is fixed when the runs begin: what can be reached then
and what is made later. Nothing in it ever comes to refer to anything outside, so neither
run can read or write there, and whatever one of them makes or changes inside, the other
makes and changes alike.
-/

namespace Guion

variable {ρ α β : Type} {R : Realm} {m m' n n' : Machine ρ}

/-! ### Pairs of runs -/

/-- How two runs stand that began on two machines: they are still the same inside the
realm, and have touched nothing outside. -/
structure Paired (R : Realm) (m m' n n' : Machine ρ) : Prop where
  enclosed : n.Enclosed R
  agree : n.Agree R n'
  left : m.Untouched R n
  right : m'.Untouched R n'

/-- How two runs end that began on two machines: alike. -/
inductive Outcome.Paired (R : Realm) (d : Demand α) (m m' : Machine ρ) :
    Outcome ρ α → Outcome ρ α → Prop
  | ok {a : α} {n n' : Machine ρ} : d.Holds R a → Guion.Paired R m m' n n' →
      Outcome.Paired R d m m' (.ok a n) (.ok a n')
  | error {fault : Located ρ Fault} {n n' : Machine ρ} : Guion.Paired R m m' n n' →
      Outcome.Paired R d m m' (.error fault n) (.error fault n')
  | unfinished : Outcome.Paired R d m m' .unfinished .unfinished

theorem Outcome.Paired.alter {d : Demand α} {m m' : Machine ρ} {out out' : Outcome ρ α}
    (h : out.Paired R d m m' out') {g g' : Machine ρ → Machine ρ}
    (back : ∀ {n n'}, Guion.Paired R m m' n n' → Guion.Paired R m m' (g n) (g' n')) :
    (out.alter g).Paired R d m m' (out'.alter g') := by
  cases h with
  | ok holds paired => exact .ok holds (back paired)
  | error paired => exact .error (back paired)
  | unfinished => exact .unfinished

/-- Two computations end alike on machines that differ only outside a realm which nothing
leads out of. -/
def Exec.Confined (R : Realm) (α : Type) (d : Demand α) (x y : Exec ρ α) : Prop :=
  ∀ m m' : Machine ρ, m.Enclosed R → m.Agree R m' → (x m).Paired R d m m' (y m')

namespace Paired

theorem refl (enclosed : m.Enclosed R) (agree : m.Agree R m') : Paired R m m' m m' :=
  ⟨enclosed, agree, .of_eq rfl rfl, .of_eq rfl rfl⟩

theorem trans {l l' : Machine ρ} (h : Paired R l l' m m') (h' : Paired R m m' n n') :
    Paired R l l' n n' :=
  ⟨h'.enclosed, h'.agree, h.left.trans h'.left, h.right.trans h'.right⟩

/-- Results of a pair of runs are results from where the pair began. -/
theorem outcome {l l' : Machine ρ} (h : Paired R l l' m m') {d : Demand α}
    {out out' : Outcome ρ α} (h' : out.Paired R d m m' out') : out.Paired R d l l' out' := by
  cases h' with
  | ok holds paired => exact .ok holds (h.trans paired)
  | error paired => exact .error (h.trans paired)
  | unfinished => exact .unfinished

/-! ### One change on both sides -/

section

variable (enclosed : m.Enclosed R) (agree : m.Agree R m')

include enclosed agree

/-- Both runs go on in another scope of the realm. -/
theorem enter {scope : Scope} (inside : R.HasScope scope) :
    Paired R m m' { m with scope := scope } { m' with scope := scope } :=
  ⟨{ enclosed with scope := inside }, { agree with scope := rfl }, .of_eq rfl rfl, .of_eq rfl rfl⟩

/-- Both runs count calls in the same way. -/
theorem count (f : Nat → Nat) :
    Paired R m m' { m with depth := f m.depth } { m' with depth := f m'.depth } :=
  ⟨{ enclosed with }, { agree with depth := congrArg f agree.depth }, .of_eq rfl rfl,
    .of_eq rfl rfl⟩

/-- Both runs print the same. -/
theorem print (text : String) :
    Paired R m m' { m with output := (m.output.write text).1 }
      { m' with output := (m'.output.write text).1 } :=
  ⟨{ enclosed with }, { agree with output := by rw [agree.output] }, .of_eq rfl rfl,
    .of_eq rfl rfl⟩

/-- Both runs make a function. -/
theorem pushFunction {c : Closure ρ} (inside : R.HasScope c.scope) :
    Paired R m m' { m with closures := m.closures.push c }
      { m' with closures := m'.closures.push c } where
  enclosed := { enclosed with
    captured := by
      intro id other hid found
      rw [Array.getElem?_push] at found
      split at found
      · cases found
        exact inside
      · exact enclosed.captured hid found
    newFunctions := by
      intro i le
      rw [Array.size_push] at le
      exact enclosed.newFunctions (by omega) }
  agree := { agree with closures := by rw [agree.closures] }
  left := .of_eq rfl rfl
  right := .of_eq rfl rfl

/-- Both runs make a frame. -/
theorem pushFrame (kind : ScopeKind) :
    Paired R m m' { m with frames := m.frames.push ⟨kind, []⟩ }
      { m' with frames := m'.frames.push ⟨kind, []⟩ } := by
  have outside : ∀ {i}, ¬ R.frame i → i ≠ m.frames.size := by
    rintro i hi rfl
    exact hi (enclosed.newFrames (Nat.le_refl _))
  constructor
  · exact { enclosed with
      bindings := by
        intro frame name binding v inside found
        rw [Frames.find?_push] at found
        exact enclosed.bindings inside found
      newFrames := by
        intro i le
        rw [Array.size_push] at le
        exact enclosed.newFrames (by omega) }
  · exact { agree with
      frames := by rw [Array.size_push, Array.size_push, agree.frames]
      frame := by
        intro i inside
        rw [Array.getElem?_push, Array.getElem?_push, agree.frames, agree.frame inside] }
  · refine ⟨fun hi => ?_, fun _ => rfl⟩
    rw [Array.getElem?_push, if_neg (outside hi)]
  · refine ⟨fun hi => ?_, fun _ => rfl⟩
    rw [Array.getElem?_push, agree.frames, if_neg (outside hi)]

/-- Both runs make an object. -/
theorem pushObject {fields : Fields} (inside : R.HasFields fields) :
    Paired R m m' { m with objects := m.objects.push fields }
      { m' with objects := m'.objects.push fields } := by
  have outside : ∀ {i}, ¬ R.object i → i ≠ m.objects.size := by
    rintro i hi rfl
    exact hi (enclosed.newObjects (Nat.le_refl _))
  constructor
  · exact { enclosed with
      fields := by
        intro object other hobject found
        rw [Array.getElem?_push] at found
        split at found
        · cases found
          exact inside
        · exact enclosed.fields hobject found
      newObjects := by
        intro i le
        rw [Array.size_push] at le
        exact enclosed.newObjects (by omega) }
  · exact { agree with
      objects := by rw [Array.size_push, Array.size_push, agree.objects]
      object := by
        intro i hi
        rw [Array.getElem?_push, Array.getElem?_push, agree.objects, agree.object hi] }
  · refine ⟨fun _ => rfl, fun hi => ?_⟩
    rw [Array.getElem?_push, if_neg (outside hi)]
  · refine ⟨fun _ => rfl, fun hi => ?_⟩
    rw [Array.getElem?_push, agree.objects, if_neg (outside hi)]

/-- Both runs write a binding into a frame of the realm. -/
theorem put {frame : Nat} (hframe : R.frame frame) (name : String) {binding : Binding}
    (inside : ∀ v, binding.value? = some v → R.HasValue v) :
    Paired R m m' { m with frames := m.frames.put frame name binding }
      { m' with frames := m'.frames.put frame name binding } := by
  have outside : ∀ {i}, ¬ R.frame i → frame ≠ i := by
    rintro i hi rfl
    exact hi hframe
  constructor
  · exact { enclosed with
      bindings := by
        intro j n other v hj found hv
        rw [Frames.find?_put] at found
        split at found
        · cases found
          exact inside v hv
        · exact enclosed.bindings hj found hv
      newFrames := by
        intro i le
        rw [Frames.put, Array.size_modify] at le
        exact enclosed.newFrames le }
  · exact { agree with
      frames := by rw [Frames.put, Frames.put, Array.size_modify, Array.size_modify, agree.frames]
      frame := by
        intro i hi
        rw [Frames.put, Frames.put, Array.getElem?_modify, Array.getElem?_modify,
          agree.frame hi] }
  · refine ⟨fun hi => ?_, fun _ => rfl⟩
    rw [Frames.put, Array.getElem?_modify, if_neg (outside hi)]
  · refine ⟨fun hi => ?_, fun _ => rfl⟩
    rw [Frames.put, Array.getElem?_modify, if_neg (outside hi)]

/-- Both runs write a field of an object of the realm. -/
theorem putField {object : Nat} (hobject : R.object object) (key : String) {value : Value}
    (inside : R.HasValue value) :
    Paired R m m' { m with objects := m.objects.modify object (·.insert key value) }
      { m' with objects := m'.objects.modify object (·.insert key value) } := by
  have outside : ∀ {i}, ¬ R.object i → object ≠ i := by
    rintro i hi rfl
    exact hi hobject
  constructor
  · exact { enclosed with
      fields := by
        intro i other hi found
        rw [Array.getElem?_modify] at found
        split at found
        · obtain ⟨fields, before, rfl⟩ := Option.map_eq_some_iff.mp found
          exact (enclosed.fields hi before).insert key inside
        · exact enclosed.fields hi found
      newObjects := by
        intro i le
        rw [Array.size_modify] at le
        exact enclosed.newObjects le }
  · exact { agree with
      objects := by rw [Array.size_modify, Array.size_modify, agree.objects]
      object := by
        intro i hi
        rw [Array.getElem?_modify, Array.getElem?_modify, agree.object hi] }
  · refine ⟨fun _ => rfl, fun hi => ?_⟩
    rw [Array.getElem?_modify, if_neg (outside hi)]
  · refine ⟨fun _ => rfl, fun hi => ?_⟩
    rw [Array.getElem?_modify, if_neg (outside hi)]

end

end Paired

/-! ### Computations -/

namespace Exec.Confined

variable {d : Demand α} {x y : Exec ρ α}

theorem bind {d' : Demand β} {k l : α → Exec ρ β} (hx : Confined R α d x y)
    (hk : ∀ a, d.Holds R a → Confined R β d' (k a) (l a)) :
    Confined R β d' (x >>= k) (y >>= l) := by
  intro m m' enclosed agree
  change (Exec.bind x k m).Paired R d' m m' (Exec.bind y l m')
  unfold Exec.bind
  have first := hx m m' enclosed agree
  generalize x m = out at first
  generalize y m' = out' at first
  cases first with
  | ok holds paired => exact paired.outcome (hk _ holds _ _ paired.enclosed paired.agree)
  | error paired => exact .error paired
  | unfinished => exact .unfinished

theorem within {scope : Scope} (inside : R.HasScope scope) (hx : Confined R α d x y) :
    Confined R α d (Exec.within scope x) (Exec.within scope y) := by
  intro m m' enclosed agree
  have entered := Paired.enter enclosed agree inside
  have run := entered.outcome (hx _ _ entered.enclosed entered.agree)
  rw [Exec.within_eq_alter, Exec.within_eq_alter, agree.scope]
  refine run.alter fun paired => ?_
  exact paired.trans (.enter paired.enclosed paired.agree enclosed.scope)

theorem counted (hx : Confined R α d x y) : Confined R α d (Exec.counted x) (Exec.counted y) := by
  intro m m' enclosed agree
  have entered := Paired.count enclosed agree (· + 1)
  have run := entered.outcome (hx _ _ entered.enclosed entered.agree)
  rw [Exec.counted_eq_alter, Exec.counted_eq_alter]
  exact run.alter fun paired => paired.trans (.count paired.enclosed paired.agree (· - 1))

theorem inBlock (kind : ScopeKind) (hx : Confined R α d x y) :
    Confined R α d (Exec.inBlock kind x) (Exec.inBlock kind y) := by
  intro m m' enclosed agree
  have made := Paired.pushFrame enclosed agree kind
  have inside : R.HasScope (m.scope.inner m.frames.size) :=
    List.forall_mem_cons.mpr ⟨enclosed.newFrames (Nat.le_refl _), enclosed.scope⟩
  have same : m'.scope.inner m'.frames.size = m.scope.inner m.frames.size := by
    rw [agree.scope, agree.frames]
  unfold Exec.inBlock
  rw [same]
  exact made.outcome (within inside hx _ _ made.enclosed made.agree)

theorem inCall {p q : Nat → Exec ρ Unit} (range : ρ) {around : Scope}
    (haround : R.HasScope around)
    (hp : ∀ frame, R.frame frame → Confined R Unit .anything (p frame) (q frame))
    (hx : Confined R α d x y) :
    Confined R α d (Exec.inCall range around p x) (Exec.inCall range around q y) := by
  intro m m' enclosed agree
  unfold Exec.inCall
  by_cases limit : callLimit ≤ m.depth
  · rw [if_pos limit, if_pos (agree.depth ▸ limit)]
    exact .error (.refl enclosed agree)
  · rw [if_neg limit, if_neg (agree.depth ▸ limit)]
    have made := Paired.pushFrame enclosed agree .function
    have new : R.frame m.frames.size := enclosed.newFrames (Nat.le_refl _)
    have inside : R.HasScope (around.inner m.frames.size) :=
      List.forall_mem_cons.mpr ⟨new, haround⟩
    simp only [agree.frames]
    exact made.outcome
      (bind (hp _ new) (fun _ _ => (hx.within inside).counted) _ _ made.enclosed made.agree)

theorem repeatWithin {x y : Exec ρ (Option α)} (turns : Nat)
    (hx : Confined R (Option α) (.option d) x y) :
    Confined R α d (Exec.repeatWithin x turns) (Exec.repeatWithin y turns) := by
  induction turns with
  | zero => exact fun _ _ _ _ => .unfinished
  | succ turns ih =>
      intro m m' enclosed agree
      have run := hx m m' enclosed agree
      unfold Exec.repeatWithin
      generalize x m = out at run
      generalize y m' = out' at run
      cases run with
      | @ok found n n' holds paired =>
          cases found with
          | some a => exact .ok (holds a rfl) paired
          | none => exact paired.outcome (ih _ _ paired.enclosed paired.agree)
      | error paired => exact .error paired
      | unfinished => exact .unfinished

/-- A computation that only looks, and finds the same on both sides. -/
theorem of_look {f : Machine ρ → α} (holds : ∀ m, m.Enclosed R → d.Holds R (f m))
    (same : ∀ m m' : Machine ρ, m.Enclosed R → m.Agree R m' → f m' = f m) :
    Confined R α d (fun m => .ok (f m) m) (fun m => .ok (f m) m) := by
  intro m m' enclosed agree
  change (Outcome.ok (f m) m).Paired R d m m' (.ok (f m') m')
  rw [same m m' enclosed agree]
  exact .ok (holds m enclosed) (.refl enclosed agree)

theorem lookup (name : Located ρ String) :
    Confined R Value .value (Effects.lookup name : Exec ρ Value) (Effects.lookup name) := by
  intro m m' enclosed agree
  have same : m'.frames.lookup m'.scope name.value = m.frames.lookup m.scope name.value := by
    rw [Frames.lookup, Frames.lookup, agree.scope, agree.resolve enclosed.scope]
  simp only [Effects.lookup, same]
  cases found : m.frames.lookup m.scope name.value with
  | ok v =>
      obtain ⟨frame, binding, resolved, hv⟩ := Frames.lookup_ok found
      refine .ok ?_ (.refl enclosed agree)
      exact enclosed.bindings (enclosed.scope _ (Frames.mem_of_resolve resolved))
        (Frames.resolve_find? resolved) hv
  | error fault => exact .error (.refl enclosed agree)

theorem declare (range : ρ) {frame : Nat} (name : String) {value : Option Value}
    (type : Option ValueType) (isConstant : Bool) (hframe : R.frame frame)
    (hvalue : ∀ v ∈ value, R.HasValue v) :
    Confined R Unit .anything (Exec.declare range frame name value type isConstant)
      (Exec.declare range frame name value type isConstant) := by
  intro m m' enclosed agree
  have same : m'.frames.declared frame name value type isConstant =
      m.frames.declared frame name value type isConstant := by
    rw [Frames.declared, Frames.declared, agree.find? hframe]
  simp only [Exec.declare, same]
  cases declared : m.frames.declared frame name value type isConstant with
  | ok binding =>
      refine .ok trivial (.put enclosed agree hframe name fun v hv => ?_)
      exact hvalue v (Frames.declared_value declared hv)
  | error fault => exact .error (.refl enclosed agree)

theorem assign (range : ρ) (name : String) {value : Value} (hvalue : R.HasValue value) :
    Confined R Unit .anything (Exec.assign range name value) (Exec.assign range name value) := by
  intro m m' enclosed agree
  have same : m'.frames.assigned m'.scope name value = m.frames.assigned m.scope name value := by
    rw [Frames.assigned, Frames.assigned, agree.scope, agree.resolve enclosed.scope]
  simp only [Exec.assign, same]
  cases assigned : m.frames.assigned m.scope name value with
  | ok found =>
      obtain ⟨frame, binding⟩ := found
      have hframe := enclosed.scope frame (Frames.mem_of_assigned assigned)
      refine .ok trivial (.put enclosed agree hframe name fun v hv => ?_)
      rwa [Frames.assigned_value assigned hv]
  | error fault => exact .error (.refl enclosed agree)

/-- Every effect keeps two runs alike inside a realm that nothing leads out of. -/
theorem simulation : Simulation id (.free : Discipline ρ) R (Confined R) where
  pure holds := fun m m' enclosed agree => .ok holds (.refl enclosed agree)
  bind hx hk := hx.bind hk
  fail _ _ := fun m m' enclosed agree => .error (.refl enclosed agree)
  scope := of_look (fun m enclosed => enclosed.scope) fun m m' _ agree => agree.scope
  insideFunction := of_look (fun _ _ => trivial) fun m m' enclosed agree => by
    rw [agree.scope, agree.insideFunction enclosed.scope]
  insideLoop := of_look (fun _ _ => trivial) fun m m' enclosed agree => by
    rw [agree.scope, agree.insideLoop enclosed.scope]
  lookup name := by
    rw [Located.map_id]
    exact lookup name
  declare range _ name _ type isConstant hframe hvalue :=
    declare range name type isConstant hframe hvalue
  assign range name _ hvalue := assign range name hvalue
  newObject {fields} hfields := by
    intro m m' enclosed agree
    have new : R.object m.objects.size := enclosed.newObjects (Nat.le_refl _)
    have made := Paired.pushObject enclosed agree hfields
    have same : m'.objects.size = m.objects.size := agree.objects
    simp only [Effects.newObject, same]
    exact .ok new made
  newFunction {c} _ hscope := by
    rw [Closure.map_id]
    intro m m' enclosed agree
    have new : R.function m.closures.size := enclosed.newFunctions (Nat.le_refl _)
    have made := Paired.pushFunction enclosed agree hscope
    simp only [Effects.newFunction, agree.closures] at made ⊢
    exact .ok new made
  closure? {_ d' k l id} hid hnone hsome := by
    intro m m' enclosed agree
    change (k m.closures[id]? m).Paired R d' m m' (l m'.closures[id]? m')
    rw [agree.closures]
    cases found : m.closures[id]? with
    | none => exact hnone m m' enclosed agree
    | some c =>
        have run := hsome c c.body.obeys_free (enclosed.captured hid found)
        rw [Closure.map_id] at run
        exact run m m' enclosed agree
  field? {object} key hobject := by
    refine of_look (fun m enclosed v hv => ?_) fun m m' _ agree => by rw [agree.object hobject]
    cases found : m.objects[object]? with
    | none =>
        rw [found] at hv
        cases hv
    | some fields =>
        rw [found] at hv
        exact (enclosed.fields hobject found).get? hv
  putField key _ hobject hvalue := fun m m' enclosed agree =>
    .ok trivial (.putField enclosed agree hobject key hvalue)
  display {v} hv := by
    intro m m' enclosed agree
    have same : m'.display? v = m.display? v := by
      rw [Machine.display?, Machine.display?, Value.displayWithin, agree.objects,
        render_agree enclosed agree _ hv]
      rfl
    simp only [Effects.display, same]
    cases m.display? v with
    | some text => exact .ok trivial (.refl enclosed agree)
    | none => exact .unfinished
  write range text := by
    intro m m' enclosed agree
    have printed := Paired.print enclosed agree text
    simp only [Effects.write, Exec.write_eq, agree.output] at printed ⊢
    split
    · exact .ok trivial printed
    · exact .error printed
  print range {v} hv := by
    intro m m' enclosed agree
    have same : m'.printed v = m.printed v := by
      rw [Machine.printed, Machine.printed, agree.objects, agree.output,
        render_agree enclosed agree _ hv]
    have printed := Paired.print enclosed agree (m.printed v).text
    simp only [Effects.print, Exec.print_eq, same, agree.output] at printed ⊢
    split
    · split
      · exact .ok trivial printed
      · exact .unfinished
    · exact .error printed
  inBlock kind hx := inBlock kind hx
  inCall range _ haround hp hx := inCall range haround hp hx
  unfinished := fun _ _ _ _ => .unfinished
  repeatWithin turns hx := repeatWithin turns hx

end Exec.Confined

/-! ### Whole runs -/

/-- The value or the fault that a computation ends with. -/
def Outcome.result? : Outcome ρ α → Option (Except (Located ρ Fault) α)
  | ok a _ => some (.ok a)
  | error fault _ => some (.error fault)
  | unfinished => none

/-- Runs on machines that differ only in what cannot be reached end alike. -/
theorem Task.paired (agree : m.Agree m.reach m') (bound : Nat) (t : Task ρ α) :
    (t.run bound m).Paired m.territory t.demand m m' (t.run bound m') := by
  have run := (Exec.Confined.simulation (R := m.territory)).task bound t.obeys_free
  rw [map_id] at run
  exact run m m' m.enclosed_territory agree.of_reach

/-- What cannot be reached is encapsulated. If a task ends on one of two machines that
differ only there, it ends on the other with the same result, with the same output, and
with the same in every frame and object that could be reached or was made. On each machine,
what could not be reached is left as it was. -/
theorem unreachable_is_encapsulated {t : Task ρ α} {out : Outcome ρ α}
    (agree : m.Agree m.reach m') (ends : t.Ends m out) :
    ∃ out', t.Ends m' out' ∧ out'.result? = out.result? ∧
      ∀ n n', out.machine? = some n → out'.machine? = some n' →
        n.Agree m.territory n' ∧ m.Untouched m.territory n ∧ m'.Untouched m'.territory n' := by
  obtain ⟨ended, bound, run⟩ := Task.ends_iff.mp ends
  have paired := t.paired agree bound
  rw [run] at paired
  rw [agree.territory_eq]
  cases run' : t.run bound m' with
  | ok a n' =>
      rw [run'] at paired
      cases paired with
      | ok _ both =>
          refine ⟨.ok a n', Task.ends_iff.mpr ⟨nofun, bound, run'⟩, rfl, ?_⟩
          rintro _ _ ⟨⟩ ⟨⟩
          exact ⟨both.agree, both.left, both.right⟩
  | error fault n' =>
      rw [run'] at paired
      cases paired with
      | error both =>
          refine ⟨.error fault n', Task.ends_iff.mpr ⟨nofun, bound, run'⟩, rfl, ?_⟩
          rintro _ _ ⟨⟩ ⟨⟩
          exact ⟨both.agree, both.left, both.right⟩
  | unfinished =>
      rw [run'] at paired
      cases paired
      exact absurd rfl ended

/-- A machine with a frame and an object that nothing leads to. -/
def withHidden (bindings : List (String × Binding)) (fields : Fields) : Machine Unit :=
  { Machine.initial none with
    frames := (Machine.initial none : Machine Unit).frames.push ⟨.function, bindings⟩
    objects := #[fields] }

theorem withHidden_reaches {bindings : List (String × Binding)} {fields : Fields} {place : Place}
    (reached : (withHidden bindings fields).Reaches place) : place = .frame 0 := by
  have builtins : ∀ entry ∈ ((Builtin.install #[⟨.global, []⟩] 0).1[0]?.getD default).bindings,
      entry.2.value?.bind Value.place? = none := by decide
  induction reached with
  | scope mem =>
      cases List.mem_singleton.mp mem
      rfl
  | @binding frame name binding v place _ found hv hplace ih =>
      cases ih
      obtain ⟨before, after, split, -⟩ := List.lookup_eq_some_iff.mp found
      have none := builtins (name, binding) (split ▸ List.mem_append_right _ List.mem_cons_self)
      rw [hv, Option.bind_some, hplace] at none
      cases none
  | field _ _ _ _ ih => cases ih
  | captured _ _ _ ih => cases ih

theorem unreachable_is_encapsulated_newObject :
    ∃ out', (Task.expression (.object () [] : Expr Unit)).Ends
        (withHidden [("x", .var .number none)] [("clave", .null)]) out' ∧
      out'.result? = some (.ok (.object 1)) := by
  have agree : (withHidden [] []).Agree (withHidden [] []).reach
      (withHidden [("x", .var .number none)] [("clave", .null)]) :=
    { frames := rfl
      frame := fun reached => by cases withHidden_reaches reached; rfl
      objects := rfl
      object := fun reached => by cases withHidden_reaches reached
      closures := rfl
      output := rfl
      scope := rfl
      depth := rfl }
  have ends : (Task.expression (.object () [] : Expr Unit)).Ends (withHidden [] [])
      (.ok (.object 1) { withHidden [] [] with objects := #[[], []] }) :=
    Task.ends_iff.mpr ⟨nofun, 1, rfl⟩
  obtain ⟨out', ends', same, -⟩ := unreachable_is_encapsulated agree ends
  exact ⟨out', ends', same⟩

end Guion
