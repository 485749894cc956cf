import Guion.Proofs.Run.Containment
import Guion.Proofs.Run.Frames
import Guion.Proofs.Run.Printing
import Guion.Proofs.Run.Simulation

/-!
# What can be reached

A run finds frames, objects and functions only by following what it has: the frames of
its scope, what their bindings and the fields of objects hold, and the scopes that
functions captured. All that a run can ever come by is what it can reach in this way
when it begins, and what it makes itself.
-/

namespace Guion

variable {ρ : Type}

/-- A frame, an object or a function, by its number. -/
inductive Place where
  | frame (id : Nat)
  | object (id : Nat)
  | function (id : Nat)
  deriving DecidableEq

/-- What a value refers to. -/
def Value.place? : Value → Option Place
  | .object id => some (.object id)
  | .function id => some (.function id)
  | _ => none

/-- What can be reached from the current scope. -/
inductive Machine.Reaches (m : Machine ρ) : Place → Prop
  | scope {frame : Nat} : frame ∈ m.scope.path → m.Reaches (.frame frame)
  | binding {frame : Nat} {name : String} {binding : Binding} {v : Value} {place : Place} :
      m.Reaches (.frame frame) → m.frames.find? frame name = some binding →
      binding.value? = some v → v.place? = some place → m.Reaches place
  | field {object : Nat} {fields : Fields} {entry : String × Value} {place : Place} :
      m.Reaches (.object object) → m.objects[object]? = some fields → entry ∈ fields →
      entry.2.place? = some place → m.Reaches place
  | captured {id frame : Nat} {c : Closure ρ} :
      m.Reaches (.function id) → m.closures[id]? = some c → frame ∈ c.scope.path →
      m.Reaches (.frame frame)

/-- What can be reached, as a realm. -/
def Machine.reach (m : Machine ρ) : Realm :=
  ⟨fun i => m.Reaches (.frame i), fun i => m.Reaches (.object i), fun i => m.Reaches (.function i)⟩

/-- What can be reached, and what is still to be made. -/
def Machine.territory (m : Machine ρ) : Realm where
  frame i := m.Reaches (.frame i) ∨ m.frames.size ≤ i
  object i := m.Reaches (.object i) ∨ m.objects.size ≤ i
  function i := m.Reaches (.function i) ∨ m.closures.size ≤ i

/-! ### Realms that nothing leads out of -/

/-- What is in the realm refers only to what is in the realm, and so will what is made. -/
structure Machine.Enclosed (R : Realm) (m : Machine ρ) : Prop where
  scope : R.HasScope m.scope
  bindings : ∀ {frame name binding v}, R.frame frame → m.frames.find? frame name = some binding →
    binding.value? = some v → R.HasValue v
  fields : ∀ {object fields}, R.object object → m.objects[object]? = some fields →
    R.HasFields fields
  captured : ∀ {id c}, R.function id → m.closures[id]? = some c → R.HasScope c.scope
  newFrames : ∀ {i}, m.frames.size ≤ i → R.frame i
  newObjects : ∀ {i}, m.objects.size ≤ i → R.object i
  newFunctions : ∀ {i}, m.closures.size ≤ i → R.function i

/-- Values that refer to what can be reached stay inside. -/
theorem Machine.territory_hasValue {m : Machine ρ} {v : Value}
    (h : ∀ place, v.place? = some place → m.Reaches place) : m.territory.HasValue v := by
  cases v with
  | object id => exact .inl (h _ rfl)
  | function id => exact .inl (h _ rfl)
  | _ => trivial

/-- Nothing leads out of what can be reached or is still to be made. -/
theorem Machine.enclosed_territory (m : Machine ρ) : m.Enclosed m.territory where
  scope _ mem := .inl (.scope mem)
  bindings {frame name binding v} inside found hv := by
    rcases inside with reached | beyond
    · exact territory_hasValue fun place hplace => .binding reached found hv hplace
    · rw [Frames.find?, Array.getElem?_eq_none beyond] at found
      cases found
  fields {object fields} inside found := by
    rcases inside with reached | beyond
    · intro entry mem
      exact territory_hasValue fun place hplace => .field reached found mem hplace
    · rw [Array.getElem?_eq_none beyond] at found
      cases found
  captured {id c} inside found := by
    rcases inside with reached | beyond
    · exact fun frame mem => .inl (.captured reached found mem)
    · rw [Array.getElem?_eq_none beyond] at found
      cases found
  newFrames := .inr
  newObjects := .inr
  newFunctions := .inr

/-! ### Machines that differ only outside -/

/-- Two machines are the same but for what is in frames and objects outside the realm. -/
structure Machine.Agree (R : Realm) (m m' : Machine ρ) : Prop where
  frames : m'.frames.size = m.frames.size
  frame : ∀ {i}, R.frame i → m'.frames[i]? = m.frames[i]?
  objects : m'.objects.size = m.objects.size
  object : ∀ {i}, R.object i → m'.objects[i]? = m.objects[i]?
  closures : m'.closures = m.closures
  output : m'.output = m.output
  scope : m'.scope = m.scope
  depth : m'.depth = m.depth

/-- What is in frames and objects outside the realm is as it was. -/
structure Machine.Untouched (R : Realm) (before after : Machine ρ) : Prop where
  frame : ∀ {i}, ¬ R.frame i → after.frames[i]? = before.frames[i]?
  object : ∀ {i}, ¬ R.object i → after.objects[i]? = before.objects[i]?

theorem Machine.Untouched.of_eq {R : Realm} {before after : Machine ρ}
    (frames : after.frames = before.frames) (objects : after.objects = before.objects) :
    before.Untouched R after :=
  ⟨fun _ => by rw [frames], fun _ => by rw [objects]⟩

theorem Machine.Untouched.trans {R : Realm} {a b c : Machine ρ} (h : a.Untouched R b)
    (h' : b.Untouched R c) : a.Untouched R c :=
  ⟨fun outside => (h'.frame outside).trans (h.frame outside),
    fun outside => (h'.object outside).trans (h.object outside)⟩

namespace Machine.Agree

variable {R : Realm} {m m' : Machine ρ} (agree : m.Agree R m')

include agree

theorem find? {frame : Nat} (inside : R.frame frame) (name : String) :
    m'.frames.find? frame name = m.frames.find? frame name := by
  rw [Frames.find?, Frames.find?, agree.frame inside]

theorem kind? {frame : Nat} (inside : R.frame frame) :
    m'.frames.kind? frame = m.frames.kind? frame := by
  rw [Frames.kind?, Frames.kind?, agree.frame inside]

variable {path : List Nat} (inside : ∀ frame ∈ path, R.frame frame)

include inside

theorem resolve (name : String) : m'.frames.resolve name path = m.frames.resolve name path := by
  induction path with
  | nil => rfl
  | cons frame around ih =>
      obtain ⟨first, rest⟩ := List.forall_mem_cons.mp inside
      rw [Frames.resolve, Frames.resolve, agree.find? first, ih rest]

theorem insideFunction : m'.frames.insideFunction path = m.frames.insideFunction path := by
  induction path with
  | nil => rfl
  | cons frame around ih =>
      obtain ⟨first, rest⟩ := List.forall_mem_cons.mp inside
      rw [Frames.insideFunction, Frames.insideFunction, agree.kind? first, ih rest]

theorem insideLoop : m'.frames.insideLoop path = m.frames.insideLoop path := by
  induction path with
  | nil => rfl
  | cons frame around ih =>
      obtain ⟨first, rest⟩ := List.forall_mem_cons.mp inside
      rw [Frames.insideLoop, Frames.insideLoop, agree.kind? first, ih rest]

end Machine.Agree

/-- A name resolves to a frame on the path. -/
theorem Frames.mem_of_resolve {frames : Frames} {name : String} {path : List Nat} {frame : Nat}
    {binding : Binding} (h : frames.resolve name path = some (frame, binding)) : frame ∈ path := by
  induction path with
  | nil => cases h
  | cons first around ih =>
      rw [resolve] at h
      cases found : frames.find? first name with
      | some b =>
          rw [found] at h
          cases h
          exact List.mem_cons_self
      | none =>
          rw [found] at h
          exact List.mem_cons_of_mem _ (ih h)

/-- An assignment changes a frame on the path. -/
theorem Frames.mem_of_assigned {frames : Frames} {scope : Scope} {name : String} {v : Value}
    {frame : Nat} {binding : Binding}
    (h : frames.assigned scope name v = .ok (frame, binding)) : frame ∈ scope.path := by
  unfold assigned at h
  split at h
  · cases h
  · next first old resolved =>
    cases set : old.set name v with
    | ok new =>
        rw [set] at h
        cases h
        exact mem_of_resolve resolved
    | error fault =>
        rw [set] at h
        cases h

/-- The text of a value is the same if the objects it is made of are. -/
theorem render_agree {R : Realm} {m m' : Machine ρ} (enclosed : m.Enclosed R)
    (agree : m.Agree R m') (n : Nat) {v : Value} (inside : R.HasValue v) :
    v.render m'.objects m'.closures n = v.render m.objects m.closures n := by
  rw [agree.closures]
  induction n generalizing v with
  | zero =>
      cases v with
      | boolean b => cases b <;> rfl
      | _ => rfl
  | succ n ih =>
      cases v with
      | object id =>
          have same := agree.object inside
          have values : R.HasFields (m.objects[id]?.getD []) := by
            cases found : m.objects[id]? with
            | none => exact nofun
            | some fields => exact enclosed.fields inside found
          rw [Value.render, Value.render, same]
          exact Fields.render_congr fun entry mem => ih (values entry mem)
      | boolean b => cases b <;> rfl
      | _ => rfl

/-! ### Reachability is settled by what can be reached -/

namespace Machine.Agree

variable {m m' : Machine ρ} (agree : m.Agree m.reach m')

include agree

/-- A machine that differs only in what cannot be reached has the same in its reach. -/
theorem reaches_iff {place : Place} : m'.Reaches place ↔ m.Reaches place := by
  constructor
  · intro reached
    induction reached with
    | scope mem =>
        rw [agree.scope] at mem
        exact .scope mem
    | binding _ found hv hplace ih =>
        rw [agree.find? ih] at found
        exact .binding ih found hv hplace
    | field _ found mem hplace ih =>
        rw [agree.object ih] at found
        exact .field ih found mem hplace
    | captured _ found mem ih =>
        rw [agree.closures] at found
        exact .captured ih found mem
  · intro reached
    induction reached with
    | scope mem =>
        rw [← agree.scope] at mem
        exact .scope mem
    | binding before found hv hplace ih =>
        rw [← agree.find? before] at found
        exact .binding ih found hv hplace
    | field before found mem hplace ih =>
        rw [← agree.object before] at found
        exact .field ih found mem hplace
    | captured _ found mem ih =>
        rw [← agree.closures] at found
        exact .captured ih found mem

theorem territory_eq : m'.territory = m.territory := by
  simp only [territory, agree.reaches_iff, agree.frames, agree.objects, agree.closures]

/-- What is still to be made is the same too: nothing. -/
theorem of_reach : m.Agree m.territory m' where
  frames := agree.frames
  frame {i} inside := by
    rcases inside with reached | beyond
    · exact agree.frame reached
    · rw [Array.getElem?_eq_none beyond, Array.getElem?_eq_none (agree.frames ▸ beyond)]
  objects := agree.objects
  object {i} inside := by
    rcases inside with reached | beyond
    · exact agree.object reached
    · rw [Array.getElem?_eq_none beyond, Array.getElem?_eq_none (agree.objects ▸ beyond)]
  closures := agree.closures
  output := agree.output
  scope := agree.scope
  depth := agree.depth

end Machine.Agree

end Guion
