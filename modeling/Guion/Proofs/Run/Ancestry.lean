import Guion.Proofs.Run.Bindings
import Guion.Proofs.Run.Cycles

/-!
# Objects hold what was made before them

An object is made of values that there are already, and its fields change only where a
value is assigned to a property. So up to the first such assignment of a whole session the
objects in the fields of an object are older than it.

What is older than an object has to be known of the values on their way into it, before
there is any object to compare them with. So a number is fixed: as long as there are no
more objects than that, everything that a run comes by refers to objects below it, and the
object of that number, once it is made, is made of such values.
-/

namespace Guion

variable {ρ : Type} {α β : Type}

/-! ### Changes that spare the objects -/

/-- From one machine to another the objects that were there have kept their fields. -/
def Machine.Spares (m m' : Machine ρ) : Prop :=
  ∀ (id : Nat) (fields : Fields), m.objects[id]? = some fields → m'.objects[id]? = some fields

namespace Machine.Spares

variable {m m' m'' : Machine ρ}

theorem of_eq (h : m'.objects = m.objects) : m.Spares m' := by
  intro id fields found
  rw [h, found]

theorem trans (h : m.Spares m') (h' : m'.Spares m'') : m.Spares m'' :=
  fun id fields found => h' id fields (h id fields found)

/-- Making an object leaves the others as they are. -/
theorem pushObject (m : Machine ρ) (fields : Fields) :
    m.Spares { m with objects := m.objects.push fields } := by
  intro id old found
  obtain ⟨lt, -⟩ := Array.getElem?_eq_some_iff.mp found
  rw [Array.getElem?_push_lt lt, ← found, Array.getElem?_eq_getElem lt]

/-- Where no object has been made, the objects are the same. -/
theorem objects_eq (h : m.Spares m') (size : m'.objects.size = m.objects.size) :
    m'.objects = m.objects := by
  apply Array.ext_getElem?
  intro id
  cases found : m.objects[id]? with
  | some fields => exact h id fields found
  | none =>
      rw [Array.getElem?_eq_none_iff] at found ⊢
      exact Nat.le_trans (Nat.le_of_eq size) found

end Machine.Spares

/-- No object is ever taken away. -/
theorem Change.size_le {m m' : Machine ρ} (change : Change m m') :
    m.objects.size ≤ m'.objects.size := by
  cases change with
  | newObject fields => simp
  | putField object key v => exact Nat.le_of_eq (Array.size_modify ..).symm
  | _ => exact Nat.le_refl _

/-- A change spares the objects unless a value is put under a key. -/
theorem Change.spares_or_stored {m m' : Machine ρ} (change : Change m m') :
    m.Spares m' ∨ ∃ object key v, m' = m.stored object key v := by
  cases change with
  | newObject fields => exact .inl (.pushObject m fields)
  | putField object key v => exact .inr ⟨object, key, v, rfl⟩
  | _ => exact .inl (.of_eq rfl)

namespace Path

variable {a b c n : Machine ρ}

/-- The changes of a path spare the objects. -/
def Spares : {a b : Machine ρ} → Path a b → Prop
  | _, _, stay _ => True
  | _, _, @step _ a b _ _ rest => a.Spares b ∧ rest.Spares

/-- A machine that a path comes by while its changes spare the objects. -/
def Calm : {a b : Machine ρ} → Path a b → Machine ρ → Prop
  | _, _, stay m, n => n = m
  | _, _, @step _ a b _ _ rest, n => n = a ∨ a.Spares b ∧ rest.Calm n

theorem spares_append {p : Path a b} {q : Path b c} :
    (p.append q).Spares ↔ p.Spares ∧ q.Spares := by
  induction p with
  | stay => simp only [append, Spares, true_and]
  | step change rest ih => simp only [append, Spares, ih, and_assoc]

theorem calm_first (p : Path a b) : p.Calm a := by
  cases p with
  | stay => rfl
  | step => exact .inl rfl

theorem Spares.calm_last {p : Path a b} (h : p.Spares) : p.Calm b := by
  induction p with
  | stay => rfl
  | step change rest ih => exact .inr ⟨h.1, ih h.2⟩

/-- Where all changes spare the objects, the whole path is calm. -/
theorem Spares.calm {p : Path a b} (h : p.Spares) : ∀ n ∈ p.moments, p.Calm n := by
  induction p with
  | stay m => exact fun n mem => List.mem_singleton.mp mem
  | step change rest ih =>
      intro n mem
      obtain rfl | mem := List.mem_cons.mp mem
      · exact .inl rfl
      · exact .inr ⟨h.1, ih h.2 n mem⟩

theorem Calm.spares {p : Path a b} (h : p.Calm n) : a.Spares n := by
  induction p with
  | stay =>
      cases h
      exact .of_eq rfl
  | step change rest ih =>
      obtain rfl | ⟨first, h⟩ := h
      · exact .of_eq rfl
      · exact first.trans (ih h)

end Path

/-! ### Machines below a number -/

/-- Everything but the objects from a number on. -/
def Realm.below (N : Nat) : Realm := ⟨fun _ => True, fun id => id < N, fun _ => True⟩

/-- What is bound in frames refers to what is in a realm. -/
def Frames.Refer (R : Realm) (frames : Frames) : Prop :=
  ∀ (frame : Nat) (name : String) (binding : Binding) (v : Value),
    frames.find? frame name = some binding → binding.value? = some v → R.HasValue v

namespace Frames.Refer

variable {R : Realm} {frames : Frames}

theorem push (h : frames.Refer R) (kind : ScopeKind) :
    Frames.Refer R (frames.push ⟨kind, []⟩) := by
  intro frame name binding v found value
  rw [find?_push] at found
  exact h frame name binding v found value

theorem put (h : frames.Refer R) (frame : Nat) (name : String) {binding : Binding}
    (hb : ∀ v, binding.value? = some v → R.HasValue v) :
    (frames.put frame name binding).Refer R := by
  intro j n b v found value
  rw [find?_put] at found
  split at found
  · cases found
    exact hb v value
  · exact h j n b v found value

end Frames.Refer

/-- All bindings and fields refer to objects below a number. -/
structure Machine.Below (N : Nat) (m : Machine ρ) : Prop where
  bindings : m.frames.Refer (Realm.below N)
  fields {id : Nat} {fields : Fields} : m.objects[id]? = some fields →
    (Realm.below N).HasFields fields

namespace Machine.Below

variable {N : Nat} {m m' : Machine ρ}

theorem congr (h : m.Below N) (frames : m'.frames = m.frames) (objects : m'.objects = m.objects) :
    m'.Below N := by
  obtain ⟨_, _, _, _, _, _⟩ := m
  obtain ⟨_, _, _, _, _, _⟩ := m'
  subst frames objects
  exact ⟨h.bindings, h.fields⟩

theorem pushFrame (h : m.Below N) (kind : ScopeKind) :
    Machine.Below N { m with frames := m.frames.push ⟨kind, []⟩ } :=
  ⟨h.bindings.push kind, h.fields⟩

theorem put (h : m.Below N) (frame : Nat) (name : String) {binding : Binding}
    (hb : ∀ v, binding.value? = some v → (Realm.below N).HasValue v) :
    Machine.Below N { m with frames := m.frames.put frame name binding } :=
  ⟨h.bindings.put frame name hb, h.fields⟩

theorem pushObject (h : m.Below N) {fields : Fields} (hfields : (Realm.below N).HasFields fields) :
    Machine.Below N { m with objects := m.objects.push fields } where
  bindings := h.bindings
  fields {id old} found := by
    rw [Array.getElem?_push] at found
    split at found
    · cases found
      exact hfields
    · exact h.fields found

theorem stored (h : m.Below N) (object : Nat) (key : String) {v : Value}
    (hv : (Realm.below N).HasValue v) : (m.stored object key v).Below N where
  bindings := h.bindings
  fields {id old} found := by
    rw [Machine.stored, Array.getElem?_modify] at found
    split at found
    · obtain ⟨before, hbefore, rfl⟩ := Option.map_eq_some_iff.mp found
      exact (h.fields hbefore).insert key hv
    · exact h.fields found

/-- In the beginning there are no objects, and the built-in constants are none. -/
theorem initial (N : Nat) (limit : Option Nat) : (Machine.initial limit : Machine ρ).Below N where
  bindings := by
    have harmless : ∀ entry ∈ Builtin.values, (Realm.below N).HasValue entry.2 := by
      simp [Builtin.values, Builtin.all, Realm.HasValue]
    have empty : Frames.Refer (Realm.below N) (#[] : Frames) := by
      intro frame name binding v found
      simp [Frames.find?] at found
    refine Frames.install_induction (P := Frames.Refer (Realm.below N)) (empty.push .global) 0 ?_
    intro frames name value b listed hd h
    refine h.put 0 name fun v hv => ?_
    cases Frames.declared_value hd hv
    exact harmless _ listed
  fields {id fields} found := by simp [Machine.initial] at found

end Machine.Below

/-- The object of a number, if there is one by now, holds objects below that number only. -/
def Machine.Made (N : Nat) (m : Machine ρ) : Prop :=
  ∀ fields, m.objects[N]? = some fields → (Realm.below N).HasFields fields

namespace Machine.Made

variable {N : Nat} {m m' : Machine ρ}

theorem of_le (small : m.objects.size ≤ N) : m.Made N := by
  intro fields found
  rw [Array.getElem?_eq_none small] at found
  cases found

/-- Once the object is there, only a store can change what it holds. -/
theorem of_grown (h : m.Made N) (grown : N < m.objects.size) (spares : m.Spares m') :
    m'.Made N := by
  intro fields found
  have old := Array.getElem?_eq_getElem grown
  rw [spares N _ old] at found
  cases found
  exact h _ old

theorem pushObject (small : m.objects.size ≤ N) {fields : Fields}
    (hfields : (Realm.below N).HasFields fields) :
    Machine.Made N { m with objects := m.objects.push fields } := by
  intro made found
  rw [Array.getElem?_push] at found
  split at found
  · cases found
    exact hfields
  · exact of_le small made found

end Machine.Made

/-- What holds of every number is the order of the objects. -/
theorem Machine.ordered_of_made {m : Machine ρ} (h : ∀ N, m.Made N) : m.Ordered :=
  fun id fields found key other mem => h id fields found (key, .object other) mem

/-! ### Paths below a number -/

namespace Path

variable {N : Nat} {a b c d n : Machine ρ}

/-- As long as there are at most so many objects, the machines on a path refer to objects below
that number, and so does the object of that number when it is made. -/
def Ages (N : Nat) : {a b : Machine ρ} → Path a b → Prop
  | _, _, stay m => m.objects.size ≤ N → m.Below N
  | _, _, @step _ a b _ _ rest =>
    (a.objects.size ≤ N → a.Below N ∧ b.Made N) ∧ rest.Ages N

theorem size_le (p : Path a b) : a.objects.size ≤ b.objects.size :=
  p.to_last (R := fun m m' => m.objects.size ≤ m'.objects.size) (fun _ => Nat.le_refl _)
    Nat.le_trans Change.size_le a List.mem_cons_self

/-- Once there are more objects, there is nothing to show. -/
theorem ages_of_grown (grown : N < a.objects.size) (p : Path a b) : p.Ages N := by
  induction p with
  | stay m => exact fun small => absurd small (Nat.not_le.mpr grown)
  | step change rest ih =>
      refine ⟨fun small => absurd small (Nat.not_le.mpr grown), ih ?_⟩
      exact Nat.lt_of_lt_of_le grown change.size_le

namespace Ages

/-- All machines on the path are below the number. -/
theorem below {p : Path a b} (h : p.Ages N) : ∀ n ∈ p.moments, n.objects.size ≤ N → n.Below N := by
  induction p with
  | stay m =>
      intro n mem
      rw [List.mem_singleton.mp mem]
      exact h
  | step change rest ih =>
      intro n mem small
      obtain rfl | mem := List.mem_cons.mp mem
      · exact (h.1 small).1
      · exact ih h.2 n mem small

theorem append {p : Path a b} {q : Path b c} (hp : p.Ages N) (hq : q.Ages N) :
    (p.append q).Ages N := by
  induction p with
  | stay m => exact hq
  | step change rest ih => exact ⟨hp.1, ih hp.2 hq⟩

/-- What happens between a change and another that undoes it. -/
theorem bracket {p : Path b c} {opening : Change a b} {closing : Change c d}
    (ha : a.objects.size ≤ N → a.Below N) (h : p.Ages N) (entered : b.objects = a.objects)
    (frames : d.frames = c.frames) (objects : d.objects = c.objects) :
    (p.bracket opening closing).Ages N := by
  have opened (small : a.objects.size ≤ N) : b.Made N := by
    rw [← entered] at small
    exact .of_le small
  have last := h.below c p.last_mem
  refine ⟨fun small => ⟨ha small, opened small⟩, h.append ⟨fun small => ?_, fun small => ?_⟩⟩
  · refine ⟨last small, .of_le ?_⟩
    rwa [objects]
  · rw [objects] at small
    exact (last small).congr frames objects

/-- Up to the first store the object of the number holds objects below it. -/
theorem made {p : Path a b} (h : p.Ages N) (ha : a.Made N) (calm : p.Calm n) : n.Made N := by
  induction p with
  | stay m =>
      cases calm
      exact ha
  | @step a b _ change rest ih =>
      obtain rfl | ⟨spares, calm⟩ := calm
      · exact ha
      · refine ih h.2 ?_ calm
        by_cases small : a.objects.size ≤ N
        · exact (h.1 small).2
        · exact ha.of_grown (Nat.lt_of_not_le small) spares

end Ages

end Path

/-! ### Runs below a number -/

/-- What a run gave, if it ended with a value. -/
def Run.value? {m : Machine ρ} : Run m α → Option α
  | ok a _ _ => some a
  | error .. | unfinished _ => none

/-- The machines on a run are below a number, and so is its result as long as there are no more
objects than that. -/
structure Run.Ages {m : Machine ρ} (N : Nat) (d : Demand α) (r : Run m α) : Prop where
  path : r.path.Ages N
  holds : r.last.objects.size ≤ N → ∀ a ∈ r.value?, d.Holds (Realm.below N) a

namespace Run.Ages

variable {N : Nat} {d : Demand α} {m m' : Machine ρ}

/-- A run without a result. -/
theorem of_path {r : Run m α} (path : r.path.Ages N) (none : r.value? = none) : r.Ages N d where
  path := path
  holds _ _ ha := by
    rw [none] at ha
    cases ha

/-- Once there are more objects, there is nothing to show of results either. -/
theorem of_grown (grown : N < m.objects.size) (r : Run m α) : r.Ages N d where
  path := r.path.ages_of_grown grown
  holds small := absurd (Nat.le_trans r.path.size_le small) (Nat.not_le.mpr grown)

theorem after {path : Path m m'} {restored : Restored m m'} {r : Run m' α} (first : path.Ages N)
    (h : m'.objects.size ≤ N → m'.Below N → r.Ages N d) :
    (r.after path restored).Ages N d := by
  have second : r.Ages N d := by
    by_cases small : m'.objects.size ≤ N
    · exact h small (first.below m' path.last_mem small)
    · exact of_grown (Nat.lt_of_not_le small) r
  cases r <;> exact ⟨first.append second.path, second.holds⟩

theorem ok_stay {a : α} (hm : m.Below N) (ha : d.Holds (Realm.below N) a) :
    (Run.ok a (.stay m) (.refl m)).Ages N d where
  path _ := hm
  holds _ := by
    rintro _ ⟨⟩
    exact ha

theorem error_stay {fault : Located ρ Fault} (hm : m.Below N) :
    (Run.error fault (.stay m) (.refl m) : Run m α).Ages N d :=
  of_path (fun _ => hm) rfl

theorem unfinished_stay (hm : m.Below N) : (Run.unfinished (.stay m) : Run m α).Ages N d :=
  of_path (fun _ => hm) rfl

/-- A single change that makes no object. -/
theorem path_once {change : Change m m'} (hm : m.Below N) (hm' : m'.Below N)
    (size : m'.objects.size = m.objects.size) : (Path.step change (.stay m')).Ages N := by
  refine ⟨fun small => ⟨hm, .of_le ?_⟩, fun _ => hm'⟩
  rwa [size]

theorem once {change : Change m m'} {restored : Restored m m'} {a : α}
    (hm : m.Below N) (hm' : m'.Below N) (size : m'.objects.size = m.objects.size)
    (ha : d.Holds (Realm.below N) a) : (Watched.once a change restored).Ages N d where
  path := path_once hm hm' size
  holds _ := by
    rintro _ ⟨⟩
    exact ha

end Run.Ages

/-- A watched computation whose runs are below a number. -/
def Watched.Ages (N : Nat) (d : Demand α) (x : Watched ρ α) : Prop :=
  ∀ m : Machine ρ, m.objects.size ≤ N → m.Below N → (x m).Ages N d

namespace Watched.Ages

open Run.Ages

variable {N : Nat} {d : Demand α} {d' : Demand β} {x : Watched ρ α} {m : Machine ρ}

theorem bind {k : α → Watched ρ β} (hx : x.Ages N d)
    (hk : ∀ a, d.Holds (Realm.below N) a → (k a).Ages N d') : (x >>= k).Ages N d' := by
  intro m small hm
  have h := hx m small hm
  change (Watched.bind x k m).Ages N d'
  unfold Watched.bind
  generalize x m = r at h
  cases r with
  | ok a path restored =>
      exact after h.path fun small hlast => hk a (h.holds small a rfl) _ small hlast
  | error fault path restored => exact of_path h.path rfl
  | unfinished path => exact of_path h.path rfl

theorem within {scope : Scope} (hx : x.Ages N d) : (Watched.within scope x).Ages N d := by
  intro m small hm
  have inside : Machine.Below N { m with scope := scope } := hm.congr rfl rfl
  have h := hx { m with scope := scope } small inside
  unfold Watched.within
  generalize x { m with scope := scope } = r at h
  cases r with
  | ok a path restored => exact ⟨h.path.bracket (fun _ => hm) rfl rfl rfl, h.holds⟩
  | error fault path restored => exact of_path (h.path.bracket (fun _ => hm) rfl rfl rfl) rfl
  | unfinished path => exact of_path ⟨fun _ => ⟨hm, .of_le small⟩, h.path⟩ rfl

theorem counted {room : m.depth < callLimit} (hx : x.Ages N d) (small : m.objects.size ≤ N)
    (hm : m.Below N) : (Watched.counted x m room).Ages N d := by
  have inside : Machine.Below N { m with depth := m.depth + 1 } := hm.congr rfl rfl
  have h := hx { m with depth := m.depth + 1 } small inside
  unfold Watched.counted
  generalize x { m with depth := m.depth + 1 } = r at h
  cases r with
  | ok a path restored => exact ⟨h.path.bracket (fun _ => hm) rfl rfl rfl, h.holds⟩
  | error fault path restored => exact of_path (h.path.bracket (fun _ => hm) rfl rfl rfl) rfl
  | unfinished path => exact of_path ⟨fun _ => ⟨hm, .of_le small⟩, h.path⟩ rfl

theorem framed {kind : ScopeKind} {r : Run { m with frames := m.frames.push ⟨kind, []⟩ } α}
    (hm : m.Below N) (h : r.Ages N d) : (Watched.framed kind r).Ages N d :=
  after (path_once hm (hm.pushFrame kind) rfl) fun _ _ => h

theorem inBlock (kind : ScopeKind) (hx : x.Ages N d) : (Watched.inBlock kind x).Ages N d :=
  fun _ small hm => framed hm (hx.within _ small (hm.pushFrame kind))

theorem prepared {p : Watched ρ Unit} {scope : Scope} {room : m.depth < callLimit}
    (hp : p.Ages N .anything) (hx : x.Ages N d) (small : m.objects.size ≤ N) (hm : m.Below N) :
    (Watched.prepared p scope x m room).Ages N d := by
  have h := hp m small hm
  unfold Watched.prepared
  generalize p m = r at h
  cases r with
  | ok a path restored => exact after h.path (counted hx.within)
  | error fault path restored => exact of_path h.path rfl
  | unfinished path => exact of_path h.path rfl

theorem inCall {p : Nat → Watched ρ Unit} (range : ρ) (around : Scope)
    (hp : ∀ frame, (p frame).Ages N .anything) (hx : x.Ages N d) :
    (Watched.inCall range around p x).Ages N d := by
  intro m small hm
  unfold Watched.inCall
  split
  · exact error_stay hm
  · exact framed hm (prepared (hp _) hx small (hm.pushFrame .function))

theorem repeatWithin {x : Watched ρ (Option α)} (hx : x.Ages N (.option d)) (turns : Nat) :
    (Watched.repeatWithin x turns).Ages N d := by
  induction turns with
  | zero => exact fun _ _ hm => unfinished_stay hm
  | succ turns ih =>
      intro m small hm
      have h := hx m small hm
      unfold Watched.repeatWithin
      generalize x m = r at h
      cases r with
      | ok found path restored =>
          cases found with
          | some a =>
              refine ⟨h.path, fun small => ?_⟩
              rintro _ ⟨⟩
              exact h.holds small _ rfl a rfl
          | none => exact after h.path (ih _)
      | error fault path restored => exact of_path h.path rfl
      | unfinished path => exact of_path h.path rfl

/-- Every effect keeps machines below a number, and gives what is below it. -/
theorem simulation (N : Nat) : Simulation id (.free : Discipline ρ) (Realm.below N)
    fun α d (x _ : Watched ρ α) => x.Ages N d where
  pure holds := fun _ _ hm => ok_stay hm holds
  bind hx hk := bind hx hk
  fail _ _ := fun _ _ hm => error_stay hm
  unfinished := fun _ _ hm => unfinished_stay hm
  scope := fun _ _ hm => ok_stay hm fun _ _ => trivial
  insideFunction := fun _ _ hm => ok_stay hm trivial
  insideLoop := fun _ _ hm => ok_stay hm trivial
  lookup name := by
    intro m _ hm
    simp only [Effects.lookup]
    cases found : m.frames.lookup m.scope name.value with
    | ok v =>
        obtain ⟨frame, binding, resolved, hv⟩ := Frames.lookup_ok found
        exact ok_stay hm (hm.bindings _ _ _ _ (Frames.resolve_find? resolved) hv)
    | error fault => exact error_stay hm
  declare range frame name value type isConstant _ hvalue := by
    intro m _ hm
    simp only [Effects.declare]
    split
    · next hd =>
      refine Run.Ages.once hm (hm.put frame name fun v hv => ?_) rfl trivial
      exact hvalue v (Frames.declared_value hd hv)
    · exact error_stay hm
  assign range name value hvalue := by
    intro m _ hm
    simp only [Effects.assign]
    split
    · next frame binding ha =>
      refine Run.Ages.once hm (hm.put frame name fun v hv => ?_) rfl trivial
      rwa [Frames.assigned_value ha hv]
    · exact error_stay hm
  newObject {fields} hfields := by
    intro m small hm
    have made := Machine.Made.pushObject small hfields
    refine ⟨⟨fun _ => ⟨hm, made⟩, fun _ => hm.pushObject hfields⟩, fun small => ?_⟩
    rintro _ ⟨⟩
    change (m.objects.push fields).size ≤ N at small
    rwa [Array.size_push] at small
  newFunction _ _ := fun _ _ hm => Run.Ages.once hm (hm.congr rfl rfl) rfl trivial
  closure? {_ d' k _ id} _ hnone hsome := by
    intro m small hm
    show (Run.after (.stay m) (.refl m) (k m.closures[id]? m)).Ages N d'
    refine after (fun _ => hm) fun _ _ => ?_
    cases m.closures[id]? with
    | none => exact hnone m small hm
    | some c => exact hsome c c.body.obeys_free (fun _ _ => trivial) m small hm
  field? {object} key _ := by
    intro m _ hm
    refine ok_stay hm fun v hv => ?_
    cases found : m.objects[object]? with
    | none =>
        rw [found] at hv
        cases hv
    | some fields =>
        rw [found] at hv
        exact (hm.fields found).get? hv
  putField {object} key _ _ hvalue := fun _ _ hm =>
    Run.Ages.once hm (hm.stored object key hvalue) (Array.size_modify ..) trivial
  display _ := by
    intro m _ hm
    simp only [Effects.display]
    split
    · exact ok_stay hm trivial
    · exact unfinished_stay hm
  write range text := by
    intro m _ hm
    have printed : Machine.Below N { m with output := (m.output.write text).1 } := hm.congr rfl rfl
    simp only [Effects.write]
    split
    · exact Run.Ages.once hm printed rfl trivial
    · exact of_path (path_once hm printed rfl) rfl
  print range v _ := by
    intro m _ hm
    have printed : Machine.Below N { m with output := (m.output.write (m.printed v).text).1 } :=
      hm.congr rfl rfl
    simp only [Effects.print]
    split
    · split
      · exact Run.Ages.once hm printed rfl trivial
      · exact of_path (path_once hm printed rfl) rfl
    · exact of_path (path_once hm printed rfl) rfl
  inBlock kind hx := hx.inBlock kind
  inCall range around _ hp hx := inCall range around (fun frame => hp frame trivial) hx
  repeatWithin turns hx := hx.repeatWithin turns

end Watched.Ages

/-! ### Machines that refer to what there is -/

/-- No binding and no field refers to an object that is still to be made. -/
def Machine.Closed (m : Machine ρ) : Prop := ∀ N, m.objects.size ≤ N → m.Below N

theorem Machine.closed_initial (limit : Option Nat) : (Machine.initial limit : Machine ρ).Closed :=
  fun N _ => .initial N limit

/-- On the path of a run, machines refer to what there is. -/
theorem Task.ages (bound : Nat) (t : Task ρ α) {m : Machine ρ} (hm : m.Closed) (N : Nat) :
    (t.watch bound m).path.Ages N := by
  by_cases small : m.objects.size ≤ N
  · exact ((Watched.Ages.simulation N).task bound t.obeys_free m small (hm N small)).path
  · exact (t.watch bound m).path.ages_of_grown (Nat.lt_of_not_le small)

theorem Task.closed (bound : Nat) (t : Task ρ α) {m : Machine ρ} (hm : m.Closed) :
    ∀ n ∈ (t.watch bound m).moments, n.Closed :=
  fun n mem N => (t.ages bound hm N).below n mem

theorem Task.closed_of_run {bound : Nat} {t : Task ρ α} {m m' : Machine ρ} (hm : m.Closed)
    (ends : (t.run bound m).machine? = some m') : m'.Closed := by
  rw [← t.outcome_watch] at ends
  rw [← Run.last_eq ends]
  exact t.closed bound hm _ (Path.last_mem _)

/-- At all moments of a session, the run under way included, machines refer to what there is. -/
theorem History.closed {limit : Option Nat} {past : List (Machine ρ)} {m : Machine ρ}
    (h : History limit past m) (bound : Nat) (t : Task ρ α) :
    ∀ n ∈ past ++ (t.watch bound m).path.later, n.Closed := by
  suffices past : (∀ n ∈ past, n.Closed) ∧ m.Closed from
    List.forall_mem_append.mpr ⟨past.1, fun n mem =>
      t.closed bound past.2 n (List.mem_cons_of_mem _ mem)⟩
  clear t bound
  induction h with
  | start =>
      have closed := Machine.closed_initial (ρ := ρ) limit
      exact ⟨List.forall_mem_singleton.mpr closed, closed⟩
  | run bound t _ ends ih =>
      refine ⟨List.forall_mem_append.mpr ⟨ih.1, fun n mem => ?_⟩, t.closed_of_run ih.2 ends⟩
      exact t.closed bound ih.2 n (List.mem_cons_of_mem _ mem)

end Guion
