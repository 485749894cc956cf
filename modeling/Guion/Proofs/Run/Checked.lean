import Guion.Proofs.Parse.Kinds
import Guion.Proofs.Run.Printing
import Guion.Proofs.Run.Simulation

/-!
# Faults that the parser rules out

The parser makes no assignment to anything but names and properties, and no declaration
without a value that is not of a variable with a type. A machine that has only been given
such trees holds only such functions, since every function that is made is part of a tree.
Trees and functions of this kind never come across the faults that say otherwise.

What computations have to keep is stated with what may be said about a result. Only
declarations need that: their type and their value are computed before they are looked at.
-/

namespace Guion

variable {ρ α β : Type}

/-- The functions of a machine have bodies that a parser could have made. -/
def Machine.Checked (m : Machine ρ) : Prop := ∀ c ∈ m.closures, c.body.Obeys .checked

theorem Machine.checked_initial (limit : Option Nat) :
    (Machine.initial limit : Machine ρ).Checked := by
  intro c hc
  cases hc with
  | mk hc => cases hc

theorem Machine.Checked.push {m : Machine ρ} (h : m.Checked) {c : Closure ρ}
    (hc : c.body.Obeys .checked) : Machine.Checked { m with closures := m.closures.push c } := by
  intro d hd
  rcases Array.mem_push.mp hd with hd | rfl
  · exact h d hd
  · exact hc

/-! ### Outcomes and computations -/

/-- An end on a checked machine, with a value of some kind or with a fault that trees do not
show without running. -/
inductive Outcome.Sound (P : α → Prop) : Outcome ρ α → Prop
  | ok {a : α} {last : Machine ρ} : last.Checked → P a → Outcome.Sound P (.ok a last)
  | error {fault : Located ρ Fault} {last : Machine ρ} : last.Checked →
      fault.value.isStatic = false → Outcome.Sound P (.error fault last)
  | unfinished : Outcome.Sound P .unfinished

theorem Outcome.Sound.alter {P : α → Prop} {out : Outcome ρ α} (h : out.Sound P)
    {g : Machine ρ → Machine ρ} (keeps : ∀ m, m.Checked → (g m).Checked) :
    (out.alter g).Sound P := by
  cases h with
  | ok hlast ha => exact .ok (keeps _ hlast) ha
  | error hlast dynamic => exact .error (keeps _ hlast) dynamic
  | unfinished => exact .unfinished

/-- A computation that ends like this on every checked machine. -/
def Exec.Sound (P : α → Prop) (x : Exec ρ α) : Prop := ∀ m, m.Checked → (x m).Sound P

namespace Exec.Sound

variable {P : α → Prop} {Q : β → Prop} {x : Exec ρ α} {f : α → Exec ρ β}

theorem pure {a : α} (h : P a) : Exec.Sound P (Pure.pure a : Exec ρ α) := fun _ hm => .ok hm h

theorem bind (hx : Exec.Sound P x) (hf : ∀ a, P a → Exec.Sound Q (f a)) :
    Exec.Sound Q (x >>= f) := by
  intro m hm
  have first := hx m hm
  change (Exec.bind x f m).Sound Q
  unfold Exec.bind
  generalize x m = out at first
  cases first with
  | ok hlast ha => exact hf _ ha _ hlast
  | error hlast dynamic => exact .error hlast dynamic
  | unfinished => exact .unfinished

/-- What is known of the values that a computation may end with can be relied on. -/
theorem result {P' : α → Prop} (hx : Exec.Sound P x)
    (ok : ∀ m a last, x m = .ok a last → P' a) : Exec.Sound P' x := by
  intro m hm
  have run := hx m hm
  cases ends : x m with
  | unfinished => exact .unfinished
  | ok a last =>
      rw [ends] at run
      cases run with
      | ok hlast _ => exact .ok hlast (ok m a last ends)
  | error fault last =>
      rw [ends] at run
      cases run with
      | error hlast dynamic => exact .error hlast dynamic

theorem fail {range : ρ} {fault : Fault} (dynamic : fault.isStatic = false) :
    Exec.Sound P (Effects.fail range fault) :=
  fun _ hm => .error hm dynamic

theorem within (scope : Scope) (hx : Exec.Sound P x) : Exec.Sound P (Exec.within scope x) := by
  intro m hm
  rw [Exec.within_eq_alter]
  exact (hx { m with scope := scope } hm).alter fun _ hlast => hlast

theorem counted (hx : Exec.Sound P x) : Exec.Sound P (Exec.counted x) := by
  intro m hm
  rw [Exec.counted_eq_alter]
  exact (hx { m with depth := m.depth + 1 } hm).alter fun _ hlast => hlast

theorem inBlock (kind : ScopeKind) (hx : Exec.Sound P x) :
    Exec.Sound P (Exec.inBlock kind x) :=
  fun m hm => within _ hx { m with frames := m.frames.push ⟨kind, []⟩ } hm

theorem inCall {prepare : Nat → Exec ρ Unit} (range : ρ) (around : Scope)
    (hp : ∀ frame, Exec.Sound (fun _ => True) (prepare frame)) (hx : Exec.Sound P x) :
    Exec.Sound P (Exec.inCall range around prepare x) := by
  intro m hm
  unfold Exec.inCall
  split
  · exact .error hm rfl
  · exact (hp m.frames.size).bind (fun _ _ => (hx.within _).counted)
      { m with frames := m.frames.push ⟨.function, []⟩ } hm

theorem repeatWithin {x : Exec ρ (Option α)} (hx : Exec.Sound (fun _ => True) x) (turns : Nat) :
    Exec.Sound (fun _ => True) (Exec.repeatWithin x turns) := by
  induction turns with
  | zero => exact fun _ _ => .unfinished
  | succ turns ih =>
      intro m hm
      have run := hx m hm
      unfold Exec.repeatWithin
      generalize x m = out at run
      cases run with
      | @ok found last hlast _ =>
          cases found with
          | some a => exact .ok hlast trivial
          | none => exact ih last hlast
      | error hlast dynamic => exact .error hlast dynamic
      | unfinished => exact .unfinished

end Exec.Sound

/-! ### Names -/

namespace Frames

variable {frames : Frames} {name : String} {fault : Fault}

theorem isStatic_of_lookup_error {scope : Scope} (h : frames.lookup scope name = .error fault) :
    fault.isStatic = false := by
  unfold Frames.lookup at h
  split at h
  · cases h
    rfl
  · split at h
    · cases h
      rfl
    · cases h

theorem isStatic_of_assigned_error {scope : Scope} {value : Value}
    (h : frames.assigned scope name value = .error fault) : fault.isStatic = false := by
  unfold Frames.assigned at h
  split at h
  · cases h
    rfl
  · next frame binding _ =>
      cases binding with
      | const => 
          cases h
          rfl
      | var type old =>
          by_cases same : value.type = type
          · simp [Binding.set, same, Except.map] at h
          · simp only [Binding.set, if_neg same, Except.map] at h
            cases h
            rfl

/-- A declaration with a value, or of a variable with a type, fails only for what the frame
and the value are. -/
theorem isStatic_of_declared_error {frame : Nat} {value : Option Value} {type : Option ValueType}
    {isConstant : Bool} (written : value.isSome ∨ type.isSome ∧ isConstant = false)
    (h : frames.declared frame name value type isConstant = .error fault) :
    fault.isStatic = false := by
  unfold Frames.declared at h
  split at h
  · cases h
    rfl
  · split at h
    · next none =>
        -- there is a type or a value that gives one
        cases type with
        | some _ => cases none
        | none =>
            cases value with
            | some _ => cases none
            | none => simp at written
    · split at h
      · obtain ⟨-, rfl⟩ := written.resolve_left (by simp)
        cases h
      · split at h
        · cases h
        · cases h
          rfl

end Frames

/-! ### Effects -/

namespace Exec

/-- What two computations have to do with each other here: the first is sound. -/
def SoundFirst (α : Type) (_ : Demand α) (x _ : Exec ρ α) : Prop := Exec.Sound (fun _ => True) x

theorem Sound.declare (range : ρ) (frame : Nat) (name : String) {value : Option Value}
    {type : Option ValueType} {isConstant : Bool}
    (written : value.isSome ∨ type.isSome ∧ isConstant = false) :
    Exec.Sound (fun _ => True) (Exec.declare range frame name value type isConstant) := by
  intro m hm
  unfold Exec.declare
  cases declared : m.frames.declared frame name value type isConstant with
  | ok binding => exact .ok hm trivial
  | error fault => exact .error hm (Frames.isStatic_of_declared_error written declared)

theorem speaks_sound : Speaks id .all (SoundFirst (ρ := ρ)) where
  pure _ := .pure trivial
  bind hx hf := hx.bind fun a _ => hf a (Demand.holds_all _ a)
  fail _ _ dynamic := .fail dynamic
  display {v} _ := by
    intro m hm
    cases shown : m.display? v with
    | some text =>
        rw [Exec.display_of_some shown]
        exact .ok hm trivial
    | none =>
        rw [Exec.display_of_none shown]
        exact .unfinished
  write range text := by
    intro m hm
    change Outcome.Sound _ (Exec.write range text m)
    rw [write_eq]
    split
    · exact .ok hm trivial
    · exact .error hm rfl
  print range v _ := by
    intro m hm
    change Outcome.Sound _ (Exec.print range v m)
    rw [print_eq]
    split
    · split
      · exact .ok hm trivial
      · exact .unfinished
    · exact .error hm rfl

/-- No effect but a declaration comes across a fault that the parser rules out. -/
theorem accord_sound : Accord id (Closure.Moved id .checked) (Closure.Moved id .checked) .all
    (SoundFirst (ρ := ρ)) SoundFirst where
  toChains := speaks_sound.toChains
  scope := fun _ hm => .ok hm trivial
  insideFunction := fun _ hm => .ok hm trivial
  insideLoop := fun _ hm => .ok hm trivial
  lookup name := by
    intro m hm
    simp only [Effects.lookup]
    cases found : m.frames.lookup m.scope name.value with
    | ok v => exact .ok hm trivial
    | error fault => exact .error hm (Frames.isStatic_of_lookup_error found)
  declare range frame name _ _ _ _ _ := Sound.declare range frame name (.inl rfl)
  assign range name value _ := by
    intro m hm
    simp only [Effects.assign, Exec.assign]
    cases found : m.frames.assigned m.scope name value with
    | ok found => exact .ok hm trivial
    | error fault => exact .error hm (Frames.isStatic_of_assigned_error found)
  literal := speaks_sound.toChains.literal fun _ _ hm => .ok hm trivial
  newFunction := by
    rintro c _ ⟨hc, -⟩ -
    exact fun m hm => .ok (hm.push hc) trivial
  closure? {_ _ k _ id} _ hnone hsome := by
    intro m hm
    change (k m.closures[id]? m).Sound _
    cases found : m.closures[id]? with
    | none => exact hnone m hm
    | some c =>
        have obeys := hm c (Array.mem_of_getElem? found)
        exact hsome c _ ⟨obeys, rfl⟩ (Realm.hasScope_all _) m hm
  field? _ _ := fun _ hm => .ok hm trivial
  putField _ _ _ _ := fun _ hm => .ok hm trivial
  builtin := speaks_sound.builtin
  inBlock kind hx := hx.inBlock kind
  inCall range around _ hp hx := hx.inCall range _ fun frame => hp frame trivial

/-- A value is computed if one is written. -/
theorem isSome_of_optional {expression : Expr ρ → Exec ρ Value} {value : Option (Expr ρ)}
    {m last : Machine ρ} {v : Option Value}
    (h : Rules.optional expression value m = .ok v last) : v.isSome = value.isSome := by
  cases value with
  | some e =>
      obtain ⟨a, middle, -, h⟩ := bind_eq_ok_iff.mp h
      cases h
      rfl
  | none =>
      cases h
      rfl

/-- A type is found if one is written. -/
theorem isSome_of_resolveType? {spelled : Option (Located ρ String)} {m last : Machine ρ}
    {type : Option ValueType}
    (h : (Rules.resolveType? spelled : Exec ρ _) m = .ok type last) :
    type.isSome = spelled.isSome := by
  cases spelled with
  | some spelled =>
      obtain ⟨a, middle, -, h⟩ := bind_eq_ok_iff.mp h
      cases h
      rfl
  | none =>
      cases h
      rfl

/-- A declaration that the parser could have made. -/
theorem Sound.declaration {range : ρ} {kind : Located ρ VariableKind} {name : Located ρ String}
    {type : Option (Located ρ String)} {value : Option (Expr ρ)}
    {expression : Expr ρ → Exec ρ Value}
    (obeys : (Stmt.declare range kind name type value).Obeys .checked)
    (hvalue : Exec.Sound (fun _ => True) (Rules.optional expression value)) :
    Exec.Sound (fun _ => True) (Rules.declareVariable expression kind.value name type value) := by
  have written : value.isSome ∨ type.isSome ∧ kind.value = .var := obeys.1
  have types : Exec.Sound (fun t => t.isSome = type.isSome) (Rules.resolveType? type : Exec ρ _) :=
    Sound.result (accord_sound.resolveType? type) fun _ _ _ => isSome_of_resolveType?
  have values : Exec.Sound (fun v => v.isSome = value.isSome) (Rules.optional expression value) :=
    hvalue.result fun _ _ _ => isSome_of_optional
  refine types.bind fun t ht => values.bind fun v hv => ?_
  refine Sound.bind accord_sound.scope fun current _ => Sound.declare _ _ _ ?_
  rw [ht, hv]
  refine written.imp_right fun ⟨typed, isVar⟩ => ⟨typed, ?_⟩
  rw [isVar]
  rfl

/-- What obeys the parser's demands runs on checked machines without the faults that it rules
out, and leaves a checked machine. -/
theorem concord_sound : Concord id .checked .all (SoundFirst (ρ := ρ)) where
  toAccord := accord_sound
  target {_ target _} obeys other := by
    have assignable : target.isAssignable = true := obeys.1
    rw [other] at assignable
    cases assignable
  declaration _ _ _ _ _ _ _ obeys hvalue := Sound.declaration obeys hvalue
  unfinished := fun _ _ => .unfinished
  repeatWithin turns hx := Sound.repeatWithin hx turns

end Exec

/-- A task that a parser could have made never comes across the faults that it rules out. -/
theorem Task.sound {t : Task ρ α} (ht : t.Obeys .checked) (bound : Nat) :
    Exec.Sound (fun _ => True) (t.compute bound : Exec ρ α) :=
  Exec.concord_sound.task bound ht

/-! ### Arguments -/

/-- Where a value has the type that is declared, nothing can be wrong with a declaration but
that there is one of the name already. -/
theorem Frames.declared_error_of_type {frames : Frames} {frame : Nat} {name : String} {v : Value}
    {type : ValueType} {isConstant : Bool} {fault : Fault} (same : v.type = type)
    (h : frames.declared frame name (some v) (some type) isConstant = .error fault) :
    fault = .alreadyDeclared name := by
  subst same
  unfold Frames.declared at h
  split at h
  · cases h
    rfl
  · simp at h

/-- What can go wrong when the parameters of a call are declared: an argument is not of the
type of its parameter, which is reported where the argument stands, or a name is declared
already, which is reported at the call. -/
theorem Exec.bindParameters_error {range : ρ} {frame : Nat}
    {parameters : List (String × ValueType)} {values : List Value} {arguments : List (Expr ρ)}
    {m last : Machine ρ} {fault : Located ρ Fault}
    (h : (Rules.bindParameters range frame parameters values arguments : Exec ρ Unit) m =
      .error fault last) :
    (∃ p ∈ parameters, fault = ⟨range, .alreadyDeclared p.1⟩) ∨
      ∃ p ∈ parameters, ∃ v ∈ values, ∃ e ∈ arguments, v.type ≠ p.2 ∧
        fault = ⟨e.range, .argumentTypeMismatch p.1 p.2 v.type⟩ := by
  induction parameters generalizing values arguments m with
  | nil => cases h
  | cons p parameters ih =>
      obtain ⟨name, type⟩ := p
      match values, arguments with
      | [], _ | _ :: _, [] => cases h
      | v :: values, e :: arguments =>
          rw [Rules.bindParameters] at h
          by_cases same : v.type = type
          · rw [if_pos same] at h
            rcases bind_eq_error_iff.mp h with failed | ⟨_, middle, -, h⟩
            · left
              refine ⟨(name, type), List.mem_cons_self, ?_⟩
              simp only [Effects.declare, Exec.declare] at failed
              cases declared : m.frames.declared frame name (some v) (some type) true with
              | ok binding =>
                  rw [declared] at failed
                  cases failed
              | error cause =>
                  rw [declared] at failed
                  cases failed
                  rw [Frames.declared_error_of_type same declared]
            · rcases ih h with ⟨p, hp, rfl⟩ | ⟨p, hp, w, hw, d, hd, other, rfl⟩
              · exact .inl ⟨p, List.mem_cons_of_mem _ hp, rfl⟩
              · exact .inr ⟨p, List.mem_cons_of_mem _ hp, w, List.mem_cons_of_mem _ hw, d,
                  List.mem_cons_of_mem _ hd, other, rfl⟩
          · rw [if_neg same] at h
            cases h
            exact .inr ⟨(name, type), List.mem_cons_self, v, List.mem_cons_self, e,
              List.mem_cons_self, same, rfl⟩

end Guion
