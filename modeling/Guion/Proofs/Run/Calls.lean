import Guion.Proofs.Run.Watched

/-!
# Where the statements of a call start

Parameters are declared one after the other, each of them like a constant, so a call can
fail before its body starts: too many calls are under way, an argument is of the wrong
type, or two parameters are of one name. Otherwise the statements of the body start in a
new frame that binds the parameters to the values and nothing else, inside the scope that
the function was made in.
-/

namespace Guion

variable {ρ : Type}

/-- Parameters can take values behind names that are taken already: no name comes twice, and
the values are of the types asked for. -/
structure Fits (taken : List String) (parameters : List (String × ValueType))
    (values : List Value) : Prop where
  names : (taken ++ parameters.map Prod.fst).Nodup
  types : values.map Value.type = parameters.map Prod.snd

/-- The bindings of parameters to values. -/
def boundTo (parameters : List (String × ValueType)) (values : List Value) :
    List (String × Binding) :=
  List.zipWith (fun p v => (p.1, .const p.2 v)) parameters values

theorem map_fst_boundTo {parameters : List (String × ValueType)} {values : List Value}
    (h : values.length = parameters.length) :
    (boundTo parameters values).map Prod.fst = parameters.map Prod.fst := by
  induction parameters generalizing values with
  | nil => rfl
  | cons p rest ih =>
      cases values with
      | nil => cases h
      | cons v values =>
          rw [boundTo, List.zipWith_cons_cons, List.map_cons, List.map_cons]
          exact congrArg _ (ih (Nat.succ.inj h))

/-- A machine with one more frame, that of a function. -/
def Machine.withFrame (m : Machine ρ) (bindings : List (String × Binding)) : Machine ρ :=
  { m with frames := m.frames.push ⟨.function, bindings⟩ }

/-- The machine that the statements of a call start on. -/
def Machine.called (m : Machine ρ) (c : Closure ρ) (values : List Value) : Machine ρ :=
  { m.withFrame (boundTo c.parameters values) with
    scope := c.scope.inner m.frames.size
    depth := m.depth + 1 }

/-! ### A frame on top -/

namespace Frames

variable (frames : Frames) {kind : ScopeKind} {bindings : List (String × Binding)} {name : String}

theorem find?_top :
    find? (frames.push ⟨kind, bindings⟩) frames.size name = bindings.lookup name := by
  simp [find?, Frame.find?]

theorem isSome_find?_top :
    (find? (frames.push ⟨kind, bindings⟩) frames.size name).isSome = true ↔
      name ∈ bindings.map Prod.fst := by
  rw [find?_top]
  induction bindings with
  | nil => simp
  | cons entry rest ih =>
      obtain ⟨n, b⟩ := entry
      rw [Frame.lookup_cons, List.map_cons, List.mem_cons]
      by_cases same : name = n
      · simp [same]
      · simp only [same, if_false, false_or, ih]

/-- A binding of a new name comes behind those that are there. -/
theorem put_top (binding : Binding) (free : name ∉ bindings.map Prod.fst) :
    put (frames.push ⟨kind, bindings⟩) frames.size name binding =
      frames.push ⟨kind, bindings ++ [(name, binding)]⟩ := by
  have behind : Frame.put.go name binding bindings = bindings ++ [(name, binding)] := by
    induction bindings with
    | nil => rfl
    | cons entry rest ih =>
        rw [List.map_cons, List.mem_cons, not_or] at free
        rw [Frame.put.go, if_neg (Ne.symm free.1), ih free.2, List.cons_append]
  apply Array.ext_getElem?
  intro j
  rw [put, Array.getElem?_modify, Array.getElem?_push, Array.getElem?_push]
  by_cases top : frames.size = j
  · simp [top.symm, Frame.put, behind]
  · simp [top, Ne.symm top]

theorem declared_top_of_free (v : Value) (free : name ∉ bindings.map Prod.fst) :
    declared (frames.push ⟨kind, bindings⟩) frames.size name (some v) (some v.type) true =
      .ok (.const v.type v) := by
  have unbound : ¬(find? (frames.push ⟨kind, bindings⟩) frames.size name).isSome = true :=
    mt (isSome_find?_top frames).mp free
  simp [declared, unbound]

theorem declared_top_of_taken (v : Value) (taken : name ∈ bindings.map Prod.fst) :
    declared (frames.push ⟨kind, bindings⟩) frames.size name (some v) (some v.type) true =
      .error (.alreadyDeclared name) := by
  rw [declared, if_pos ((isSome_find?_top frames).mpr taken)]

end Frames

/-! ### Parameters -/

theorem Fits.cons_iff {taken : List String} {name : String} {type : ValueType} {v : Value}
    {parameters : List (String × ValueType)} {values : List Value} :
    Fits taken ((name, type) :: parameters) (v :: values) ↔
      v.type = type ∧ name ∉ taken ∧ Fits (taken ++ [name]) parameters values := by
  have same : taken ++ List.map Prod.fst ((name, type) :: parameters) =
      taken ++ [name] ++ parameters.map Prod.fst := by simp
  constructor
  · rintro ⟨names, types⟩
    obtain ⟨first, types⟩ := List.cons.inj types
    refine ⟨first, fun mem => ?_, same ▸ names, types⟩
    exact (List.nodup_append.mp names).2.2 name mem name List.mem_cons_self rfl
  · rintro ⟨first, -, names, types⟩
    exact ⟨same ▸ names, by rw [List.map_cons, List.map_cons, first, types]⟩

namespace Exec

variable (range : ρ) (m : Machine ρ) {bindings : List (String × Binding)}
variable {parameters : List (String × ValueType)} {values : List Value}
variable {arguments : List (Expr ρ)}

theorem declare_of_free {name : String} (v : Value) (free : name ∉ bindings.map Prod.fst) :
    Exec.declare range m.frames.size name (some v) (some v.type) true (m.withFrame bindings) =
      .ok () (m.withFrame (bindings ++ [(name, .const v.type v)])) := by
  unfold Exec.declare
  simp only [Machine.withFrame, Frames.declared_top_of_free m.frames v free,
    Frames.put_top m.frames _ free]

theorem declare_of_taken {name : String} (v : Value) (taken : name ∈ bindings.map Prod.fst) :
    Exec.declare range m.frames.size name (some v) (some v.type) true (m.withFrame bindings) =
      .error ⟨range, .alreadyDeclared name⟩ (m.withFrame bindings) := by
  unfold Exec.declare
  simp only [Machine.withFrame, Frames.declared_top_of_taken m.frames v taken]

/-- Parameters are declared one behind the other. -/
theorem bindParameters_of_fits (h : Fits (bindings.map Prod.fst) parameters values)
    (arity : arguments.length = parameters.length) :
    (Rules.bindParameters range m.frames.size parameters values arguments : Exec ρ Unit)
      (m.withFrame bindings) = .ok () (m.withFrame (bindings ++ boundTo parameters values)) := by
  induction parameters generalizing bindings values arguments with
  | nil => simp [Rules.bindParameters, boundTo]
  | cons p parameters ih =>
      obtain ⟨name, type⟩ := p
      obtain ⟨e, arguments, rfl⟩ := List.exists_cons_of_length_eq_add_one arity
      cases values with
      | nil => cases h.types
      | cons v values =>
          obtain ⟨rfl, free, rest⟩ := Fits.cons_iff.mp h
          have known : Fits ((bindings ++ [(name, Binding.const v.type v)]).map Prod.fst)
              parameters values := by simpa using rest
          have more := ih known (Nat.succ.inj arity)
          rw [List.append_assoc] at more
          rw [Rules.bindParameters, if_pos rfl]
          exact bind_eq_ok_iff.mpr ⟨(), _, declare_of_free range m v free, more⟩

/-- Parameters that cannot take the values are not all declared. -/
theorem bindParameters_of_not_fits (h : ¬ Fits (bindings.map Prod.fst) parameters values)
    (distinct : (bindings.map Prod.fst).Nodup) (arity : arguments.length = parameters.length)
    (count : values.length = parameters.length) :
    ∃ fault last, (Rules.bindParameters range m.frames.size parameters values arguments :
      Exec ρ Unit) (m.withFrame bindings) = .error fault last := by
  induction parameters generalizing bindings values arguments with
  | nil =>
      refine absurd ⟨?_, ?_⟩ h
      · simpa using distinct
      · simpa using count
  | cons p parameters ih =>
      obtain ⟨name, type⟩ := p
      obtain ⟨v, values, rfl⟩ := List.exists_cons_of_length_eq_add_one count
      obtain ⟨e, arguments, rfl⟩ := List.exists_cons_of_length_eq_add_one arity
      rw [Rules.bindParameters]
      by_cases first : v.type = type
      · subst first
        rw [if_pos rfl]
        by_cases taken : name ∈ bindings.map Prod.fst
        · exact ⟨_, _, bind_eq_error_iff.mpr (.inl (declare_of_taken range m v taken))⟩
        · have rest : ¬ Fits ((bindings ++ [(name, Binding.const v.type v)]).map Prod.fst)
              parameters values := by
            rw [List.map_append]
            exact fun rest => h (Fits.cons_iff.mpr ⟨rfl, taken, rest⟩)
          have once : ((bindings ++ [(name, Binding.const v.type v)]).map Prod.fst).Nodup := by
            rw [List.map_append, List.nodup_append]
            refine ⟨distinct, by simp, ?_⟩
            rintro n mem _ (_ | ⟨_, ⟨⟩⟩) rfl
            exact taken mem
          obtain ⟨fault, last, failed⟩ :=
            ih rest once (Nat.succ.inj arity) (Nat.succ.inj count)
          exact ⟨fault, last, bind_eq_error_iff.mpr
            (.inr ⟨(), _, declare_of_free range m v taken, failed⟩)⟩
      · rw [if_neg first]
        exact ⟨_, _, rfl⟩

end Exec

/-! ### Bodies -/

section

variable {c : Closure ρ} {range : ρ} {m : Machine ρ} {values : List Value}
variable {arguments : List (Expr ρ)}

theorem Exec.runBody_eq (body : List (Stmt ρ) → Exec ρ Signal) :
    Rules.runBody body range c values arguments m = if callLimit ≤ m.depth then
        .error ⟨range, .callDepthExceeded callLimit⟩ m
      else
        Exec.bind (Rules.bindParameters range m.frames.size c.parameters values arguments)
          (fun _ => Exec.counted (Exec.within (c.scope.inner m.frames.size)
            (body c.body.statements))) (m.withFrame []) :=
  rfl

/-- A call whose parameters take the values is a run of the body on the machine of the call,
which comes back to the scope and the depth of the caller. -/
theorem Exec.runBody_of_fits (room : m.depth < callLimit) (h : Fits [] c.parameters values)
    (arity : arguments.length = c.parameters.length) (body : List (Stmt ρ) → Exec ρ Signal) :
    Rules.runBody body range c values arguments m =
      (body c.body.statements (m.called c values)).alter fun last =>
        { last with scope := m.scope, depth := last.depth - 1 } := by
  have bound : (Rules.bindParameters range m.frames.size c.parameters values arguments :
      Exec ρ Unit) (m.withFrame []) = .ok () (m.withFrame (boundTo c.parameters values)) :=
    bindParameters_of_fits range m h arity
  rw [runBody_eq, if_neg (Nat.not_le.mpr room)]
  unfold Exec.bind
  rw [bound]
  simp only [counted_eq_alter, within_eq_alter]
  change Outcome.alter _ (Outcome.alter _ (body c.body.statements (m.called c values))) = _
  cases body c.body.statements (m.called c values) <;> rfl

/-- Any other call fails before its body starts, whatever the body is. -/
theorem Exec.runBody_of_not_fits (h : ¬ (m.depth < callLimit ∧ Fits [] c.parameters values))
    (arity : arguments.length = c.parameters.length) (count : values.length = c.parameters.length) :
    ∃ fault last, ∀ body : List (Stmt ρ) → Exec ρ Signal,
      Rules.runBody body range c values arguments m = .error fault last := by
  by_cases room : m.depth < callLimit
  · have unfit : ¬ Fits [] c.parameters values := fun fits => h ⟨room, fits⟩
    obtain ⟨fault, last, failed⟩ : ∃ fault last, (Rules.bindParameters range m.frames.size
        c.parameters values arguments : Exec ρ Unit) (m.withFrame []) = .error fault last :=
      bindParameters_of_not_fits range m unfit .nil arity count
    refine ⟨fault, last, fun body => ?_⟩
    rw [runBody_eq, if_neg (Nat.not_le.mpr room)]
    exact bind_eq_error_iff.mpr (.inl failed)
  · refine ⟨⟨range, .callDepthExceeded callLimit⟩, m, fun body => ?_⟩
    rw [runBody_eq, if_pos (Nat.le_of_not_lt room)]

end

/-! ### Calls -/

/-- How a call ends whose body ended so: with what was given back, or else with null. -/
def Outcome.returned : Outcome ρ Signal → Outcome ρ Value
  | ok (.giveBack v) m => .ok v m
  | ok _ m => .ok .null m
  | error fault m => .error fault m
  | unfinished => .unfinished

theorem Exec.enter_eq (body : List (Stmt ρ) → Exec ρ Signal) (range : ρ) (c : Closure ρ)
    (values : List Value) (arguments : List (Expr ρ)) (m : Machine ρ) :
    Rules.enter body range c values arguments m =
      (Rules.runBody body range c values arguments m).returned := by
  change Exec.bind (Rules.runBody body range c values arguments) _ m = _
  unfold Exec.bind
  cases Rules.runBody body range c values arguments m with
  | ok signal last => cases signal <;> rfl
  | _ => rfl

theorem Exec.length_of_all {expression : Expr ρ → Exec ρ Value} {list : List (Expr ρ)}
    {values : List Value} {m m' : Machine ρ} (h : Rules.all expression list m = .ok values m') :
    values.length = list.length := by
  induction list generalizing values m with
  | nil =>
      cases h
      rfl
  | cons e rest ih =>
      obtain ⟨v, middle, -, h⟩ := bind_eq_ok_iff.mp h
      obtain ⟨more, last, hrest, h⟩ := bind_eq_ok_iff.mp h
      cases h
      exact congrArg (· + 1) (ih hrest)

/-- Runs statements within a bound. -/
abbrev Exec.statements (bound : Nat) (list : List (Stmt ρ)) : Exec ρ Signal :=
  Rules.statements (Rules.statement bound) list

/-- Runs the body of a function on values within a bound. -/
abbrev Exec.runBody (bound : Nat) (range : ρ) (c : Closure ρ) (values : List Value)
    (arguments : List (Expr ρ)) : Exec ρ Signal :=
  Rules.runBody (Rules.statements (Rules.statement bound)) range c values arguments

/-- A call of a function computes what is called, then the arguments if there are as many as
there are parameters, and then runs the body on their values. -/
theorem Exec.run_call {bound id : Nat} {callee : Expr ρ} {arguments : List (Expr ρ)}
    {c : Closure ρ} {values : List Value} {m middle before : Machine ρ}
    (called : (Task.expression callee).run bound m = .ok (.function id) middle)
    (found : middle.closures[id]? = some c) (arity : arguments.length = c.parameters.length)
    (computed : Rules.all (Exec.expression bound) arguments middle = .ok values before)
    (range opening closing part : ρ) :
    (Task.expression (.call range callee arguments opening closing part)).run (bound + 1) m =
      (Exec.runBody bound range c values arguments before).returned := by
  rw [← enter_eq]
  refine (bind_of_ok called _).trans ?_
  have look : (Effects.closure? id : Exec ρ (Option (Closure ρ))) middle =
      .ok (some c) middle := congrArg (Outcome.ok · middle) found
  refine (bind_of_ok look _).trans ?_
  simp only [if_pos arity]
  exact bind_of_ok computed _

end Guion
