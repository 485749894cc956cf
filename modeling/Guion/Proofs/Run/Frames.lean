import Guion.Run.Scope

/-!
# The table of frames

What is found in the table after a frame has been made or a binding written, and
what it takes for a declaration or an assignment to succeed.
-/

namespace Guion

/-! ### One frame -/

namespace Frame

theorem lookup_cons (n m : String) (b : Binding) (rest : List (String × Binding)) :
    List.lookup n ((m, b) :: rest) = if n = m then some b else rest.lookup n := by
  by_cases h : n = m
  · subst h
    simp
  · rw [if_neg h, List.lookup_cons, beq_false_of_ne h]

theorem lookup_go (name : String) (binding : Binding) (n : String)
    (list : List (String × Binding)) :
    (put.go name binding list).lookup n = if n = name then some binding else list.lookup n := by
  induction list with
  | nil => rw [put.go, lookup_cons]
  | cons entry rest ih =>
      obtain ⟨m, b⟩ := entry
      rw [put.go]
      by_cases hm : m = name
      · subst hm
        rw [if_pos rfl, lookup_cons, lookup_cons]
        by_cases h : n = m
        · rw [if_pos h, if_pos h]
        · rw [if_neg h, if_neg h, if_neg h]
      · rw [if_neg hm, lookup_cons, lookup_cons, ih]
        by_cases h : n = m
        · subst h
          rw [if_pos rfl, if_neg hm, if_pos rfl]
        · rw [if_neg h, if_neg h]

/-- What a frame binds after a binding was written. -/
theorem find?_put (frame : Frame) (name : String) (binding : Binding) (n : String) :
    (frame.put name binding).find? n = if n = name then some binding else frame.find? n :=
  lookup_go name binding n frame.bindings

end Frame

namespace Frames

variable {frames : Frames} {frame : Nat} {name : String} {binding : Binding}

/-! ### All frames -/

/-- A new frame binds nothing, and the others bind what they did. -/
theorem find?_push (frames : Frames) (kind : ScopeKind) (j : Nat) (n : String) :
    Frames.find? (frames.push ⟨kind, []⟩) j n = frames.find? j n := by
  unfold find?
  rw [Array.getElem?_push]
  by_cases h : j = frames.size
  · subst h
    simp [Frame.find?]
  · rw [if_neg h]

/-- What is bound after a binding was written into a frame. -/
theorem find?_put (frames : Frames) (frame : Nat) (name : String) (binding : Binding) (j : Nat)
    (n : String) :
    (frames.put frame name binding).find? j n =
      if j = frame ∧ n = name ∧ frame < frames.size then some binding else frames.find? j n := by
  unfold find? put
  rw [Array.getElem?_modify]
  by_cases hj : frame = j
  · subst hj
    by_cases hsize : frame < frames.size
    · rw [if_pos rfl, Array.getElem?_eq_getElem hsize]
      simp [Frame.find?_put, hsize]
    · simp [hsize]
  · rw [if_neg hj, if_neg fun h => hj h.1.symm]

/-- Frames keep the kind they were made with. -/
theorem kind?_put (frames : Frames) (frame : Nat) (name : String) (binding : Binding) (j : Nat) :
    (frames.put frame name binding).kind? j = frames.kind? j := by
  unfold kind? put
  rw [Array.getElem?_modify]
  by_cases hj : frame = j
  · rw [if_pos hj]
    cases frames[j]? <;> rfl
  · rw [if_neg hj]

theorem kind?_push (frames : Frames) (kind : ScopeKind) (j : Nat) :
    Frames.kind? (frames.push ⟨kind, []⟩) j =
      if j = frames.size then some kind else frames.kind? j := by
  unfold kind?
  rw [Array.getElem?_push]
  by_cases h : j = frames.size
  · rw [if_pos h, if_pos h]
    rfl
  · rw [if_neg h, if_neg h]

/-! ### Tables that grow -/

/-- Frames are added and keep their kinds. -/
def Extend (frames later : Frames) : Prop :=
  ∀ frame kind, frames.kind? frame = some kind → later.kind? frame = some kind

theorem Extend.refl (frames : Frames) : frames.Extend frames := fun _ _ h => h

theorem Extend.trans {a b c : Frames} (h : a.Extend b) (h' : b.Extend c) : a.Extend c :=
  fun frame kind hk => h' frame kind (h frame kind hk)

theorem Extend.push (frames : Frames) (kind : ScopeKind) :
    frames.Extend (frames.push ⟨kind, []⟩) := by
  intro frame k hk
  rw [kind?_push, if_neg ?_]
  · exact hk
  · rintro rfl
    simp [kind?] at hk

theorem Extend.put (frames : Frames) (frame : Nat) (name : String) (binding : Binding) :
    frames.Extend (frames.put frame name binding) := by
  intro j k hk
  rwa [kind?_put]

/-! ### Declaring and assigning -/

/-- A declaration succeeds only for a name that the frame does not bind yet, and only
with a value of the declared type, which a constant must have. -/
theorem declared_ok {value : Option Value} {type : Option ValueType} {isConstant : Bool}
    (h : frames.declared frame name value type isConstant = .ok binding) :
    frames.find? frame name = none ∧
      ((∃ t v, v.type = t ∧ value = some v ∧
          binding = if isConstant then .const t v else .var t (some v)) ∨
        ∃ t, value = none ∧ isConstant = false ∧ binding = .var t none) := by
  unfold declared at h
  split at h
  · cases h
  · next fresh =>
    refine ⟨by simpa using fresh, ?_⟩
    split at h
    · cases h
    · next t _ =>
      split at h
      · split at h
        · cases h
        · next variable_ =>
          cases h
          exact .inr ⟨t, rfl, by simpa using variable_, rfl⟩
      · next v _ =>
        split at h
        · next htype =>
          cases h
          exact .inl ⟨t, v, htype, rfl, rfl⟩
        · cases h

/-- What is bound by a declaration is what was declared. -/
theorem declared_value {value : Option Value} {type : Option ValueType} {isConstant : Bool}
    (h : frames.declared frame name value type isConstant = .ok binding) {v : Value}
    (hv : binding.value? = some v) : value = some v := by
  obtain ⟨-, ⟨t, w, -, rfl, rfl⟩ | ⟨t, rfl, -, rfl⟩⟩ := declared_ok h
  · cases isConstant <;> exact hv
  · cases hv

/-- A name resolves to a frame that binds it. -/
theorem resolve_find? {path : List Nat} (h : frames.resolve name path = some (frame, binding)) :
    frames.find? frame name = some binding := by
  induction path with
  | nil => cases h
  | cons first around ih =>
      rw [resolve] at h
      cases hf : frames.find? first name with
      | some b =>
          rw [hf] at h
          cases h
          exact hf
      | none =>
          rw [hf] at h
          exact ih h

/-- An assignment succeeds only for a variable, and only with a value of its type. -/
theorem assigned_ok {scope : Scope} {v : Value}
    (h : frames.assigned scope name v = .ok (frame, binding)) :
    ∃ t old, frames.find? frame name = some (.var t old) ∧ v.type = t ∧
      binding = .var t (some v) := by
  unfold assigned at h
  split at h
  · cases h
  · next first b hresolve =>
    cases b with
    | const t old => cases h
    | var t old =>
        rw [Binding.set] at h
        by_cases htype : v.type = t
        · rw [if_pos htype] at h
          cases h
          exact ⟨t, old, resolve_find? hresolve, htype, rfl⟩
        · rw [if_neg htype] at h
          cases h

/-- What is bound by an assignment is what was assigned. -/
theorem assigned_value {scope : Scope} {v w : Value}
    (h : frames.assigned scope name v = .ok (frame, binding)) (hw : binding.value? = some w) :
    w = v := by
  obtain ⟨t, old, -, -, rfl⟩ := assigned_ok h
  exact (Option.some.inj hw).symm

/-- What is found under a name is the value of the binding that the name resolves to. -/
theorem lookup_ok {scope : Scope} {v : Value} (h : frames.lookup scope name = .ok v) :
    ∃ frame binding, frames.resolve name scope.path = some (frame, binding) ∧
      binding.value? = some v := by
  unfold lookup at h
  split at h
  · cases h
  · next frame binding resolved =>
    split at h
    · cases h
    · next value hvalue =>
      cases h
      exact ⟨frame, binding, resolved, hvalue⟩

end Frames

end Guion
