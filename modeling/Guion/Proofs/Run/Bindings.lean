import Guion.Proofs.Run.Frames
import Guion.Proofs.Run.Watched

/-!
# Bindings over whole runs

A binding that holds a value holds one of its declared type. Once a name is bound in
a frame it stays bound there, as a constant or as a variable of the same type; a
constant keeps its value and a variable does not lose the one it has. No change of a
machine breaks this, so it holds between any two moments of a history, however far
apart and whatever failed in between.
-/

namespace Guion

variable {ρ : Type}

/-- A value that a binding holds is of the declared type. -/
def Binding.WellTyped (b : Binding) : Prop := ∀ v, b.value? = some v → v.type = b.type

/-- How a binding may look later: its kind and its type are the same, a constant
holds the same value, and a variable that holds a value still holds one. -/
def Binding.Persists : Binding → Binding → Prop
  | .const t v, .const t' v' => t' = t ∧ v' = v
  | .var t v, .var t' v' => t' = t ∧ (v.isSome → v'.isSome)
  | _, _ => False

theorem Binding.Persists.refl (b : Binding) : b.Persists b := by
  cases b with
  | var t v => exact ⟨rfl, fun h => h⟩
  | const t v => exact ⟨rfl, rfl⟩

theorem Binding.Persists.trans {a b c : Binding} (h : a.Persists b) (h' : b.Persists c) :
    a.Persists c := by
  cases a with
  | var t v =>
      cases b with
      | const => cases h
      | var t' v' =>
          cases c with
          | const => cases h'
          | var t'' v'' => exact ⟨h'.1.trans h.1, fun held => h'.2 (h.2 held)⟩
  | const t v =>
      cases b with
      | var => cases h
      | const t' v' =>
          cases c with
          | var => cases h'
          | const t'' v'' => exact ⟨h'.1.trans h.1, h'.2.trans h.2⟩

namespace Frames

/-- Every binding of every frame that holds a value holds one of its type. -/
def WellTyped (frames : Frames) : Prop :=
  ∀ frame name b, frames.find? frame name = some b → b.WellTyped

/-- Every name bound in a frame is bound there later. -/
def Persist (frames later : Frames) : Prop :=
  ∀ frame name b, frames.find? frame name = some b →
    ∃ b', later.find? frame name = some b' ∧ b.Persists b'

theorem Persist.refl (frames : Frames) : frames.Persist frames :=
  fun _ _ b h => ⟨b, h, .refl b⟩

theorem Persist.trans {a b c : Frames} (h : a.Persist b) (h' : b.Persist c) : a.Persist c := by
  intro frame name binding hbinding
  obtain ⟨middle, hmiddle, first⟩ := h frame name binding hbinding
  obtain ⟨final, hfinal, second⟩ := h' frame name middle hmiddle
  exact ⟨final, hfinal, first.trans second⟩

variable {frames : Frames} {frame : Nat} {name : String} {b : Binding}

theorem WellTyped.put (h : frames.WellTyped) (hb : b.WellTyped) :
    (frames.put frame name b).WellTyped := by
  intro j n b' hb'
  rw [find?_put] at hb'
  split at hb'
  · cases hb'
    exact hb
  · exact h j n b' hb'

theorem WellTyped.push (h : frames.WellTyped) (kind : ScopeKind) :
    Frames.WellTyped (frames.push ⟨kind, []⟩) := by
  intro j n b hb
  rw [find?_push] at hb
  exact h j n b hb

theorem Persist.push (frames : Frames) (kind : ScopeKind) :
    frames.Persist (frames.push ⟨kind, []⟩) := by
  intro j n b hb
  exact ⟨b, by rwa [find?_push], .refl b⟩

/-- Writing a binding keeps the others; the one that was there has to persist. -/
theorem Persist.put (h : ∀ old, frames.find? frame name = some old → old.Persists b) :
    frames.Persist (frames.put frame name b) := by
  intro j n old hold
  rw [find?_put]
  split
  · next here =>
    obtain ⟨rfl, rfl, -⟩ := here
    exact ⟨b, rfl, h old hold⟩
  · exact ⟨old, hold, .refl old⟩

theorem wellTyped_of_declared {value : Option Value} {type : Option ValueType} {isConstant : Bool}
    (h : frames.declared frame name value type isConstant = .ok b) : b.WellTyped := by
  intro v hv
  rcases (declared_ok h).2 with ⟨t, w, htype, -, rfl⟩ | ⟨t, -, -, rfl⟩
  · cases isConstant with
    | true =>
        cases hv
        exact htype
    | false =>
        cases hv
        exact htype
  · cases hv

theorem wellTyped_of_assigned {scope : Scope} {v : Value}
    (h : frames.assigned scope name v = .ok (frame, b)) : b.WellTyped := by
  obtain ⟨t, old, -, htype, rfl⟩ := assigned_ok h
  intro w hw
  cases hw
  exact htype

theorem persist_of_declared {value : Option Value} {type : Option ValueType} {isConstant : Bool}
    (h : frames.declared frame name value type isConstant = .ok b) :
    frames.Persist (frames.put frame name b) := by
  refine Persist.put fun old hold => ?_
  rw [(declared_ok h).1] at hold
  cases hold

theorem persist_of_assigned {scope : Scope} {v : Value}
    (h : frames.assigned scope name v = .ok (frame, b)) :
    frames.Persist (frames.put frame name b) := by
  obtain ⟨t, value, hfound, -, rfl⟩ := assigned_ok h
  refine Persist.put fun old hold => ?_
  rw [hfound] at hold
  cases hold
  exact ⟨rfl, fun _ => rfl⟩

/-- The built-in constants are declared like all others: what declarations of them keep true
of the frames is true once they are all there. -/
theorem install_induction {P : Frames → Prop} {frames : Frames} (start : P frames) (frame : Nat)
    (step : ∀ {frames : Frames} {name : String} {value : Value} {b : Binding},
      (name, value) ∈ Builtin.values →
      frames.declared frame name (some value) none true = .ok b → P frames →
      P (frames.put frame name b)) :
    P (Builtin.install frames frame).1 := by
  have go : ∀ list ⊆ Builtin.values, ∀ frames : Frames, P frames →
      P (Builtin.install.go frame frames list).1 := by
    intro list
    induction list with
    | nil => exact fun _ frames h => h
    | cons entry rest ih =>
        intro listed frames h
        obtain ⟨name, value⟩ := entry
        obtain ⟨first, more⟩ := List.cons_subset.mp listed
        rw [Builtin.install.go]
        cases hd : frames.declared frame name (some value) none true with
        | error fault => simpa [Frames.declare, hd, Except.map] using h
        | ok b =>
            simp only [Frames.declare, hd, Except.map]
            exact ih more _ (step first hd h)
  exact go _ (List.Subset.refl _) _ start

theorem wellTyped_install {frames : Frames} (h : frames.WellTyped) (frame : Nat) :
    (Builtin.install frames frame).1.WellTyped :=
  install_induction h frame fun _ hd h => h.put (wellTyped_of_declared hd)

end Frames

/-! ### Machines -/

/-- Every binding that holds a value holds one of its type. -/
def Machine.WellTyped (m : Machine ρ) : Prop := m.frames.WellTyped

theorem Machine.wellTyped_initial (limit : Option Nat) :
    (Machine.initial limit : Machine ρ).WellTyped := by
  have empty : Frames.WellTyped #[] := by
    intro frame name b hb
    simp [Frames.find?] at hb
  exact Frames.wellTyped_install (empty.push .global) 0

/-- No change breaks the typing of bindings. -/
theorem Change.wellTyped {m m' : Machine ρ} (change : Change m m') (h : m.WellTyped) :
    m'.WellTyped := by
  cases change with
  | newFrame kind => exact Frames.WellTyped.push h kind
  | declare hd => exact Frames.WellTyped.put h (Frames.wellTyped_of_declared hd)
  | assign ha => exact Frames.WellTyped.put h (Frames.wellTyped_of_assigned ha)
  | _ => exact h

/-- No change breaks what was bound before. -/
theorem Change.persist {m m' : Machine ρ} (change : Change m m') : m.frames.Persist m'.frames := by
  cases change with
  | newFrame kind => exact Frames.Persist.push m.frames kind
  | declare hd => exact Frames.persist_of_declared hd
  | assign ha => exact Frames.persist_of_assigned ha
  | _ => exact .refl _

/-! ### Histories -/

/-- The machines that were passed through in any number of runs, each of which ended,
with a result or with a fault, before the next one began; and the machine that the
next one begins with. -/
inductive History (limit : Option Nat) : List (Machine ρ) → Machine ρ → Prop
  | start : History limit [Machine.initial limit] (Machine.initial limit)
  | run {past : List (Machine ρ)} {m m' : Machine ρ} {α : Type} (bound : Nat) (t : Task ρ α) :
      History limit past m → (t.run bound m).machine? = some m' →
      History limit (past ++ (t.watch bound m).path.later) m'

/-- A list of machines that is stable and well typed, up to its last machine. -/
structure Stable (past : List (Machine ρ)) (m : Machine ρ) : Prop where
  typed : ∀ n ∈ past, n.WellTyped
  pairwise : past.Pairwise fun n n' => n.frames.Persist n'.frames
  last : m ∈ past
  upTo : ∀ n ∈ past, n.frames.Persist m.frames

/-- What one more run adds to a history. -/
theorem Stable.append {past : List (Machine ρ)} {m m' : Machine ρ} (h : Stable past m)
    (path : Path m m') : Stable (past ++ path.later) m' := by
  let R (n n' : Machine ρ) : Prop := n.frames.Persist n'.frames
  have typed := path.invariant Change.wellTyped (h.typed m h.last)
  have pairwise := List.pairwise_cons.mp
    (path.pairwise (R := R) Frames.Persist.trans Change.persist)
  have reached := path.to_last (R := R) (fun n => .refl n.frames) Frames.Persist.trans
    Change.persist
  refine ⟨?_, ?_, ?_, ?_⟩
  · intro n hn
    rcases List.mem_append.mp hn with hn | hn
    · exact h.typed n hn
    · exact typed n (List.mem_cons_of_mem _ hn)
  · refine List.pairwise_append.mpr ⟨h.pairwise, pairwise.2, fun n hn n' hn' => ?_⟩
    exact (h.upTo n hn).trans (pairwise.1 n' hn')
  · rcases List.mem_cons.mp path.last_mem with rfl | hlast
    · exact List.mem_append_left _ h.last
    · exact List.mem_append_right _ hlast
  · intro n hn
    rcases List.mem_append.mp hn with hn | hn
    · exact (h.upTo n hn).trans (reached m List.mem_cons_self)
    · exact reached n (List.mem_cons_of_mem _ hn)

theorem History.stable {limit : Option Nat} {past : List (Machine ρ)} {m : Machine ρ}
    (h : History limit past m) : Stable past m := by
  induction h with
  | start =>
      refine ⟨fun n hn => ?_, List.pairwise_singleton _ _, List.mem_singleton.mpr rfl,
        fun n hn => ?_⟩
      · rw [List.mem_singleton.mp hn]
        exact Machine.wellTyped_initial limit
      · rw [List.mem_singleton.mp hn]
        exact .refl _
  | run bound t _ ends ih =>
      rw [← t.outcome_watch] at ends
      rw [← Run.last_eq ends]
      exact ih.append _

/-- At every moment of any sequence of runs, the one under way included, all bindings
are well typed, and whatever is bound at some moment persists at all later ones. -/
theorem bindings_stable_and_typed {ρ α : Type} {limit : Option Nat} {past : List (Machine ρ)}
    {m : Machine ρ} (h : History limit past m) (bound : Nat) (t : Task ρ α) :
    (t.watch bound m).outcome = t.run bound m ∧
      (∀ n ∈ past ++ (t.watch bound m).path.later, n.WellTyped) ∧
      (past ++ (t.watch bound m).path.later).Pairwise
        fun n n' => n.frames.Persist n'.frames := by
  have stable := h.stable.append (t.watch bound m).path
  exact ⟨t.outcome_watch bound m, stable.typed, stable.pairwise⟩

/-- A program that declares a constant and then fails to assign to it. -/
def reassignment : Program Unit :=
  ⟨(), [.declare () ⟨(), .const⟩ ⟨(), "c"⟩ none (some (.text () "a")),
    .expression () (.assign () (.reference () ⟨(), "c"⟩) (.text () "b"))]⟩

theorem bindings_stable_and_typed_reassignment :
    ∃ m, (Task.program reassignment).run 3 (Machine.initial none) =
        .error ⟨(), .assignToConstant "c"⟩ m ∧
      (([Machine.initial none] ++
        ((Task.program reassignment).watch 3 (Machine.initial none)).path.later) ++
        ((Task.expression (.reference () ⟨(), "c"⟩)).watch 1 m).path.later).Pairwise
          fun (n n' : Machine Unit) => n.frames.Persist n'.frames := by
  refine ⟨_, rfl, ?_⟩
  exact (bindings_stable_and_typed (.run 3 (.program reassignment) .start rfl) 1
    (.expression (.reference () ⟨(), "c"⟩))).2.2

end Guion
