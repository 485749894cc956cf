import Guion.Proofs.Run.Frames
import Mathlib.Data.List.Basic

/-!
# The tree of scopes

Scopes are made inside other scopes, and names are declared and assigned in them, in any
order. What is seen from a scope is the nearest binding on its path, so a declaration is
seen where the path leads to the scope before it leads to another binding of the name, and
an assignment is seen wherever the name means the same binding. Nothing else that can be
seen from anywhere changes, and an operation that fails changes nothing at all.
-/

namespace Guion

/-- The scopes made so far and the frames that they share. -/
structure ScopeTree where
  frames : Frames
  scopes : List Scope

namespace ScopeTree

/-- A single scope with nothing in it. -/
def root : ScopeTree := ⟨#[⟨.global, []⟩], [.outermost]⟩

/-- Makes a scope inside another one. -/
def child (tree : ScopeTree) (s : Scope) (kind : ScopeKind) : ScopeTree where
  frames := tree.frames.push ⟨kind, []⟩
  scopes := s.inner tree.frames.size :: tree.scopes

/-- The tree after a change of the frames, if there is one, and whether there is. -/
def after (tree : ScopeTree) : Except Fault Frames → Except Fault Unit × ScopeTree
  | .ok frames => (.ok (), { tree with frames })
  | .error fault => (.error fault, tree)

/-- Declares a name in a scope. -/
def declare (tree : ScopeTree) (s : Scope) (name : String) (value : Option Value)
    (type : Option ValueType) (isConstant : Bool) : Except Fault Unit × ScopeTree :=
  tree.after (tree.frames.declare s.here name value type isConstant)

/-- Assigns to a name as it is seen from a scope. -/
def assign (tree : ScopeTree) (s : Scope) (name : String) (value : Value) :
    Except Fault Unit × ScopeTree :=
  tree.after (tree.frames.assign s name value)

/-- What is seen under a name from a scope. -/
def lookup (tree : ScopeTree) (s : Scope) (name : String) : Except Fault Value :=
  tree.frames.lookup s name

/-- What is seen of a binding with such a value. -/
def seenAs (name : String) : Option Value → Except Fault Value
  | some v => .ok v
  | none => .error (.uninitialized name)

/-- The frame of the nearest scope that binds a name. -/
def nearest (tree : ScopeTree) (s : Scope) (name : String) : Option Nat :=
  s.path.find? fun frame => (tree.frames.find? frame name).isSome

/-- The way out from a scope leads to another one, or is there already, and the name is not
bound before. -/
def Exposed (tree : ScopeTree) (name : String) (target s : Scope) : Prop :=
  ∃ nearer, s.path = nearer ++ target.path ∧
    ∀ frame ∈ nearer, tree.frames.find? frame name = none

/-- The trees that the operations lead to, whether they succeed or fail. -/
inductive Built : ScopeTree → Prop
  | root : Built root
  | child {tree s} (kind : ScopeKind) : Built tree → s ∈ tree.scopes → Built (tree.child s kind)
  | declare {tree s} (name : String) (value : Option Value) (type : Option ValueType)
      (isConstant : Bool) : Built tree → s ∈ tree.scopes →
      Built (tree.declare s name value type isConstant).2
  | assign {tree s} (name : String) (value : Value) : Built tree → s ∈ tree.scopes →
      Built (tree.assign s name value).2

end ScopeTree

/-! ### Names on a path -/

namespace Frames

variable {frames later : Frames} {frame : Nat} {name : String} {binding : Binding}
variable {path : List Nat}

theorem lt_of_find? (h : frames.find? frame name = some binding) : frame < frames.size := by
  by_contra beyond
  rw [find?, Array.getElem?_eq_none (Nat.le_of_not_lt beyond)] at h
  cases h

theorem resolve_append (nearer farther : List Nat) :
    frames.resolve name (nearer ++ farther) =
      (frames.resolve name nearer).or (frames.resolve name farther) := by
  induction nearer with
  | nil => rfl
  | cons first nearer ih =>
      rw [List.cons_append, resolve, resolve, ih]
      cases frames.find? first name <;> rfl

theorem resolve_eq_none_iff :
    frames.resolve name path = none ↔ ∀ frame ∈ path, frames.find? frame name = none := by
  induction path with
  | nil => simp [resolve]
  | cons first around ih =>
      rw [resolve, List.forall_mem_cons, ← ih]
      cases frames.find? first name <;> simp

theorem resolve_congr
    (same : ∀ frame ∈ path, later.find? frame name = frames.find? frame name) :
    later.resolve name path = frames.resolve name path := by
  induction path with
  | nil => rfl
  | cons first around ih =>
      rw [List.forall_mem_cons] at same
      rw [resolve, resolve, same.1, ih same.2]

/-- The frame that a name resolves to is the first one that binds it. -/
theorem map_fst_resolve :
    (frames.resolve name path).map Prod.fst =
      path.find? fun frame => (frames.find? frame name).isSome := by
  induction path with
  | nil => rfl
  | cons first around ih =>
      rw [resolve, List.find?_cons, ← ih]
      cases frames.find? first name <;> rfl

theorem lookup_congr {s : Scope}
    (same : later.resolve name s.path = frames.resolve name s.path) :
    later.lookup s name = frames.lookup s name := by
  rw [lookup, lookup, same]

/-- Writing a binding is not seen under another name, nor from where its frame is not. -/
theorem resolve_put_of_ne {other : String} (h : frame ∈ path → other ≠ name) :
    (frames.put frame name binding).resolve other path = frames.resolve other path := by
  refine resolve_congr fun j hj => ?_
  rw [find?_put, if_neg]
  rintro ⟨rfl, same, -⟩
  exact h hj same

/-- Writing over the binding that a name resolves to. -/
theorem resolve_put_of_resolve {old : Binding}
    (h : frames.resolve name path = some (frame, old)) :
    (frames.put frame name binding).resolve name path = some (frame, binding) := by
  have size := lt_of_find? (resolve_find? h)
  induction path with
  | nil => cases h
  | cons first around ih =>
      rw [resolve] at h ⊢
      rw [find?_put]
      by_cases here : first = frame
      · rw [if_pos ⟨here, rfl, size⟩, here]
      · rw [if_neg fun found => here found.1]
        cases bound : frames.find? first name with
        | some b =>
            rw [bound] at h
            cases h
            exact absurd rfl here
        | none =>
            rw [bound] at h
            exact ih h

/-- An assignment changes the binding that the name resolves to. -/
theorem resolve_of_assigned {s : Scope} {v : Value}
    (h : frames.assigned s name v = .ok (frame, binding)) :
    ∃ old, frames.resolve name s.path = some (frame, old) := by
  unfold assigned at h
  cases found : frames.resolve name s.path with
  | none =>
      rw [found] at h
      cases h
  | some entry =>
      obtain ⟨first, old⟩ := entry
      rw [found] at h
      dsimp only at h
      cases new : old.set name v with
      | ok b =>
          rw [new] at h
          cases h
          exact ⟨old, rfl⟩
      | error fault =>
          rw [new] at h
          cases h

/-- Writing over a binding is not seen from where the name resolves to another one. -/
theorem resolve_put_of_elsewhere {old : Binding} (bound : frames.find? frame name = some old)
    (h : ∀ b, frames.resolve name path ≠ some (frame, b)) :
    (frames.put frame name binding).resolve name path = frames.resolve name path := by
  induction path with
  | nil => rfl
  | cons first around ih =>
      rw [resolve] at h ⊢
      rw [resolve, find?_put]
      by_cases here : first = frame
      · rw [here, bound] at h
        exact absurd rfl (h old)
      · rw [if_neg fun found => here found.1]
        cases found : frames.find? first name with
        | some b => rfl
        | none =>
            rw [found] at h
            exact ih h

theorem declare_ok_iff {value : Option Value} {type : Option ValueType} {isConstant : Bool} :
    frames.declare frame name value type isConstant = .ok later ↔
      ∃ binding, frames.declared frame name value type isConstant = .ok binding ∧
        later = frames.put frame name binding := by
  unfold Frames.declare
  cases frames.declared frame name value type isConstant with
  | ok binding => simp [Except.map, eq_comm]
  | error fault => simp [Except.map]

theorem assign_ok_iff {s : Scope} {value : Value} :
    frames.assign s name value = .ok later ↔
      ∃ frame binding, frames.assigned s name value = .ok (frame, binding) ∧
        later = frames.put frame name binding := by
  unfold Frames.assign
  cases frames.assigned s name value with
  | ok found => simp [Except.map, eq_comm, Prod.ext_iff]
  | error fault => simp [Except.map]

end Frames

namespace ScopeTree

variable {tree : ScopeTree} {s t : Scope}

/-! ### The shape of a tree -/

/-- Every path consists of frames that exist, each of them once, and where it comes by a
scope it goes on as the path of that scope. -/
structure Shaped (tree : ScopeTree) : Prop where
  exists_frame : ∀ s ∈ tree.scopes, ∀ frame ∈ s.path, frame < tree.frames.size
  nodup : ∀ s ∈ tree.scopes, s.path.Nodup
  joins : ∀ s ∈ tree.scopes, ∀ t ∈ tree.scopes, s.here ∈ t.path → s.path <:+ t.path

theorem Shaped.child (h : tree.Shaped) (hs : s ∈ tree.scopes) (kind : ScopeKind) :
    (tree.child s kind).Shaped := by
  have path_eq : (s.inner tree.frames.size).path = tree.frames.size :: s.path := rfl
  have absent {t : Scope} (ht : t ∈ tree.scopes) : tree.frames.size ∉ t.path :=
    fun mem => Nat.lt_irrefl _ (h.exists_frame t ht _ mem)
  constructor
  case exists_frame =>
    refine List.forall_mem_cons.mpr ⟨?_, fun t ht frame mem => ?_⟩
    · rw [path_eq]
      refine List.forall_mem_cons.mpr ⟨by simp [ScopeTree.child], fun frame mem => ?_⟩
      simpa [ScopeTree.child] using Nat.lt_succ_of_lt (h.exists_frame s hs frame mem)
    · simpa [ScopeTree.child] using Nat.lt_succ_of_lt (h.exists_frame t ht frame mem)
  case nodup =>
    refine List.forall_mem_cons.mpr ⟨?_, h.nodup⟩
    rw [path_eq]
    exact List.nodup_cons.mpr ⟨absent hs, h.nodup s hs⟩
  case joins =>
    intro a ha b hb mem
    obtain rfl | ha := List.mem_cons.mp ha
    · obtain rfl | hb := List.mem_cons.mp hb
      · exact List.suffix_refl _
      · exact absurd mem (absent hb)
    · obtain rfl | hb := List.mem_cons.mp hb
      · rw [path_eq] at mem ⊢
        obtain here | mem := List.mem_cons.mp mem
        · exact absurd (here ▸ List.mem_cons_self) (absent ha)
        · exact (h.joins a ha s hs mem).trans (List.suffix_cons _ _)
      · exact h.joins a ha b hb mem

/-- Writing bindings leaves the shape of a tree alone. -/
theorem Shaped.put (h : tree.Shaped) (frame : Nat) (name : String) (binding : Binding) :
    Shaped { tree with frames := tree.frames.put frame name binding } where
  exists_frame := by simpa [Frames.put] using h.exists_frame
  nodup := h.nodup
  joins := h.joins

/-- What an operation on the frames gives, and what it makes of the tree. -/
theorem after_eq_ok_iff {result : Except Fault Frames} {tree' : ScopeTree} :
    tree.after result = (.ok (), tree') ↔
      ∃ frames, result = .ok frames ∧ tree' = { tree with frames } := by
  cases result with
  | ok frames => simp [after, eq_comm]
  | error fault => simp [after]

theorem Shaped.after (h : tree.Shaped) {result : Except Fault Frames}
    (written : ∀ later, result = .ok later →
      ∃ frame name binding, later = tree.frames.put frame name binding) :
    (tree.after result).2.Shaped := by
  cases result with
  | ok later =>
      obtain ⟨frame, name, binding, rfl⟩ := written later rfl
      exact h.put frame name binding
  | error fault => exact h

theorem Built.shaped (h : Built tree) : tree.Shaped := by
  induction h with
  | root => constructor <;> simp [ScopeTree.root, Scope.outermost, Scope.path]
  | child kind _ hs ih => exact ih.child hs kind
  | declare name value type isConstant _ _ ih =>
      refine ih.after fun later h => ?_
      obtain ⟨binding, -, rfl⟩ := Frames.declare_ok_iff.mp h
      exact ⟨_, _, _, rfl⟩
  | assign name value _ _ ih =>
      refine ih.after fun later h => ?_
      obtain ⟨frame, binding, -, rfl⟩ := Frames.assign_ok_iff.mp h
      exact ⟨_, _, _, rfl⟩

/-! ### What a change is seen as -/

theorem lookup_of_resolve {frames : Frames} {name : String} {frame : Nat} {binding : Binding}
    (h : frames.resolve name s.path = some (frame, binding)) :
    frames.lookup s name = seenAs name binding.value? := by
  rw [Frames.lookup, h]
  dsimp only
  cases binding.value? <;> rfl

/-- A new binding is seen from the scopes that are exposed to it. -/
theorem resolve_declared (h : tree.Shaped) (hs : s ∈ tree.scopes) (ht : t ∈ tree.scopes)
    {name : String} (binding : Binding) (exposed : tree.Exposed name s t) :
    (tree.frames.put s.here name binding).resolve name t.path = some (s.here, binding) := by
  obtain ⟨nearer, split, free⟩ := exposed
  have distinct := h.nodup t ht
  rw [split, List.nodup_append] at distinct
  have apart : s.here ∉ nearer := fun mem =>
    distinct.2.2 _ mem _ List.mem_cons_self rfl
  have first : (tree.frames.put s.here name binding).resolve name nearer = none := by
    rw [Frames.resolve_put_of_ne fun mem => absurd mem apart, Frames.resolve_eq_none_iff]
    exact free
  have size := h.exists_frame s hs s.here List.mem_cons_self
  rw [split, Frames.resolve_append, first, Option.none_or, Scope.path, Frames.resolve,
    Frames.find?_put, if_pos ⟨rfl, rfl, size⟩]

/-- From other scopes a new binding is not seen: they do not lie inside its scope, or a
nearer one binds the name. -/
theorem resolve_not_declared (h : tree.Shaped) (hs : s ∈ tree.scopes) (ht : t ∈ tree.scopes)
    {name : String} (binding : Binding) (covered : ¬ tree.Exposed name s t) :
    (tree.frames.put s.here name binding).resolve name t.path =
      tree.frames.resolve name t.path := by
  by_cases mem : s.here ∈ t.path
  · obtain ⟨nearer, split⟩ := h.joins s hs t ht mem
    have distinct := h.nodup t ht
    rw [← split, List.nodup_append] at distinct
    have apart : s.here ∉ nearer := fun mem =>
      distinct.2.2 _ mem _ List.mem_cons_self rfl
    have found : (tree.frames.resolve name nearer).isSome := by
      rw [Option.isSome_iff_ne_none, ne_eq, Frames.resolve_eq_none_iff]
      exact fun free => covered ⟨nearer, split.symm, free⟩
    have same : (tree.frames.put s.here name binding).resolve name nearer =
        tree.frames.resolve name nearer :=
      Frames.resolve_put_of_ne fun mem => absurd mem apart
    rw [← split, Frames.resolve_append, Frames.resolve_append, same, Option.or_of_isSome found,
      Option.or_of_isSome found]
  · exact Frames.resolve_put_of_ne fun here => absurd here mem

theorem nearest_eq_map (tree : ScopeTree) (s : Scope) (name : String) :
    tree.nearest s name = (tree.frames.resolve name s.path).map Prod.fst :=
  Frames.map_fst_resolve.symm

open Classical in
/-- A declaration is seen from the scopes that are exposed to it, as the declared value or
as a variable without one. -/
theorem lookup_declare (h : tree.Shaped) (hs : s ∈ tree.scopes) {name : String}
    {value : Option Value} {type : Option ValueType} {isConstant : Bool} {tree' : ScopeTree}
    (done : tree.declare s name value type isConstant = (.ok (), tree')) (ht : t ∈ tree.scopes)
    (other : String) :
    tree'.lookup t other =
      if other = name ∧ tree.Exposed name s t then seenAs name value
      else tree.lookup t other := by
  obtain ⟨later, declared, rfl⟩ := after_eq_ok_iff.mp done
  obtain ⟨binding, found, rfl⟩ := Frames.declare_ok_iff.mp declared
  have held : binding.value? = value := by
    obtain ⟨-, ⟨_, v, -, rfl, rfl⟩ | ⟨_, rfl, -, rfl⟩⟩ := Frames.declared_ok found
    · cases isConstant <;> rfl
    · rfl
  split
  case isTrue seen =>
    obtain ⟨rfl, exposed⟩ := seen
    rw [lookup, lookup_of_resolve (resolve_declared h hs ht binding exposed), held]
  case isFalse unseen =>
    refine Frames.lookup_congr ?_
    by_cases same : other = name
    · subst same
      exact resolve_not_declared h hs ht binding fun exposed => unseen ⟨rfl, exposed⟩
    · exact Frames.resolve_put_of_ne fun _ => same

/-- An assignment is seen from the scopes where the name means the same binding. -/
theorem lookup_assign {name : String} {v : Value} {tree' : ScopeTree}
    (done : tree.assign s name v = (.ok (), tree')) (t : Scope) (other : String) :
    tree'.lookup t other =
      if other = name ∧ tree.nearest t name = tree.nearest s name then .ok v
      else tree.lookup t other := by
  obtain ⟨later, assigned, rfl⟩ := after_eq_ok_iff.mp done
  obtain ⟨frame, binding, found, rfl⟩ := Frames.assign_ok_iff.mp assigned
  obtain ⟨old, resolved⟩ := Frames.resolve_of_assigned found
  have target : tree.nearest s name = some frame := by
    rw [nearest_eq_map, resolved]
    rfl
  obtain ⟨type, _, -, -, rfl⟩ := Frames.assigned_ok found
  rw [target, nearest_eq_map]
  split
  case isTrue seen =>
    obtain ⟨rfl, same⟩ := seen
    obtain ⟨⟨_, b⟩, here, rfl⟩ := Option.map_eq_some_iff.mp same
    rw [lookup, lookup_of_resolve (Frames.resolve_put_of_resolve here)]
    rfl
  case isFalse unseen =>
    refine Frames.lookup_congr ?_
    by_cases same : other = name
    · subst same
      refine Frames.resolve_put_of_elsewhere (Frames.resolve_find? resolved) fun b here => ?_
      exact unseen ⟨rfl, by rw [here]; rfl⟩
    · exact Frames.resolve_put_of_ne fun _ => same

theorem after_eq_error {result : Except Fault Frames} {fault : Fault} {tree' : ScopeTree}
    (h : tree.after result = (.error fault, tree')) : tree' = tree := by
  cases result with
  | ok frames => cases h
  | error fault' =>
      cases h
      rfl

open Classical in
/-- In every tree that the operations lead to, a declaration that succeeds is seen from those
scopes whose path leads to its scope without coming by a binding of the name, as the declared
value or as a variable without one; an assignment that succeeds is seen from those scopes where
the name means the same binding. From all other scopes, and under all other names, what is seen
is what was seen before. An operation that fails leaves the tree as it is, and with it whatever
is done later. -/
theorem seen_where_resolved (built : Built tree) (hs : s ∈ tree.scopes) (name : String)
    (tree' : ScopeTree) :
    (∀ value type isConstant,
      (tree.declare s name value type isConstant = (.ok (), tree') →
        ∀ t ∈ tree.scopes, ∀ other, tree'.lookup t other =
          if other = name ∧ tree.Exposed name s t then seenAs name value
          else tree.lookup t other) ∧
      ∀ fault, tree.declare s name value type isConstant = (.error fault, tree') →
        tree' = tree) ∧
    ∀ v,
      (tree.assign s name v = (.ok (), tree') →
        ∀ t ∈ tree.scopes, ∀ other, tree'.lookup t other =
          if other = name ∧ tree.nearest t name = tree.nearest s name then .ok v
          else tree.lookup t other) ∧
      ∀ fault, tree.assign s name v = (.error fault, tree') → tree' = tree := by
  refine ⟨fun value type isConstant => ⟨fun done t ht other => ?_, fun fault failed => ?_⟩,
    fun v => ⟨fun done t _ other => ?_, fun fault failed => ?_⟩⟩
  · exact lookup_declare built.shaped hs done ht other
  · exact after_eq_error failed
  · exact lookup_assign done t other
  · exact after_eq_error failed

/-- A name declared in the outermost scope and in the first of two scopes inside it, there
without a value. -/
def shadowed : ScopeTree :=
  let outer := (root.declare .outermost "x" (some (.boolean true)) none false).2
  let first := outer.child .outermost .conditional
  let inner := (first.declare ⟨1, [0]⟩ "x" none (some .text) false).2
  inner.child .outermost .loop

/-- What is assigned from the second scope is seen from outside, and not from the first. -/
theorem seen_where_resolved_shadowed :
    Built shadowed ∧ ∃ later,
      shadowed.assign ⟨2, [0]⟩ "x" (.boolean false) = (.ok (), later) ∧
      later.lookup .outermost "x" = .ok (.boolean false) ∧
      later.lookup ⟨1, [0]⟩ "x" = .error (.uninitialized "x") := by
  have built : Built shadowed :=
    .child .loop (.declare "x" none (some .text) false
      (.child .conditional (.declare "x" (some (.boolean true)) none false .root
        (by decide)) (by decide)) (by decide)) (by decide)
  obtain ⟨later, done⟩ : ∃ later, shadowed.assign ⟨2, [0]⟩ "x" (.boolean false) =
      (.ok (), later) := ⟨_, rfl⟩
  have seen := ((seen_where_resolved built (by decide) "x" later).2 (.boolean false)).1 done
  refine ⟨built, later, done, ?_, ?_⟩
  · rw [seen .outermost (by decide), if_pos (by decide)]
  · rw [seen ⟨1, [0]⟩ (by decide), if_neg (by decide)]
    rfl

end ScopeTree

end Guion
