import Guion.Proofs.Run.Calls

/-!
# Declarations are local to their block

Only a declaration binds a name, and it does so in the frame of the scope that it stands
in. An expression can come across declarations in the functions that it calls, and so can
a statement in its blocks, but these stand in frames made on the way. So a run leaves the
frames that were there before with the names that they had, but for the name that the
statement itself declares.

`Exec.BindsOnly` says in which of the frames that were there before a computation may bind
names. Expressions bind names in none of them, and what runs in a block or in a call binds
names in its own frame at most; the way between the two goes through the frame that a
block or a call begins with, which is new.
-/

namespace Guion

variable {ρ α β : Type}

/-! ### Names that frames bind -/

/-- A frame of a machine binds a name. -/
def Machine.Binds (m : Machine ρ) (frame : Nat) (name : String) : Prop :=
  (m.frames.find? frame name).isSome = true

instance (m : Machine ρ) (frame : Nat) (name : String) : Decidable (m.Binds frame name) :=
  inferInstanceAs (Decidable ((m.frames.find? frame name).isSome = true))

/-- The name that a statement declares where it stands. -/
def Stmt.declared? : Stmt ρ → Option String
  | .declare _ _ name _ _ | .function _ name _ => some name.value
  | _ => none

/-- From one machine to another frames have only been added, and those that were there bind
the names that they did, but for those that are spared. -/
structure Machine.SameNames (spared : Nat → Prop) (m m' : Machine ρ) : Prop where
  scope : m'.scope = m.scope
  size : m.frames.size ≤ m'.frames.size
  names : ∀ frame < m.frames.size, ¬ spared frame → ∀ name, m'.Binds frame name ↔ m.Binds frame name

namespace Machine

variable {m m' m'' : Machine ρ} {spared : Nat → Prop}

@[simp] theorem binds_push (m : Machine ρ) (kind : ScopeKind) (frame : Nat) (name : String) :
    Binds { m with frames := m.frames.push ⟨kind, []⟩ } frame name ↔ m.Binds frame name := by
  simp only [Binds, Frames.find?_push]

theorem Binds.lt {frame : Nat} {name : String} (h : m.Binds frame name) :
    frame < m.frames.size := by
  apply Nat.lt_of_not_le
  intro outside
  simp [Binds, Frames.find?, Array.getElem?_eq_none outside] at h

namespace SameNames

theorem of_frames (scope : m'.scope = m.scope) (frames : m'.frames = m.frames) :
    SameNames spared m m' where
  scope := scope
  size := Nat.le_of_eq (congrArg Array.size frames.symm)
  names _ _ _ _ := by rw [Binds, Binds, frames]

theorem trans (h : SameNames spared m m') (h' : SameNames spared m' m'') :
    SameNames spared m m'' where
  scope := h'.scope.trans h.scope
  size := Nat.le_trans h.size h'.size
  names frame lt spare name :=
    (h'.names frame (Nat.lt_of_lt_of_le lt h.size) spare name).trans (h.names frame lt spare name)

theorem mono {spared' : Nat → Prop} (h : SameNames spared m m')
    (more : ∀ frame, spared frame → spared' frame) : SameNames spared' m m' where
  scope := h.scope
  size := h.size
  names frame lt spare := h.names frame lt fun own => spare (more frame own)

/-- What binds names in a new frame only, binds names in no frame that was there before. -/
theorem of_push {kind : ScopeKind}
    (h : SameNames (· = m.frames.size) { m with frames := m.frames.push ⟨kind, []⟩ } m') :
    SameNames (fun _ => False) m m' where
  scope := h.scope
  size := by
    have := h.size
    rw [Array.size_push] at this
    exact Nat.le_of_succ_le this
  names frame lt _ name := by
    have old : frame < (m.frames.push ⟨kind, []⟩).size := by
      rw [Array.size_push]
      exact Nat.lt_succ_of_lt lt
    exact (h.names frame old (Nat.ne_of_lt lt) name).trans (m.binds_push kind frame name)

end SameNames

end Machine

/-! ### Computations -/

/-- However a computation ends, it has bound names in those frames only that were not there
before or that it may bind names in, which depends on the scope it runs in. -/
def Exec.BindsOnly (spared : Scope → Nat → Prop) (x : Exec ρ α) : Prop :=
  ∀ m m', (x m).machine? = some m' → Machine.SameNames (spared m.scope) m m'

/-- No frame. -/
def nowhere : Scope → Nat → Prop := fun _ _ => False

/-- The frame of the scope itself. -/
def atHome : Scope → Nat → Prop := fun scope frame => frame = scope.here

namespace Exec.BindsOnly

variable {spared : Scope → Nat → Prop} {x : Exec ρ α}

theorem of_frames (h : ∀ m m', (x m).machine? = some m' →
    m'.scope = m.scope ∧ m'.frames = m.frames) : BindsOnly spared x :=
  fun m m' ends => .of_frames (h m m' ends).1 (h m m' ends).2

/-- Giving a value after a change to something else than frames and scope. -/
theorem gives (f : Machine ρ → α) (g : Machine ρ → Machine ρ) (scope : ∀ m, (g m).scope = m.scope)
    (frames : ∀ m, (g m).frames = m.frames) : BindsOnly spared fun m => .ok (f m) (g m) :=
  of_frames fun m m' ends => by
    cases ends
    exact ⟨scope m, frames m⟩

theorem looks (f : Machine ρ → α) : BindsOnly spared fun m => .ok (f m) m :=
  gives f id (fun _ => rfl) fun _ => rfl

theorem fails (range : ρ) (fault : Fault) :
    BindsOnly spared (Effects.fail range fault : Exec ρ α) :=
  of_frames fun m m' ends => by
    cases ends
    exact ⟨rfl, rfl⟩

theorem weaken (h : BindsOnly nowhere x) : BindsOnly spared x :=
  fun m m' ends => (h m m' ends).mono fun _ => False.elim

theorem bind {k : α → Exec ρ β} (hx : BindsOnly spared x) (hk : ∀ a, BindsOnly spared (k a)) :
    BindsOnly spared (x >>= k) := by
  intro m m' ends
  change (Exec.bind x k m).machine? = some m' at ends
  unfold Exec.bind at ends
  cases run : x m with
  | ok a middle =>
      rw [run] at ends
      have first := hx m middle (by rw [run]; rfl)
      have second := hk a middle m' ends
      rw [first.scope] at second
      exact first.trans second
  | error fault last =>
      rw [run] at ends
      exact hx m m' (by rw [run]; exact ends)
  | unfinished =>
      rw [run] at ends
      cases ends

/-! ### Effects -/

theorem declare (range : ρ) (frame : Nat) (name : String) (value : Option Value)
    (type : Option ValueType) (isConstant : Bool) :
    BindsOnly (fun _ j => j = frame) (Exec.declare range frame name value type isConstant) := by
  intro m m' ends
  unfold Exec.declare at ends
  cases declared : m.frames.declared frame name value type isConstant with
  | ok binding =>
      rw [declared] at ends
      cases ends
      refine ⟨rfl, by simp [Frames.put], fun j _ other n => ?_⟩
      simp [Machine.Binds, Frames.find?_put, other]
  | error fault =>
      rw [declared] at ends
      cases ends
      exact .of_frames rfl rfl

theorem assign (range : ρ) (name : String) (value : Value) :
    BindsOnly spared (Exec.assign range name value) := by
  intro m m' ends
  unfold Exec.assign at ends
  cases assigned : m.frames.assigned m.scope name value with
  | ok found =>
      obtain ⟨frame, binding⟩ := found
      rw [assigned] at ends
      cases ends
      obtain ⟨type, old, bound, -⟩ := Frames.assigned_ok assigned
      refine ⟨rfl, by simp [Frames.put], fun j _ _ n => ?_⟩
      simp only [Machine.Binds, Frames.find?_put]
      split
      · next same =>
        obtain ⟨rfl, rfl, -⟩ := same
        simp [bound]
      · exact Iff.rfl
  | error fault =>
      rw [assigned] at ends
      cases ends
      exact .of_frames rfl rfl

/-- What runs in another scope binds names in the frame of that scope. -/
theorem within (scope : Scope) (hx : BindsOnly atHome x) :
    BindsOnly (fun _ frame => frame = scope.here) (Exec.within scope x) := by
  intro m m' ends
  rw [Exec.within_eq_alter, Outcome.machine?_alter, Option.map_eq_some_iff] at ends
  obtain ⟨last, ends, rfl⟩ := ends
  have inside := hx _ _ ends
  exact ⟨rfl, inside.size, inside.names⟩

theorem counted (hx : BindsOnly spared x) : BindsOnly spared (Exec.counted x) := by
  intro m m' ends
  rw [Exec.counted_eq_alter, Outcome.machine?_alter, Option.map_eq_some_iff] at ends
  obtain ⟨last, ends, rfl⟩ := ends
  have inside := hx _ _ ends
  exact ⟨inside.scope, inside.size, inside.names⟩

theorem inBlock (kind : ScopeKind) (hx : BindsOnly atHome x) :
    BindsOnly nowhere (Exec.inBlock kind x) :=
  fun m _ ends => .of_push (within (m.scope.inner m.frames.size) hx _ _ ends)

theorem inCall (range : ρ) (around : Scope) {prepare : Nat → Exec ρ Unit}
    (hprepare : ∀ frame, BindsOnly (fun _ j => j = frame) (prepare frame))
    (hx : BindsOnly atHome x) : BindsOnly nowhere (Exec.inCall range around prepare x) := by
  intro m m' ends
  unfold Exec.inCall at ends
  split at ends
  · cases ends
    exact .of_frames rfl rfl
  · have run : BindsOnly (fun _ j => j = m.frames.size) (prepare m.frames.size >>= fun _ =>
        Exec.counted (Exec.within (around.inner m.frames.size) x)) :=
      bind (hprepare _) fun _ => counted (within _ hx)
    exact .of_push (run _ _ ends)

theorem repeatWithin {step : Exec ρ (Option α)} (hstep : BindsOnly spared step) (turns : Nat) :
    BindsOnly spared (Exec.repeatWithin step turns) := by
  induction turns with
  | zero => exact fun _ _ ends => nomatch ends
  | succ n ih =>
      rw [Exec.repeatWithin_succ]
      refine bind hstep fun found => ?_
      cases found with
      | some a => exact looks fun _ => a
      | none => exact ih

/-! ### Rules -/

/-- What two computations have to do with each other here: the first binds names only where
it may. -/
def First (spared : Scope → Nat → Prop) (α : Type) (_ : Demand α) (x _ : Exec ρ α) : Prop :=
  BindsOnly spared x

theorem speaks (spared : Scope → Nat → Prop) : Speaks id .all (First (ρ := ρ) spared) where
  pure {_ _ a} _ := looks fun _ => a
  bind hx hk := bind hx fun a => hk a (Demand.holds_all _ a)
  fail range fault _ := fails range fault
  display {v} _ := of_frames fun m m' ends => by
    cases shown : m.display? v with
    | some text =>
        rw [Exec.display_of_some shown] at ends
        cases ends
        exact ⟨rfl, rfl⟩
    | none =>
        rw [Exec.display_of_none shown] at ends
        cases ends
  write range text := of_frames fun m m' ends => by
    change (Exec.write range text m).machine? = some m' at ends
    rw [write_eq] at ends
    split at ends <;> cases ends <;> exact ⟨rfl, rfl⟩
  print range v _ := of_frames fun m m' ends => by
    change (Exec.print range v m).machine? = some m' at ends
    rw [print_eq] at ends
    split at ends
    · split at ends <;> cases ends
      exact ⟨rfl, rfl⟩
    · cases ends
      exact ⟨rfl, rfl⟩

theorem evaluates (spared : Scope → Nat → Prop) :
    Evaluates id (Closure.Moved id .free) (Closure.Moved id .free) .all
      (First (ρ := ρ) spared) where
  toChains := (speaks spared).toChains
  scope := looks _
  insideFunction := looks _
  insideLoop := looks _
  lookup name := of_frames fun m m' ends => by
    simp only [Effects.lookup] at ends
    split at ends <;> cases ends <;> exact ⟨rfl, rfl⟩
  assign range name value _ := assign range name value
  literal := (speaks spared).toChains.literal fun _ =>
    gives _ _ (fun _ => rfl) fun _ => rfl
  newFunction _ _ := gives _ _ (fun _ => rfl) fun _ => rfl
  closure? {_ _ k _ id} _ hnone hsome := by
    intro m m' ends
    change (k m.closures[id]? m).machine? = some m' at ends
    cases found : m.closures[id]? with
    | none =>
        rw [found] at ends
        exact hnone m m' ends
    | some c =>
        rw [found] at ends
        exact hsome c (c.map _) ⟨c.body.obeys_free, rfl⟩ (Realm.hasScope_all _) m m' ends
  field? _ _ := looks _

theorem bindParameters (range : ρ) (frame : Nat) (parameters : List (String × ValueType))
    (values : List Value) (arguments : List (Expr ρ)) :
    BindsOnly (fun _ j => j = frame)
      (Rules.bindParameters range frame parameters values arguments : Exec ρ Unit) := by
  induction parameters, values, arguments using Rules.bindParameters.induct with
  | case1 name parameters v values e arguments ih =>
      rw [Rules.bindParameters, if_pos rfl]
      exact bind (declare range frame name (some v) (some v.type) true) fun _ => ih
  | case2 name type parameters v values e arguments other =>
      rw [Rules.bindParameters, if_neg other]
      exact fails _ _
  | case3 parameters values arguments missing =>
      rw [Rules.bindParameters]
      · exact looks _
      · exact missing

section

variable {n : Nat} {expression : Expr ρ → Exec ρ Value} {body : List (Stmt ρ) → Exec ρ Signal}
variable (he : ∀ e, BindsOnly nowhere (expression e)) (hbody : ∀ list, BindsOnly atHome (body list))

include hbody

theorem block (b : Block ρ) : BindsOnly nowhere (Rules.block body b) :=
  inBlock b.kind.scopeKind (hbody b.statements)

theorem runBody (range : ρ) (c : Closure ρ) (values : List Value) (arguments : List (Expr ρ)) :
    BindsOnly nowhere (Rules.runBody body range c values arguments) :=
  inCall range c.scope (fun _ => bindParameters _ _ _ _ _) (hbody c.body.statements)

include he

theorem expressionStep (e : Expr ρ) :
    BindsOnly nowhere (Rules.expressionStep expression body e) := by
  have both : First nowhere Value .value (Rules.expressionStep expression body e)
      (Rules.expressionStep expression body (e.map id)) := by
    have h := evaluates (ρ := ρ) nowhere
    have inside : e.Inside .free := e.obeys_free.inside
    refine h.expressionStep_map (fun e _ => he e) inside ?_ ?_
    · rintro range target source rfl
      exact h.assign_map (fun e _ => he e) range inside.1 inside.2
        (fun _ _ _ _ _ _ => gives _ _ (fun _ => rfl) fun _ => rfl) fun _ range => fails range _
    · rintro range callee arguments opening closing part rfl
      exact h.call_map (fun e _ => he e) range opening closing part inside.1 inside.2
        (fun c _ _ values _ => runBody hbody range c values arguments)
        fun b _ => (speaks nowhere).builtin range b
  exact both

/-- A statement that declares nothing where it stands. -/
theorem statementStep {s : Stmt ρ} (hs : s.declared? = none) :
    BindsOnly nowhere (Rules.statementStep n expression body s) := by
  have both : First nowhere Signal .signal (Rules.statementStep n expression body s)
      (Rules.statementStep n expression body (s.map id)) := by
    apply (evaluates nowhere).statementStep_map (fun e _ => he e) (fun b _ => block hbody b)
    · exact s.obeys_free.inside
    · exact fun _ _ _ hx => repeatWithin hx n
    · rintro _ _ _ _ _ rfl
      cases hs
    · rintro _ _ _ rfl
      cases hs
  exact both

end

end Exec.BindsOnly

/-! ### Declarations -/

/-- What a declaration does to the names of a machine. -/
structure Machine.Gains (name : String) (m m' : Machine ρ) : Prop where
  scope : m'.scope = m.scope
  size : m.frames.size ≤ m'.frames.size
  names : ∀ frame < m.frames.size, ∀ n,
    m'.Binds frame n ↔ m.Binds frame n ∨ frame = m.scope.here ∧ n = name
  fresh : ¬ m.Binds m.scope.here name

namespace Machine

variable {m middle m' : Machine ρ} {name : String}

theorem Gains.after (h : SameNames (fun _ => False) m middle) (h' : Gains name middle m') :
    Gains name m m' where
  scope := h'.scope.trans h.scope
  size := Nat.le_trans h.size h'.size
  names frame lt n := by
    rw [h'.names frame (Nat.lt_of_lt_of_le lt h.size) n, h.names frame lt id n, h.scope]
  fresh bound := by
    apply h'.fresh
    rw [h.scope]
    exact (h.names _ bound.lt id name).mpr bound

theorem Gains.sameNames (h : Gains name m m') : SameNames (· = m.scope.here) m m' where
  scope := h.scope
  size := h.size
  names frame lt other n := by simp [h.names frame lt n, other]

end Machine

/-- A computation that binds a name in the frame of its scope if it succeeds, and that binds
no name in a frame that was there before if it fails. -/
structure Exec.Declares (name : String) (x : Exec ρ α) : Prop where
  ok : ∀ m a m', x m = .ok a m' → m.Gains name m'
  error : ∀ m fault m', x m = .error fault m' → m.SameNames (fun _ => False) m'

namespace Exec.Declares

variable {name : String} {x : Exec ρ α}

theorem bindsOnly (h : Declares name x) : BindsOnly atHome x := by
  intro m m' ends
  cases run : x m with
  | ok a last =>
      rw [run] at ends
      cases ends
      exact (h.ok m a m' run).sameNames
  | error fault last =>
      rw [run] at ends
      cases ends
      exact (h.error m fault m' run).mono fun _ => False.elim
  | unfinished =>
      rw [run] at ends
      cases ends

/-- A declaration behind something that binds no names. -/
theorem after {y : Exec ρ β} {k : β → Exec ρ α} (hy : BindsOnly nowhere y)
    (hk : ∀ b, Declares name (k b)) : Declares name (y >>= k) where
  ok m a m' h := by
    obtain ⟨b, middle, first, h⟩ := bind_eq_ok_iff.mp h
    exact .after (hy m middle (by rw [first]; rfl)) ((hk b).ok middle a m' h)
  error m fault m' h := by
    obtain first | ⟨b, middle, first, h⟩ := bind_eq_error_iff.mp h
    · exact hy m m' (by rw [first]; rfl)
    · exact (hy m middle (by rw [first]; rfl)).trans ((hk b).error middle fault m' h)

/-- A declaration with something behind it that does nothing. -/
theorem giving (h : Declares name x) (b : β) : Declares name (x >>= fun _ => pure b) where
  ok m _ m' run := by
    obtain ⟨a, middle, first, run⟩ := bind_eq_ok_iff.mp run
    cases run
    exact h.ok m a m' first
  error m fault m' run := by
    obtain first | ⟨a, middle, -, run⟩ := bind_eq_error_iff.mp run
    · exact h.error m fault m' first
    · cases run

/-- The effect itself, in the frame of the scope. -/
theorem declare (range : ρ) (name : String) (value : Option Value) (type : Option ValueType)
    (isConstant : Bool) : Declares name (do
      let current ← Effects.scope
      Effects.declare range current.here name value type isConstant : Exec ρ Unit) where
  ok m _ m' h := by
    change Exec.declare range m.scope.here name value type isConstant m = _ at h
    unfold Exec.declare at h
    cases declared : m.frames.declared m.scope.here name value type isConstant with
    | ok binding =>
        rw [declared] at h
        cases h
        have free := (Frames.declared_ok declared).1
        refine ⟨rfl, by simp [Frames.put], fun frame lt n => ?_, by simp [Machine.Binds, free]⟩
        simp only [Machine.Binds, Frames.find?_put]
        split
        · next same => simp [same.1, same.2.1]
        · next other =>
          rw [or_iff_left]
          rintro ⟨rfl, rfl⟩
          exact other ⟨rfl, rfl, lt⟩
    | error fault =>
        rw [declared] at h
        cases h
  error m fault m' h := by
    change Exec.declare range m.scope.here name value type isConstant m = _ at h
    unfold Exec.declare at h
    cases declared : m.frames.declared m.scope.here name value type isConstant with
    | ok binding =>
        rw [declared] at h
        cases h
    | error cause =>
        rw [declared] at h
        cases h
        exact .of_frames rfl rfl

variable {n : Nat} {expression : Expr ρ → Exec ρ Value} {body : List (Stmt ρ) → Exec ρ Signal}

/-- A statement that declares a name where it stands. -/
theorem statementStep (he : ∀ e, BindsOnly nowhere (expression e)) {s : Stmt ρ}
    (hs : s.declared? = some name) : Declares name (Rules.statementStep n expression body s) := by
  have h := BindsOnly.evaluates (ρ := ρ) nowhere
  cases s with
  | declare range kind spelled type value =>
      cases hs
      have types : BindsOnly.First nowhere _ .anything (Rules.resolveType? type)
        (Rules.resolveType? (type.map (Located.map id))) := h.resolveType? type
      have values : BindsOnly.First nowhere _ (.option .value) (Rules.optional expression value)
        (Rules.optional expression (value.map id)) := h.optional fun e _ => he e
      exact giving (after types fun _ => after values fun _ => declare _ _ _ _ _) _
  | function range spelled d =>
      cases hs
      have made : BindsOnly.First nowhere _ .value (Rules.createFunction (some spelled.value) d)
        (Rules.createFunction (some spelled.value) (d.map id)) := h.function_map _ d.obeys_free
      exact giving (after made fun _ => declare _ _ _ _ _) _
  | _ => cases hs

end Exec.Declares

/-! ### Whole runs -/

/-- What a statement may do with names. -/
structure Exec.BindsOwn (s : Stmt ρ) (x : Exec ρ Signal) : Prop where
  none : s.declared? = none → BindsOnly nowhere x
  some : ∀ name, s.declared? = some name → Declares name x

theorem Exec.BindsOwn.bindsOnly {s : Stmt ρ} {x : Exec ρ Signal} (h : BindsOwn s x) :
    BindsOnly atHome x := by
  cases declared : s.declared? with
  | none => exact (h.none declared).weaken
  | some name => exact (h.some name declared).bindsOnly

/-- Statements in a row bind names where each of them may. -/
theorem Exec.bindsOnly_statements {statement : Stmt ρ → Exec ρ Signal}
    (hs : ∀ s, BindsOwn s (statement s)) (list : List (Stmt ρ)) :
    BindsOnly atHome (Rules.statements statement list) := by
  have both : BindsOnly.First atHome Signal .signal (Rules.statements statement list)
      (Rules.statements statement (list.map id)) :=
    (BindsOnly.evaluates atHome).statements fun s _ => (hs s).bindsOnly
  exact both

/-- Within every bound, expressions bind no names, and statements those that they declare. -/
theorem Exec.bindsOwn (n : Nat) :
    (∀ e : Expr ρ, BindsOnly nowhere (Rules.expression n e)) ∧
    ∀ s : Stmt ρ, BindsOwn s (Rules.statement n s) := by
  induction n with
  | zero =>
      have nothing {α : Type} : BindsOnly nowhere (Effects.unfinished : Exec ρ α) := by
        rintro _ _ ⟨⟩
      have never {name : String} : Declares name (Effects.unfinished : Exec ρ Signal) := by
        constructor
        · rintro _ _ _ ⟨⟩
        · rintro _ _ _ ⟨⟩
      exact ⟨fun _ => nothing, fun _ => ⟨fun _ => nothing, fun _ _ => never⟩⟩
  | succ n ih =>
      obtain ⟨he, hs⟩ := ih
      have hbody := bindsOnly_statements hs
      constructor
      · intro e
        exact BindsOnly.expressionStep he hbody e
      · intro s
        constructor
        · intro hd
          exact BindsOnly.statementStep he hbody hd
        · intro name hd
          exact Declares.statementStep he hd

/-! ### Where statements start -/

/-- A block starts in a frame that binds nothing. -/
theorem Machine.not_binds_entered (m : Machine ρ) (kind : ScopeKind) (name : String) :
    ¬ (m.entered kind).Binds m.frames.size name := by
  intro bound
  exact Nat.lt_irrefl _ ((m.binds_push kind _ name).mp bound).lt

/-- A call starts in a frame that binds the parameters and nothing else. -/
theorem Machine.binds_called (m : Machine ρ) {c : Closure ρ} {values : List Value}
    (h : Fits [] c.parameters values) (name : String) :
    (m.called c values).Binds m.frames.size name ↔ name ∈ c.parameters.map Prod.fst := by
  have count : values.length = c.parameters.length := by simpa using congrArg List.length h.types
  rw [← map_fst_boundTo count, Binds, called, withFrame]
  exact Frames.isSome_find?_top m.frames

/-- A turn of a loop whose condition holds ends where its block does. -/
theorem Rules.turn_machine? {expression : Expr ρ → Exec ρ Value}
    {body : List (Stmt ρ) → Exec ρ Signal} {test : Expr ρ} {b : Block ρ} {m middle : Machine ρ}
    (h : Rules.condition expression test m = .ok true middle) :
    (Rules.turn expression body test b m).machine? = (Rules.block body b middle).machine? := by
  change (Exec.bind (Rules.condition expression test) _ m).machine? = _
  unfold Exec.bind
  rw [h]
  change (Exec.bind (Rules.block body b) _ middle).machine? = _
  unfold Exec.bind
  cases Rules.block body b middle with
  | ok signal last => cases signal <;> rfl
  | error fault last => rfl
  | unfinished => rfl

/-- Takes a turn of a loop within a bound. -/
abbrev Exec.turn (bound : Nat) (test : Expr ρ) (b : Block ρ) : Exec ρ (Option Signal) :=
  Rules.turn (Rules.expression bound) (Rules.statements (Rules.statement bound)) test b

/-- The frames of a machine bind the names that they bound before. -/
def Machine.KeepsNames (m m' : Machine ρ) : Prop :=
  ∀ frame < m.frames.size, ∀ name, m'.Binds frame name ↔ m.Binds frame name

theorem Machine.SameNames.keepsNames {m m' : Machine ρ}
    (h : SameNames (fun _ => False) m m') : m.KeepsNames m' :=
  fun frame lt name => h.names frame lt id name

/-! ### Tasks -/

section

variable {bound : Nat} {m m' : Machine ρ}

/-- What a statement does to the names of the frames that are there. -/
theorem Task.names_statement {s : Stmt ρ}
    (ends : ((Task.statement s).run bound m).machine? = some m') {frame : Nat}
    (lt : frame < m.frames.size) (name : String) :
    m'.Binds frame name ↔ m.Binds frame name ∨ frame = m.scope.here ∧ s.declared? = some name ∧
      ∃ signal, (Task.statement s).run bound m = .ok signal m' := by
  have own := (Exec.bindsOwn bound).2 s
  cases declared : s.declared? with
  | none =>
      have kept := (own.none declared m m' ends).names frame lt id name
      simp [kept]
  | some spelled =>
      have declares := own.some spelled declared
      cases run : (Task.statement s).run bound m with
      | ok signal last =>
          rw [run] at ends
          cases ends
          rw [(declares.ok m signal m' run).names frame lt name]
          simp [eq_comm]
      | error fault last =>
          rw [run] at ends
          cases ends
          have kept := (declares.error m fault m' run).names frame lt id name
          simp [kept]
      | unfinished =>
          rw [run] at ends
          cases ends

/-- The statements of a block run on a machine that has entered a frame of their own. -/
theorem Task.run_block (b : Block ρ) : (Task.block b).run bound m =
    (Exec.statements bound b.statements (m.entered b.kind.scopeKind)).alter fun last =>
      { last with scope := m.scope } :=
  Exec.within_eq_alter _ _ _

end

/-- Declarations are local to their block.

However a run ends, an expression has added no name to a frame that was there before, and a
statement none but the one that it declares, if it succeeds: this is then bound in the frame
of the scope, where it was not before. Nothing that runs in a block, in a turn of a loop or
in a call adds a name to a frame that was there before, since the statements of a block start
in a new frame that binds nothing, those of a turn are run as a block, and those of a call
start in a new frame that binds the parameters and nothing else. A call that cannot bind its
parameters fails before its body is looked at. So a call expression whose callee is a function
and whose arguments are values, as many as there are parameters, is a run of the statements of
the function in such a frame, or it fails without a look at them. -/
theorem declarations_are_local (bound : Nat) (m : Machine ρ) :
    (∀ (e : Expr ρ) m', ((Task.expression e).run bound m).machine? = some m' →
      m.KeepsNames m') ∧
    (∀ (s : Stmt ρ) m', ((Task.statement s).run bound m).machine? = some m' →
      ∀ frame < m.frames.size, ∀ name, m'.Binds frame name ↔ m.Binds frame name ∨
        frame = m.scope.here ∧ s.declared? = some name ∧
          ∃ signal, (Task.statement s).run bound m = .ok signal m') ∧
    (∀ (s : Stmt ρ) name signal m', s.declared? = some name →
      (Task.statement s).run bound m = .ok signal m' → ¬ m.Binds m.scope.here name) ∧
    (∀ b : Block ρ,
      (∀ m', ((Task.block b).run bound m).machine? = some m' → m.KeepsNames m') ∧
      (Task.block b).run bound m =
        (Exec.statements bound b.statements (m.entered b.kind.scopeKind)).alter
          (fun last => { last with scope := m.scope }) ∧
      (m.entered b.kind.scopeKind).scope.here = m.frames.size ∧
      ∀ name, ¬ (m.entered b.kind.scopeKind).Binds m.frames.size name) ∧
    (∀ (range : ρ) (test : Expr ρ) (b : Block ρ),
      (Task.statement (.loop range test b)).run (bound + 1) m =
        Exec.repeatWithin (Exec.turn bound test b) bound m ∧
      ∀ middle, (Rules.condition (Rules.expression bound) test : Exec ρ Bool) m =
          .ok true middle →
        (Exec.turn bound test b m).machine? = ((Task.block b).run bound middle).machine?) ∧
    (∀ (range : ρ) (c : Closure ρ) (values : List Value) (arguments : List (Expr ρ)),
      arguments.length = c.parameters.length → values.length = c.parameters.length →
      (∀ m', (Exec.runBody bound range c values arguments m).machine? = some m' →
        m.KeepsNames m') ∧
      (m.depth < callLimit ∧ Fits [] c.parameters values →
        Exec.runBody bound range c values arguments m =
          (Exec.statements bound c.body.statements (m.called c values)).alter
            (fun last => { last with scope := m.scope, depth := last.depth - 1 }) ∧
        ∀ name, (m.called c values).Binds m.frames.size name ↔
          name ∈ c.parameters.map Prod.fst) ∧
      (¬ (m.depth < callLimit ∧ Fits [] c.parameters values) →
        ∃ fault last, ∀ body : List (Stmt ρ) → Exec ρ Signal,
          Rules.runBody body range c values arguments m = .error fault last)) ∧
    ∀ (range opening closing part : ρ) (callee : Expr ρ) (arguments : List (Expr ρ)) (id : Nat)
      (c : Closure ρ) (values : List Value) (middle before : Machine ρ),
      (Task.expression callee).run bound m = .ok (.function id) middle →
      middle.closures[id]? = some c → arguments.length = c.parameters.length →
      Rules.all (Exec.expression bound) arguments middle = .ok values before →
      (before.depth < callLimit ∧ Fits [] c.parameters values →
        (Task.expression (.call range callee arguments opening closing part)).run (bound + 1) m =
          ((Exec.statements bound c.body.statements (before.called c values)).alter
            (fun last => { last with scope := before.scope, depth := last.depth - 1 })).returned ∧
        (before.called c values).scope.here = before.frames.size ∧
        ∀ name, (before.called c values).Binds before.frames.size name ↔
          name ∈ c.parameters.map Prod.fst) ∧
      (¬ (before.depth < callLimit ∧ Fits [] c.parameters values) →
        ∃ fault last,
          (Task.expression (.call range callee arguments opening closing part)).run (bound + 1) m =
            .error fault last ∧
          ∀ body : List (Stmt ρ) → Exec ρ Signal,
            Rules.runBody body range c values arguments before = .error fault last) := by
  obtain ⟨he, hs⟩ := Exec.bindsOwn (ρ := ρ) bound
  have hbody : ∀ list, Exec.BindsOnly atHome (Exec.statements bound list) :=
    Exec.bindsOnly_statements hs
  refine ⟨?expressions, ?statements, ?fresh, ?blocks, ?loops, ?bodies, ?calls⟩
  case expressions => exact fun e m' ends => (he e m m' ends).keepsNames
  case statements => exact fun s m' ends frame lt name => Task.names_statement ends lt name
  case fresh =>
    intro s name signal m' declared run
    exact (((hs s).some name declared).ok m signal m' run).fresh
  case blocks =>
    refine fun b => ⟨fun m' ends => ?_, Task.run_block b, rfl, m.not_binds_entered _⟩
    exact (Exec.BindsOnly.block hbody b m m' ends).keepsNames
  case loops => exact fun range test b => ⟨rfl, fun middle holds => Rules.turn_machine? holds⟩
  case bodies =>
    intro range c values arguments arity count
    refine ⟨fun m' ends => ?_, fun fits => ?_, fun unfit => ?_⟩
    · exact (Exec.BindsOnly.runBody hbody range c values arguments m m' ends).keepsNames
    · exact ⟨Exec.runBody_of_fits fits.1 fits.2 arity _, m.binds_called fits.2⟩
    · exact Exec.runBody_of_not_fits unfit arity count
  case calls =>
    intro range opening closing part callee arguments id c values middle before called found arity
      computed
    have count : values.length = c.parameters.length := (Exec.length_of_all computed).trans arity
    rw [Exec.run_call called found arity computed range opening closing part]
    refine ⟨fun fits => ⟨?_, rfl, before.binds_called fits.2⟩, fun unfit => ?_⟩
    · rw [Exec.runBody, Exec.runBody_of_fits fits.1 fits.2 arity]
    · obtain ⟨fault, last, fails⟩ : ∃ fault last, ∀ body : List (Stmt ρ) → Exec ρ Signal,
          Rules.runBody body range c values arguments before = .error fault last :=
        Exec.runBody_of_not_fits unfit arity count
      exact ⟨fault, last, congrArg Outcome.returned (fails _), fails⟩

/-- A function of a truth value that declares a variable of its own. -/
def declaring : Function Unit :=
  ⟨[⟨⟨(), "a"⟩, ⟨(), "Booleano"⟩⟩], none,
    ⟨.function, (), [.declare () ⟨(), .var⟩ ⟨(), "y"⟩ none (some (.reference () ⟨(), "a"⟩)),
      .giveBack () () (some (.reference () ⟨(), "y"⟩))]⟩, ()⟩

/-- A call of that function. -/
def declaringCall : Expr Unit :=
  .call () (.function () declaring) [.reference () ⟨(), "verdadero"⟩] () () ()

/-- A declaration whose value comes from that call. -/
def declaredByCall : Stmt Unit :=
  .declare () ⟨(), .var⟩ ⟨(), "x"⟩ none (some declaringCall)

/-- The variable is bound where it is declared, and neither the parameter of the function nor
the variable inside it is; the call runs the body in a frame that binds the parameter alone. -/
theorem declarations_are_local_declaredByCall :
    (∃ m', (Task.statement declaredByCall).run 5 (Machine.initial none) = .ok .normal m' ∧
      m'.Binds 0 "x" ∧ ¬ m'.Binds 0 "y" ∧ ¬ m'.Binds 0 "a") ∧
    ∃ (c : Closure Unit) (before : Machine Unit),
      (Task.expression declaringCall).run 6 (Machine.initial none) =
        ((Exec.statements 5 declaring.body.statements (before.called c [.boolean true])).alter
          (fun last => { last with scope := before.scope, depth := last.depth - 1 })).returned ∧
      (before.called c [.boolean true]).scope.here = 1 ∧
      ∀ name, (before.called c [.boolean true]).Binds 1 name ↔ name = "a" := by
  have h := declarations_are_local (ρ := Unit) 5 (Machine.initial none)
  refine ⟨⟨_, rfl, ?_⟩, ?_⟩
  · have names := h.2.1 declaredByCall _ rfl 0 (by decide)
    refine ⟨(names "x").mpr (.inr ⟨rfl, rfl, _, rfl⟩), ?_, ?_⟩
    · rw [names "y"]
      rintro (bound | ⟨-, other, -⟩)
      · exact absurd bound (by decide)
      · exact absurd other (by decide)
    · rw [names "a"]
      rintro (bound | ⟨-, other, -⟩)
      · exact absurd bound (by decide)
      · exact absurd other (by decide)
  · let c : Closure Unit := ⟨none, [("a", .boolean)], none, declaring.body, .outermost⟩
    let before : Machine Unit := { (Machine.initial none : Machine Unit) with closures := #[c] }
    obtain ⟨-, -, -, -, -, -, calls⟩ := h
    have call := calls () () () () (.function () declaring) [.reference () ⟨(), "verdadero"⟩] 0 c
      [.boolean true] before before rfl rfl rfl rfl
    obtain ⟨run, here, binds⟩ := call.1 ⟨by decide, by decide, rfl⟩
    exact ⟨c, before, run, here, fun name => (binds name).trans (by simp [c])⟩

end Guion
