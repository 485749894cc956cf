import Guion.Proofs.Run.Frames
import Guion.Proofs.Run.Printing
import Guion.Proofs.Run.Simulation

/-!
# Watched runs

`Change` is everything that one effect can do to a machine. A watched run keeps the
path of changes that it takes, so that one can speak of every machine it passes
through and not only of the one it ends with; a run that does not end within its
bound has a path as well. What is true of every run by the way it is put together,
that it goes from change to change and comes back to its scope and its depth, is
part of the type.

Watching changes nothing: a watched run of a tree ends as the run does.
-/

namespace Guion

variable {ρ : Type} {α β : Type}

/-- One thing that happens to a machine. -/
inductive Change : Machine ρ → Machine ρ → Prop
  | newFrame (m : Machine ρ) (kind : ScopeKind) :
      Change m { m with frames := m.frames.push ⟨kind, []⟩ }
  | newObject (m : Machine ρ) (fields : Fields) :
      Change m { m with objects := m.objects.push fields }
  | newFunction (m : Machine ρ) (c : Closure ρ) :
      Change m { m with closures := m.closures.push c }
  | declare {m : Machine ρ} {frame : Nat} {name : String} {value : Option Value}
      {type : Option ValueType} {isConstant : Bool} {binding : Binding} :
      m.frames.declared frame name value type isConstant = .ok binding →
      Change m { m with frames := m.frames.put frame name binding }
  | assign {m : Machine ρ} {name : String} {value : Value} {frame : Nat} {binding : Binding} :
      m.frames.assigned m.scope name value = .ok (frame, binding) →
      Change m { m with frames := m.frames.put frame name binding }
  | putField (m : Machine ρ) (object : Nat) (key : String) (value : Value) :
      Change m { m with objects := m.objects.modify object (·.insert key value) }
  | print (m : Machine ρ) (text : String) :
      Change m { m with output := (m.output.write text).1 }
  | enter (m : Machine ρ) (scope : Scope) : Change m { m with scope := scope }
  | call {m : Machine ρ} : m.depth < callLimit → Change m { m with depth := m.depth + 1 }
  | back (m : Machine ρ) : Change m { m with depth := m.depth - 1 }

/-- No change takes a frame away or gives it another kind. -/
theorem Change.extend {m m' : Machine ρ} (change : Change m m') : m.frames.Extend m'.frames := by
  cases change with
  | newFrame kind => exact .push m.frames kind
  | declare => exact .put m.frames _ _ _
  | assign => exact .put m.frames _ _ _
  | _ => exact .refl _

/-- Changes one after the other. -/
inductive Path : Machine ρ → Machine ρ → Type
  | stay (m : Machine ρ) : Path m m
  | step {a b c : Machine ρ} : Change a b → Path b c → Path a c

namespace Path

variable {a b c : Machine ρ}

/-- The machines on a path behind the first. -/
def later : {a b : Machine ρ} → Path a b → List (Machine ρ)
  | _, _, stay _ => []
  | _, _, @step _ _ b _ _ rest => b :: rest.later

/-- All machines on a path. -/
def moments (p : Path a b) : List (Machine ρ) := a :: p.later

/-- One path behind another. -/
def append : {a b : Machine ρ} → Path a b → Path b c → Path a c
  | _, _, stay _, q => q
  | _, _, step change rest, q => step change (rest.append q)

@[simp] theorem later_append (p : Path a b) (q : Path b c) :
    (p.append q).later = p.later ++ q.later := by
  induction p with
  | stay => rfl
  | step change rest ih => simp only [append, later, ih, List.cons_append]

/-- The last machine is on the path. -/
theorem last_mem (p : Path a b) : b ∈ p.moments := by
  induction p with
  | stay m => exact List.mem_singleton.mpr rfl
  | step change rest ih => exact List.mem_cons_of_mem _ ih

theorem mem_append {p : Path a b} {q : Path b c} {m : Machine ρ} :
    m ∈ (p.append q).moments ↔ m ∈ p.moments ∨ m ∈ q.moments := by
  have junction := p.last_mem
  simp only [moments, later_append, List.mem_cons, List.mem_append] at *
  constructor
  · rintro (h | h | h)
    · exact .inl (.inl h)
    · exact .inl (.inr h)
    · exact .inr (.inr h)
  · rintro ((h | h) | (rfl | h))
    · exact .inl h
    · exact .inr (.inl h)
    · exact junction.imp_right .inl
    · exact .inr (.inr h)

/-- A path between a change and another that undoes it. -/
def bracket {d : Machine ρ} (p : Path b c) (opening : Change a b) (closing : Change c d) :
    Path a d :=
  step opening (p.append (step closing (stay d)))

theorem mem_bracket {d m : Machine ρ} {opening : Change a b} {p : Path b c}
    {closing : Change c d} :
    m ∈ (p.bracket opening closing).moments ↔ m = a ∨ m ∈ p.moments ∨ m = d := by
  simp [bracket, moments, later, or_assoc]

/-- What every change preserves, all machines on a path have if the first has it. -/
theorem invariant {I : Machine ρ → Prop} (hstep : ∀ {m m'}, Change m m' → I m → I m')
    (p : Path a b) (ha : I a) : ∀ m ∈ p.moments, I m := by
  induction p with
  | stay m => simpa [moments, later] using ha
  | step change rest ih =>
      intro m hm
      rcases List.mem_cons.mp hm with rfl | hm
      · exact ha
      · exact ih (hstep change ha) m hm

/-- What every change achieves, any two machines on a path are related by. -/
theorem pairwise {R : Machine ρ → Machine ρ → Prop}
    (htrans : ∀ {a b c}, R a b → R b c → R a c) (hstep : ∀ {m m'}, Change m m' → R m m')
    (p : Path a b) : p.moments.Pairwise R := by
  induction p with
  | stay m => exact List.pairwise_singleton R m
  | @step a b c change rest ih =>
      refine List.Pairwise.cons (fun m hm => ?_) ih
      rcases List.mem_cons.mp hm with rfl | hm
      · exact hstep change
      · exact htrans (hstep change) (List.rel_of_pairwise_cons ih hm)

/-- What every change achieves, each machine on a path is related to the last one by. -/
theorem to_last {R : Machine ρ → Machine ρ → Prop} (hrefl : ∀ m, R m m)
    (htrans : ∀ {a b c}, R a b → R b c → R a c) (hstep : ∀ {m m'}, Change m m' → R m m')
    (p : Path a b) : ∀ m ∈ p.moments, R m b := by
  induction p with
  | stay m =>
      intro n hn
      rw [List.mem_singleton.mp hn]
      exact hrefl m
  | step change rest ih =>
      intro n hn
      rcases List.mem_cons.mp hn with rfl | hn
      · exact htrans (hstep change) (ih _ List.mem_cons_self)
      · exact ih n hn

/-- Frames are only added on a path. -/
theorem extend (p : Path a b) : a.frames.Extend b.frames :=
  p.to_last (R := fun m m' => m.frames.Extend m'.frames) (fun m => .refl m.frames)
    Frames.Extend.trans Change.extend a List.mem_cons_self

end Path

/-- The machine that a computation ends with, whether with a value or with a fault. -/
def Outcome.machine? : Outcome ρ α → Option (Machine ρ)
  | ok _ m | error _ m => some m
  | unfinished => none

theorem Outcome.machine?_alter (g : Machine ρ → Machine ρ) (out : Outcome ρ α) :
    (out.alter g).machine? = out.machine?.map g := by
  cases out <;> rfl

/-- A machine in the same scope and at the same depth as before. -/
structure Restored (before after : Machine ρ) : Prop where
  scope : after.scope = before.scope
  depth : after.depth = before.depth

theorem Restored.refl (m : Machine ρ) : Restored m m := ⟨rfl, rfl⟩

theorem Restored.trans {a b c : Machine ρ} (h : Restored a b) (h' : Restored b c) :
    Restored a c :=
  ⟨h'.scope.trans h.scope, h'.depth.trans h.depth⟩

/-- A run from a machine, with the path it took. -/
inductive Run (m : Machine ρ) (α : Type) : Type
  | ok (value : α) {last : Machine ρ} (path : Path m last) (restored : Restored m last)
  | error (fault : Located ρ Fault) {last : Machine ρ} (path : Path m last)
      (restored : Restored m last)
  | unfinished {last : Machine ρ} (path : Path m last)

namespace Run

variable {m m' : Machine ρ}

/-- How a run ends. -/
def outcome : Run m α → Outcome ρ α
  | @ok _ _ _ a last _ _ => .ok a last
  | @error _ _ _ fault last _ _ => .error fault last
  | unfinished _ => .unfinished

/-- The machine at the end of a run, or where its bound was used up. -/
def last : Run m α → Machine ρ
  | @ok _ _ _ _ last _ _ | @error _ _ _ _ last _ _ | @unfinished _ _ _ last _ => last

/-- The path that a run takes. -/
def path : (r : Run m α) → Path m r.last
  | ok _ path _ | error _ path _ | unfinished path => path

/-- The machines that a run passes through. -/
def moments (r : Run m α) : List (Machine ρ) := r.path.moments

theorem restored {r : Run m α} (h : r.outcome.machine? = some m') : Restored m m' := by
  cases r with
  | ok a path restored =>
      cases h
      exact restored
  | error fault path restored =>
      cases h
      exact restored
  | unfinished path => cases h

/-- A run that ends, ends with the last machine of its path. -/
theorem last_eq {r : Run m α} (h : r.outcome.machine? = some m') : r.last = m' := by
  cases r with
  | ok a path restored =>
      cases h
      rfl
  | error fault path restored =>
      cases h
      rfl
  | unfinished path => cases h

/-- A run behind a path. -/
def after (path : Path m m') (restored : Restored m m') : Run m' α → Run m α
  | ok a more back => ok a (path.append more) (restored.trans back)
  | error fault more back => error fault (path.append more) (restored.trans back)
  | unfinished more => unfinished (path.append more)

@[simp] theorem outcome_after (path : Path m m') (restored : Restored m m') (r : Run m' α) :
    (r.after path restored).outcome = r.outcome := by
  cases r <;> rfl

theorem mem_after {path : Path m m'} {restored : Restored m m'} {r : Run m' α} {n : Machine ρ} :
    n ∈ (r.after path restored).moments ↔ n ∈ path.moments ∨ n ∈ r.moments := by
  cases r <;> exact Path.mem_append

theorem invariant {I : Machine ρ → Prop} (hstep : ∀ {m m'}, Change m m' → I m → I m')
    (r : Run m α) (hm : I m) : ∀ m' ∈ r.moments, I m' :=
  r.path.invariant hstep hm

end Run

/-- A computation that is watched. -/
def Watched (ρ α : Type) := (m : Machine ρ) → Run m α

namespace Watched

/-- Gives a value and does nothing. -/
protected def pure (a : α) : Watched ρ α := fun m => .ok a (.stay m) (.refl m)

/-- One computation after another. -/
protected def bind (x : Watched ρ α) (k : α → Watched ρ β) : Watched ρ β := fun m =>
  match x m with
  | @Run.ok _ _ _ a last path restored => (k a last).after path restored
  | .error fault path restored => .error fault path restored
  | .unfinished path => .unfinished path

/-- A single change. -/
def once (a : α) {m m' : Machine ρ} (change : Change m m') (restored : Restored m m') : Run m α :=
  .ok a (.step change (.stay m')) restored

/-- Runs something in another scope and comes back. -/
def within (scope : Scope) (x : Watched ρ α) : Watched ρ α := fun m =>
  match x { m with scope := scope } with
  | @Run.ok _ _ _ a last path restored =>
    .ok a (path.bracket (.enter m scope) (.enter last m.scope)) ⟨rfl, restored.depth⟩
  | @Run.error _ _ _ fault last path restored =>
    .error fault (path.bracket (.enter m scope) (.enter last m.scope)) ⟨rfl, restored.depth⟩
  | .unfinished path => .unfinished (.step (.enter m scope) path)

/-- Runs something with one more call under way, from a machine where there may be
one more. -/
def counted (x : Watched ρ α) (m : Machine ρ) (h : m.depth < callLimit) : Run m α :=
  match x { m with depth := m.depth + 1 } with
  | @Run.ok _ _ _ a last path restored =>
    .ok a (path.bracket (.call h) (.back last))
      ⟨restored.scope, by simp [restored.depth]⟩
  | @Run.error _ _ _ fault last path restored =>
    .error fault (path.bracket (.call h) (.back last))
      ⟨restored.scope, by simp [restored.depth]⟩
  | .unfinished path => .unfinished (.step (.call h) path)

/-- A run behind the making of a frame. -/
def framed (kind : ScopeKind) {m : Machine ρ}
    (r : Run { m with frames := m.frames.push ⟨kind, []⟩ } α) : Run m α :=
  r.after (.step (.newFrame m kind) (.stay _)) ⟨rfl, rfl⟩

/-- Runs something in a new frame inside the current scope. -/
def inBlock (kind : ScopeKind) (x : Watched ρ α) : Watched ρ α := fun m =>
  framed kind (within (m.scope.inner m.frames.size) x _)

/-- Prepares a frame and then runs something in it with one more call under way, from a
machine where there may be one more. -/
def prepared (prepare : Watched ρ Unit) (scope : Scope) (x : Watched ρ α) (m : Machine ρ)
    (h : m.depth < callLimit) : Run m α :=
  match prepare m with
  | @Run.ok _ _ _ _ last path restored =>
    (counted (within scope x) last (by rwa [restored.depth])).after path restored
  | .error fault path restored => .error fault path restored
  | .unfinished path => .unfinished path

/-- Runs something in the prepared frame of a call, if there may be one more call. -/
def inCall (range : ρ) (around : Scope) (prepare : Nat → Watched ρ Unit) (x : Watched ρ α) :
    Watched ρ α := fun m =>
  if h : callLimit ≤ m.depth then
    .error ⟨range, .callDepthExceeded callLimit⟩ (.stay m) (.refl m)
  else
    framed .function (prepared (prepare m.frames.size) (around.inner m.frames.size) x _
      (Nat.lt_of_not_le h))

/-- Repeats a step until it gives a result, at most so many times. -/
def repeatWithin (step : Watched ρ (Option α)) : Nat → Watched ρ α
  | 0, m => .unfinished (.stay m)
  | n + 1, m =>
    match step m with
    | .ok (some a) path restored => .ok a path restored
    | @Run.ok _ _ _ none last path restored => (repeatWithin step n last).after path restored
    | .error fault path restored => .error fault path restored
    | .unfinished path => .unfinished path

instance : Effects ρ (Watched ρ) where
  pure := Watched.pure
  bind := Watched.bind
  fail range fault := fun m => .error ⟨range, fault⟩ (.stay m) (.refl m)
  unfinished := fun m => .unfinished (.stay m)
  scope := fun m => .ok m.scope (.stay m) (.refl m)
  insideFunction := fun m => .ok (m.frames.insideFunction m.scope.path) (.stay m) (.refl m)
  insideLoop := fun m => .ok (m.frames.insideLoop m.scope.path) (.stay m) (.refl m)
  lookup name := fun m =>
    match m.frames.lookup m.scope name.value with
    | .ok v => .ok v (.stay m) (.refl m)
    | .error fault => .error ⟨name.range, fault⟩ (.stay m) (.refl m)
  declare range frame name value type isConstant := fun m =>
    match h : m.frames.declared frame name value type isConstant with
    | .ok _ => once () (.declare h) ⟨rfl, rfl⟩
    | .error fault => .error ⟨range, fault⟩ (.stay m) (.refl m)
  assign range name value := fun m =>
    match h : m.frames.assigned m.scope name value with
    | .ok (_, _) => once () (.assign h) ⟨rfl, rfl⟩
    | .error fault => .error ⟨range, fault⟩ (.stay m) (.refl m)
  newObject fields := fun m => once (.object m.objects.size) (.newObject m fields) ⟨rfl, rfl⟩
  newFunction c := fun m => once (.function m.closures.size) (.newFunction m c) ⟨rfl, rfl⟩
  closure? id := fun m => .ok m.closures[id]? (.stay m) (.refl m)
  field? object key := fun m =>
    .ok ((m.objects[object]?.getD []).get? key) (.stay m) (.refl m)
  putField object key value := fun m => once () (.putField m object key value) ⟨rfl, rfl⟩
  display v := fun m =>
    match m.display? v with
    | some text => .ok text (.stay m) (.refl m)
    | none => .unfinished (.stay m)
  write range text := fun m =>
    if (m.output.write text).2 then
      once () (.print m text) ⟨rfl, rfl⟩
    else
      .error ⟨range, .outputFailed Output.full⟩ (.step (.print m text) (.stay _)) ⟨rfl, rfl⟩
  print range v := fun m =>
    if (m.output.write (m.printed v).text).2 then
      if (m.printed v).whole then
        once () (.print m (m.printed v).text) ⟨rfl, rfl⟩
      else
        .unfinished (.step (.print m (m.printed v).text) (.stay _))
    else
      .error ⟨range, .outputFailed Output.full⟩ (.step (.print m (m.printed v).text) (.stay _))
        ⟨rfl, rfl⟩
  inBlock := inBlock
  inCall := inCall
  repeatWithin step turns := repeatWithin step turns

end Watched

/-! ### Watching changes nothing -/

/-- A machine in a new frame inside its scope. -/
def Machine.entered (m : Machine ρ) (kind : ScopeKind) : Machine ρ :=
  { m with frames := m.frames.push ⟨kind, []⟩, scope := m.scope.inner m.frames.size }

/-- What runs of trees that obey a discipline keep true of machines. The keys of a new object
ascend, since it is made of the fields of a literal. -/
structure Invariant (D : Discipline ρ) (I : Machine ρ → Prop) : Prop where
  closures {m : Machine ρ} {c : Closure ρ} : I m → c ∈ m.closures → c.body.Obeys D
  newFunction {m : Machine ρ} {c : Closure ρ} : c.body.Obeys D → I m →
    I { m with closures := m.closures.push c }
  newObject {m : Machine ρ} {fields : Fields} : fields.Ascending → I m →
    I { m with objects := m.objects.push fields }
  change {m m' : Machine ρ} : Change m m' → m'.scope = m.scope → m'.closures = m.closures →
    m'.objects.size = m.objects.size → I m → I m'
  block {m : Machine ρ} (kind : ScopeKind) : I m → I (m.entered kind)
  call {m : Machine ρ} {frame : Nat} (around : Scope) : m.frames.kind? frame = some .function →
    I m → I { m with scope := around.inner frame }
  leave {before m : Machine ρ} : I before → I m → before.frames.Extend m.frames →
    I { m with scope := before.scope }

/-- Nothing is demanded and nothing has to be kept. -/
theorem Invariant.free : Invariant (.free : Discipline ρ) fun _ => True where
  closures {_ c} _ _ := c.body.obeys_free
  newFunction _ _ := trivial
  newObject _ _ := trivial
  change _ _ _ _ _ := trivial
  block _ _ := trivial
  call _ _ _ := trivial
  leave _ _ _ := trivial

/-- A watched computation ends as the computation does and keeps what is true of
machines. -/
def Faithful (I : Machine ρ → Prop) (α : Type) (x : Watched ρ α) (y : Exec ρ α) : Prop :=
  ∀ m, I m → (x m).outcome = y m ∧ ∀ m' ∈ (x m).moments, I m'

namespace Faithful

variable {D : Discipline ρ} {I : Machine ρ → Prop} {x : Watched ρ α} {y : Exec ρ α}
variable {m : Machine ρ}

/-- Without a change there is nothing to show but the outcome. -/
theorem of_stay {r : Run m α} {out : Outcome ρ α} (hm : I m) (same : r.outcome = out)
    (stays : r.moments = [m]) : r.outcome = out ∧ ∀ m' ∈ r.moments, I m' := by
  refine ⟨same, fun m' hm' => ?_⟩
  rw [stays, List.mem_singleton] at hm'
  rwa [hm']

/-- A single change leads from one machine to the other. -/
theorem of_once {m' : Machine ρ} {r : Run m α} {out : Outcome ρ α} (hm : I m)
    (same : r.outcome = out) (moves : r.moments = [m, m']) (hm' : I m') :
    r.outcome = out ∧ ∀ m' ∈ r.moments, I m' := by
  refine ⟨same, fun n hn => ?_⟩
  rw [moves] at hn
  simp only [List.mem_cons, List.not_mem_nil, or_false] at hn
  rcases hn with rfl | rfl
  · exact hm
  · exact hm'

theorem of_after {m' : Machine ρ} {path : Path m m'} {restored : Restored m m'} {r : Run m' α}
    {out : Outcome ρ α} (kept : ∀ n ∈ path.moments, I n)
    (h : r.outcome = out ∧ ∀ n ∈ r.moments, I n) :
    (r.after path restored).outcome = out ∧ ∀ n ∈ (r.after path restored).moments, I n := by
  refine ⟨(Run.outcome_after path restored r).trans h.1, fun n hn => ?_⟩
  rcases Run.mem_after.mp hn with hn | hn
  · exact kept n hn
  · exact h.2 n hn

/-- One computation after another, where the second may rely on what the first can give. -/
theorem bind_of_ok {k : α → Watched ρ β} {l : α → Exec ρ β} (hx : Faithful I α x y)
    (hk : ∀ a, (∃ m m', y m = .ok a m') → Faithful I β (k a) (l a)) :
    Faithful I β (x >>= k) (y >>= l) := by
  intro m hm
  obtain ⟨same, kept⟩ := hx m hm
  change (Watched.bind x k m).outcome = Exec.bind y l m ∧ _
  unfold Exec.bind
  rw [← same]
  change _ ∧ ∀ m' ∈ (Watched.bind x k m).moments, _
  unfold Watched.bind
  generalize x m = r at same kept
  cases r with
  | ok a path restored =>
      exact of_after kept (hk a ⟨m, _, same.symm⟩ _ (kept _ path.last_mem))
  | error fault path restored => exact ⟨rfl, kept⟩
  | unfinished path => exact ⟨rfl, kept⟩

theorem of_bracket {a b c d : Machine ρ} {p : Path b c} {opening : Change a b}
    {closing : Change c d} (ha : I a) (kept : ∀ n ∈ p.moments, I n) (hd : I d) :
    ∀ n ∈ (p.bracket opening closing).moments, I n := by
  intro n hn
  rcases Path.mem_bracket.mp hn with rfl | hn | rfl
  · exact ha
  · exact kept n hn
  · exact hd

theorem framed {kind : ScopeKind} {r : Run { m with frames := m.frames.push ⟨kind, []⟩ } α}
    {out : Outcome ρ α} (hm : I m) (h : r.outcome = out ∧ ∀ n ∈ r.moments, I n) :
    (Watched.framed kind r).outcome = out ∧ ∀ n ∈ (Watched.framed kind r).moments, I n := by
  refine of_after ?_ h
  exact List.forall_mem_cons.mpr
    ⟨hm, List.forall_mem_singleton.mpr (h.2 _ List.mem_cons_self)⟩

section

variable (h : Invariant D I)

include h

theorem within {scope : Scope} (hx : Faithful I α x y) (hm : I m)
    (inside : I { m with scope := scope }) :
    (Watched.within scope x m).outcome = Exec.within scope y m ∧
      ∀ m' ∈ (Watched.within scope x m).moments, I m' := by
  obtain ⟨same, kept⟩ := hx { m with scope := scope } inside
  unfold Watched.within Exec.within
  rw [← same]
  generalize x { m with scope := scope } = r at kept
  cases r with
  | ok a path restored =>
      exact ⟨rfl, of_bracket hm kept (h.leave hm (kept _ path.last_mem) path.extend)⟩
  | error fault path restored =>
      exact ⟨rfl, of_bracket hm kept (h.leave hm (kept _ path.last_mem) path.extend)⟩
  | unfinished path => exact ⟨rfl, List.forall_mem_cons.mpr ⟨hm, kept⟩⟩

theorem inBlock (kind : ScopeKind) (hx : Faithful I α x y) :
    Faithful I α (Watched.inBlock kind x) (Exec.inBlock kind y) := by
  intro m hm
  have made := h.change (.newFrame m kind) rfl rfl rfl hm
  exact framed hm (within h hx made (h.block kind hm))

theorem counted {room : m.depth < callLimit} (hm : I m)
    (hx : ∀ n, I n → n.frames = m.frames → (x n).outcome = y n ∧ ∀ m' ∈ (x n).moments, I m') :
    (Watched.counted x m room).outcome = Exec.counted y m ∧
      ∀ m' ∈ (Watched.counted x m room).moments, I m' := by
  have inside := h.change (.call room) rfl rfl rfl hm
  obtain ⟨same, kept⟩ := hx { m with depth := m.depth + 1 } inside rfl
  unfold Watched.counted Exec.counted
  rw [← same]
  generalize x { m with depth := m.depth + 1 } = r at kept
  cases r with
  | ok a path restored =>
      exact ⟨rfl, of_bracket hm kept (h.change (.back _) rfl rfl rfl (kept _ path.last_mem))⟩
  | error fault path restored =>
      exact ⟨rfl, of_bracket hm kept (h.change (.back _) rfl rfl rfl (kept _ path.last_mem))⟩
  | unfinished path => exact ⟨rfl, List.forall_mem_cons.mpr ⟨hm, kept⟩⟩

theorem prepared {p : Watched ρ Unit} {q : Exec ρ Unit} {around : Scope} {frame : Nat}
    {room : m.depth < callLimit} (hp : Faithful I Unit p q) (hx : Faithful I α x y) (hm : I m)
    (function : m.frames.kind? frame = some .function) :
    (Watched.prepared p (around.inner frame) x m room).outcome =
        Exec.bind q (fun _ => Exec.counted (Exec.within (around.inner frame) y)) m ∧
      ∀ m' ∈ (Watched.prepared p (around.inner frame) x m room).moments, I m' := by
  obtain ⟨same, kept⟩ := hp m hm
  unfold Watched.prepared Exec.bind
  rw [← same]
  generalize p m = r at kept
  cases r with
  | ok a path restored =>
      refine of_after kept (counted h (kept _ path.last_mem) fun n hn frames => ?_)
      refine within h hx hn (h.call around ?_ hn)
      rw [frames]
      exact path.extend frame _ function
  | error fault path restored => exact ⟨rfl, kept⟩
  | unfinished path => exact ⟨rfl, kept⟩

theorem inCall {p : Nat → Watched ρ Unit} {q : Nat → Exec ρ Unit} (range : ρ) (around : Scope)
    (hp : ∀ frame, Faithful I Unit (p frame) (q frame)) (hx : Faithful I α x y) :
    Faithful I α (Watched.inCall range around p x) (Exec.inCall range around q y) := by
  intro m hm
  unfold Watched.inCall Exec.inCall
  by_cases limit : callLimit ≤ m.depth
  · rw [dif_pos limit, if_pos limit]
    exact of_stay hm rfl rfl
  · rw [dif_neg limit, if_neg limit]
    have made := h.change (.newFrame m .function) rfl rfl rfl hm
    refine framed hm (prepared h (hp _) hx made ?_)
    rw [Frames.kind?_push, if_pos rfl]

end

theorem repeatWithin {x : Watched ρ (Option α)} {y : Exec ρ (Option α)}
    (hx : Faithful I (Option α) x y) (turns : Nat) :
    Faithful I α (Watched.repeatWithin x turns) (Exec.repeatWithin y turns) := by
  induction turns with
  | zero => exact fun m hm => of_stay hm rfl rfl
  | succ n ih =>
      intro m hm
      obtain ⟨same, kept⟩ := hx m hm
      unfold Watched.repeatWithin Exec.repeatWithin
      rw [← same]
      generalize x m = r at kept
      cases r with
      | ok found path restored =>
          cases found with
          | some a => exact ⟨rfl, kept⟩
          | none => exact of_after kept (ih _ (kept _ path.last_mem))
      | error fault path restored => exact ⟨rfl, kept⟩
      | unfinished path => exact ⟨rfl, kept⟩

/-- Watched runs and runs are related effect by effect. -/
theorem chains (I : Machine ρ → Prop) :
    Chains id .all (fun α (_ : Demand α) => Faithful I α) where
  pure _ := fun _ hm => of_stay hm rfl rfl
  bind hx hk := bind_of_ok hx fun a _ => hk a (Demand.holds_all _ a)
  fail _ _ _ := fun _ hm => of_stay hm rfl rfl

section

variable (h : Invariant D I)

include h

theorem speaks : Speaks id .all (fun α (_ : Demand α) => Faithful I α) where
  toChains := chains I
  display {v} _ := by
    intro m hm
    simp only [Effects.display]
    cases m.display? v with
    | some text => exact of_stay hm rfl rfl
    | none => exact of_stay hm rfl rfl
  write range text := by
    intro m hm
    simp only [Effects.write, Exec.write_eq]
    split
    · exact of_once hm rfl rfl (h.change (.print m text) rfl rfl rfl hm)
    · exact of_once hm rfl rfl (h.change (.print m text) rfl rfl rfl hm)
  print range v _ := by
    intro m hm
    have written := h.change (.print m (m.printed v).text) rfl rfl rfl hm
    simp only [Effects.print, Exec.print_eq]
    split
    · split <;> exact of_once hm rfl rfl written
    · exact of_once hm rfl rfl written

theorem declare (range : ρ) (frame : Nat) (name : String) (value : Option Value)
    (type : Option ValueType) (isConstant : Bool) :
    Faithful I Unit (Effects.declare range frame name value type isConstant)
      (Effects.declare range frame name value type isConstant) := by
  intro m hm
  simp only [Effects.declare, Exec.declare]
  split
  · next hd =>
    exact of_once hm (by simp only [hd]; rfl) rfl (h.change (.declare hd) rfl rfl rfl hm)
  · next hd => exact of_stay hm (by simp only [hd]; rfl) rfl

/-- A literal makes objects of what its properties write, whose keys ascend. -/
theorem literal {expression : Expr ρ → Watched ρ Value} {expression' : Expr ρ → Exec ρ Value}
    {list : List (Property ρ)} {g : Property ρ → Property ρ}
    (keys : ∀ p ∈ list, (g p).key.value = p.key.value)
    (hp : ∀ p ∈ list, Faithful I Value (p.compute expression) ((g p).compute expression')) :
    Faithful I Value (Rules.literal expression list)
      (Rules.literal expression' (list.map g)) := by
  have fill := (chains I).properties (List.forall_mem_nil _) keys hp
  refine bind_of_ok fill fun fields ⟨_, _, filled⟩ => ?_
  obtain ⟨writes, -, rfl⟩ := Rules.properties_eq_ok_iff.mp filled
  have ascending := Fields.Ascending.written .nil writes
  exact fun _ hm => of_once hm rfl rfl (h.newObject ascending hm)

theorem accord : Accord id (Closure.Moved id D) (Closure.Moved id D) .all
    (fun α (_ : Demand α) => Faithful I α) (fun α (_ : Demand α) => Faithful I α) where
  toChains := chains I
  scope := fun _ hm => of_stay hm rfl rfl
  insideFunction := fun _ hm => of_stay hm rfl rfl
  insideLoop := fun _ hm => of_stay hm rfl rfl
  lookup name := by
    intro m hm
    simp only [Effects.lookup, Located.map_value]
    cases m.frames.lookup m.scope name.value with
    | ok v => exact of_stay hm rfl rfl
    | error fault => exact of_stay hm rfl rfl
  declare range _ name _ type isConstant _ _ := declare h range _ name _ type isConstant
  assign range name value _ := by
    intro m hm
    simp only [Effects.assign, Exec.assign]
    split
    · next ha =>
      exact of_once hm (by simp only [ha]; rfl) rfl (h.change (.assign ha) rfl rfl rfl hm)
    · next ha => exact of_stay hm (by simp only [ha]; rfl) rfl
  literal := literal h
  newFunction := by
    rintro c _ ⟨hc, rfl⟩ _ m hm
    exact of_once hm (by rw [Closure.map_id]; rfl) rfl (h.newFunction hc hm)
  closure? {_ _ k l id} _ hnone hsome := by
    intro m hm
    have found : (k m.closures[id]? m).outcome = l m.closures[id]? m ∧
        ∀ n ∈ (k m.closures[id]? m).moments, I n := by
      cases hc : m.closures[id]? with
      | none => exact hnone m hm
      | some c =>
          have obeys := h.closures hm (Array.mem_of_getElem? hc)
          have run := hsome c _ ⟨obeys, rfl⟩ (Realm.hasScope_all _) m hm
          rwa [Closure.map_id] at run
    change ((k m.closures[id]? m).after (.stay m) (.refl m)).outcome = l m.closures[id]? m ∧
      ∀ n ∈ ((k m.closures[id]? m).after (.stay m) (.refl m)).moments, I n
    refine of_after (fun n hn => ?_) found
    rwa [List.mem_singleton.mp hn]
  field? key _ := fun _ hm => of_stay hm rfl rfl
  putField {object} key {value} _ _ := fun m hm =>
    of_once hm rfl rfl (h.change (.putField m object key value) rfl rfl (Array.size_modify ..) hm)
  builtin := (speaks h).builtin
  inBlock kind hx := inBlock h kind hx
  inCall range around _ hp hx := inCall h range around (fun frame => hp frame trivial) hx

theorem concord : Concord id D .all (fun α (_ : Demand α) => Faithful I α) where
  toAccord := accord h
  target _ _ _ := fun _ hm => of_stay hm rfl rfl
  declaration _ kind name type _ _ _ _ hvalue :=
    (accord h).declareVariable kind.value name type hvalue fun frame v type _ _ =>
      declare h name.range frame name.value v type (kind.value = .const)
  unfinished := fun _ hm => of_stay hm rfl rfl
  repeatWithin turns hx := repeatWithin hx turns

end

end Faithful

/-! ### Tasks -/

namespace Task

/-- Runs a task on a machine and watches it. -/
def watch (bound : Nat) (t : Task ρ α) (m : Machine ρ) : Run m α :=
  (t.compute bound : Watched ρ α) m

/-- Watching a task changes nothing, and what is kept by runs is true on the way. -/
theorem faithful {D : Discipline ρ} {I : Machine ρ → Prop} (invariant : Invariant D I)
    (bound : Nat) {t : Task ρ α} (ht : t.Obeys D) :
    Faithful I α (t.compute bound) (t.compute bound) := by
  have run := (Faithful.concord invariant).task bound ht
  rwa [map_id] at run

theorem outcome_watch (bound : Nat) (t : Task ρ α) (m : Machine ρ) :
    (t.watch bound m).outcome = t.run bound m :=
  (faithful .free bound t.obeys_free m trivial).1

/-- What is kept by runs is true of every machine that a task passes through. -/
theorem invariant {D : Discipline ρ} {I : Machine ρ → Prop} (h : Invariant D I) {bound : Nat}
    {t : Task ρ α} (ht : t.Obeys D) {m m' : Machine ρ} (hm : I m)
    (hmem : m' ∈ (t.watch bound m).moments) : I m' :=
  (faithful h bound ht m hm).2 m' hmem

end Task

end Guion
