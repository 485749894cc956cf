import Guion.Proofs.Parse.Kinds
import Guion.Proofs.Run.Frames
import Guion.Proofs.Run.Watched

/-!
# Signals stay inside what they leave

Whether a function or a loop may be left is asked of the scope that a statement
stands in, but the signal that leaves it travels along the calls under way. The two
agree: a statement ends with a signal only if its scope is inside something that
takes the signal in. The blocks of conditions and loops are marked by the parser,
frames are made from these marks and keep them, and a call begins with a frame that
no loop outside reaches through.
-/

namespace Guion

variable {ρ α β : Type}

/-! ### Paths through the frames -/

namespace Frames

/-- The frames on a path exist up to the first one that ends the search for a
function or a loop. -/
def Settled (frames : Frames) : List Nat → Prop
  | [] => True
  | frame :: around =>
    match frames.kind? frame with
    | some .function | some .global => True
    | some .conditional | some .loop => Settled frames around
    | none => False

variable {frames later : Frames} {path : List Nat}

/-- A function's frame ends the search, whatever is around it. -/
theorem settled_function {frame : Nat} (h : frames.kind? frame = some .function) :
    frames.Settled (frame :: path) := by
  rw [Settled, h]
  trivial

theorem settled_of_lt (h : ∀ frame ∈ path, frame < frames.size) : frames.Settled path := by
  induction path with
  | nil => trivial
  | cons frame around ih =>
      have exists_kind : frames.kind? frame = some frames[frame]!.kind := by
        have := h frame List.mem_cons_self
        simp [kind?, this]
      have rest := ih fun j hj => h j (List.mem_cons_of_mem _ hj)
      rw [Settled, exists_kind]
      cases frames[frame]!.kind with
      | function | global => trivial
      | conditional | loop => exact rest

theorem Settled.extend (h : frames.Settled path) (extend : frames.Extend later) :
    later.Settled path := by
  induction path with
  | nil => trivial
  | cons frame around ih =>
      rw [Settled] at h ⊢
      cases hk : frames.kind? frame with
      | none => simp [hk] at h
      | some kind =>
          rw [hk] at h
          rw [extend frame kind hk]
          cases kind with
          | function | global => trivial
          | conditional | loop => exact ih h

/-- What is added later does not change where a settled path leads. -/
theorem Settled.insideFunction (h : frames.Settled path) (extend : frames.Extend later) :
    later.insideFunction path = frames.insideFunction path := by
  induction path with
  | nil => rfl
  | cons frame around ih =>
      rw [Settled] at h
      rw [Frames.insideFunction, Frames.insideFunction]
      cases hk : frames.kind? frame with
      | none => simp [hk] at h
      | some kind =>
          rw [hk] at h
          rw [extend frame kind hk]
          cases kind with
          | function | global => rfl
          | conditional | loop => exact ih h

theorem Settled.insideLoop (h : frames.Settled path) (extend : frames.Extend later) :
    later.insideLoop path = frames.insideLoop path := by
  induction path with
  | nil => rfl
  | cons frame around ih =>
      rw [Settled] at h
      rw [Frames.insideLoop, Frames.insideLoop]
      cases hk : frames.kind? frame with
      | none => simp [hk] at h
      | some kind =>
          rw [hk] at h
          rw [extend frame kind hk]
          cases kind with
          | function | global | loop => rfl
          | conditional => exact ih h

end Frames

/-! ### Machines and computations -/

/-- The scope is the same and frames have only been added. -/
structure Keeps (m m' : Machine ρ) : Prop where
  scope : m'.scope = m.scope
  extend : m.frames.Extend m'.frames

/-- Where the scope of a machine leads is settled. -/
def Machine.Settled (m : Machine ρ) : Prop := m.frames.Settled m.scope.path

theorem Keeps.settled {m m' : Machine ρ} (h : Keeps m m') (hm : m.Settled) : m'.Settled := by
  rw [Machine.Settled, h.scope]
  exact Frames.Settled.extend hm h.extend

/-- The signals that the scope of a machine can take in. -/
def Signal.Allowed (m : Machine ρ) : Signal → Prop
  | .normal => True
  | .giveBack _ => m.frames.insideFunction m.scope.path = true
  | .breakLoop | .continueLoop => m.frames.insideLoop m.scope.path = true

theorem Keeps.allowed {m m' : Machine ρ} (h : Keeps m m') (hm : m.Settled) {signal : Signal}
    (allowed : signal.Allowed m') : signal.Allowed m := by
  cases signal with
  | normal => trivial
  | giveBack v =>
      rw [Signal.Allowed, h.scope, Frames.Settled.insideFunction hm h.extend] at allowed
      exact allowed
  | breakLoop | continueLoop =>
      rw [Signal.Allowed, h.scope, Frames.Settled.insideLoop hm h.extend] at allowed
      exact allowed

theorem Machine.kind?_entered (m : Machine ρ) (kind : ScopeKind) :
    (m.entered kind).frames.kind? m.frames.size = some kind := by
  rw [Machine.entered, Frames.kind?_push, if_pos rfl]

theorem Machine.Settled.entered {m : Machine ρ} (h : m.Settled) (kind : ScopeKind) :
    (m.entered kind).Settled := by
  have outer : (m.entered kind).frames.Settled m.scope.path :=
    Frames.Settled.extend h (.push m.frames kind)
  change (m.entered kind).frames.Settled (m.frames.size :: m.scope.path)
  rw [Frames.Settled, m.kind?_entered kind]
  cases kind with
  | function | global => trivial
  | conditional | loop => exact outer

/-- Functions are looked for behind the blocks of conditions and loops. -/
theorem Machine.Settled.insideFunction_entered {m : Machine ρ} (h : m.Settled) {kind : ScopeKind}
    (through : kind = .conditional ∨ kind = .loop) :
    (m.entered kind).frames.insideFunction (m.entered kind).scope.path =
      m.frames.insideFunction m.scope.path := by
  rw [← Frames.Settled.insideFunction h (.push m.frames kind)]
  change (m.entered kind).frames.insideFunction (m.frames.size :: m.scope.path) = _
  rw [Frames.insideFunction, m.kind?_entered]
  rcases through with rfl | rfl
  · rfl
  · rfl

/-- Loops are looked for behind the blocks of conditions. -/
theorem Machine.Settled.insideLoop_entered {m : Machine ρ} (h : m.Settled) :
    (m.entered .conditional).frames.insideLoop (m.entered .conditional).scope.path =
      m.frames.insideLoop m.scope.path := by
  rw [← Frames.Settled.insideLoop h (.push m.frames .conditional)]
  change (m.entered .conditional).frames.insideLoop (m.frames.size :: m.scope.path) = _
  rw [Frames.insideLoop, m.kind?_entered]
  rfl

/-- The block of a condition takes no signal in. -/
theorem Machine.Settled.allowed_of_conditional {m : Machine ρ} (h : m.Settled) {signal : Signal}
    (allowed : signal.Allowed (m.entered .conditional)) : signal.Allowed m := by
  cases signal with
  | normal => trivial
  | giveBack v =>
      rw [Signal.Allowed, h.insideFunction_entered (.inl rfl)] at allowed
      exact allowed
  | breakLoop | continueLoop =>
      rw [Signal.Allowed, h.insideLoop_entered] at allowed
      exact allowed

/-- A function is left through the blocks of its loops. -/
theorem Machine.Settled.allowed_of_loop {m : Machine ρ} (h : m.Settled) {v : Value}
    (allowed : (Signal.giveBack v).Allowed (m.entered .loop)) : (Signal.giveBack v).Allowed m := by
  rw [Signal.Allowed, h.insideFunction_entered (.inr rfl)] at allowed
  exact allowed

/-- A computation that ends with a value keeps the scope and the frames. -/
def Exec.Kept (x : Exec ρ α) : Prop := ∀ m a m', x m = .ok a m' → Keeps m m'

/-- What can be watched keeps the scope and the frames. -/
theorem Faithful.kept {x : Watched ρ α} {y : Exec ρ α} (h : Faithful (fun _ => True) α x y) :
    Exec.Kept y := by
  intro m a m' hy
  have ends : (x m).outcome.machine? = some m' := by
    rw [(h m trivial).1, hy]
    rfl
  have extend := (x m).path.extend
  rw [Run.last_eq ends] at extend
  exact ⟨(Run.restored ends).scope, extend⟩

theorem Task.kept (bound : Nat) (t : Task ρ α) : Exec.Kept (t.compute bound : Exec ρ α) :=
  (Task.faithful .free bound t.obeys_free).kept

/-- A computation that ends with a signal ends with one that its scope can take in. -/
def Exec.Signals (x : Exec ρ Signal) : Prop :=
  ∀ m, m.Settled → ∀ signal m', x m = .ok signal m' → signal.Allowed m

/-! ### Statements -/

namespace Exec

theorem within_ok {scope : Scope} {x : Exec ρ α} {a : α} {m m' : Machine ρ}
    (h : Exec.within scope x m = .ok a m') : ∃ last, x { m with scope := scope } = .ok a last := by
  unfold Exec.within at h
  split at h
  · next last hx =>
    cases h
    exact ⟨last, hx⟩
  · cases h
  · cases h

theorem counted_ok {x : Exec ρ α} {a : α} {m m' : Machine ρ} (h : Exec.counted x m = .ok a m') :
    ∃ last, x { m with depth := m.depth + 1 } = .ok a last := by
  unfold Exec.counted at h
  split at h
  · next last hx =>
    cases h
    exact ⟨last, hx⟩
  · cases h
  · cases h

/-- A block that ends has run its statements in a frame of its own. -/
theorem inBlock_ok {kind : ScopeKind} {x : Exec ρ α} {a : α} {m m' : Machine ρ}
    (h : Exec.inBlock kind x m = .ok a m') : ∃ last, x (m.entered kind) = .ok a last :=
  within_ok h

/-- A repeated step that ends, ends with a turn that gives a signal. -/
theorem signals_repeatWithin {step : Exec ρ (Option Signal)} (kept : Kept step)
    (hstep : ∀ m, m.Settled → ∀ signal m', step m = .ok (some signal) m' → signal.Allowed m)
    (turns : Nat) : Signals (Exec.repeatWithin step turns) := by
  induction turns with
  | zero =>
      intro m hm signal m' h
      cases h
  | succ n ih =>
      intro m hm signal m' h
      rw [Exec.repeatWithin] at h
      cases hturn : step m with
      | ok found middle =>
          rw [hturn] at h
          cases found with
          | some last =>
              cases h
              exact hstep m hm _ _ hturn
          | none =>
              -- The turns before the last have only added frames, so what may be left is the same.
              have keeps := kept m none middle hturn
              exact keeps.allowed hm (ih middle (keeps.settled hm) signal m' h)
      | error fault middle =>
          rw [hturn] at h
          cases h
      | unfinished =>
          rw [hturn] at h
          cases h

theorem signals_loopControl (range : ρ) (keyword : Keyword) {signal : Signal}
    (hsignal : signal = .breakLoop ∨ signal = .continueLoop) :
    Signals (Rules.loopControl range keyword signal) := by
  intro m hm found m' h
  obtain ⟨inside, middle, hinside, h⟩ := bind_eq_ok_iff.mp h
  cases hinside
  cases hloop : m.frames.insideLoop m.scope.path with
  | false =>
      rw [hloop] at h
      cases h
  | true =>
      rw [hloop] at h
      cases h
      rcases hsignal with rfl | rfl
      · exact hloop
      · exact hloop

theorem signals_giveBack (expression : Expr ρ → Exec ρ Value) (keyword : ρ)
    (value : Option (Expr ρ)) : Signals (Rules.giveBack expression keyword value) := by
  intro m hm found m' h
  obtain ⟨inside, middle, hinside, h⟩ := bind_eq_ok_iff.mp h
  cases hinside
  cases hfunction : m.frames.insideFunction m.scope.path with
  | false =>
      rw [hfunction] at h
      cases h
  | true =>
      rw [hfunction] at h
      obtain ⟨v, last, -, h⟩ := bind_eq_ok_iff.mp h
      cases h
      exact hfunction

/-- What ends normally is allowed everywhere. -/
theorem signals_normal (x : Exec ρ α) : Signals (do let _ ← x; return .normal) := by
  intro m hm found m' h
  obtain ⟨a, middle, -, h⟩ := bind_eq_ok_iff.mp h
  cases h
  trivial

section

variable {n : Nat}

theorem kept_condition (test : Expr ρ) :
    Kept (Rules.condition (Rules.expression n) test : Exec ρ Bool) := by
  have h := Faithful.concord (Invariant.free (ρ := ρ))
  have run := h.condition_map (fun e he => h.expression n he) test.obeys_free
  rw [Expr.map_id_apply] at run
  exact run.kept

theorem kept_turn (test : Expr ρ) (repeated : Block ρ) :
    Kept (Rules.turn (Rules.expression n) (Rules.statements (Rules.statement n)) test repeated :
      Exec ρ (Option Signal)) := by
  have h := Faithful.concord (Invariant.free (ρ := ρ))
  have run := h.turn_map (fun e he => h.expression n he)
    (fun _ => h.toAccord.block_map fun _ _ => h.statements fun s _ => h.statement n s.obeys_free)
    test.obeys_free repeated.obeys_free
  rw [Expr.map_id_apply, Block.map_id_apply] at run
  exact run.kept

variable (hs : ∀ s : Stmt ρ, s.Obeys .kinds → Signals (Rules.statement n s))

include hs

theorem signals_statements {list : List (Stmt ρ)} (hlist : Stmt.ObeyAll .kinds list) :
    Signals (Rules.statements (Rules.statement n) list) := by
  induction list with
  | nil =>
      intro m hm signal m' h
      cases h
      trivial
  | cons s rest ih =>
      intro m hm signal m' h
      obtain ⟨first, middle, hfirst, h⟩ := bind_eq_ok_iff.mp h
      have keeps := Task.kept n (.statement s) m first middle hfirst
      cases first with
      | normal => exact keeps.allowed hm (ih hlist.2 middle (keeps.settled hm) signal m' h)
      | giveBack v =>
          cases h
          exact hs s hlist.1 m hm _ _ hfirst
      | breakLoop | continueLoop =>
          cases h
          exact hs s hlist.1 m hm _ _ hfirst

/-- The signal of a block is one that its own frame allows. -/
theorem block_allowed {b : Block ρ} (hobeys : b.Obeys .kinds) {m m' : Machine ρ} {signal : Signal}
    (hm : m.Settled)
    (h : Rules.block (M := Exec ρ) (Rules.statements (Rules.statement n)) b m = .ok signal m') :
    signal.Allowed (m.entered b.kind.scopeKind) := by
  obtain ⟨last, h⟩ := inBlock_ok h
  obtain ⟨kind, range, list⟩ := b
  exact signals_statements hs hobeys _ (hm.entered _) signal last h

theorem signals_block {b : Block ρ} (hkind : b.kind = .conditional) (hobeys : b.Obeys .kinds) :
    Signals (Rules.block (Rules.statements (Rules.statement n)) b) := by
  intro m hm signal m' h
  have allowed := block_allowed hs hobeys hm h
  rw [hkind] at allowed
  exact hm.allowed_of_conditional allowed

mutual

theorem signals_conditional : ∀ choice : Conditional ρ, choice.Obeys .kinds →
    Signals (Rules.conditional (Rules.expression n) (Rules.statements (Rules.statement n)) choice)
  | ⟨_, test, consequent, alternate⟩, hobeys => by
      obtain ⟨⟨hkind, helse⟩, -, hconsequent, halternate⟩ := hobeys
      intro m hm signal m' h
      obtain ⟨holds, middle, htest, h⟩ := bind_eq_ok_iff.mp h
      have keeps := kept_condition test m holds middle htest
      refine keeps.allowed hm ?_
      cases holds with
      | true => exact signals_block hs hkind hconsequent middle (keeps.settled hm) signal m' h
      | false =>
          refine signals_otherwise alternate halternate (fun b hb => ?_) middle
            (keeps.settled hm) signal m' h
          rw [hb] at helse
          exact helse

theorem signals_otherwise : ∀ alternate : Alternate ρ, alternate.Obeys .kinds →
    (∀ b, alternate = .otherwise b → b.kind = .conditional) →
    Signals (Rules.otherwise (Rules.expression n) (Rules.statements (Rules.statement n)) alternate)
  | .nothing, _, _ => by
      intro m hm signal m' h
      cases h
      trivial
  | .otherwise b, hobeys, hkind => signals_block hs (hkind b rfl) hobeys
  | .elseIf choice, hobeys, _ => signals_conditional choice hobeys

end

/-- A turn of a loop takes in what only a loop can take in. -/
theorem turn_allowed {test : Expr ρ} {repeated : Block ρ} (hkind : repeated.kind = .loop)
    (hobeys : repeated.Obeys .kinds) (m : Machine ρ) (hm : m.Settled) (signal : Signal)
    (m' : Machine ρ)
    (h : Rules.turn (M := Exec ρ) (Rules.expression n) (Rules.statements (Rules.statement n)) test
      repeated m = .ok (some signal) m') : signal.Allowed m := by
  obtain ⟨holds, middle, htest, h⟩ := bind_eq_ok_iff.mp h
  have keeps := kept_condition test m holds middle htest
  cases holds with
  | false =>
      cases h
      trivial
  | true =>
      obtain ⟨inner, last, hblock, h⟩ := bind_eq_ok_iff.mp h
      have allowed := block_allowed hs hobeys (keeps.settled hm) hblock
      rw [hkind] at allowed
      cases inner with
      | normal | continueLoop => cases h
      | breakLoop =>
          cases h
          trivial
      | giveBack v =>
          cases h
          exact keeps.allowed hm ((keeps.settled hm).allowed_of_loop allowed)

theorem signals_statementStep (turns : Nat) {s : Stmt ρ} (hobeys : s.Obeys .kinds) :
    Signals (Rules.statementStep turns (Rules.expression n) (Rules.statements (Rules.statement n))
      s) := by
  cases s with
  | breakLoop range => exact signals_loopControl range _ (.inl rfl)
  | continueLoop range => exact signals_loopControl range _ (.inr rfl)
  | expression range value => exact signals_normal _
  | function range name d => exact signals_normal _
  | conditional range choice => exact signals_conditional hs choice hobeys.2
  | giveBack range keyword value => exact signals_giveBack _ keyword value
  | declare range kind name type value => exact signals_normal _
  | loop range test repeated =>
      exact signals_repeatWithin (kept_turn test repeated)
        (turn_allowed hs hobeys.1 hobeys.2.2) turns

end

/-- A statement ends only with signals that its scope can take in. -/
theorem signals_statement (n : Nat) {s : Stmt ρ} (hobeys : s.Obeys .kinds) :
    Signals (Rules.statement n s) := by
  induction n generalizing s with
  | zero =>
      intro m hm signal m' h
      cases h
  | succ n ih => exact signals_statementStep (fun s hs => ih hs) n hobeys

/-! ### Calls -/

/-- A call that ends has run its body in a function's frame. -/
theorem inCall_ok {range : ρ} {around : Scope} {prepare : Nat → Exec ρ Unit} {x : Exec ρ α}
    {a : α} {m m' : Machine ρ} (kept : ∀ frame, Kept (prepare frame))
    (h : Exec.inCall range around prepare x m = .ok a m') :
    ∃ inside last, x inside = .ok a last ∧ inside.scope = around.inner m.frames.size ∧
      inside.frames.kind? m.frames.size = some .function := by
  unfold Exec.inCall at h
  split at h
  · cases h
  · obtain ⟨_, middle, hprepare, h⟩ := bind_eq_ok_iff.mp h
    have keeps := kept _ _ _ _ hprepare
    obtain ⟨counted, h⟩ := counted_ok h
    obtain ⟨last, h⟩ := within_ok h
    exact ⟨_, last, h, rfl, keeps.extend _ _ (m.kind?_entered .function)⟩

/-- The body of a function ends normally or gives a value back. -/
theorem runBody_signal {n : Nat} {c : Closure ρ} (hc : c.body.Obeys .kinds) {range : ρ}
    {values : List Value} {arguments : List (Expr ρ)} {signal : Signal} {m m' : Machine ρ}
    (h : Rules.runBody (M := Exec ρ) (Rules.statements (Rules.statement n)) range c values
      arguments m = .ok signal m') : signal = .normal ∨ ∃ v, signal = .giveBack v := by
  have kept (frame : Nat) :
      Kept (Rules.bindParameters range frame c.parameters values arguments : Exec ρ Unit) := by
    have h := Faithful.accord (Invariant.free (ρ := ρ))
    have known : ∀ v ∈ values, Realm.all.HasValue v := fun v _ => Realm.hasValue_all v
    have bound := h.bindParameters range (show Realm.all.frame frame from trivial)
      c.parameters known fun e (_ : e ∈ arguments) => Expr.range_map id e
    simp only [id, Expr.map_id, List.map_id_fun] at bound
    exact bound.kept
  obtain ⟨inside, last, hbody, hscope, hkind⟩ := inCall_ok kept h
  have settled : inside.Settled := by
    rw [Machine.Settled, hscope]
    exact Frames.settled_function hkind
  have noLoop : inside.frames.insideLoop inside.scope.path = false := by
    rw [hscope, Scope.inner, Scope.path, Frames.insideLoop, hkind]
  obtain ⟨name, parameters, returnType, ⟨kind, place, list⟩, scope⟩ := c
  have allowed := signals_statements (fun s => signals_statement n) hc inside settled signal last
    hbody
  cases signal with
  | normal => exact .inl rfl
  | giveBack v => exact .inr ⟨v, rfl⟩
  | breakLoop | continueLoop =>
      rw [Signal.Allowed, noLoop] at allowed
      cases allowed

end Exec

/-! ### Reachable machines -/

/-- The functions of a machine have their blocks marked, its scope is settled, and the
outermost frame is the global one. -/
structure Machine.Orderly (m : Machine ρ) : Prop where
  closures : ∀ c ∈ m.closures, c.body.Obeys .kinds
  settled : m.Settled
  outermost : m.frames.kind? 0 = some .global

theorem Machine.orderly_initial (limit : Option Nat) :
    (Machine.initial limit : Machine ρ).Orderly where
  closures c hc := by simp [Machine.initial] at hc
  settled := trivial
  outermost := rfl

/-- Runs of trees with their blocks marked keep machines orderly. -/
theorem Machine.orderly_invariant : Invariant (ρ := ρ) .kinds Machine.Orderly where
  closures {m c} hm hc := hm.closures c hc
  newFunction {m c} hc hm := by
    refine ⟨fun c' hc' => ?_, hm.settled, hm.outermost⟩
    rcases Array.mem_push.mp hc' with hc' | rfl
    · exact hm.closures c' hc'
    · exact hc
  newObject _ hm := ⟨hm.closures, hm.settled, hm.outermost⟩
  change {m m'} change hscope hclosures _ hm := by
    refine ⟨?_, Keeps.settled ⟨hscope, change.extend⟩ hm.settled,
      change.extend 0 .global hm.outermost⟩
    rw [hclosures]
    exact hm.closures
  block {m} kind hm :=
    ⟨hm.closures, hm.settled.entered kind, Frames.Extend.push m.frames kind 0 .global hm.outermost⟩
  call {m frame} around hkind hm := ⟨hm.closures, Frames.settled_function hkind, hm.outermost⟩
  leave {before m} hbefore hm extend :=
    ⟨hm.closures, Frames.Settled.extend hbefore.settled extend, hm.outermost⟩

section

variable [Extent ρ]

/-- Tasks that the parser reads from tokens. -/
inductive Task.Parsed : {α : Type} → Task ρ α → Prop
  | expression {c next : Cursor ρ} {e : Expr ρ} :
      Parser.expression c = .ok e next → Parsed (.expression e)
  | statement {c next : Cursor ρ} {s : Stmt ρ} :
      Parser.statement c = .ok s next → Parsed (.statement s)
  | program {c next : Cursor ρ} {p : Program ρ} :
      Parser.program c = .ok p next → Parsed (.program p)

theorem Task.Parsed.kinds {t : Task ρ α} (h : t.Parsed) : t.Obeys .kinds := by
  cases h with
  | expression h => exact Parser.kinds_of_expression h
  | statement h => exact Parser.kinds_of_statement h
  | program h => exact Parser.kinds_of_program h

/-- The machines that can be reached by running what the parser reads. Those in the
midst of a run are among them, and something else may be run from there. -/
inductive Reachable (limit : Option Nat) : Machine ρ → Prop
  | start : Reachable limit (Machine.initial limit)
  | run {m m' : Machine ρ} {α : Type} {t : Task ρ α} (bound : Nat) : Reachable limit m →
      t.Parsed → m' ∈ (t.watch bound m).moments → Reachable limit m'

theorem Reachable.orderly {limit : Option Nat} {m : Machine ρ} (h : Reachable limit m) :
    m.Orderly := by
  induction h with
  | start => exact Machine.orderly_initial limit
  | run bound _ parsed hmem ih =>
      exact Task.invariant Machine.orderly_invariant parsed.kinds ih hmem

end

/-! ### The outermost scope -/

/-- An orderly machine may go on in any scope that leads somewhere. -/
theorem Machine.Orderly.within {m : Machine ρ} (h : m.Orderly) {scope : Scope}
    (settled : m.frames.Settled scope.path) : Machine.Orderly { m with scope := scope } :=
  ⟨h.closures, settled, h.outermost⟩

theorem Machine.Orderly.settled_outermost {m : Machine ρ} (h : m.Orderly) :
    m.frames.Settled Scope.outermost.path := by
  rw [Scope.path, Scope.outermost, Frames.Settled, h.outermost]
  trivial

/-- In the outermost scope there is nothing to leave. -/
theorem Machine.Orderly.normal {m : Machine ρ} (h : m.Orderly) (outermost : m.scope = .outermost)
    {signal : Signal} (allowed : signal.Allowed m) : signal = .normal := by
  cases signal with
  | normal => rfl
  | giveBack v =>
      simp [Signal.Allowed, outermost, Scope.outermost, Scope.path, Frames.insideFunction,
        h.outermost] at allowed
  | breakLoop | continueLoop =>
      simp [Signal.Allowed, outermost, Scope.outermost, Scope.path, Frames.insideLoop,
        h.outermost] at allowed

/-- A task that ends leaves an orderly machine orderly and in its scope. -/
theorem Machine.Orderly.run {m m' : Machine ρ} (h : m.Orderly) {bound : Nat} {t : Task ρ α}
    (ht : t.Obeys .kinds) {a : α} (hrun : t.run bound m = .ok a m') :
    m'.Orderly ∧ m'.scope = m.scope := by
  have ends : (t.watch bound m).outcome.machine? = some m' := by
    rw [t.outcome_watch, hrun]
    rfl
  have orderly := Task.invariant Machine.orderly_invariant ht h (t.watch bound m).path.last_mem
  rw [Run.last_eq ends] at orderly
  exact ⟨orderly, (Run.restored ends).scope⟩

/-- Sequences that begin alike end alike if they go on alike from there. -/
theorem Exec.bind_congr {x y : Exec ρ α} {k l : α → Exec ρ β} {m : Machine ρ} (same : x m = y m)
    (h : ∀ a m', y m = .ok a m' → k a m' = l a m') : (x >>= k) m = (y >>= l) m := by
  change Exec.bind x k m = Exec.bind y l m
  unfold Exec.bind
  rw [same]
  cases hy : y m with
  | ok a m' => exact h a m' hy
  | error fault m' => rfl
  | unfinished => rfl

/-- A statement, with something else in its place as soon as it does not end normally. -/
def Exec.asserted (alarm x : Exec ρ Signal) : Exec ρ Signal := do
  match ← x with
  | .normal => return .normal
  | _ => alarm

theorem Exec.asserted_eq (alarm : Exec ρ Signal) {x : Exec ρ Signal} {m : Machine ρ}
    (h : ∀ signal m', x m = .ok signal m' → signal = .normal) : asserted alarm x m = x m := by
  change Exec.bind x _ m = x m
  unfold Exec.bind
  cases hx : x m with
  | ok signal m' =>
      rw [h signal m' hx]
      rfl
  | error fault m' => rfl
  | unfinished => rfl

/-- No statement of a program sets the alarm off. -/
theorem programStep_asserted (alarm : Exec ρ Signal) (bound : Nat) (last : Value)
    {list : List (Stmt ρ)} (hlist : Stmt.ObeyAll .kinds list) {m : Machine ρ} (hm : m.Orderly)
    (outermost : m.scope = .outermost) :
    Rules.programStep (Exec.expression bound)
        (fun s => Exec.asserted alarm (Exec.statement bound s)) last list m =
      Rules.programStep (Exec.expression bound) (Exec.statement bound) last list m := by
  induction list generalizing last m with
  | nil => rfl
  | cons s rest ih =>
      have quiet : Exec.asserted alarm (Exec.statement bound s) m = Exec.statement bound s m :=
        Exec.asserted_eq alarm fun signal m' h =>
          hm.normal outermost (Exec.signals_statement bound hlist.1 m hm.settled signal m' h)
      have run := Exec.bind_congr quiet
        (k := fun _ => Rules.programStep (Exec.expression bound)
          (fun s => Exec.asserted alarm (Exec.statement bound s)) .null rest)
        (l := fun _ => Rules.programStep (Exec.expression bound) (Exec.statement bound) .null rest)
        fun signal m' h => by
          obtain ⟨orderly, scope⟩ := hm.run (t := .statement s) hlist.1 h
          exact ih .null hlist.2 orderly (scope.trans outermost)
      cases s with
      | expression range e =>
          refine Exec.bind_congr rfl fun v m' h => ?_
          obtain ⟨orderly, scope⟩ := hm.run (t := .expression e) hlist.1.2 h
          exact ih v hlist.2 orderly (scope.trans outermost)
      | _ => exact run

/-- A statement leaves a function or a loop only from inside one, wherever it runs. So the
body of a function never ends by leaving a loop, a statement in the outermost scope ends
normally if it ends with a signal at all, and a program can do without looking at the
signals of its statements. -/
theorem signals_stay_inside {ρ : Type} [Extent ρ] {limit : Option Nat} {m : Machine ρ}
    (h : Reachable limit m) (bound : Nat) :
    (∀ s : Stmt ρ, (Task.statement s).Parsed → ∀ scope : Scope,
      (scope = m.scope ∨ ∀ frame ∈ scope.path, frame < m.frames.size) → ∀ signal m',
      Exec.statement bound s { m with scope := scope } = .ok signal m' →
        (∀ v, signal = .giveBack v → m.frames.insideFunction scope.path = true) ∧
        (signal = .breakLoop ∨ signal = .continueLoop →
          m.frames.insideLoop scope.path = true) ∧
        (scope = .outermost → signal = .normal)) ∧
    (∀ c ∈ m.closures, ∀ range values arguments signal m',
      Rules.runBody (Rules.statements (Exec.statement bound)) range c values arguments m =
        .ok signal m' → signal = .normal ∨ ∃ v, signal = .giveBack v) ∧
    ∀ p : Program ρ, (Task.program p).Parsed → ∀ alarm : Exec ρ Signal,
      Rules.programStep (Exec.expression bound)
          (fun s => Exec.asserted alarm (Exec.statement bound s)) .null p.statements
          { m with scope := .outermost } =
        Exec.program bound p { m with scope := .outermost } := by
  have orderly := h.orderly
  refine ⟨fun s parsed scope hscope signal m' hrun => ?_, fun c hc range values arguments signal m'
    hrun => ?_, fun p parsed alarm => ?_⟩
  · have settled : m.frames.Settled scope.path := by
      rcases hscope with rfl | hscope
      · exact orderly.settled
      · exact Frames.settled_of_lt hscope
    have there := orderly.within settled
    have allowed := Exec.signals_statement bound parsed.kinds _ there.settled signal m' hrun
    refine ⟨?_, ?_, ?_⟩
    · rintro v rfl
      exact allowed
    · rintro (rfl | rfl)
      · exact allowed
      · exact allowed
    · intro outermost
      exact there.normal outermost allowed
  · exact Exec.runBody_signal (orderly.closures c hc) hrun
  · exact programStep_asserted alarm bound .null parsed.kinds
      (orderly.within orderly.settled_outermost) rfl

/-- A loop that is left in its first turn. -/
def leftLoop : Stmt Unit :=
  .loop () (.reference () ⟨(), "verdadero"⟩) ⟨.loop, (), [.breakLoop ()]⟩

theorem leftLoop_parsed : (Task.statement leftLoop).Parsed :=
  .statement (c := .bare [.keyword .mientras, .punctuator .leftParen, .name "verdadero",
    .punctuator .rightParen, .keyword .hacer, .punctuator .leftBrace, .keyword .romper,
    .punctuator .semicolon, .punctuator .rightBrace]) rfl

/-- The frame of a loop that was left is still there, and from inside it a loop can be
left. -/
theorem signals_stay_inside_leftLoop :
    ∃ m m', (Task.statement leftLoop).run 3 (Machine.initial none) = .ok .normal m ∧
      Exec.statement 1 (.breakLoop ()) { m with scope := ⟨1, [0]⟩ } = .ok .breakLoop m' ∧
      m.frames.insideLoop [1, 0] = true := by
  let m := ((Task.statement leftLoop).watch 3 (Machine.initial none)).last
  have reached : Reachable none m := .run 3 .start leftLoop_parsed (Path.last_mem _)
  have parsed : (Task.statement (.breakLoop () : Stmt Unit)).Parsed :=
    .statement (c := .bare [.keyword .romper, .punctuator .semicolon]) rfl
  have broken := (signals_stay_inside reached 1).1 (.breakLoop ()) parsed ⟨1, [0]⟩
    (.inr (by decide)) .breakLoop _ rfl
  exact ⟨m, _, rfl, rfl, broken.2.1 (.inl rfl)⟩

end Guion
