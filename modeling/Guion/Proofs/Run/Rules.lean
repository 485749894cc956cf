import Guion.Proofs.Run.Fields
import Guion.Proofs.Tree.Positions
import Guion.Run.Eval

/-!
# Relations between ways of running, rule by rule

The rules of the language are written for any kind of computation that has the effects. So
two kinds of computation that are related effect by effect are related by every rule.
`Accord` lists what a relation has to do with each effect, and one lemma for each rule says
what the rule does with it then. A relation may do well with all but some of the effects, and
then the rules that have those are left to the caller: `Executes` asks nothing of built-in
functions and of what is put into objects, and `Evaluates` nothing of declarations and frames.

A relation comes with a demand on results. It is what the computation that follows
may rely on, so that one can keep track of which frames, objects and functions a run
can come across. The lemmas ask of the trees on the two sides only what the rules look at:
that the parts are related, and where they stand. So the trees may be at other positions,
and they may be written in another way. What runs inside a call may be related in another
way than what runs outside, since the body of a function is no part of the tree that calls
it.

Some faults are a matter of how a program is written. No rule makes them but assignments
and declarations, and there the lemmas leave it to the caller whether they can occur.
-/

namespace Guion

variable {ρ σ : Type}

/-! ### What values refer to -/

/-- Some frames, objects and functions, by their numbers. -/
structure Realm where
  frame : Nat → Prop
  object : Nat → Prop
  function : Nat → Prop

namespace Realm

/-- All frames, objects and functions. -/
def all : Realm := ⟨fun _ => True, fun _ => True, fun _ => True⟩

/-- What a value refers to is in the realm. -/
def HasValue (R : Realm) : Value → Prop
  | .object id => R.object id
  | .function id => R.function id
  | _ => True

/-- The frames of a scope are in the realm. -/
def HasScope (R : Realm) (scope : Scope) : Prop := ∀ frame ∈ scope.path, R.frame frame

/-- What a signal carries is in the realm. -/
def HasSignal (R : Realm) : Signal → Prop
  | .giveBack v => R.HasValue v
  | _ => True

/-- What the fields of an object hold is in the realm. -/
def HasFields (R : Realm) (fields : Fields) : Prop := ∀ entry ∈ fields, R.HasValue entry.2

variable {R : Realm}

@[simp] theorem hasValue_all (v : Value) : Realm.all.HasValue v := by
  cases v <;> trivial

@[simp] theorem hasScope_all (scope : Scope) : Realm.all.HasScope scope := fun _ _ => trivial

theorem HasFields.insert {fields : Fields} (h : R.HasFields fields) (key : String) {v : Value}
    (hv : R.HasValue v) : R.HasFields (fields.insert key v) := by
  intro entry mem
  obtain old | rfl := Fields.mem_of_mem_insert mem
  · exact h entry old
  · exact hv

/-- What is found under a key is in a field. -/
theorem HasFields.get? {fields : Fields} (h : R.HasFields fields) {key : String}
    {v : Value} (found : fields.get? key = some v) : R.HasValue v := by
  obtain ⟨before, after, rfl, -⟩ := List.lookup_eq_some_iff.mp found
  exact h (key, v) (List.mem_append_right _ List.mem_cons_self)

/-- Operators make numbers, texts and truth values only. -/
theorem hasValue_of_apply {operator : Operator} {a b v : Value}
    (h : operator.apply a b = .ok v) : R.HasValue v := by
  unfold Operator.apply at h
  split at h
  case h_5 op x y _ _ =>
    cases holds : op.holds? with
    | some _ =>
        rw [holds] at h
        cases h
        trivial
    | none =>
        rw [holds] at h
        cases h
  case h_7 => cases h
  all_goals
    cases h
    trivial

end Realm

/-- A demand on a result. -/
inductive Demand : Type → Type 1
  | anything {α : Type} : Demand α
  | value : Demand Value
  | signal : Demand Signal
  | scope : Demand Scope
  | fields : Demand Fields
  | object : Demand Nat
  | option {α : Type} : Demand α → Demand (Option α)
  | list {α : Type} : Demand α → Demand (List α)

namespace Demand

/-- A result meets a demand: what it refers to is in the realm. -/
def Holds (R : Realm) : {α : Type} → Demand α → α → Prop
  | _, anything, _ => True
  | _, value, v => R.HasValue v
  | _, signal, s => R.HasSignal s
  | _, scope, s => R.HasScope s
  | _, fields, entries => R.HasFields entries
  | _, object, id => R.object id
  | _, option d, found => ∀ a ∈ found, d.Holds R a
  | _, list d, results => ∀ a ∈ results, d.Holds R a

/-- Every result meets every demand if nothing is outside the realm. -/
theorem holds_all {α : Type} (d : Demand α) (a : α) : d.Holds .all a := by
  induction d with
  | anything => trivial
  | value => exact Realm.hasValue_all a
  | signal =>
      cases a with
      | giveBack v => exact Realm.hasValue_all v
      | _ => trivial
  | scope => exact Realm.hasScope_all a
  | fields => exact fun entry _ => Realm.hasValue_all entry.2
  | object => trivial
  | option d ih => exact fun b _ => ih b
  | list d ih => exact fun b _ => ih b

end Demand

/-! ### Sequences -/

/-- A fault that a program shows without running: it is a matter of how an assignment or a
declaration is written, not of what is computed. -/
def Fault.isStatic : Fault → Bool
  | .invalidTarget | .missingType _ | .constantWithoutValue _ => true
  | _ => false

theorem Operator.isStatic_of_apply_error {operator : Operator} {a b : Value} {fault : Fault}
    (h : operator.apply a b = .error fault) : fault.isStatic = false := by
  unfold Operator.apply at h
  split at h
  case h_5 op x y _ _ =>
    cases holds : op.holds? with
    | some _ =>
        rw [holds] at h
        cases h
    | none =>
        rw [holds] at h
        cases h
        rfl
  case h_7 =>
    cases h
    rfl
  all_goals cases h

theorem Builtin.isStatic_of_numeral_error {text : String} {fault : Fault}
    (h : Builtin.numeral text = .error fault) : fault.isStatic = false := by
  unfold Builtin.numeral at h
  split at h
  · cases h
  · split at h
    · split at h
      · cases h
        rfl
      · cases h
    · cases h
      rfl

theorem Builtin.isStatic_of_toFloat_error {v : Value} {fault : Fault}
    (h : Builtin.toFloat v = .error fault) : fault.isStatic = false := by
  cases v with
  | text s => exact isStatic_of_numeral_error h
  | number x | boolean b | null => cases h
  | object id | builtin b | function id =>
      cases h
      rfl

/-- What a relation between two kinds of computations does with sequences and faults. The
positions on the right are those on the left, moved by `f`. -/
structure Chains (f : ρ → σ) (R : Realm) {M N : Type → Type} [Effects ρ M] [Effects σ N]
    (Rel : ∀ α : Type, Demand α → M α → N α → Prop) : Prop where
  pure {α : Type} {d : Demand α} {a : α} : d.Holds R a → Rel α d (pure a) (pure a)
  bind {α β : Type} {d : Demand α} {d' : Demand β} {x : M α} {y : N α} {k : α → M β}
    {l : α → N β} : Rel α d x y → (∀ a, d.Holds R a → Rel β d' (k a) (l a)) →
    Rel β d' (x >>= k) (y >>= l)
  fail {α : Type} {d : Demand α} (range : ρ) {fault : Fault} : fault.isStatic = false →
    Rel α d (Effects.fail range fault) (Effects.fail (f range) fault)

/-- A result that may be a fault. -/
theorem Chains.ofExcept {f : ρ → σ} {R : Realm} {M N : Type → Type} [Effects ρ M] [Effects σ N]
    {Rel : ∀ α : Type, Demand α → M α → N α → Prop} (h : Chains f R Rel) {α : Type}
    {d : Demand α} (range : ρ) {x : Except Fault α} (hx : ∀ a, x = .ok a → d.Holds R a)
    (dynamic : ∀ fault, x = .error fault → fault.isStatic = false) :
    Rel α d (Effects.ofExcept range x) (Effects.ofExcept (f range) x) := by
  cases x with
  | ok a => exact h.pure (hx a rfl)
  | error fault => exact h.fail range (dynamic fault rfl)

/-! ### Built-in functions -/

/-- What a relation has to do with texts for built-in functions to respect it. -/
structure Speaks (f : ρ → σ) (R : Realm) {M N : Type → Type} [Effects ρ M] [Effects σ N]
    (Rel : ∀ α : Type, Demand α → M α → N α → Prop) : Prop extends Chains f R Rel where
  display {v : Value} : R.HasValue v →
    Rel String .anything (Effects.display v) (Effects.display v)
  write (range : ρ) (text : String) :
    Rel Unit .anything (Effects.write range text) (Effects.write (f range) text)
  print (range : ρ) {v : Value} : R.HasValue v →
    Rel Unit .anything (Effects.print range v) (Effects.print (f range) v)

namespace Speaks

variable {f : ρ → σ} {R : Realm} {M N : Type → Type} [Effects ρ M] [Effects σ N]
variable {Rel : ∀ α : Type, Demand α → M α → N α → Prop} (h : Speaks f R Rel)

include h

theorem printMore (range : ρ) {values : List Value} (hvalues : ∀ v ∈ values, R.HasValue v) :
    Rel _ .anything (Builtin.printMore range values) (Builtin.printMore (f range) values) := by
  induction values with
  | nil => exact h.pure trivial
  | cons v rest ih =>
      obtain ⟨hv, hrest⟩ := List.forall_mem_cons.mp hvalues
      exact h.bind (h.write _ _) fun _ _ => h.bind (h.print _ hv) fun _ _ => ih hrest

theorem printLine (range : ρ) {values : List Value} (hvalues : ∀ v ∈ values, R.HasValue v) :
    Rel _ .anything (Builtin.printLine range values) (Builtin.printLine (f range) values) := by
  cases values with
  | nil => exact h.write _ _
  | cons v rest =>
      obtain ⟨hv, hrest⟩ := List.forall_mem_cons.mp hvalues
      refine h.bind (h.print _ hv) fun _ _ => ?_
      exact h.bind (h.printMore range hrest) fun _ _ => h.write _ _

theorem builtin (range : ρ) (b : Builtin) {values : List Value}
    (hvalues : ∀ v ∈ values, R.HasValue v) :
    Rel _ .value (b.apply range values) (b.apply (f range) values) := by
  cases b with
  | print => exact h.bind (h.printLine range hvalues) fun _ _ => h.pure trivial
  | typeOf | toBoolean =>
      match values with
      | [v] => exact h.pure trivial
      | [] | _ :: _ :: _ => exact h.fail _ rfl
  | toNumber =>
      match values with
      | [v] =>
          refine h.bind (h.ofExcept (d := .anything) range (fun _ _ => trivial) fun _ =>
            Builtin.isStatic_of_toFloat_error) fun x _ => ?_
          exact h.pure trivial
      | [] | _ :: _ :: _ => exact h.fail _ rfl
  | toText =>
      match values with
      | [v] =>
          have hv := List.forall_mem_singleton.mp hvalues
          exact h.bind (h.display hv) fun text _ => h.pure trivial
      | [] | _ :: _ :: _ => exact h.fail _ rfl

end Speaks

/-! ### Object literals -/

/-- The value of a property of an object literal. -/
def Property.compute {M : Type → Type} [Effects ρ M] (expression : Expr ρ → M Value)
    (p : Property ρ) : M Value :=
  match p.value with
  | some e => expression e
  | none => Effects.lookup p.key

theorem Rules.properties_cons {M : Type → Type} [Effects ρ M] (expression : Expr ρ → M Value)
    (fields : Fields) (p : Property ρ) (rest : List (Property ρ)) :
    Rules.properties expression fields (p :: rest) = p.compute expression >>= fun v =>
      Rules.properties expression (fields.insert p.key.value v) rest := by
  obtain ⟨key, value⟩ := p
  cases value <;> rfl

/-- The value of an object literal. -/
def Rules.literal {M : Type → Type} [Effects ρ M] (expression : Expr ρ → M Value)
    (list : List (Property ρ)) : M Value :=
  Rules.properties expression [] list >>= Effects.newObject

namespace Chains

variable {f : ρ → σ} {R : Realm} {M N : Type → Type} [Effects ρ M] [Effects σ N]
variable {Rel : ∀ α : Type, Demand α → M α → N α → Prop} (h : Chains f R Rel)
variable {expression : Expr ρ → M Value} {expression' : Expr σ → N Value}

include h

theorem properties {fields : Fields} (hfields : R.HasFields fields) {list : List (Property ρ)}
    {g : Property ρ → Property σ} (keys : ∀ p ∈ list, (g p).key.value = p.key.value)
    (hp : ∀ p ∈ list, Rel _ .value (p.compute expression) ((g p).compute expression')) :
    Rel _ .fields (Rules.properties expression fields list)
      (Rules.properties expression' fields (list.map g)) := by
  induction list generalizing fields with
  | nil => exact h.pure hfields
  | cons p rest ih =>
      obtain ⟨key, keys⟩ := List.forall_mem_cons.mp keys
      obtain ⟨first, more⟩ := List.forall_mem_cons.mp hp
      rw [List.map_cons, Rules.properties_cons, Rules.properties_cons]
      refine h.bind first fun v hv => ?_
      rw [key]
      exact ih (hfields.insert _ hv) keys more

/-- A relation that goes through the making of objects goes through their literals. -/
theorem literal (newObject : ∀ {fields : Fields}, R.HasFields fields →
      Rel Value .value (Effects.newObject fields) (Effects.newObject fields))
    {list : List (Property ρ)} {g : Property ρ → Property σ}
    (keys : ∀ p ∈ list, (g p).key.value = p.key.value)
    (hp : ∀ p ∈ list, Rel _ .value (p.compute expression) ((g p).compute expression')) :
    Rel _ .value (Rules.literal expression list) (Rules.literal expression' (list.map g)) :=
  h.bind (h.properties (List.forall_mem_nil _) keys hp) fun _ hfields => newObject hfields

end Chains

/-! ### Effects -/

/-- What a relation between two kinds of computations does with each effect that an expression
has where it stands, but for what an assignment puts into an object and what built-in functions
do. Objects are only made of the fields of literals, so it is asked of literals and not of all
fields. When functions are made, the two sides make a pair in `Made`; when one is called, the
two sides find a pair in `Found`. What refers to frames, objects and functions refers to those
in `R`. -/
structure Evaluates (f : ρ → σ) (Made Found : Closure ρ → Closure σ → Prop) (R : Realm)
    {M N : Type → Type} [Effects ρ M] [Effects σ N]
    (Rel : ∀ α : Type, Demand α → M α → N α → Prop) : Prop extends Chains f R Rel where
  scope : Rel Scope .scope Effects.scope Effects.scope
  insideFunction : Rel Bool .anything Effects.insideFunction Effects.insideFunction
  insideLoop : Rel Bool .anything Effects.insideLoop Effects.insideLoop
  lookup (name : Located ρ String) :
    Rel Value .value (Effects.lookup name) (Effects.lookup (name.map f))
  assign (range : ρ) (name : String) {value : Value} : R.HasValue value →
    Rel Unit .anything (Effects.assign range name value) (Effects.assign (f range) name value)
  literal {expression : Expr ρ → M Value} {expression' : Expr σ → N Value}
    {list : List (Property ρ)} {g : Property ρ → Property σ} :
    (∀ p ∈ list, (g p).key.value = p.key.value) →
    (∀ p ∈ list, Rel _ .value (p.compute expression) ((g p).compute expression')) →
    Rel Value .value (Rules.literal expression list) (Rules.literal expression' (list.map g))
  newFunction {c : Closure ρ} {c' : Closure σ} : Made c c' → R.HasScope c.scope →
    Rel Value .value (Effects.newFunction c) (Effects.newFunction c')
  closure? {β : Type} {d' : Demand β} {k : Option (Closure ρ) → M β}
    {l : Option (Closure σ) → N β} {id : Nat} : R.function id → Rel β d' (k none) (l none) →
    (∀ c c', Found c c' → R.HasScope c.scope → Rel β d' (k (some c)) (l (some c'))) →
    Rel β d' (Effects.closure? id >>= k) (Effects.closure? id >>= l)
  field? {object : Nat} (key : String) : R.object object →
    Rel (Option Value) (.option .value) (Effects.field? object key)
      (Effects.field? object key)

/-- What it does with declarations and with the frames of blocks and calls as well. What runs
in the frame of a call is related by `Inner`. -/
structure Executes (f : ρ → σ) (Made Found : Closure ρ → Closure σ → Prop) (R : Realm)
    {M N : Type → Type} [Effects ρ M] [Effects σ N]
    (Rel Inner : ∀ α : Type, Demand α → M α → N α → Prop) : Prop
    extends Evaluates f Made Found R Rel where
  declare (range : ρ) {frame : Nat} (name : String) {value : Value}
    (type : Option ValueType) (isConstant : Bool) : R.frame frame → R.HasValue value →
    Rel Unit .anything (Effects.declare range frame name (some value) type isConstant)
      (Effects.declare (f range) frame name (some value) type isConstant)
  inBlock {α : Type} {d : Demand α} {x : M α} {y : N α} (kind : ScopeKind) : Rel α d x y →
    Rel α d (Effects.inBlock kind x) (Effects.inBlock kind y)
  inCall {α : Type} {d : Demand α} {p : Nat → M Unit} {q : Nat → N Unit} {x : M α} {y : N α}
    (range : ρ) {around : Scope} : R.HasScope around →
    (∀ frame, R.frame frame → Rel Unit .anything (p frame) (q frame)) → Inner α d x y →
    Rel α d (Effects.inCall range around p x) (Effects.inCall (f range) around q y)

/-- What a relation between two kinds of computations does with each effect that the rules
use. -/
structure Accord (f : ρ → σ) (Made Found : Closure ρ → Closure σ → Prop) (R : Realm)
    {M N : Type → Type} [Effects ρ M] [Effects σ N]
    (Rel Inner : ∀ α : Type, Demand α → M α → N α → Prop) : Prop
    extends Executes f Made Found R Rel Inner where
  putField {object : Nat} (key : String) {value : Value} : R.object object → R.HasValue value →
    Rel Unit .anything (Effects.putField object key value) (Effects.putField object key value)
  builtin (range : ρ) (b : Builtin) {values : List Value} : (∀ v ∈ values, R.HasValue v) →
    Rel _ .value (b.apply range values) (b.apply (f range) values)

/-- Two functions that are called in the same way. -/
structure Closure.Twin (c : Closure ρ) (c' : Closure σ) : Prop where
  label : c'.label = c.label
  parameters : c'.parameters = c.parameters
  scope : c'.scope = c.scope

namespace Chains

variable {f : ρ → σ} {R : Realm} {M N : Type → Type} [Effects ρ M] [Effects σ N]
variable {Rel : ∀ α : Type, Demand α → M α → N α → Prop} (h : Chains f R Rel)

include h

theorem statements {statement : Stmt ρ → M Signal} {statement' : Stmt σ → N Signal}
    {g : Stmt ρ → Stmt σ} {list : List (Stmt ρ)}
    (hs : ∀ s ∈ list, Rel _ .signal (statement s) (statement' (g s))) :
    Rel _ .signal (Rules.statements statement list)
      (Rules.statements statement' (list.map g)) := by
  induction list with
  | nil => exact h.pure trivial
  | cons s rest ih =>
      obtain ⟨first, more⟩ := List.forall_mem_cons.mp hs
      refine h.bind first fun signal hsignal => ?_
      cases signal with
      | normal => exact ih more
      | _ => exact h.pure hsignal

end Chains

/-! ### Expressions, and the parts of statements -/

namespace Evaluates

variable {f : ρ → σ} {Made Found : Closure ρ → Closure σ → Prop} {R : Realm}
variable {M N : Type → Type} [Effects ρ M] [Effects σ N]
variable {Rel : ∀ α : Type, Demand α → M α → N α → Prop}
variable (h : Evaluates f Made Found R Rel)

include h

theorem resolveType (spelled : Located ρ String) :
    Rel _ .anything (Rules.resolveType spelled) (Rules.resolveType (spelled.map f)) := by
  unfold Rules.resolveType
  rw [Located.map_value]
  cases ValueType.ofName? spelled.value with
  | some type => exact h.pure trivial
  | none => exact h.fail _ rfl

theorem resolveType? (spelled : Option (Located ρ String)) :
    Rel _ .anything (Rules.resolveType? spelled)
      (Rules.resolveType? (spelled.map (Located.map f))) := by
  cases spelled with
  | some spelled => exact h.bind (h.resolveType spelled) fun type _ => h.pure trivial
  | none => exact h.pure trivial

theorem resolveParameters (list : List (Parameter ρ)) :
    Rel _ .anything (Rules.resolveParameters list)
      (Rules.resolveParameters (list.map (Parameter.map f))) := by
  induction list with
  | nil => exact h.pure trivial
  | cons p rest ih =>
      exact h.bind (h.resolveType p.type) fun type _ => h.bind ih fun more _ => h.pure trivial

/-- A function with the same signature and a body that it may be paired with. -/
theorem createFunction (name : Option String) {d : Function ρ} {d' : Function σ}
    (parameters : d'.parameters = d.parameters.map (Parameter.map f))
    (returnType : d'.returnType = d.returnType.map (Located.map f))
    (made : ∀ parameters returnType scope,
      Made ⟨name, parameters, returnType, d.body, scope⟩
        ⟨name, parameters, returnType, d'.body, scope⟩) :
    Rel _ .value (Rules.createFunction name d) (Rules.createFunction name d') := by
  unfold Rules.createFunction
  rw [parameters, returnType]
  refine h.bind (h.resolveParameters _) fun parameters _ => ?_
  refine h.bind (h.resolveType? _) fun returnType _ => ?_
  exact h.bind h.scope fun here hhere => h.newFunction (made parameters returnType here) hhere

variable {expression : Expr ρ → M Value} {expression' : Expr σ → N Value}
variable {body : List (Stmt ρ) → M Signal} {body' : List (Stmt σ) → N Signal}

theorem condition {e : Expr ρ} {e' : Expr σ} (range : e'.range = f e.range)
    (he : Rel _ .value (expression e) (expression' e')) :
    Rel _ .anything (Rules.condition expression e) (Rules.condition expression' e') := by
  refine h.bind he fun v _ => ?_
  rw [range]
  cases v.asBoolean? with
  | some b => exact h.pure trivial
  | none => exact h.fail _ rfl

theorem turn {test : Expr ρ} {test' : Expr σ} {b : Block ρ} {b' : Block σ}
    (htest : Rel _ .anything (Rules.condition expression test)
      (Rules.condition expression' test'))
    (hb : Rel _ .signal (Rules.block body b) (Rules.block body' b')) :
    Rel _ (.option .signal) (Rules.turn expression body test b)
      (Rules.turn expression' body' test' b') := by
  have ended : ∀ signal ∈ some Signal.normal, R.HasSignal signal := by
    rintro _ ⟨⟩
    trivial
  have again : ∀ signal ∈ (none : Option Signal), R.HasSignal signal := nofun
  refine h.bind htest fun holds _ => ?_
  cases holds with
  | true =>
      refine h.bind hb fun signal hsignal => ?_
      cases signal with
      | normal | continueLoop => exact h.pure again
      | breakLoop => exact h.pure ended
      | giveBack v =>
          refine h.pure ?_
          rintro _ ⟨⟩
          exact hsignal
  | false => exact h.pure ended

theorem optional {value : Option (Expr ρ)} {g : Expr ρ → Expr σ}
    (he : ∀ e ∈ value, Rel _ .value (expression e) (expression' (g e))) :
    Rel _ (.option .value) (Rules.optional expression value)
      (Rules.optional expression' (value.map g)) := by
  cases value with
  | some e =>
      refine h.bind (he e rfl) fun v hv => h.pure ?_
      rintro _ ⟨⟩
      exact hv
  | none => exact h.pure nofun

theorem giveBack (keyword : ρ) {value : Option (Expr ρ)} {value' : Option (Expr σ)}
    (hvalue : Rel _ (.option .value) (Rules.optional expression value)
      (Rules.optional expression' value')) :
    Rel _ .signal (Rules.giveBack expression keyword value)
      (Rules.giveBack expression' (f keyword) value') := by
  refine h.bind h.insideFunction fun inside _ => ?_
  cases inside with
  | true =>
      refine h.bind hvalue fun v hv => h.pure ?_
      cases v with
      | some v => exact hv v rfl
      | none => trivial
  | false => exact h.fail _ rfl

theorem loopControl (range : ρ) (keyword : Keyword) {signal : Signal}
    (hsignal : R.HasSignal signal) :
    Rel _ .signal (Rules.loopControl range keyword signal)
      (Rules.loopControl (f range) keyword signal) := by
  refine h.bind h.insideLoop fun inside _ => ?_
  cases inside with
  | true => exact h.pure hsignal
  | false => exact h.fail _ rfl

theorem all {list : List (Expr ρ)} {g : Expr ρ → Expr σ}
    (he : ∀ e ∈ list, Rel _ .value (expression e) (expression' (g e))) :
    Rel _ (.list .value) (Rules.all expression list) (Rules.all expression' (list.map g)) := by
  induction list with
  | nil => exact h.pure nofun
  | cons e rest ih =>
      obtain ⟨first, more⟩ := List.forall_mem_cons.mp he
      refine h.bind first fun v hv => h.bind (ih more) fun values hvalues => ?_
      exact h.pure (List.forall_mem_cons.mpr ⟨hv, hvalues⟩)

theorem computedKey {key : Expr ρ} {key' : Expr σ} (range : key'.range = f key.range)
    (he : Rel _ .value (expression key) (expression' key')) :
    Rel _ .anything (Rules.computedKey expression key) (Rules.computedKey expression' key') := by
  refine h.bind he fun v _ => ?_
  rw [range]
  cases v with
  | text s => exact h.pure trivial
  | _ => exact h.fail _ rfl

theorem asObject (range : ρ) {v : Value} (hv : R.HasValue v) :
    Rel _ .object (Rules.asObject range v) (Rules.asObject (f range) v) := by
  cases v with
  | object id => exact h.pure hv
  | _ => exact h.fail _ rfl

theorem readProperty (range : ρ) {object : Nat} (hobject : R.object object) (key : String) :
    Rel _ .value (Rules.readProperty range object key)
      (Rules.readProperty (f range) object key) := by
  refine h.bind (h.field? key hobject) fun found hfound => ?_
  cases found with
  | some v => exact h.pure (hfound v rfl)
  | none => exact h.fail _ rfl

section

variable {base : Expr ρ} {base' : Expr σ} {key : M String} {key' : N String}

/-- A read access. The two keys may be computed in different ways. -/
theorem access (range : base'.range = f base.range)
    (hbase : Rel _ .value (expression base) (expression' base'))
    (hkey : Rel _ .anything key key') (part : ρ) :
    Rel _ .value (Rules.access expression base key part)
      (Rules.access expression' base' key' (f part)) := by
  refine h.bind hbase fun v hv => h.bind hkey fun k _ => ?_
  rw [range]
  exact h.bind (h.asObject _ hv) fun object hobject => h.readProperty _ hobject _

/-- A write access. The two keys may be computed in different ways, and what putting a value
into an object does with the relation is asked of the caller. -/
theorem store (range : base'.range = f base.range)
    (hbase : Rel _ .value (expression base) (expression' base'))
    (hkey : Rel _ .anything key key') {value : Value}
    (put : ∀ (object : Nat) (key : String), R.object object →
      Rel Unit .anything (Effects.putField object key value)
        (Effects.putField object key value)) :
    Rel _ .anything (Rules.store expression base key value)
      (Rules.store expression' base' key' value) := by
  refine h.bind hbase fun v hv => h.bind hkey fun k _ => ?_
  rw [range]
  exact h.bind (h.asObject _ hv) fun object hobject => put object k hobject

end

section

variable {arguments : List (Expr ρ)} {g : Expr ρ → Expr σ}

theorem enter (range : ρ) {c : Closure ρ} {c' : Closure σ} {values : List Value}
    (run : Rel _ .signal (Rules.runBody body range c values arguments)
      (Rules.runBody body' (f range) c' values (arguments.map g))) :
    Rel _ .value (Rules.enter body range c values arguments)
      (Rules.enter body' (f range) c' values (arguments.map g)) := by
  refine h.bind run fun signal hsignal => ?_
  cases signal with
  | giveBack v => exact h.pure hsignal
  | _ => exact h.pure trivial

/-- A call. How the bodies of functions run is asked of the caller, and so is what a built-in
function does. -/
theorem call_of_runs (range : ρ)
    (values : Rel _ (.list .value) (Rules.all expression arguments)
      (Rules.all expression' (arguments.map g)))
    (found : ∀ c c', Found c c' → R.HasScope c.scope → c.Twin c' ∧
      ∀ values : List Value, (∀ v ∈ values, R.HasValue v) →
        Rel _ .signal (Rules.runBody body range c values arguments)
          (Rules.runBody body' (f range) c' values (arguments.map g)))
    {callee : Value} (hcallee : R.HasValue callee)
    (native : ∀ b, callee = .builtin b → ∀ values : List Value, (∀ v ∈ values, R.HasValue v) →
      Rel _ .value (b.apply range values) (b.apply (f range) values)) :
    Rel _ .value (Rules.call expression body range arguments callee)
      (Rules.call expression' body' (f range) (arguments.map g) callee) := by
  cases callee with
  | function id =>
      refine h.closure? hcallee (h.fail _ rfl) fun c c' hc hscope => ?_
      obtain ⟨twin, run⟩ := found c c' hc hscope
      simp only [List.length_map, twin.parameters, twin.label]
      by_cases arity : arguments.length = c.parameters.length
      · rw [if_pos arity, if_pos arity]
        exact h.bind values fun _ hvalues => h.enter range (run _ hvalues)
      · rw [if_neg arity, if_neg arity]
        exact h.fail _ rfl
  | builtin b => exact h.bind values fun values hvalues => native b rfl values hvalues
  | _ => exact h.bind values fun _ _ => h.fail _ rfl

end

end Evaluates

/-! ### Declarations, blocks and calls -/

section

variable {f : ρ → σ} {Made Found : Closure ρ → Closure σ → Prop} {R : Realm}
variable {M N : Type → Type} [Effects ρ M] [Effects σ N]
variable {Rel Inner : ∀ α : Type, Demand α → M α → N α → Prop}

namespace Executes

variable (h : Executes f Made Found R Rel Inner)

include h

variable {expression : Expr ρ → M Value} {expression' : Expr σ → N Value}
variable {body : List (Stmt ρ) → M Signal} {body' : List (Stmt σ) → N Signal}

theorem block {b : Block ρ} {b' : Block σ} (kind : b'.kind = b.kind)
    (hb : Rel _ .signal (body b.statements) (body' b'.statements)) :
    Rel _ .signal (Rules.block body b) (Rules.block body' b') := by
  unfold Rules.block
  rw [kind]
  exact h.inBlock _ hb

/-- A declaration. What declaring does with the relation is asked of the caller, who knows
which declarations there can be. -/
theorem declareVariable (kind : VariableKind) (name : Located ρ String)
    (type : Option (Located ρ String)) {value : Option (Expr ρ)} {value' : Option (Expr σ)}
    (hvalue : Rel _ (.option .value) (Rules.optional expression value)
      (Rules.optional expression' value'))
    (hdeclare : ∀ frame v type, R.frame frame → (∀ a ∈ v, R.HasValue a) →
      Rel Unit .anything (Effects.declare name.range frame name.value v type (kind = .const))
        (Effects.declare (f name.range) frame name.value v type (kind = .const))) :
    Rel _ .anything (Rules.declareVariable expression kind name type value)
      (Rules.declareVariable expression' kind (name.map f) (type.map (Located.map f)) value') := by
  refine h.bind (h.resolveType? type) fun type _ => h.bind hvalue fun v hv => ?_
  exact h.bind h.scope fun current hcurrent =>
    hdeclare _ v type (hcurrent _ List.mem_cons_self) hv

theorem declareFunction (name : Located ρ String) {d : Function ρ} {d' : Function σ}
    (hd : Rel _ .value (Rules.createFunction (some name.value) d)
      (Rules.createFunction (some name.value) d')) :
    Rel _ .anything (Rules.declareFunction name d) (Rules.declareFunction (name.map f) d') := by
  refine h.bind hd fun v hv => h.bind h.scope fun current hcurrent => ?_
  exact h.declare _ _ _ _ (hcurrent _ List.mem_cons_self) hv

/-- Arguments are looked at for where they stand only. -/
theorem bindParameters (range : ρ) {frame : Nat} (hframe : R.frame frame)
    (parameters : List (String × ValueType)) {values : List Value}
    (hvalues : ∀ v ∈ values, R.HasValue v) {arguments : List (Expr ρ)} {g : Expr ρ → Expr σ}
    (hg : ∀ e ∈ arguments, (g e).range = f e.range) :
    Rel _ .anything (Rules.bindParameters range frame parameters values arguments)
      (Rules.bindParameters (f range) frame parameters values (arguments.map g)) := by
  induction parameters generalizing values arguments with
  | nil => exact h.pure trivial
  | cons p parameters ih =>
      obtain ⟨name, type⟩ := p
      cases values with
      | nil => exact h.pure trivial
      | cons v values =>
          obtain ⟨hv, hrest⟩ := List.forall_mem_cons.mp hvalues
          cases arguments with
          | nil => exact h.pure trivial
          | cons e arguments =>
              obtain ⟨he, hmore⟩ := List.forall_mem_cons.mp hg
              simp only [List.map_cons, Rules.bindParameters, he]
              by_cases htype : v.type = type
              · rw [if_pos htype, if_pos htype]
                exact h.bind (h.declare _ _ _ _ hframe hv) fun _ _ => ih hrest hmore
              · rw [if_neg htype, if_neg htype]
                exact h.fail _ rfl

section

variable {arguments : List (Expr ρ)} {g : Expr ρ → Expr σ}
variable (hg : ∀ e ∈ arguments, (g e).range = f e.range)

include hg

theorem runBody (range : ρ) {c : Closure ρ} {c' : Closure σ} (twin : c.Twin c')
    (hscope : R.HasScope c.scope) (hbody : Inner _ .signal (body c.body.statements)
      (body' c'.body.statements)) {values : List Value} (hvalues : ∀ v ∈ values, R.HasValue v) :
    Rel _ .signal (Rules.runBody body range c values arguments)
      (Rules.runBody body' (f range) c' values (arguments.map g)) := by
  unfold Rules.runBody
  rw [twin.scope, twin.parameters]
  exact h.inCall range hscope (fun frame hframe => h.bindParameters _ hframe _ hvalues hg) hbody

end

/-! ### Programs -/

/-- The statements of a program. What is an expression on its own is one on both sides. -/
theorem programStep {statement : Stmt ρ → M Signal} {statement' : Stmt σ → N Signal}
    {g : Stmt ρ → Stmt σ} {list : List (Stmt ρ)}
    (he : ∀ range e, .expression range e ∈ list →
      ∃ e', g (.expression range e) = .expression (f range) e' ∧
        Rel _ .value (expression e) (expression' e'))
    (hs : ∀ s ∈ list, s.isExpression = false → (g s).isExpression = false ∧
      Rel _ .signal (statement s) (statement' (g s)))
    {last : Value} (hlast : R.HasValue last) :
    Rel _ .value (Rules.programStep expression statement last list)
      (Rules.programStep expression' statement' last (list.map g)) := by
  induction list generalizing last with
  | nil => exact h.pure hlast
  | cons s rest ih =>
      have more {v : Value} (hv : R.HasValue v) := ih
        (fun range e mem => he range e (List.mem_cons_of_mem _ mem))
        (fun s mem => hs s (List.mem_cons_of_mem _ mem)) hv
      rw [List.map_cons]
      cases isExpression : s.isExpression with
      | true =>
          cases s with
          | expression range e =>
              obtain ⟨e', same, run⟩ := he range e List.mem_cons_self
              rw [same]
              exact h.bind run fun v hv => more hv
          | _ => cases isExpression
      | false =>
          obtain ⟨other, run⟩ := hs s List.mem_cons_self isExpression
          have null : R.HasValue .null := trivial
          have step := h.bind run fun _ _ => more null
          generalize g s = s' at other step
          cases s with
          | expression => cases isExpression
          | _ =>
            cases s' with
            | expression => cases other
            | _ => exact step

end Executes

/-- A call, given what runs in it. -/
theorem Accord.call (h : Accord f Made Found R Rel Inner) {expression : Expr ρ → M Value}
    {expression' : Expr σ → N Value} {body : List (Stmt ρ) → M Signal}
    {body' : List (Stmt σ) → N Signal} {arguments : List (Expr ρ)} {g : Expr ρ → Expr σ}
    (hg : ∀ e ∈ arguments, (g e).range = f e.range) (range : ρ)
    (values : Rel _ (.list .value) (Rules.all expression arguments)
      (Rules.all expression' (arguments.map g)))
    (found : ∀ c c', Found c c' → c.Twin c' ∧
      Inner _ .signal (body c.body.statements) (body' c'.body.statements))
    {callee : Value} (hcallee : R.HasValue callee) :
    Rel _ .value (Rules.call expression body range arguments callee)
      (Rules.call expression' body' (f range) (arguments.map g) callee) := by
  refine h.call_of_runs range values (fun c c' hc hscope => ?_) hcallee fun b _ _ hvalues =>
    h.builtin range b hvalues
  obtain ⟨twin, hbody⟩ := found c c' hc
  exact ⟨twin, fun _ hvalues => h.runBody hg range twin hscope hbody hvalues⟩

end

/-! ### Where a sequence goes on, and where it fails -/

theorem Exec.bind_of_ok {α β : Type} {x : Exec ρ α} {m m' : Machine ρ} {a : α}
    (ran : x m = .ok a m') (k : α → Exec ρ β) : (x >>= k) m = k a m' := by
  change Exec.bind x k m = _
  rw [Exec.bind, ran]

/-- A sequence fails if its first part does, or else if its second part does. -/
theorem Exec.bind_eq_error_iff {α β : Type} {x : Exec ρ α} {f : α → Exec ρ β} {m last : Machine ρ}
    {fault : Located ρ Fault} : (x >>= f) m = .error fault last ↔
      x m = .error fault last ∨
        ∃ a middle, x m = .ok a middle ∧ f a middle = .error fault last := by
  change Exec.bind x f m = _ ↔ _
  unfold Exec.bind
  cases x m <;> simp [and_assoc]

/-! ### Object literals that are made -/

/-- From one machine to another the properties of an object literal are computed, one after
the other, and give these keys and values. -/
inductive Property.Writes (expression : Expr ρ → Exec ρ Value) :
    Machine ρ → List (Property ρ) → List (String × Value) → Machine ρ → Prop
  | nil (m : Machine ρ) : Writes expression m [] [] m
  | cons {m middle last : Machine ρ} {p : Property ρ} {rest : List (Property ρ)} {v : Value}
      {writes : List (String × Value)} : p.compute expression m = .ok v middle →
      Writes expression middle rest writes last →
      Writes expression m (p :: rest) ((p.key.value, v) :: writes) last

/-- The fields of a literal are what its properties write, in their order. -/
theorem Rules.properties_eq_ok_iff {expression : Expr ρ → Exec ρ Value}
    {list : List (Property ρ)} {fields result : Fields} {m last : Machine ρ} :
    Rules.properties expression fields list m = .ok result last ↔
      ∃ writes, Property.Writes expression m list writes last ∧
        result = fields.written writes := by
  induction list generalizing fields m with
  | nil =>
      constructor
      · rintro ⟨⟩
        exact ⟨[], .nil _, rfl⟩
      · rintro ⟨_, ⟨⟩, rfl⟩
        rfl
  | cons p rest ih =>
      rw [Rules.properties_cons, Exec.bind_eq_ok_iff]
      constructor
      · rintro ⟨v, middle, first, more⟩
        obtain ⟨writes, computed, rfl⟩ := ih.mp more
        exact ⟨(p.key.value, v) :: writes, .cons first computed, rfl⟩
      · rintro ⟨_, computed, rfl⟩
        cases computed with
        | cons first more => exact ⟨_, _, first, ih.mpr ⟨_, more, rfl⟩⟩

/-- A literal makes a new object of what its properties write. -/
theorem Rules.literal_eq_ok_iff {expression : Expr ρ → Exec ρ Value} {list : List (Property ρ)}
    {v : Value} {m m' : Machine ρ} :
    Rules.literal expression list m = .ok v m' ↔
      ∃ writes last, Property.Writes expression m list writes last ∧
        v = .object last.objects.size ∧
        m' = { last with objects := last.objects.push (Fields.written [] writes) } := by
  rw [Rules.literal, Exec.bind_eq_ok_iff]
  constructor
  · rintro ⟨fields, last, filled, made⟩
    obtain ⟨writes, computed, rfl⟩ := Rules.properties_eq_ok_iff.mp filled
    cases made
    exact ⟨writes, last, computed, rfl, rfl⟩
  · rintro ⟨writes, last, computed, rfl, rfl⟩
    exact ⟨_, last, Rules.properties_eq_ok_iff.mpr ⟨writes, computed, rfl⟩, rfl⟩

/-! ### Runs that come back

What runs inside a block or a call runs on a machine that was put elsewhere, and that is put
back when it ends. -/

/-- How a computation ends, with a change to the machine that it ends with. -/
def Outcome.alter {α : Type} (g : Machine ρ → Machine ρ) : Outcome ρ α → Outcome ρ α
  | ok a m => .ok a (g m)
  | error fault m => .error fault (g m)
  | unfinished => .unfinished

theorem Exec.within_eq_alter {α : Type} (scope : Scope) (x : Exec ρ α) (m : Machine ρ) :
    within scope x m =
      (x { m with scope := scope }).alter fun last => { last with scope := m.scope } := by
  unfold within
  cases x { m with scope := scope } <;> rfl

theorem Exec.counted_eq_alter {α : Type} (x : Exec ρ α) (m : Machine ρ) :
    counted x m = (x { m with depth := m.depth + 1 }).alter
      fun last => { last with depth := last.depth - 1 } := by
  unfold counted
  cases x { m with depth := m.depth + 1 } <;> rfl

/-- A repeated step is the step, and then the rest of the turns if it gave no result. -/
theorem Exec.repeatWithin_succ {α : Type} (step : Exec ρ (Option α)) (turns : Nat) :
    repeatWithin step (turns + 1) = (step >>= fun
      | some a => pure a
      | none => repeatWithin step turns) := by
  funext m
  rw [repeatWithin]
  change _ = Exec.bind step _ m
  unfold Exec.bind
  rcases step m with ⟨_ | a, _⟩ | _ | _ <;> rfl

end Guion
