import Guion.Proofs.Run.Rules
import Guion.Proofs.Tree.Discipline

/-!
# Relations between ways of running

Two kinds of computation that are related effect by effect are related on every tree. This
is shown here once, for all relations on trees whose positions are moved: `Respects` lists
what a relation has to do with each effect, and the rules give what it does with a tree then.

Trees may be taken from a discipline. What runs inside a call may be related in another way
than what runs outside, since the body of a function is no part of the tree that calls it.
-/

namespace Guion

variable {ρ σ : Type}

/-! ### Functions at moved positions -/

/-- A function value with its positions moved. -/
def Closure.map (f : ρ → σ) (c : Closure ρ) : Closure σ :=
  ⟨c.name, c.parameters, c.returnType, c.body.map f, c.scope⟩

@[simp] theorem Closure.map_id (c : Closure ρ) : c.map id = c := by
  rw [Closure.map, Block.map_id_apply]

/-- A function whose body obeys a discipline, and the same function at moved positions. -/
def Closure.Moved (f : ρ → σ) (D : Discipline ρ) (c : Closure ρ) (c' : Closure σ) : Prop :=
  c.body.Obeys D ∧ c' = c.map f

theorem Closure.twin_map (f : ρ → σ) (c : Closure ρ) : c.Twin (c.map f) := ⟨rfl, rfl, rfl⟩

theorem Expr.obeyAll_iff {D : Discipline ρ} {list : List (Expr ρ)} :
    Expr.ObeyAll D list ↔ ∀ e ∈ list, e.Obeys D := by
  induction list with
  | nil => simp [Expr.ObeyAll]
  | cons e rest ih => simp [Expr.ObeyAll, ih]

theorem Property.obeyAll_iff {D : Discipline ρ} {list : List (Property ρ)} :
    Property.ObeyAll D list ↔ ∀ p ∈ list, p.Obeys D := by
  induction list with
  | nil => simp [Property.ObeyAll]
  | cons p rest ih => simp [Property.ObeyAll, ih]

theorem Stmt.obeyAll_iff {D : Discipline ρ} {list : List (Stmt ρ)} :
    Stmt.ObeyAll D list ↔ ∀ s ∈ list, s.Obeys D := by
  induction list with
  | nil => simp [Stmt.ObeyAll]
  | cons s rest ih => simp [Stmt.ObeyAll, ih]

/-- An expression denotes a property of an object. -/
def Expr.isProperty : Expr ρ → Bool
  | .member .. | .subscript .. => true
  | _ => false

/-! ### Trees at moved positions -/

namespace Evaluates

variable {f : ρ → σ} {D E : Discipline ρ} {R : Realm} {M N : Type → Type} [Effects ρ M]
variable [Effects σ N] {Rel : ∀ α : Type, Demand α → M α → N α → Prop}
variable (h : Evaluates f (Closure.Moved f D) (Closure.Moved f E) R Rel)
variable {expression : Expr ρ → M Value} {expression' : Expr σ → N Value}
variable {body : List (Stmt ρ) → M Signal} {body' : List (Stmt σ) → N Signal}
variable (he : ∀ e : Expr ρ, e.Obeys D → Rel _ .value (expression e) (expression' (e.map f)))
variable (hb : ∀ b : Block ρ, b.Obeys D →
  Rel _ .signal (Rules.block body b) (Rules.block body' (b.map f)))

include h

theorem function_map (name : Option String) {d : Function ρ} (hd : d.Obeys D) :
    Rel _ .value (Rules.createFunction name d) (Rules.createFunction name (d.map f)) := by
  obtain ⟨list, type, body, range⟩ := d
  exact h.createFunction name rfl rfl fun _ _ _ => ⟨hd, rfl⟩

include he in
theorem condition_map {e : Expr ρ} (hobeys : e.Obeys D) :
    Rel _ .anything (Rules.condition expression e) (Rules.condition expression' (e.map f)) :=
  h.condition (Expr.range_map f e) (he e hobeys)

section

include he hb

set_option linter.unusedSectionVars false in
mutual

theorem conditional_map : ∀ choice : Conditional ρ, choice.Obeys D →
    Rel _ .signal (Rules.conditional expression body choice)
      (Rules.conditional expression' body' (choice.map f))
  | ⟨_, test, consequent, alternate⟩, hobeys => by
      obtain ⟨-, htest, hconsequent, halternate⟩ := hobeys
      refine h.bind (h.condition_map he htest) fun holds _ => ?_
      cases holds with
      | true => exact hb consequent hconsequent
      | false => exact otherwise_map alternate halternate

theorem otherwise_map : ∀ alternate : Alternate ρ, alternate.Obeys D →
    Rel _ .signal (Rules.otherwise expression body alternate)
      (Rules.otherwise expression' body' (alternate.map f))
  | .nothing, _ => h.pure trivial
  | .otherwise b, hobeys => hb b hobeys
  | .elseIf choice, hobeys => conditional_map choice hobeys

end

theorem turn_map {test : Expr ρ} {repeated : Block ρ} (htest : test.Obeys D)
    (hrepeated : repeated.Obeys D) :
    Rel _ (.option .signal) (Rules.turn expression body test repeated)
      (Rules.turn expression' body' (test.map f) (repeated.map f)) :=
  h.turn (h.condition_map he htest) (hb repeated hrepeated)

end

include he in
theorem optional_map {value : Option (Expr ρ)} (hvalue : Expr.ObeysOption D value) :
    Rel _ (.option .value) (Rules.optional expression value)
      (Rules.optional expression' (value.map (Expr.map f))) := by
  refine h.optional fun e mem => ?_
  obtain rfl : value = some e := mem
  exact he e hvalue

include he hb in
/-- A statement whose parts are related. What a loop does with its turns is left to the
caller, who knows whether there can be loops and how many turns they have, and so is what a
declaration does. -/
theorem statementStep_map (turns turns' : Nat) {s : Stmt ρ} (hs : s.Inside D)
    (loops : s.isLoop = true → ∀ {x : M (Option Signal)} {y : N (Option Signal)},
      Rel _ (.option .signal) x y →
      Rel _ .signal (Effects.repeatWithin x turns) (Effects.repeatWithin y turns'))
    (declared : ∀ range kind name type value, s = .declare range kind name type value →
      Rel _ .anything (Rules.declareVariable expression kind.value name type value)
        (Rules.declareVariable expression' kind.value (name.map f) (type.map (Located.map f))
          (value.map (Expr.map f))))
    (functions : ∀ range name d, s = .function range name d →
      Rel _ .anything (Rules.declareFunction name d)
        (Rules.declareFunction (name.map f) (d.map f))) :
    Rel _ .signal (Rules.statementStep turns expression body s)
      (Rules.statementStep turns' expression' body' (s.map f)) := by
  cases s with
  | breakLoop range => exact h.loopControl range _ trivial
  | continueLoop range => exact h.loopControl range _ trivial
  | expression range value => exact h.bind (he value hs) fun _ _ => h.pure trivial
  | function range name d => exact h.bind (functions range name d rfl) fun _ _ => h.pure trivial
  | conditional range choice => exact h.conditional_map he hb choice hs
  | giveBack range keyword value =>
      simp only [Stmt.map, Expr.mapOption_eq]
      exact h.giveBack keyword (h.optional_map he hs)
  | declare range kind name type value =>
      simp only [Stmt.map, Expr.mapOption_eq]
      exact h.bind (declared range kind name type value rfl) fun _ _ => h.pure trivial
  | loop range test repeated => exact loops rfl (h.turn_map he hb hs.1 hs.2)

include he

theorem all_map {list : List (Expr ρ)} (hlist : Expr.ObeyAll D list) :
    Rel _ (.list .value) (Rules.all expression list)
      (Rules.all expression' (list.map (Expr.map f))) :=
  h.all fun e mem => he e (Expr.obeyAll_iff.mp hlist e mem)

theorem literal_map {list : List (Property ρ)} (hlist : Property.ObeyAll D list) :
    Rel _ .value (Rules.literal expression list)
      (Rules.literal expression' (list.map (Property.map f))) := by
  refine h.literal (fun ⟨_, _⟩ _ => rfl) fun p mem => ?_
  have hp := Property.obeyAll_iff.mp hlist p mem
  obtain ⟨key, value⟩ := p
  cases value with
  | some e => exact he e hp
  | none => exact h.lookup key

theorem computedKey_map {key : Expr ρ} (hkey : key.Obeys D) :
    Rel _ .anything (Rules.computedKey expression key)
      (Rules.computedKey expression' (key.map f)) :=
  h.computedKey (Expr.range_map f key) (he key hkey)

/-- An assignment to a target. What happens if nothing can be assigned to it is left to the
caller, who knows whether there are such targets, and so is what is put into objects. -/
theorem assignTo_map {value : Value} (hvalue : R.HasValue value) {target : Expr ρ}
    (htarget : target.Obeys D)
    (put : target.isProperty = true → ∀ (object : Nat) (key : String), R.object object →
      Rel Unit .anything (Effects.putField object key value) (Effects.putField object key value))
    (invalid : target.isAssignable = false → ∀ range : ρ,
      Rel Unit .anything (Effects.fail range .invalidTarget)
        (Effects.fail (f range) .invalidTarget)) :
    Rel _ .anything (Rules.assignTo expression value target)
      (Rules.assignTo expression' value (target.map f)) := by
  cases target with
  | reference range name => exact h.assign _ _ hvalue
  | member range base name part =>
      exact h.store (Expr.range_map f base) (he base htarget.2) (h.pure trivial) (put rfl)
  | subscript range base key part =>
      exact h.store (Expr.range_map f base) (he base htarget.2.1)
        (h.computedKey_map he htarget.2.2) (put rfl)
  | call range callee arguments opening closing part =>
      exact h.bind (he callee htarget.2.1) fun _ _ => invalid rfl part
  | assign range | binary range | function range | object range | number range | text range =>
      exact invalid rfl range

/-- An assignment whose parts are related. -/
theorem assign_map (range : ρ) {target source : Expr ρ} (htarget : target.Obeys D)
    (hsource : source.Obeys D)
    (put : target.isProperty = true → ∀ (object : Nat) (key : String) (value : Value),
      R.object object → R.HasValue value →
      Rel Unit .anything (Effects.putField object key value) (Effects.putField object key value))
    (invalid : target.isAssignable = false → ∀ range : ρ,
      Rel Unit .anything (Effects.fail range .invalidTarget)
        (Effects.fail (f range) .invalidTarget)) :
    Rel _ .value (Rules.expressionStep expression body (.assign range target source))
      (Rules.expressionStep expression' body' ((Expr.assign range target source).map f)) := by
  refine h.bind (he source hsource) fun v hv => ?_
  refine h.bind (h.assignTo_map he hv htarget (fun property object key hobject => ?_) invalid)
    fun _ _ => h.pure hv
  exact put property object key v hobject hv

/-- A call whose parts are related. How the bodies of functions run is asked of the caller, and
so is what the built-in functions do. -/
theorem call_map (range opening closing part : ρ) {callee : Expr ρ} {arguments : List (Expr ρ)}
    (hcallee : callee.Obeys D) (harguments : Expr.ObeyAll D arguments)
    (runs : ∀ c : Closure ρ, c.body.Obeys E → R.HasScope c.scope →
      ∀ values : List Value, (∀ v ∈ values, R.HasValue v) →
        Rel _ .signal (Rules.runBody body range c values arguments)
          (Rules.runBody body' (f range) (c.map f) values (arguments.map (Expr.map f))))
    (native : ∀ (b : Builtin) (values : List Value), (∀ v ∈ values, R.HasValue v) →
      Rel _ .value (b.apply range values) (b.apply (f range) values)) :
    Rel _ .value
      (Rules.expressionStep expression body (.call range callee arguments opening closing part))
      (Rules.expressionStep expression' body'
        ((Expr.call range callee arguments opening closing part).map f)) := by
  simp only [Expr.map, Expr.mapAll_eq]
  refine h.bind (he callee hcallee) fun v hv => ?_
  refine h.call_of_runs range (h.all_map he harguments) ?_ hv fun b _ => native b
  rintro c _ ⟨hc, rfl⟩ hscope
  exact ⟨c.twin_map f, runs c hc hscope⟩

/-- An expression whose parts are related. Assignments and calls are left to the caller. -/
theorem expressionStep_map {e : Expr ρ} (hobeys : e.Inside D)
    (assigned : ∀ range target source, e = .assign range target source →
      Rel _ .value (Rules.expressionStep expression body e)
        (Rules.expressionStep expression' body' (e.map f)))
    (called : ∀ range callee arguments opening closing part,
      e = .call range callee arguments opening closing part →
      Rel _ .value (Rules.expressionStep expression body e)
        (Rules.expressionStep expression' body' (e.map f))) :
    Rel _ .value (Rules.expressionStep expression body e)
      (Rules.expressionStep expression' body' (e.map f)) := by
  cases e with
  | assign range target source => exact assigned range target source rfl
  | call range callee arguments opening closing part =>
      exact called range callee arguments opening closing part rfl
  | binary range operator lhs rhs =>
      refine h.bind (he lhs hobeys.1) fun a _ => h.bind (he rhs hobeys.2) fun b _ => ?_
      exact h.ofExcept _ (fun v => Realm.hasValue_of_apply)
        fun _ => Operator.isStatic_of_apply_error
  | function range d => exact h.function_map none hobeys
  | object range list =>
      simp only [Expr.map, Property.mapAll_eq]
      exact h.literal_map he hobeys
  | member range base name part =>
      exact h.access (Expr.range_map f base) (he base hobeys) (h.pure trivial) part
  | subscript range base key part =>
      exact h.access (Expr.range_map f base) (he base hobeys.1)
        (h.computedKey_map he hobeys.2) part
  | number range x => exact h.pure trivial
  | text range contents => exact h.pure trivial
  | reference range name => exact h.lookup name

end Evaluates

namespace Executes

variable {f : ρ → σ} {D E : Discipline ρ} {R : Realm} {M N : Type → Type} [Effects ρ M]
variable [Effects σ N] {Rel Inner : ∀ α : Type, Demand α → M α → N α → Prop}
variable (h : Executes f (Closure.Moved f D) (Closure.Moved f E) R Rel Inner)
variable {expression : Expr ρ → M Value} {expression' : Expr σ → N Value}
variable {body : List (Stmt ρ) → M Signal} {body' : List (Stmt σ) → N Signal}
variable (he : ∀ e : Expr ρ, e.Obeys D → Rel _ .value (expression e) (expression' (e.map f)))
variable (hb : ∀ list : List (Stmt ρ), Stmt.ObeyAll D list →
  Rel _ .signal (body list) (body' (list.map (Stmt.map f))))
variable (hi : ∀ list : List (Stmt ρ), Stmt.ObeyAll E list →
  Inner _ .signal (body list) (body' (list.map (Stmt.map f))))

include h

include hb in
theorem block_map {b : Block ρ} (hblock : b.Obeys D) :
    Rel _ .signal (Rules.block body b) (Rules.block body' (b.map f)) := by
  obtain ⟨kind, range, list⟩ := b
  refine h.block rfl ?_
  simpa only [Block.map, Stmt.mapAll_eq] using hb list hblock

include he hb in
/-- A statement whose parts are related. What a loop does with its turns is left to the
caller, who knows whether there can be loops and how many turns they have, and so is what a
declaration of a variable does. -/
theorem statementStep (turns turns' : Nat) {s : Stmt ρ} (hs : s.Inside D)
    (loops : s.isLoop = true → ∀ {x : M (Option Signal)} {y : N (Option Signal)},
      Rel _ (.option .signal) x y →
      Rel _ .signal (Effects.repeatWithin x turns) (Effects.repeatWithin y turns'))
    (declared : ∀ range kind name type value, s = .declare range kind name type value →
      Rel _ .anything (Rules.declareVariable expression kind.value name type value)
        (Rules.declareVariable expression' kind.value (name.map f) (type.map (Located.map f))
          (value.map (Expr.map f)))) :
    Rel _ .signal (Rules.statementStep turns expression body s)
      (Rules.statementStep turns' expression' body' (s.map f)) := by
  refine h.statementStep_map he (fun _ => h.block_map hb) turns turns' hs loops declared ?_
  rintro range name d rfl
  exact h.declareFunction name (h.function_map _ hs)

include hi in
/-- The body of a function that is called, if what runs in a call is related. -/
theorem runBody_map (range : ρ) {c : Closure ρ} (hc : c.body.Obeys E) (hscope : R.HasScope c.scope)
    {values : List Value} (hvalues : ∀ v ∈ values, R.HasValue v) (arguments : List (Expr ρ)) :
    Rel _ .signal (Rules.runBody body range c values arguments)
      (Rules.runBody body' (f range) (c.map f) values (arguments.map (Expr.map f))) := by
  refine h.runBody (fun e _ => Expr.range_map f e) range (c.twin_map f) hscope ?_ hvalues
  obtain ⟨name, parameters, returnType, ⟨kind, place, list⟩, scope⟩ := c
  simpa only [Closure.map, Block.map, Stmt.mapAll_eq] using hi list hc

theorem programStep_map {statement : Stmt ρ → M Signal} {statement' : Stmt σ → N Signal}
    (he : ∀ e : Expr ρ, e.Obeys D → Rel _ .value (expression e) (expression' (e.map f)))
    (hs : ∀ s : Stmt ρ, s.Obeys D → Rel _ .signal (statement s) (statement' (s.map f)))
    {last : Value} (hlast : R.HasValue last) {list : List (Stmt ρ)}
    (hlist : Stmt.ObeyAll D list) :
    Rel _ .value (Rules.programStep expression statement last list)
      (Rules.programStep expression' statement' last (list.map (Stmt.map f))) := by
  have obeys := Stmt.obeyAll_iff.mp hlist
  refine h.programStep (fun range e mem => ?_) (fun s mem isExpression => ?_) hlast
  · exact ⟨e.map f, rfl, he e (obeys _ mem).2⟩
  · refine ⟨?_, hs s (obeys s mem)⟩
    cases s <;> first | rfl | cases isExpression

end Executes

/-- An expression whose parts are related, and what runs in a call as well. -/
theorem Accord.expressionStep {f : ρ → σ} {D E : Discipline ρ} {R : Realm} {M N : Type → Type}
    [Effects ρ M] [Effects σ N] {Rel Inner : ∀ α : Type, Demand α → M α → N α → Prop}
    (h : Accord f (Closure.Moved f D) (Closure.Moved f E) R Rel Inner)
    {expression : Expr ρ → M Value} {expression' : Expr σ → N Value}
    {body : List (Stmt ρ) → M Signal} {body' : List (Stmt σ) → N Signal}
    (he : ∀ e : Expr ρ, e.Obeys D → Rel _ .value (expression e) (expression' (e.map f)))
    (hi : ∀ list : List (Stmt ρ), Stmt.ObeyAll E list →
      Inner _ .signal (body list) (body' (list.map (Stmt.map f))))
    {e : Expr ρ} (hobeys : e.Inside D)
    (invalid : ∀ range target source, e = .assign range target source →
      target.isAssignable = false → ∀ range : ρ,
      Rel Unit .anything (Effects.fail range .invalidTarget)
        (Effects.fail (f range) .invalidTarget)) :
    Rel _ .value (Rules.expressionStep expression body e)
      (Rules.expressionStep expression' body' (e.map f)) := by
  refine h.expressionStep_map he hobeys ?_ ?_
  · rintro range target source rfl
    exact h.assign_map he range hobeys.1 hobeys.2
      (fun _ _ key _ hobject hvalue => h.putField key hobject hvalue)
      (invalid range target source rfl)
  · rintro range callee arguments opening closing part rfl
    exact h.call_map he range opening closing part hobeys.1 hobeys.2
      (fun c hc hscope values hvalues => h.runBody_map hi range hc hscope hvalues arguments)
      fun b values => h.builtin range b

/-! ### One step -/

/-- What a relation between two kinds of computations does with each effect. The
positions on the right are those on the left, moved by `f`. Trees obey `D`, the bodies
of functions that are found in a machine obey `E`, and what refers to frames, objects
and functions refers to those in `R`. -/
structure Respects (f : ρ → σ) (D E : Discipline ρ) (R : Realm) {M N : Type → Type} [Effects ρ M]
    [Effects σ N] (Rel Inner : ∀ α : Type, Demand α → M α → N α → Prop) : Prop where
  pure {α : Type} {d : Demand α} {a : α} : d.Holds R a → Rel α d (pure a) (pure a)
  bind {α β : Type} {d : Demand α} {d' : Demand β} {x : M α} {y : N α} {k : α → M β}
    {l : α → N β} : Rel α d x y → (∀ a, d.Holds R a → Rel β d' (k a) (l a)) →
    Rel β d' (x >>= k) (y >>= l)
  fail {α : Type} {d : Demand α} (range : ρ) (fault : Fault) :
    Rel α d (Effects.fail range fault) (Effects.fail (f range) fault)
  scope : Rel Scope .scope Effects.scope Effects.scope
  insideFunction : Rel Bool .anything Effects.insideFunction Effects.insideFunction
  insideLoop : Rel Bool .anything Effects.insideLoop Effects.insideLoop
  lookup (name : Located ρ String) :
    Rel Value .value (Effects.lookup name) (Effects.lookup (name.map f))
  declare (range : ρ) {frame : Nat} (name : String) {value : Option Value}
    (type : Option ValueType) (isConstant : Bool) : R.frame frame →
    (∀ v ∈ value, R.HasValue v) →
    Rel Unit .anything (Effects.declare range frame name value type isConstant)
      (Effects.declare (f range) frame name value type isConstant)
  assign (range : ρ) (name : String) {value : Value} : R.HasValue value →
    Rel Unit .anything (Effects.assign range name value) (Effects.assign (f range) name value)
  newObject {fields : Fields} : R.HasFields fields →
    Rel Value .value (Effects.newObject fields) (Effects.newObject fields)
  newFunction {c : Closure ρ} : c.body.Obeys D → R.HasScope c.scope →
    Rel Value .value (Effects.newFunction c) (Effects.newFunction (c.map f))
  closure? {β : Type} {d' : Demand β} {k : Option (Closure ρ) → M β}
    {l : Option (Closure σ) → N β} {id : Nat} : R.function id → Rel β d' (k none) (l none) →
    (∀ c : Closure ρ, c.body.Obeys E → R.HasScope c.scope →
      Rel β d' (k (some c)) (l (some (c.map f)))) →
    Rel β d' (Effects.closure? id >>= k) (Effects.closure? id >>= l)
  field? {object : Nat} (key : String) : R.object object →
    Rel (Option Value) (.option .value) (Effects.field? object key)
      (Effects.field? object key)
  putField {object : Nat} (key : String) {value : Value} : R.object object → R.HasValue value →
    Rel Unit .anything (Effects.putField object key value) (Effects.putField object key value)
  display {v : Value} : R.HasValue v →
    Rel String .anything (Effects.display v) (Effects.display v)
  write (range : ρ) (text : String) :
    Rel Unit .anything (Effects.write range text) (Effects.write (f range) text)
  print (range : ρ) {v : Value} : R.HasValue v →
    Rel Unit .anything (Effects.print range v) (Effects.print (f range) v)
  inBlock {α : Type} {d : Demand α} {x : M α} {y : N α} (kind : ScopeKind) : Rel α d x y →
    Rel α d (Effects.inBlock kind x) (Effects.inBlock kind y)
  inCall {α : Type} {d : Demand α} {p : Nat → M Unit} {q : Nat → N Unit} {x : M α} {y : N α}
    (range : ρ) {around : Scope} : R.HasScope around →
    (∀ frame, R.frame frame → Rel Unit .anything (p frame) (q frame)) → Inner α d x y →
    Rel α d (Effects.inCall range around p x) (Effects.inCall (f range) around q y)

namespace Respects

variable {f : ρ → σ} {D E : Discipline ρ} {R : Realm} {M N : Type → Type} [Effects ρ M]
variable [Effects σ N] {Rel Inner : ∀ α : Type, Demand α → M α → N α → Prop}
variable (h : Respects f D E R Rel Inner)

include h

theorem speaks : Speaks f R Rel where
  pure := h.pure
  bind := h.bind
  fail range _ _ := h.fail range _
  display := h.display
  write := h.write
  print := h.print

/-- A relation that respects every effect also respects those on pairs of functions. -/
theorem accord : Accord f (Closure.Moved f D) (Closure.Moved f E) R Rel Inner where
  toChains := h.speaks.toChains
  scope := h.scope
  insideFunction := h.insideFunction
  insideLoop := h.insideLoop
  lookup := h.lookup
  declare range frame name value type isConstant hframe hvalue := by
    refine h.declare range name type isConstant hframe ?_
    rintro _ ⟨⟩
    exact hvalue
  assign := h.assign
  literal := h.speaks.toChains.literal h.newObject
  newFunction := by
    rintro c _ ⟨hc, rfl⟩ hscope
    exact h.newFunction hc hscope
  closure? hid hnone hsome := h.closure? hid hnone fun c hc => hsome c _ ⟨hc, rfl⟩
  field? := h.field?
  putField := h.putField
  builtin := h.speaks.builtin
  inBlock := h.inBlock
  inCall := h.inCall

variable {expression : Expr ρ → M Value} {expression' : Expr σ → N Value}
variable {body : List (Stmt ρ) → M Signal} {body' : List (Stmt σ) → N Signal}
variable (he : ∀ e : Expr ρ, e.Obeys D → Rel _ .value (expression e) (expression' (e.map f)))
variable (hb : ∀ list : List (Stmt ρ), Stmt.ObeyAll D list →
  Rel _ .signal (body list) (body' (list.map (Stmt.map f))))
variable (hi : ∀ list : List (Stmt ρ), Stmt.ObeyAll E list →
  Inner _ .signal (body list) (body' (list.map (Stmt.map f))))

theorem statements {statement : Stmt ρ → M Signal} {statement' : Stmt σ → N Signal}
    (hs : ∀ s : Stmt ρ, s.Obeys D → Rel _ .signal (statement s) (statement' (s.map f)))
    {list : List (Stmt ρ)} (hlist : Stmt.ObeyAll D list) :
    Rel _ .signal (Rules.statements statement list)
      (Rules.statements statement' (list.map (Stmt.map f))) :=
  h.accord.statements fun s mem => hs s (Stmt.obeyAll_iff.mp hlist s mem)

theorem declaration (kind : VariableKind) (name : Located ρ String)
    (type : Option (Located ρ String)) {value : Option (Expr ρ)} {value' : Option (Expr σ)}
    (hvalue : Rel _ (.option .value) (Rules.optional expression value)
      (Rules.optional expression' value')) :
    Rel _ .anything (Rules.declareVariable expression kind name type value)
      (Rules.declareVariable expression' kind (name.map f) (type.map (Located.map f)) value') :=
  h.accord.declareVariable kind name type hvalue fun _ _ type hframe hv =>
    h.declare name.range name.value type _ hframe hv

include he hb in
/-- A statement whose parts are related. What a loop does with its turns is left to
the caller, who knows whether there can be loops and how many turns they have. -/
theorem statementStep (turns turns' : Nat) {s : Stmt ρ} (hs : s.Inside D)
    (loops : s.isLoop = true → ∀ {x : M (Option Signal)} {y : N (Option Signal)},
      Rel _ (.option .signal) x y →
      Rel _ .signal (Effects.repeatWithin x turns) (Effects.repeatWithin y turns')) :
    Rel _ .signal (Rules.statementStep turns expression body s)
      (Rules.statementStep turns' expression' body' (s.map f)) := by
  refine h.accord.statementStep he hb turns turns' hs loops ?_
  rintro range kind name type value rfl
  exact h.declaration kind.value name type (h.accord.optional_map he hs)

include he hi in
/-- An expression whose parts are related. -/
theorem expressionStep {e : Expr ρ} (hobeys : e.Inside D) :
    Rel _ .value (Rules.expressionStep expression body e)
      (Rules.expressionStep expression' body' (e.map f)) :=
  h.accord.expressionStep he hi hobeys fun _ _ _ _ _ range => h.fail range _

end Respects

/-! ### Tasks -/

/-- What can be run, with the type of its result. -/
inductive Task (ρ : Type) : Type → Type
  | expression (e : Expr ρ) : Task ρ Value
  | statement (s : Stmt ρ) : Task ρ Signal
  | block (b : Block ρ) : Task ρ Signal
  | program (p : Program ρ) : Task ρ Value

namespace Task

variable {α : Type}

/-- The computation that runs a task within a bound. -/
def compute {M : Type → Type} [Effects ρ M] (bound : Nat) : {α : Type} → Task ρ α → M α
  | _, expression e => Rules.expression bound e
  | _, statement s => Rules.statement bound s
  | _, block b => Rules.block (Rules.statements (Rules.statement bound)) b
  | _, program p => Rules.program bound p

/-- Runs a task on a machine. -/
def run (bound : Nat) (t : Task ρ α) (m : Machine ρ) : Outcome ρ α :=
  (t.compute bound : Exec ρ α) m

/-- All nodes of a task meet the demand. -/
def Obeys (D : Discipline ρ) : {α : Type} → Task ρ α → Prop
  | _, expression e => e.Obeys D
  | _, statement s => s.Obeys D
  | _, block b => b.Obeys D
  | _, program p => p.Obeys D

theorem obeys_free (t : Task ρ α) : t.Obeys .free := by
  cases t with
  | expression e => exact e.obeys_free
  | statement s => exact s.obeys_free
  | block b => exact b.obeys_free
  | program p => exact Stmt.obeyAll_free p.statements

/-- A task with its positions moved. -/
def map (f : ρ → σ) : {α : Type} → Task ρ α → Task σ α
  | _, expression e => expression (e.map f)
  | _, statement s => statement (s.map f)
  | _, block b => block (b.map f)
  | _, program p => program (p.map f)

@[simp] theorem map_id (t : Task ρ α) : t.map id = t := by
  cases t with
  | expression e => exact congrArg expression e.map_id_apply
  | statement s => exact congrArg statement s.map_id_apply
  | block b => exact congrArg block b.map_id_apply
  | program p => exact congrArg program p.map_id_apply

/-- The demand on the result of a task. -/
def demand : {α : Type} → Task ρ α → Demand α
  | _, expression _ | _, program _ => .value
  | _, statement _ | _, block _ => .signal

end Task

/-- Related runs of a task within bounds of their own, if expressions and statements are
related within them. -/
theorem Executes.task_map {f : ρ → σ} {D E : Discipline ρ} {R : Realm} {M N : Type → Type}
    [Effects ρ M] [Effects σ N] {Rel Inner : ∀ α : Type, Demand α → M α → N α → Prop}
    (h : Executes f (Closure.Moved f D) (Closure.Moved f E) R Rel Inner) {n n' : Nat}
    (he : ∀ e : Expr ρ, e.Obeys D →
      Rel _ .value (Rules.expression n e) (Rules.expression n' (e.map f)))
    (hs : ∀ s : Stmt ρ, s.Obeys D →
      Rel _ .signal (Rules.statement n s) (Rules.statement n' (s.map f)))
    {α : Type} {t : Task ρ α} (ht : t.Obeys D) :
    Rel α t.demand (t.compute n) ((t.map f).compute n') := by
  cases t with
  | expression e => exact he e ht
  | statement s => exact hs s ht
  | block b =>
      exact h.block_map (fun list hlist => h.statements fun s mem =>
        hs s (Stmt.obeyAll_iff.mp hlist s mem)) ht
  | program p =>
      have null : R.HasValue .null := trivial
      exact h.programStep_map he hs null ht

theorem Respects.task {f : ρ → σ} {D E : Discipline ρ} {R : Realm} {M N : Type → Type}
    [Effects ρ M] [Effects σ N] {Rel Inner : ∀ α : Type, Demand α → M α → N α → Prop}
    (h : Respects f D E R Rel Inner) {n n' : Nat}
    (he : ∀ e : Expr ρ, e.Obeys D →
      Rel _ .value (Rules.expression n e) (Rules.expression n' (e.map f)))
    (hs : ∀ s : Stmt ρ, s.Obeys D →
      Rel _ .signal (Rules.statement n s) (Rules.statement n' (s.map f)))
    {α : Type} {t : Task ρ α} (ht : t.Obeys D) :
    Rel α t.demand (t.compute n) ((t.map f).compute n') :=
  h.accord.task_map he hs ht

/-! ### Whole runs -/

/-- A relation on pairs of functions that goes through whole runs of trees that obey `D`. It
has to answer for those assignments and declarations that the discipline leaves. -/
structure Concord (f : ρ → σ) (D : Discipline ρ) (R : Realm) {M N : Type → Type} [Effects ρ M]
    [Effects σ N] (Rel : ∀ α : Type, Demand α → M α → N α → Prop) : Prop
    extends Accord f (Closure.Moved f D) (Closure.Moved f D) R Rel Rel where
  target {range : ρ} {target source : Expr ρ} : (Expr.assign range target source).Obeys D →
    target.isAssignable = false → ∀ range : ρ, Rel Unit .anything
      (Effects.fail range .invalidTarget) (Effects.fail (f range) .invalidTarget)
  declaration (range : ρ) {kind : Located ρ VariableKind} {name : Located ρ String}
    {type : Option (Located ρ String)} {value : Option (Expr ρ)}
    {expression : Expr ρ → M Value} {expression' : Expr σ → N Value} :
    (Stmt.declare range kind name type value).Obeys D →
    Rel _ (.option .value) (Rules.optional expression value)
      (Rules.optional expression' (value.map (Expr.map f))) →
    Rel _ .anything (Rules.declareVariable expression kind.value name type value)
      (Rules.declareVariable expression' kind.value (name.map f) (type.map (Located.map f))
        (value.map (Expr.map f)))
  unfinished {α : Type} {d : Demand α} : Rel α d Effects.unfinished Effects.unfinished
  repeatWithin {α : Type} {d : Demand α} {x : M (Option α)} {y : N (Option α)} (turns : Nat) :
    Rel (Option α) (.option d) x y →
    Rel α d (Effects.repeatWithin x turns) (Effects.repeatWithin y turns)

/-- A relation that also goes through loops and through bounds that are used up. -/
structure Simulation (f : ρ → σ) (D : Discipline ρ) (R : Realm) {M N : Type → Type} [Effects ρ M]
    [Effects σ N] (Rel : ∀ α : Type, Demand α → M α → N α → Prop) : Prop
    extends Respects f D D R Rel Rel where
  unfinished {α : Type} {d : Demand α} : Rel α d Effects.unfinished Effects.unfinished
  repeatWithin {α : Type} {d : Demand α} {x : M (Option α)} {y : N (Option α)} (turns : Nat) :
    Rel (Option α) (.option d) x y →
    Rel α d (Effects.repeatWithin x turns) (Effects.repeatWithin y turns)

section

variable {f : ρ → σ} {D : Discipline ρ} {R : Realm} {M N : Type → Type} [Effects ρ M]
variable [Effects σ N] {Rel : ∀ α : Type, Demand α → M α → N α → Prop}

namespace Concord

variable (h : Concord f D R Rel)

include h

theorem within_bound (n : Nat) :
    (∀ e : Expr ρ, e.Obeys D →
      Rel _ .value (Rules.expression n e) (Rules.expression n (e.map f))) ∧
    ∀ s : Stmt ρ, s.Obeys D →
      Rel _ .signal (Rules.statement n s) (Rules.statement n (s.map f)) := by
  induction n with
  | zero => exact ⟨fun _ _ => h.unfinished, fun _ _ => h.unfinished⟩
  | succ n ih =>
      obtain ⟨he, hs⟩ := ih
      have hb (list : List (Stmt ρ)) (hlist : Stmt.ObeyAll D list) :
          Rel _ .signal (Rules.statements (Rules.statement n) list)
            (Rules.statements (Rules.statement n) (list.map (Stmt.map f))) :=
        h.statements fun s mem => hs s (Stmt.obeyAll_iff.mp hlist s mem)
      constructor
      · intro e hobeys
        refine h.expressionStep he hb hobeys.inside ?_
        rintro range target source rfl
        exact h.target hobeys
      · intro s hobeys
        refine h.statementStep he hb n n hobeys.inside (fun _ _ _ => h.repeatWithin n) ?_
        rintro range kind name type value rfl
        exact h.declaration range hobeys (h.optional_map he hobeys.inside)

/-- Related computations of an expression. -/
theorem expression (n : Nat) {e : Expr ρ} (hobeys : e.Obeys D) :
    Rel _ .value (Rules.expression n e) (Rules.expression n (e.map f)) :=
  (h.within_bound n).1 e hobeys

/-- Related runs of a statement. -/
theorem statement (n : Nat) {s : Stmt ρ} (hobeys : s.Obeys D) :
    Rel _ .signal (Rules.statement n s) (Rules.statement n (s.map f)) :=
  (h.within_bound n).2 s hobeys

/-- Related runs of a task. -/
theorem task (n : Nat) {α : Type} {t : Task ρ α} (ht : t.Obeys D) :
    Rel α t.demand (t.compute n) ((t.map f).compute n) :=
  h.task_map (fun _ => h.expression n) (fun _ => h.statement n) ht

end Concord

namespace Simulation

variable (h : Simulation f D R Rel)

include h

/-- A relation that respects every effect has an answer for every assignment and declaration. -/
theorem concord : Concord f D R Rel where
  toAccord := h.accord
  target _ _ range := h.fail range _
  declaration _ kind name type _ _ _ _ hvalue := h.declaration kind.value name type hvalue
  unfinished := h.unfinished
  repeatWithin := h.repeatWithin

/-- Related runs of a task. -/
theorem task (n : Nat) {α : Type} {t : Task ρ α} (ht : t.Obeys D) :
    Rel α t.demand (t.compute n) ((t.map f).compute n) :=
  h.concord.task n ht

end Simulation

end

end Guion
