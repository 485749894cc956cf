import Guion.Proofs.Run.Bounds
import Guion.Proofs.Run.Moved
import Guion.Proofs.Tree.Sugar

/-!
# Sugar changes nothing

A tree with its sugar written out runs as the tree itself, on a machine whose functions have
their sugar written out as well: reads, writes and calls through properties come to the same
keys and the same faults at the same places, one effect after the other.

The two runs are compared within bounds. A name that stands for a property on its own is
looked up at once, while the reference that is written out for it is one level further down.
So it takes two comparisons to see that the runs end together: in one the tree with sugar may
be cut off while the other goes on, and in the other it is the other way round.
-/

namespace Guion

variable {ρ α β : Type}

/-- A function value with the sugar in its body written out. -/
def Closure.desugar (c : Closure ρ) : Closure ρ :=
  ⟨c.name, c.parameters, c.returnType, c.body.desugar, c.scope⟩

/-- A machine with the sugar in its functions written out. -/
def Machine.desugar (m : Machine ρ) : Machine ρ :=
  ⟨m.frames, m.objects, m.closures.map Closure.desugar, m.output, m.scope, m.depth⟩

/-- How a computation ends, with the sugar in the functions written out. -/
def Outcome.desugar : Outcome ρ α → Outcome ρ α
  | ok a m => .ok a m.desugar
  | error fault m => .error fault m.desugar
  | unfinished => .unfinished

/-- A task with its sugar written out. -/
def Task.desugar : {α : Type} → Task ρ α → Task ρ α
  | _, expression e => expression e.desugar
  | _, statement s => statement s.desugar
  | _, block b => block b.desugar
  | _, program p => program p.desugar

/-- The text of a function does not show its body. -/
theorem Machine.render_desugar (m : Machine ρ) (n : Nat) (v : Value) :
    v.render m.desugar.objects m.desugar.closures n = v.render m.objects m.closures n := by
  refine Value.render_congr m.objects (fun id => ?_) n v
  rw [Machine.desugar, Array.getElem?_map, Option.map_map]
  rfl

/-! ### Two runs side by side -/

/-- The side on which a run may be cut off while the other one goes on. -/
inductive Side where
  | sugared
  | plain

/-- Bounds with which only that side can be cut off. -/
def Side.Fits : Side → Nat → Nat → Prop
  | sugared, n, n' => n < n'
  | plain, n, n' => n' ≤ n

namespace Side.Fits

variable {side : Side} {n n' : Nat}

theorem zero_left (fits : side.Fits 0 n') : side = .sugared ∨ n' = 0 := by
  cases side with
  | sugared => exact .inl rfl
  | plain => exact .inr (Nat.le_zero.mp fits)

theorem zero_right (fits : side.Fits n 0) : side = .plain := by
  cases side with
  | sugared => exact absurd fits (Nat.not_lt_zero n)
  | plain => rfl

theorem pred (fits : side.Fits (n + 1) (n' + 1)) : side.Fits n n' := by
  cases side with
  | sugared => exact Nat.lt_of_succ_lt_succ fits
  | plain => exact Nat.le_of_succ_le_succ fits

end Side.Fits

/-- Two runs end in the same way, as far as neither is cut off. -/
inductive Outcome.Mirrors (side : Side) : Outcome ρ α → Outcome ρ α → Prop
  | ok (a : α) (m : Machine ρ) : Mirrors side (.ok a m) (.ok a m.desugar)
  | error (fault : Located ρ Fault) (m : Machine ρ) :
    Mirrors side (.error fault m) (.error fault m.desugar)
  | sugared (out : Outcome ρ α) : side = .sugared → Mirrors side .unfinished out
  | plain (out : Outcome ρ α) : side = .plain → Mirrors side out .unfinished

theorem Outcome.Mirrors.eq_of_sugared {out out' : Outcome ρ α} (h : out.Mirrors .sugared out')
    (ended : out ≠ .unfinished) : out' = out.desugar := by
  cases h with
  | ok a m => rfl
  | error fault m => rfl
  | sugared => exact absurd rfl ended
  | plain _ other => cases other

theorem Outcome.Mirrors.eq_of_plain {out out' : Outcome ρ α} (h : out.Mirrors .plain out')
    (ended : out' ≠ .unfinished) : out' = out.desugar := by
  cases h with
  | ok a m => rfl
  | error fault m => rfl
  | sugared _ other => cases other
  | plain => exact absurd rfl ended

theorem Outcome.Mirrors.unfinished (side : Side) :
    (Outcome.unfinished : Outcome ρ α).Mirrors side .unfinished := by
  cases side with
  | sugared => exact .sugared _ rfl
  | plain => exact .plain _ rfl

theorem Outcome.Mirrors.alter {side : Side} {out out' : Outcome ρ α} (h : out.Mirrors side out')
    {g : Machine ρ → Machine ρ} (same : ∀ m, (g m).desugar = g m.desugar) :
    (out.alter g).Mirrors side (out'.alter g) := by
  cases h with
  | ok a m =>
      change Outcome.Mirrors side (.ok a (g m)) (.ok a (g m.desugar))
      rw [← same]
      exact .ok a (g m)
  | error fault m =>
      change Outcome.Mirrors side (.error fault (g m)) (.error fault (g m.desugar))
      rw [← same]
      exact .error fault (g m)
  | sugared _ cut => exact .sugared _ cut
  | plain _ cut => exact .plain _ cut

/-- Two computations end in the same way, on machines that differ in the sugar of their
functions, as far as neither is cut off. -/
def Exec.Mirrors (side : Side) (x y : Exec ρ α) : Prop := ∀ m, (x m).Mirrors side (y m.desugar)

namespace Exec.Mirrors

variable {side : Side} {x y : Exec ρ α}

theorem bind {k l : α → Exec ρ β} (hx : x.Mirrors side y) (hk : ∀ a, (k a).Mirrors side (l a)) :
    Exec.Mirrors side (x >>= k) (y >>= l) := by
  intro m
  change (Exec.bind x k m).Mirrors side (Exec.bind y l m.desugar)
  unfold Exec.bind
  have run := hx m
  generalize x m = out, y m.desugar = out' at run ⊢
  cases run with
  | ok a last => exact hk a last
  | error fault last => exact .error fault last
  | sugared _ cut => exact .sugared _ cut
  | plain _ cut => exact .plain _ cut

theorem within (scope : Scope) (hx : x.Mirrors side y) :
    (Exec.within scope x).Mirrors side (Exec.within scope y) := by
  intro m
  rw [Exec.within_eq_alter, Exec.within_eq_alter]
  exact (hx { m with scope := scope }).alter fun _ => rfl

theorem counted (hx : x.Mirrors side y) : (Exec.counted x).Mirrors side (Exec.counted y) := by
  intro m
  rw [Exec.counted_eq_alter, Exec.counted_eq_alter]
  exact (hx { m with depth := m.depth + 1 }).alter fun _ => rfl

theorem inBlock (kind : ScopeKind) (hx : x.Mirrors side y) :
    (Exec.inBlock kind x).Mirrors side (Exec.inBlock kind y) :=
  fun m => within _ hx { m with frames := m.frames.push ⟨kind, []⟩ }

theorem inCall {p q : Nat → Exec ρ Unit} (range : ρ) (around : Scope)
    (hp : ∀ frame, (p frame).Mirrors side (q frame)) (hx : x.Mirrors side y) :
    (Exec.inCall range around p x).Mirrors side (Exec.inCall range around q y) := by
  intro m
  unfold Exec.inCall
  by_cases full : callLimit ≤ m.depth
  · rw [if_pos full, if_pos (show callLimit ≤ m.desugar.depth from full)]
    exact .error _ m
  · rw [if_neg full, if_neg (show ¬ callLimit ≤ m.desugar.depth from full)]
    exact bind (hp m.frames.size) (fun _ => counted (within _ hx))
      { m with frames := m.frames.push ⟨.function, []⟩ }

theorem repeatWithin {x y : Exec ρ (Option α)} (hx : x.Mirrors side y) {turns turns' : Nat}
    (fits : side.Fits turns turns') :
    Exec.Mirrors side (Exec.repeatWithin x turns) (Exec.repeatWithin y turns') := by
  induction turns generalizing turns' with
  | zero =>
      obtain cut | rfl := fits.zero_left
      · exact fun m => .sugared _ cut
      · exact fun m => .unfinished side
  | succ turns ih =>
      cases turns' with
      | zero => exact fun m => .plain _ fits.zero_right
      | succ turns' =>
          intro m
          have run := hx m
          unfold Exec.repeatWithin
          generalize x m = out at run
          generalize y m.desugar = out' at run
          cases run with
          | ok found last =>
              cases found with
              | some a => exact .ok a last
              | none => exact ih fits.pred last
          | error fault last => exact .error fault last
          | sugared _ cut => exact .sugared _ cut
          | plain _ cut => exact .plain _ cut

/-- What looks at a machine and changes nothing mirrors itself. -/
theorem of_look {look : Machine ρ → α} (same : ∀ m : Machine ρ, look m.desugar = look m) :
    Exec.Mirrors side (fun m => .ok (look m) m : Exec ρ α) fun m => .ok (look m) m := by
  intro m
  change Outcome.Mirrors side (.ok (look m) m) (.ok (look m.desugar) m.desugar)
  rw [same m]
  exact .ok _ m

theorem declare (range : ρ) (frame : Nat) (name : String) (value : Option Value)
    (type : Option ValueType) (isConstant : Bool) :
    Exec.Mirrors side (Effects.declare range frame name value type isConstant)
      (Effects.declare range frame name value type isConstant) := by
  intro m
  simp only [Effects.declare, Exec.declare, Machine.desugar]
  cases m.frames.declared frame name value type isConstant with
  | ok binding => exact .ok () { m with frames := m.frames.put frame name binding }
  | error fault => exact .error _ m

theorem speaks (side : Side) :
    Speaks id .all fun α (_ : Demand α) (x y : Exec ρ α) => x.Mirrors side y where
  pure _ := fun m => .ok _ m
  bind hx hk := bind hx fun a => hk a (Demand.holds_all _ a)
  fail _ _ _ := fun m => .error _ m
  display {v} _ := by
    intro m
    have same : m.desugar.display? v = m.display? v :=
      congrArg Rendered.whole? (m.render_desugar _ v)
    simp only [Effects.display, same]
    cases m.display? v with
    | some text => exact .ok text m
    | none => exact .unfinished side
  write range text := by
    intro m
    simp only [Effects.write, Exec.write_eq]
    change Outcome.Mirrors side _ (if (m.output.write text).2 then _ else _)
    split
    · exact .ok () { m with output := (m.output.write text).1 }
    · exact .error _ { m with output := (m.output.write text).1 }
  print range v _ := by
    intro m
    have same : m.desugar.printed v = m.printed v := m.render_desugar _ v
    simp only [Effects.print, Exec.print_eq, same]
    generalize m.printed v = printed
    change Outcome.Mirrors side _ (if (m.output.write printed.text).2 then _ else _)
    split
    · split
      · exact .ok () { m with output := (m.output.write printed.text).1 }
      · exact .unfinished side
    · exact .error _ { m with output := (m.output.write printed.text).1 }

/-- No effect looks into the body of a function. -/
theorem accord (side : Side) :
    Accord id (fun c c' : Closure ρ => c' = c.desugar) (fun c c' => c' = c.desugar) .all
      (fun α (_ : Demand α) (x y : Exec ρ α) => x.Mirrors side y)
      (fun α (_ : Demand α) (x y : Exec ρ α) => x.Mirrors side y) where
  toChains := (speaks side).toChains
  scope := of_look fun _ => rfl
  insideFunction := of_look fun _ => rfl
  insideLoop := of_look fun _ => rfl
  lookup name := by
    intro m
    simp only [Effects.lookup, Machine.desugar, Located.map_value]
    cases m.frames.lookup m.scope name.value with
    | ok v => exact .ok v m
    | error fault => exact .error _ m
  declare range _ name _ type isConstant _ _ := declare range _ name _ type isConstant
  assign range name value _ := by
    intro m
    simp only [Effects.assign, Exec.assign, Machine.desugar]
    cases m.frames.assigned m.scope name value with
    | ok found => exact .ok () { m with frames := m.frames.put found.1 name found.2 }
    | error fault => exact .error _ m
  literal := (speaks side).toChains.literal fun _ m =>
    .ok _ { m with objects := m.objects.push _ }
  newFunction := by
    rintro c _ rfl _ m
    have made : Outcome.Mirrors side _ _ := .ok (Value.function m.closures.size)
      { m with closures := m.closures.push c }
    simpa [Effects.newFunction, Machine.desugar] using made
  closure? {_ _ k l id} _ hnone hsome := by
    intro m
    change Outcome.Mirrors side (k m.closures[id]? m)
      (l (m.closures.map Closure.desugar)[id]? m.desugar)
    rw [Array.getElem?_map]
    cases m.closures[id]? with
    | none => exact hnone m
    | some c => exact hsome c _ rfl (Realm.hasScope_all _) m
  field? _ _ := of_look fun _ => rfl
  putField key _ _ _ := fun m =>
    .ok () { m with objects := m.objects.modify _ (·.insert key _) }
  builtin := (speaks side).builtin
  inBlock kind hx := inBlock kind hx
  inCall range _ _ hp hx := inCall range _ (fun frame => hp frame trivial) hx

/-! ### One step -/

section

variable {expression expression' : Expr ρ → Exec ρ Value}
variable {body body' : List (Stmt ρ) → Exec ρ Signal}
variable (he : ∀ e : Expr ρ, (expression e).Mirrors side (expression' e.desugar))
variable (hb : ∀ list : List (Stmt ρ), (body list).Mirrors side (body' (list.map Stmt.desugar)))

theorem function_desugar (name : Option String) (d : Function ρ) :
    Exec.Mirrors side (Rules.createFunction name d) (Rules.createFunction name d.desugar) := by
  obtain ⟨parameters, returnType, body, range⟩ := d
  refine (accord side).createFunction name ?_ ?_ fun _ _ _ => rfl
  · exact (List.map_id parameters).symm
  · cases returnType <;> rfl

include hb in
theorem block_desugar (b : Block ρ) :
    Exec.Mirrors side (Rules.block body b) (Rules.block body' b.desugar) := by
  refine (accord side).block b.kind_desugar ?_
  rw [b.statements_desugar]
  exact hb b.statements

include he in
theorem condition_desugar (e : Expr ρ) :
    Exec.Mirrors side (Rules.condition expression e) (Rules.condition expression' e.desugar) :=
  (accord side).condition e.range_desugar (he e)

section

include he hb

set_option linter.unusedSectionVars false in
mutual

theorem conditional_desugar : ∀ choice : Conditional ρ,
    Exec.Mirrors side (Rules.conditional expression body choice)
      (Rules.conditional expression' body' choice.desugar)
  | ⟨_, test, consequent, alternate⟩ => by
      refine bind (condition_desugar he test) fun holds => ?_
      cases holds with
      | true => exact block_desugar hb consequent
      | false => exact otherwise_desugar alternate

theorem otherwise_desugar : ∀ alternate : Alternate ρ,
    Exec.Mirrors side (Rules.otherwise expression body alternate)
      (Rules.otherwise expression' body' alternate.desugar)
  | .nothing => fun m => .ok _ m
  | .otherwise b => block_desugar hb b
  | .elseIf choice => conditional_desugar choice

end

end

include he in
theorem optional_desugar (value : Option (Expr ρ)) :
    Exec.Mirrors side (Rules.optional expression value)
      (Rules.optional expression' (value.map Expr.desugar)) :=
  (accord side).optional fun e _ => he e

include he hb in
/-- A statement whose parts run side by side. -/
theorem statementStep_desugar {turns turns' : Nat} (fits : side.Fits turns turns')
    (s : Stmt ρ) :
    Exec.Mirrors side (Rules.statementStep turns expression body s)
      (Rules.statementStep turns' expression' body' s.desugar) := by
  have h := accord (ρ := ρ) side
  have normal : Exec.Mirrors side (pure .normal : Exec ρ Signal) (pure .normal) := fun m => .ok _ m
  cases s with
  | breakLoop range => exact h.loopControl range _ trivial
  | continueLoop range => exact h.loopControl range _ trivial
  | expression range value => exact bind (he value) fun _ => normal
  | function range name d =>
      have made := h.declareFunction name (function_desugar (some name.value) d)
      exact bind made fun _ => normal
  | conditional range choice => exact conditional_desugar he hb choice
  | giveBack range keyword value =>
      simp only [Stmt.desugar, Expr.desugarOption_eq]
      exact h.giveBack keyword (optional_desugar he value)
  | declare range kind name type value =>
      simp only [Stmt.desugar, Expr.desugarOption_eq]
      have made := h.declareVariable kind.value name type (optional_desugar he value)
        fun frame v type _ _ => declare name.range frame name.value v type (kind.value = .const)
      rw [Located.map_id, Option.map_id] at made
      exact bind made fun _ => normal
  | loop range test repeated =>
      exact repeatWithin (h.turn (condition_desugar he test) (block_desugar hb repeated)) fits

section

variable (ht : ∀ range s, Exec.Mirrors side (pure (.text s)) (expression' (.text range s)))
variable (hr : ∀ name : Located ρ String,
  Exec.Mirrors side (Effects.lookup name) (expression' (.reference name.range name)))

include ht in
/-- The key that a name is, and the key that the text of the name gives. -/
theorem key_desugar (name : Located ρ String) :
    Exec.Mirrors side (pure name.value : Exec ρ String)
      (Rules.computedKey expression' (.text name.range name.value)) := by
  let known : Expr ρ → Exec ρ Value := fun _ => pure (.text name.value)
  have run : Exec.Mirrors side (known (.text name.range name.value))
      (expression' (.text name.range name.value)) := ht name.range name.value
  exact (accord side).computedKey rfl run

include he in
theorem computedKey_desugar (key : Expr ρ) :
    Exec.Mirrors side (Rules.computedKey expression key)
      (Rules.computedKey expression' key.desugar) :=
  (accord side).computedKey key.range_desugar (he key)

include he hr in
theorem literal_desugar (list : List (Property ρ)) :
    Exec.Mirrors side (Rules.literal expression list)
      (Rules.literal expression' (list.map Property.desugar)) := by
  refine (accord side).literal (fun p _ => congrArg Located.value p.key_desugar) ?_
  intro p _
  obtain ⟨key, value⟩ := p
  cases value with
  | some e => exact he e
  | none => exact hr key

include he ht in
theorem assignTo_desugar (value : Value) (target : Expr ρ) :
    Exec.Mirrors side (Rules.assignTo expression value target)
      (Rules.assignTo expression' value target.desugar) := by
  have h := accord (ρ := ρ) side
  have hvalue : Realm.all.HasValue value := Realm.hasValue_all value
  have put (object : Nat) (key : String) (_ : Realm.all.object object) :
      Exec.Mirrors side (Effects.putField object key value) (Effects.putField object key value) :=
    h.putField key trivial hvalue
  cases target with
  | reference range name => exact h.assign name.range name.value hvalue
  | member range base name part =>
      exact h.store base.range_desugar (he base) (key_desugar ht name) put
  | subscript range base key part =>
      exact h.store base.range_desugar (he base) (computedKey_desugar he key) put
  | call range callee arguments opening closing part =>
      exact bind (he callee) fun _ => fun m => .error _ m
  | _ => exact fun m => .error _ m

include he hb ht hr

/-- An expression whose parts run side by side. -/
theorem expressionStep_desugar (e : Expr ρ) :
    Exec.Mirrors side (Rules.expressionStep expression body e)
      (Rules.expressionStep expression' body' e.desugar) := by
  have h := accord (ρ := ρ) side
  cases e with
  | assign range target source =>
      refine bind (he source) fun v => bind (assignTo_desugar he ht v target) fun _ => ?_
      exact fun m => .ok v m
  | binary range operator lhs rhs =>
      refine bind (he lhs) fun a => bind (he rhs) fun b => ?_
      exact h.ofExcept (d := .value) operator.range (fun v _ => Realm.hasValue_all v)
        fun _ => Operator.isStatic_of_apply_error
  | function range d => exact function_desugar none d
  | object range list =>
      simp only [Expr.desugar, Property.desugarAll_eq]
      exact literal_desugar he hr list
  | call range callee arguments opening closing part =>
      simp only [Expr.desugar, Expr.desugarAll_eq]
      refine bind (he callee) fun v => ?_
      refine h.call (fun e _ => e.range_desugar) range (h.all fun e _ => he e) ?_
        (Realm.hasValue_all v)
      rintro c _ rfl
      refine ⟨⟨rfl, rfl, rfl⟩, ?_⟩
      rw [Closure.desugar, c.body.statements_desugar]
      exact hb c.body.statements
  | member range base name part =>
      exact h.access base.range_desugar (he base) (key_desugar ht name) part
  | subscript range base key part =>
      exact h.access base.range_desugar (he base) (computedKey_desugar he key) part
  | number range x => exact fun m => .ok _ m
  | text range contents => exact fun m => .ok _ m
  | reference range name => exact h.lookup name

end

end

/-! ### Whole runs -/

/-- With bounds that fit, only the side that may be cut off is. -/
theorem within_bound {n n' : Nat} (fits : side.Fits n n') :
    (∀ e : Expr ρ, Exec.Mirrors side (Rules.expression n e) (Rules.expression n' e.desugar)) ∧
      ∀ s : Stmt ρ, Exec.Mirrors side (Rules.statement n s) (Rules.statement n' s.desugar) := by
  induction n generalizing n' with
  | zero =>
      obtain cut | rfl := fits.zero_left
      · exact ⟨fun _ _ => .sugared _ cut, fun _ _ => .sugared _ cut⟩
      · exact ⟨fun _ _ => .unfinished side, fun _ _ => .unfinished side⟩
  | succ n ih =>
      cases n' with
      | zero =>
          have cut := fits.zero_right
          exact ⟨fun _ _ => .plain _ cut, fun _ _ => .plain _ cut⟩
      | succ n' =>
          have fits := fits.pred
          obtain ⟨he, hs⟩ := ih fits
          have hb (list : List (Stmt ρ)) :
              Exec.Mirrors side (Rules.statements (Rules.statement n) list)
                (Rules.statements (Rules.statement n') (list.map Stmt.desugar)) :=
            (accord side).statements fun s _ => hs s
          -- what is written out for a name is one level further down
          have ht (range : ρ) (s : String) :
              Exec.Mirrors side (pure (.text s)) (Rules.expression n' (.text range s)) := by
            cases n' with
            | zero => exact fun m => .plain _ fits.zero_right
            | succ _ => exact fun m => .ok (Value.text s) m
          have hr (name : Located ρ String) : Exec.Mirrors side (Effects.lookup name)
              (Rules.expression n' (.reference name.range name)) := by
            cases n' with
            | zero => exact fun m => .plain _ fits.zero_right
            | succ _ => exact (accord side).lookup name
          exact ⟨expressionStep_desugar he hb ht hr, statementStep_desugar he hb fits⟩

end Exec.Mirrors

/-- A task and the same task without sugar, with bounds that fit. -/
theorem Task.mirrors {side : Side} {n n' : Nat} (fits : side.Fits n n') (t : Task ρ α) :
    Exec.Mirrors side (t.compute n) (t.desugar.compute n') := by
  obtain ⟨he, hs⟩ := Exec.Mirrors.within_bound (ρ := ρ) fits
  have h := Exec.Mirrors.accord (ρ := ρ) side
  cases t with
  | expression e => exact he e
  | statement s => exact hs s
  | block b =>
      refine h.block b.kind_desugar ?_
      rw [b.statements_desugar]
      exact h.statements fun s _ => hs s
  | program p =>
      refine h.programStep (fun range e _ => ⟨e.desugar, rfl, he e⟩) (fun s _ other => ?_) trivial
      refine ⟨?_, hs s⟩
      cases s <;> first | rfl | cases other

/-- Sugar changes nothing: a task without sugar, on a machine whose functions are without
sugar, ends exactly if the task ends, and in the same way, with the same output, the same
frames and objects, and the same functions without their sugar. -/
theorem desugared_runs_in_lock_step (t : Task ρ α) (m : Machine ρ) (out' : Outcome ρ α) :
    t.desugar.Ends m.desugar out' ↔ ∃ out, t.Ends m out ∧ out.desugar = out' := by
  constructor
  · intro ends
    obtain ⟨ended, n, run⟩ := Task.ends_iff.mp ends
    have mirrors : (t.run n m).Mirrors .plain (t.desugar.run n m.desugar) :=
      t.mirrors (show Side.plain.Fits n n from Nat.le_refl n) m
    rw [run] at mirrors
    have same := mirrors.eq_of_plain ended
    refine ⟨t.run n m, Task.ends_iff.mpr ⟨fun cut => ?_, n, rfl⟩, same.symm⟩
    rw [cut] at same
    exact ended same
  · rintro ⟨out, ends, rfl⟩
    obtain ⟨ended, n, run⟩ := Task.ends_iff.mp ends
    have mirrors : (t.run n m).Mirrors .sugared (t.desugar.run (n + 1) m.desugar) :=
      t.mirrors (show Side.sugared.Fits n (n + 1) from Nat.lt_succ_self n) m
    rw [run] at mirrors
    have same := mirrors.eq_of_sugared ended
    refine Task.ends_iff.mpr ⟨fun cut => ended ?_, n + 1, same⟩
    cases out with
    | unfinished => rfl
    | _ => cases cut

end Guion
