import Guion.Proofs.Run.Transcript
import Guion.Proofs.Run.Visits

/-!
# Whose texts a run writes

Nothing writes but the function that prints. So the transcript of a run is what certain of its
expressions write, one after the other: calls whose callee is that function and whose arguments
are values. All that such a call writes is written at its own place, and where a limit cuts a
transcript off, it does so inside one of these calls.
-/

namespace Guion

variable {ρ α β : Type}

/-! ### Calls of the function that prints -/

/-- A call of the function that prints, with the machine at that moment. -/
structure Printing (ρ : Type) where
  range : ρ
  values : List Value
  machine : Machine ρ

namespace Printing

/-- What a call of the function that prints writes. -/
def writings (c : Printing ρ) : List (Writing ρ) :=
  (Builtin.print.apply c.range c.values : Logged (Writing ρ) ρ Value).log c.machine

/-- The bytes that calls write, one after the other. -/
def bytes (calls : List (Printing ρ)) : ByteArray := Writing.bytes (calls.flatMap writings)

/-- A computation that writes at one place only. -/
def WritesAt (range : ρ) (x : Logged (Writing ρ) ρ α) : Prop := ∀ m, ∀ w ∈ x.log m, w.range = range

theorem WritesAt.bind {range : ρ} {x : Logged (Writing ρ) ρ α} {k : α → Logged (Writing ρ) ρ β}
    (hx : WritesAt range x) (hk : ∀ a, WritesAt range (k a)) : WritesAt range (x >>= k) := by
  intro m w mem
  change w ∈ (x.bind k).log m at mem
  cases run : x.exec m with
  | ok a last =>
      rw [Logged.log_bind_of_ok run] at mem
      obtain mem | mem := List.mem_append.mp mem
      · exact hx m w mem
      · exact hk a last w mem
  | _ =>
      rw [Logged.log_bind_of_fails (by simp [Outcome.Fails, run])] at mem
      exact hx m w mem

theorem WritesAt.write (range : ρ) (text : String) :
    WritesAt range (Effects.write range text : Logged (Writing ρ) ρ Unit) := by
  intro m w mem
  obtain rfl := List.mem_singleton.mp mem
  rfl

theorem WritesAt.print (range : ρ) (v : Value) :
    WritesAt range (Effects.print range v : Logged (Writing ρ) ρ Unit) := by
  intro m w mem
  obtain ⟨text, -, rfl⟩ := List.mem_map.mp mem
  rfl

theorem WritesAt.printMore (range : ρ) (values : List Value) :
    WritesAt range (Builtin.printMore range values : Logged (Writing ρ) ρ Unit) := by
  induction values with
  | nil => exact fun _ => nofun
  | cons v rest ih => exact bind (write range " ") fun _ => bind (print range v) fun _ => ih

theorem WritesAt.printLine (range : ρ) (values : List Value) :
    WritesAt range (Builtin.printLine range values : Logged (Writing ρ) ρ Unit) := by
  cases values with
  | nil => exact write range "\n"
  | cons v rest =>
      exact bind (print range v) fun _ => bind (printMore range rest) fun _ => write range "\n"

/-- All that a call writes is written where the call stands. -/
theorem range_of_mem {c : Printing ρ} {w : Writing ρ} (h : w ∈ c.writings) :
    w.range = c.range := by
  have done : WritesAt c.range (pure .null : Logged (Writing ρ) ρ Value) := fun _ => nofun
  exact WritesAt.bind (.printLine c.range c.values) (fun _ => done) c.machine w h

/-- A writing among those of several calls is one of those of a single call. -/
theorem exists_call {calls : List (Printing ρ)} {before after : List (Writing ρ)} {w : Writing ρ}
    (split : calls.flatMap writings = before ++ w :: after) :
    ∃ earlier c later head tail, calls = earlier ++ c :: later ∧ c.writings = head ++ w :: tail ∧
      before = earlier.flatMap writings ++ head := by
  induction calls generalizing before with
  | nil => simp at split
  | cons c rest ih =>
      rw [List.flatMap_cons] at split
      obtain ⟨more, rfl, behind⟩ | ⟨more, inside, behind⟩ := List.append_eq_append_iff.mp split
      · obtain ⟨earlier, call, later, head, tail, rfl, lines, rfl⟩ := ih behind
        refine ⟨c :: earlier, call, later, head, tail, rfl, lines, ?_⟩
        rw [List.flatMap_cons, List.append_assoc]
      · cases more with
        | nil =>
            have rest_eq : rest.flatMap writings = [] ++ w :: after := behind.symm
            obtain ⟨earlier, call, later, head, tail, rfl, lines, none⟩ := ih rest_eq
            refine ⟨c :: earlier, call, later, head, tail, rfl, lines, ?_⟩
            rw [List.flatMap_cons, List.append_assoc, ← none, inside]
            simp
        | cons _ more =>
            obtain ⟨rfl, rfl⟩ := List.cons.inj behind
            exact ⟨[], c, rest, before, more, rfl, inside, rfl⟩

@[simp] theorem bytes_append (calls more : List (Printing ρ)) :
    bytes (calls ++ more) = bytes calls ++ bytes more := by
  rw [bytes, List.flatMap_append, Writing.bytes_append]
  rfl

end Printing

namespace Outcome.Cut

variable {limit : Nat} {start : ByteArray} {out out' : Outcome ρ α}

/-- What fits changes nothing but the limit. -/
theorem eq_of_le {written : List (Writing ρ)} (h : out.Cut limit start written out')
    (small : (start ++ Writing.bytes written).size ≤ limit) :
    out' = out.alter (Machine.limitedTo limit) := by
  cases h with
  | fits => rfl
  | full split _ large _ =>
      rw [split, ← List.singleton_append, ← List.append_assoc, Writing.bytes_append,
        ← ByteArray.append_assoc, ByteArray.size_append] at small
      omega

/-- What does not fit fails at the call that would write the first byte too many. -/
theorem exists_call {calls : List (Printing ρ)}
    (h : out.Cut limit start (calls.flatMap Printing.writings) out')
    (large : limit < (start ++ Printing.bytes calls).size) :
    ∃ earlier call later stopped, calls = earlier ++ call :: later ∧
      (start ++ Printing.bytes earlier).size ≤ limit ∧
      limit < (start ++ Printing.bytes (earlier ++ [call])).size ∧
      out' = .error ⟨call.range, .outputFailed Output.full⟩ stopped ∧
      stopped.output.bytes = (start ++ Printing.bytes calls).extract 0 limit := by
  cases h with
  | fits small => exact absurd large (Nat.not_lt_of_le small)
  | @full before after w stopped split small first output =>
      obtain ⟨earlier, call, later, head, tail, rfl, lines, rfl⟩ := Printing.exists_call split
      have place : w.range = call.range :=
        Printing.range_of_mem (lines ▸ List.mem_append_right head List.mem_cons_self)
      have one : Printing.bytes [call] =
          Writing.bytes head ++ (Writing.bytes [w] ++ Writing.bytes tail) := by
        rw [← Writing.bytes_append, ← Writing.bytes_append, List.singleton_append, ← lines,
          Printing.bytes, List.flatMap_singleton]
      refine ⟨earlier, call, later, stopped, rfl, ?_, ?_, by rw [place], by rw [output]; rfl⟩
      · rw [Writing.bytes_append, ← ByteArray.append_assoc, ByteArray.size_append] at small
        exact Nat.le_trans (Nat.le_add_right _ _) small
      · rw [Printing.bytes_append, one]
        simp only [Writing.bytes_append, ByteArray.size_append, Printing.bytes] at first ⊢
        omega

end Outcome.Cut

/-! ### The expressions that print -/

/-- An expression that was computed is a call of the function that prints, and its arguments
were values. -/
inductive Visit.Prints (visit : Visit ρ) : Printing ρ → Prop
  | intro {range opening closing part : ρ} {callee : Expr ρ} {arguments : List (Expr ρ)}
      {values : List Value} {middle last : Machine ρ} :
      visit.expr = .call range callee arguments opening closing part →
      (Task.expression callee).run visit.bound visit.machine = .ok (.builtin .print) middle →
      Rules.all (Exec.expression visit.bound) arguments middle = .ok values last →
      visit.Prints ⟨range, values, last⟩

/-- The call that an expression is, if it is one of the function that prints. -/
def Visit.printing? (visit : Visit ρ) : Option (Printing ρ) :=
  match visit.expr with
  | .call range callee arguments _ _ _ =>
    match (Task.expression callee).run visit.bound visit.machine with
    | .ok (.builtin .print) middle =>
      match Rules.all (Exec.expression visit.bound) arguments middle with
      | .ok values last => some ⟨range, values, last⟩
      | _ => none
    | _ => none
  | _ => none

theorem Visit.printing?_eq_some_iff {visit : Visit ρ} {c : Printing ρ} :
    visit.printing? = some c ↔ visit.Prints c := by
  constructor
  · intro found
    unfold printing? at found
    split at found
    · split at found
      · split at found
        · cases found
          exact .intro ‹_› ‹_› ‹_›
        · cases found
      · cases found
    · cases found
  · rintro ⟨called, callee, arguments⟩
    simp only [printing?, called, callee, arguments]

/-- What the calls of the function that prints write, among the expressions that were computed. -/
def Visit.writings (visits : List (Visit ρ)) : List (Writing ρ) :=
  (visits.filterMap printing?).flatMap Printing.writings

@[simp] theorem Visit.writings_append (visits more : List (Visit ρ)) :
    writings (visits ++ more) = writings visits ++ writings more := by
  simp only [writings, List.filterMap_append, List.flatMap_append]

/-- An expression that is no call of the function that prints writes nothing of its own. -/
theorem Visit.writings_of_none {visit : Visit ρ} (h : visit.printing? = none) :
    writings [visit] = [] := by
  simp only [writings, List.filterMap_cons_none h, List.filterMap_nil, List.flatMap_nil]

theorem Visit.writings_of_some {visit : Visit ρ} {c : Printing ρ}
    (h : visit.printing? = some c) : writings [visit] = c.writings := by
  simp only [writings, List.filterMap_cons_some h, List.filterMap_nil, List.flatMap_singleton]

/-- What a run writes is what the calls of the function that prints write, among the expressions
that the same run computes. -/
def Logged.Accounts (x : Logged (Visit ρ) ρ α) (y : Logged (Writing ρ) ρ α) : Prop :=
  x.exec = y.exec ∧ ∀ m, y.log m = Visit.writings (x.log m)

namespace Logged.Accounts

variable {x : Logged (Visit ρ) ρ α} {y : Logged (Writing ρ) ρ α}

theorem quiet (x : Exec ρ α) : Accounts (.quiet x) (.quiet x) := ⟨rfl, fun _ => rfl⟩

theorem bind {k : α → Logged (Visit ρ) ρ β} {l : α → Logged (Writing ρ) ρ β} (hx : x.Accounts y)
    (hk : ∀ a, (k a).Accounts (l a)) : (x.bind k).Accounts (y.bind l) := by
  obtain ⟨exec, log⟩ := hx
  constructor
  · have same : (fun a => (k a).exec) = fun a => (l a).exec := funext fun a => (hk a).1
    simp only [Logged.bind, exec, same]
  · intro m
    cases run : x.exec m with
    | ok a last =>
        have run' : y.exec m = .ok a last := exec ▸ run
        rw [log_bind_of_ok run, log_bind_of_ok run', Visit.writings_append, log, (hk a).2]
    | _ =>
        have fails : (x.exec m).Fails := by simp [Outcome.Fails, run]
        rw [log_bind_of_fails fails, log_bind_of_fails (exec ▸ fails), log]

theorem within (scope : Scope) (hx : x.Accounts y) : (x.within scope).Accounts (y.within scope) :=
  ⟨congrArg (Exec.within scope) hx.1, fun _ => hx.2 _⟩

theorem counted (hx : x.Accounts y) : x.counted.Accounts y.counted :=
  ⟨congrArg Exec.counted hx.1, fun _ => hx.2 _⟩

theorem inCall {p : Nat → Logged (Visit ρ) ρ Unit} {q : Nat → Logged (Writing ρ) ρ Unit}
    (range : ρ) (around : Scope) (hp : ∀ frame, (p frame).Accounts (q frame))
    (hx : x.Accounts y) : (x.inCall range around p).Accounts (y.inCall range around q) := by
  constructor
  · have same : (fun frame => (p frame).exec) = fun frame => (q frame).exec :=
      funext fun frame => (hp frame).1
    simp only [Logged.inCall, same, hx.1]
  · intro m
    unfold Logged.inCall
    by_cases full : callLimit ≤ m.depth
    · simp only [if_pos full]
      rfl
    · simp only [if_neg full]
      exact ((hp _).bind fun _ => (hx.within _).counted).2 _

theorem repeatWithin {x : Logged (Visit ρ) ρ (Option α)} {y : Logged (Writing ρ) ρ (Option α)}
    (hx : x.Accounts y) (turns : Nat) : (x.repeatWithin turns).Accounts (y.repeatWithin turns) := by
  induction turns with
  | zero => exact quiet _
  | succ turns ih =>
      refine hx.bind fun found => ?_
      cases found with
      | some a => exact quiet _
      | none => exact ih

theorem chains : Chains id .all fun α (_ : Demand α) (x : Logged (Visit ρ) ρ α) y =>
    x.Accounts y where
  pure _ := quiet _
  bind hx hk := bind hx fun a => hk a (Demand.holds_all _ a)
  fail _ _ _ := quiet _

theorem executes : Executes id (Closure.Moved id (.free : Discipline ρ)) (Closure.Moved id .free)
    .all (fun α (_ : Demand α) (x : Logged (Visit ρ) ρ α) y => x.Accounts y)
    fun α (_ : Demand α) x y => x.Accounts y where
  toChains := chains
  scope := quiet _
  insideFunction := quiet _
  insideLoop := quiet _
  lookup _ := quiet _
  declare _ _ _ _ _ _ _ _ := quiet _
  assign _ _ _ _ := quiet _
  literal := chains.literal fun _ => quiet _
  newFunction := by
    rintro c _ ⟨-, rfl⟩ -
    rw [Closure.map_id]
    exact quiet _
  closure? {_ _ k l id} _ hnone hsome := by
    refine bind (quiet (Effects.closure? id)) fun found => ?_
    cases found with
    | none => exact hnone
    | some c =>
        have run := hsome c _ ⟨c.body.obeys_free, rfl⟩ (Realm.hasScope_all _)
        rwa [Closure.map_id] at run
  field? _ _ := quiet _
  inBlock kind hx := ⟨congrArg (Exec.inBlock kind) hx.1, fun _ => hx.2 _⟩
  inCall range _ _ hp hx := inCall range _ (fun frame => hp frame trivial) hx

/-- No built-in function writes but the one that prints. -/
theorem native (range : ρ) {b : Builtin} (other : b ≠ .print) (values : List Value) :
    Accounts (b.apply range values : Logged (Visit ρ) ρ Value) (b.apply range values) := by
  cases b with
  | print => exact absurd rfl other
  | typeOf | toBoolean =>
      match values with
      | [v] => exact quiet _
      | [] | _ :: _ :: _ => exact quiet _
  | toNumber =>
      match values with
      | [v] =>
          exact bind (chains.ofExcept (d := .anything) range (fun _ _ => trivial) fun _ =>
            Builtin.isStatic_of_toFloat_error) fun x => quiet _
      | [] | _ :: _ :: _ => exact quiet _
  | toText =>
      match values with
      | [v] => exact bind (quiet (Effects.display v)) fun text => quiet _
      | [] | _ :: _ :: _ => exact quiet _

/-- What a call of the function that prints writes is told by its note. -/
theorem noted_print {n : Nat} {range opening closing part : ρ} {callee : Expr ρ}
    {arguments : List (Expr ρ)} {body : List (Stmt ρ) → Logged (Visit ρ) ρ Signal}
    {body' : List (Stmt ρ) → Logged (Writing ρ) ρ Signal} {m middle : Machine ρ}
    (harguments : Accounts (Rules.all (Visiting.expression n) arguments)
      (Rules.all (Rules.expression n) arguments))
    (called : (Task.expression callee).run n m = .ok (.builtin .print) middle) :
    (Rules.call (Rules.expression n) body' range arguments (.builtin .print)).log middle =
      Visit.writings ((Rules.call (Visiting.expression n) body range arguments
        (.builtin .print)).log middle) ++
      Visit.writings [⟨n, .call range callee arguments opening closing part, m⟩] := by
  let visit : Visit ρ := ⟨n, .call range callee arguments opening closing part, m⟩
  change (Logged.bind _ _).log middle =
    Visit.writings ((Logged.bind _ _).log middle) ++ Visit.writings [visit]
  have same := congrFun (Visiting.exec_all n arguments) middle
  cases run : (Rules.all (Visiting.expression n) arguments).exec middle with
  | ok values last =>
      have run' := (congrFun harguments.1 middle).symm.trans run
      have prints : visit.Prints ⟨range, values, last⟩ :=
        .intro rfl called (same.symm.trans run)
      rw [log_bind_of_ok run, log_bind_of_ok run', harguments.2, Builtin.visits_apply,
        List.append_nil, Visit.writings_of_some (Visit.printing?_eq_some_iff.mpr prints)]
      rfl
  | _ =>
      have fails : ((Rules.all (Visiting.expression n) arguments).exec middle).Fails := by
        simp [Outcome.Fails, run]
      have none : visit.printing? = none := by
        simp only [visit, Visit.printing?, called, same.symm.trans run]
      rw [log_bind_of_fails fails, log_bind_of_fails (harguments.1 ▸ fails), harguments.2,
        Visit.writings_of_none none, List.append_nil]

/-- A call whose callee does not end with the function that prints is none of its calls. -/
theorem not_prints {n : Nat} {range opening closing part : ρ} {callee : Expr ρ}
    {arguments : List (Expr ρ)} {m : Machine ρ}
    (other : ∀ middle, (Task.expression callee).run n m ≠ .ok (.builtin .print) middle) :
    Visit.writings [⟨n, .call range callee arguments opening closing part, m⟩] = [] := by
  refine Visit.writings_of_none (Option.eq_none_iff_forall_ne_some.mpr fun c found => ?_)
  obtain ⟨⟨⟩, called, -⟩ := Visit.printing?_eq_some_iff.mp found
  exact other _ called

/-- What is noted behind a call tells what the call itself writes. -/
theorem noted_call {n : Nat} (range opening closing part : ρ) {callee : Expr ρ}
    {arguments : List (Expr ρ)} {body : List (Stmt ρ) → Logged (Visit ρ) ρ Signal}
    {body' : List (Stmt ρ) → Logged (Writing ρ) ρ Signal}
    (hcallee : Accounts (Visiting.expression n callee) (Rules.expression n callee))
    (harguments : Accounts (Rules.all (Visiting.expression n) arguments)
      (Rules.all (Rules.expression n) arguments))
    (others : ∀ v : Value, v ≠ .builtin .print →
      Accounts (Rules.call (Visiting.expression n) body range arguments v)
        (Rules.call (Rules.expression n) body' range arguments v)) (m : Machine ρ) :
    (Rules.expressionStep (Rules.expression n) body'
        (.call range callee arguments opening closing part) : Logged (Writing ρ) ρ Value).log m =
      Visit.writings ((Logged.noted n (.call range callee arguments opening closing part)
        (Rules.expressionStep (Visiting.expression n) body
          (.call range callee arguments opening closing part))).log m) := by
  let visit : Visit ρ := ⟨n, .call range callee arguments opening closing part, m⟩
  change (Logged.bind _ _).log m = Visit.writings ((Logged.bind _ _).log m ++ [visit])
  rw [Visit.writings_append]
  have same := congrFun (Visiting.exec_expression n callee) m
  cases run : (Visiting.expression n callee).exec m with
  | ok v middle =>
      have run' := (congrFun hcallee.1 m).symm.trans run
      have called : (Task.expression callee).run n m = .ok v middle := same.symm.trans run
      rw [log_bind_of_ok run, log_bind_of_ok run', hcallee.2, Visit.writings_append,
        List.append_assoc]
      refine congrArg (Visit.writings ((Visiting.expression n callee).log m) ++ ·) ?_
      by_cases print : v = .builtin .print
      · subst print
        exact noted_print harguments called
      · have none : Visit.writings [visit] = [] := not_prints fun other found => by
          rw [called] at found
          cases found
          exact print rfl
        rw [none, List.append_nil]
        exact (others v print).2 middle
  | _ =>
      have fails : ((Visiting.expression n callee).exec m).Fails := by simp [Outcome.Fails, run]
      have none : Visit.writings [visit] = [] := not_prints fun middle found =>
        fails _ middle (same.trans found)
      rw [log_bind_of_fails fails, log_bind_of_fails (hcallee.1 ▸ fails), hcallee.2, none,
        List.append_nil]

/-- What is noted behind an expression that is no call tells nothing. -/
theorem noted_other {n : Nat} {e : Expr ρ} {x : Logged (Visit ρ) ρ Value}
    {y : Logged (Writing ρ) ρ Value} (other : ∀ m, (⟨n, e, m⟩ : Visit ρ).printing? = none)
    (h : x.Accounts y) : (x.noted n e).Accounts y := by
  refine ⟨h.1, fun m => ?_⟩
  change y.log m = Visit.writings (x.log m ++ [⟨n, e, m⟩])
  rw [Visit.writings_append, Visit.writings_of_none (other m), List.append_nil, h.2]

/-- The calls of the function that prints are the only expressions that write. -/
theorem attends : Attends fun α (_ : Demand α) (x : Logged (Visit ρ) ρ α)
    (y : Logged (Writing ρ) ρ α) => x.Accounts y where
  toExecutes := executes
  declaration _ _ _ _ _ _ := quiet _
  unfinished := quiet _
  repeatWithin turns hx := repeatWithin hx turns
  noted {n} he hb e := by
    cases e with
    | call range callee arguments opening closing part =>
        have same (list : List (Expr ρ)) : list.map (Expr.map id) = list :=
          List.map_id'' Expr.map_id_apply list
        have free := Expr.obeyAll_iff.mpr fun e (_ : e ∈ arguments) => e.obeys_free
        have hcallee := he callee callee.obeys_free
        have harguments := executes.all_map he free
        rw [Expr.map_id_apply] at hcallee ⊢
        rw [same] at harguments
        let task : Task ρ Value := .expression (.call range callee arguments opening closing part)
        refine ⟨funext fun m => (task.exec_visiting (n + 1) m).trans
          (task.exec_compute (n + 1) m).symm, noted_call range opening closing part hcallee
          harguments fun v other => ?_⟩
        have called : Accounts
            (Rules.call (Visiting.expression n) (Rules.statements (Visiting.statement n)) range
              arguments v)
            (Rules.call (Rules.expression n) (Rules.statements (Rules.statement n)) range
              (arguments.map (Expr.map id)) v) := by
          refine executes.call_of_runs range (executes.all_map he free) ?_ (Realm.hasValue_all v)
            fun b builtin values _ => native range (fun print => other (print ▸ builtin)) values
          rintro c _ ⟨hc, rfl⟩ hscope
          exact ⟨c.twin_map id, fun values hvalues =>
            executes.runBody_map hb range hc hscope hvalues arguments⟩
        rwa [same] at called
    | assign range target source =>
        refine noted_other (fun _ => rfl) ?_
        exact executes.assign_map he range (Expr.obeys_free _) (Expr.obeys_free _)
          (fun _ _ _ _ _ _ => quiet _) fun _ _ => quiet _
    | _ =>
        exact noted_other (fun _ => rfl)
          (executes.expressionStep_map he (Expr.obeys_free _).inside nofun nofun)

end Logged.Accounts

/-- What a task writes is what the calls of the function that prints write, among the expressions
that it computes. -/
theorem Task.transcript_eq_writings (bound : Nat) (t : Task ρ α) (m : Machine ρ) :
    t.transcript bound m = Visit.writings (t.visits bound m) :=
  (Logged.Accounts.attends.task bound t).2 m

end Guion
