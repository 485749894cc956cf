import Guion.Proofs.Run.Congruence

/-!
# Runs that keep a log

A run can keep a log while it goes on: of what it writes, of what it shows, of what it
computes. What is kept of a single effect is a matter of the entries. Sequences, blocks, calls
and loops put together what their parts keep, and to keep a log changes nothing.
-/

namespace Guion

variable {ε ρ α β : Type}

/-- What is kept of the effects that turn values into texts and write them, on the machine at
that moment. -/
class Records (ε : Type) (ρ : outParam Type) where
  display (v : Value) (m : Machine ρ) : List ε := []
  write (range : ρ) (text : String) (m : Machine ρ) : List ε := []
  print (range : ρ) (v : Value) (m : Machine ρ) : List ε := []

/-- A computation ends without a value. -/
def Outcome.Fails (out : Outcome ρ α) : Prop := ∀ a last, out ≠ .ok a last

/-- A computation that keeps a log. -/
structure Logged (ε ρ α : Type) where
  exec : Exec ρ α
  log : Machine ρ → List ε

namespace Logged

/-- A computation of which nothing is kept. -/
def quiet (x : Exec ρ α) : Logged ε ρ α := ⟨x, fun _ => []⟩

/-- One computation after another. -/
protected def bind (x : Logged ε ρ α) (k : α → Logged ε ρ β) : Logged ε ρ β where
  exec := Exec.bind x.exec fun a => (k a).exec
  log m := x.log m ++
    match x.exec m with
    | .ok a last => (k a).log last
    | .error .. | .unfinished => []

/-- Runs something in another scope and comes back. -/
def within (scope : Scope) (x : Logged ε ρ α) : Logged ε ρ α where
  exec := Exec.within scope x.exec
  log m := x.log { m with scope := scope }

/-- Runs something with one more call under way. -/
def counted (x : Logged ε ρ α) : Logged ε ρ α where
  exec := Exec.counted x.exec
  log m := x.log { m with depth := m.depth + 1 }

/-- Runs something in a new frame inside the current scope. -/
def inBlock (kind : ScopeKind) (x : Logged ε ρ α) : Logged ε ρ α where
  exec := Exec.inBlock kind x.exec
  log m := (x.within (m.scope.inner m.frames.size)).log
    { m with frames := m.frames.push ⟨kind, []⟩ }

/-- Runs something in the prepared frame of a call, if there may be one more call. -/
def inCall (range : ρ) (around : Scope) (prepare : Nat → Logged ε ρ Unit) (x : Logged ε ρ α) :
    Logged ε ρ α where
  exec := Exec.inCall range around (fun frame => (prepare frame).exec) x.exec
  log m :=
    if callLimit ≤ m.depth then
      []
    else
      let frame := m.frames.size
      ((prepare frame).bind fun _ => (x.within (around.inner frame)).counted).log
        { m with frames := m.frames.push ⟨.function, []⟩ }

/-- Repeats a step until it gives a result, at most so many times. -/
def repeatWithin (step : Logged ε ρ (Option α)) : Nat → Logged ε ρ α
  | 0 => quiet Effects.unfinished
  | n + 1 => step.bind fun
    | some a => quiet (Exec.pure a)
    | none => repeatWithin step n

instance [Records ε ρ] : Effects ρ (Logged ε ρ) where
  pure a := quiet (Exec.pure a)
  bind := Logged.bind
  fail range fault := quiet (Effects.fail range fault)
  unfinished := quiet Effects.unfinished
  scope := quiet Effects.scope
  insideFunction := quiet Effects.insideFunction
  insideLoop := quiet Effects.insideLoop
  lookup name := quiet (Effects.lookup name)
  declare range frame name value type isConstant :=
    quiet (Effects.declare range frame name value type isConstant)
  assign range name value := quiet (Effects.assign range name value)
  newObject fields := quiet (Effects.newObject fields)
  newFunction c := quiet (Effects.newFunction c)
  closure? id := quiet (Effects.closure? id)
  field? object key := quiet (Effects.field? object key)
  putField object key value := quiet (Effects.putField object key value)
  display v := ⟨Effects.display v, Records.display v⟩
  write range text := ⟨Effects.write range text, Records.write range text⟩
  print range v := ⟨Effects.print range v, Records.print range v⟩
  inBlock := inBlock
  inCall := inCall
  repeatWithin := repeatWithin

/-! ### Sequences -/

section

variable {x : Logged ε ρ α} {m last : Machine ρ}

theorem exec_bind_of_ok {k : α → Logged ε ρ β} {a : α} (run : x.exec m = .ok a last) :
    (x.bind k).exec m = (k a).exec last := by
  simp only [Logged.bind, Exec.bind, run]

/-- Where the first part ends with a value, the second goes on. -/
theorem log_bind_of_ok {k : α → Logged ε ρ β} {a : α} (run : x.exec m = .ok a last) :
    (x.bind k).log m = x.log m ++ (k a).log last := by
  simp only [Logged.bind, run]

/-- Where it does not, nothing more is kept. -/
theorem log_bind_of_fails {k : α → Logged ε ρ β} (fails : (x.exec m).Fails) :
    (x.bind k).log m = x.log m := by
  cases run : x.exec m with
  | ok a last => exact absurd run (fails a last)
  | _ => simp only [Logged.bind, run, List.append_nil]

/-- What is true of all that is kept is true of what is kept of the parts. -/
theorem forall_log_first {k : α → Logged ε ρ β} {p : ε → Prop}
    (h : ∀ entry ∈ (x.bind k).log m, p entry) : ∀ entry ∈ x.log m, p entry :=
  (List.forall_mem_append.mp h).1

theorem forall_log_second {k : α → Logged ε ρ β} {p : ε → Prop} {a : α}
    (run : x.exec m = .ok a last) (h : ∀ entry ∈ (x.bind k).log m, p entry) :
    ∀ entry ∈ (k a).log last, p entry := by
  rw [log_bind_of_ok run] at h
  exact (List.forall_mem_append.mp h).2

end

/-! ### Keeping a log changes nothing -/

theorem exec_repeatWithin (step : Logged ε ρ (Option α)) (turns : Nat) :
    (repeatWithin step turns).exec = Exec.repeatWithin step.exec turns := by
  induction turns with
  | zero => rfl
  | succ turns ih =>
      rw [Exec.repeatWithin_succ, ← ih]
      refine congrArg (Exec.bind step.exec) (funext fun found => ?_)
      cases found <;> rfl

theorem congruence [Records ε ρ] : Congruence id (.free : Discipline ρ)
    fun α (x : Logged ε ρ α) (y : Exec ρ α) => x.exec = y where
  pure _ := rfl
  bind {_ _ _ _ k l} hx hk := by
    obtain rfl := hx
    obtain rfl : (fun a => (k a).exec) = l := funext hk
    rfl
  fail _ _ := rfl
  unfinished := rfl
  scope := rfl
  insideFunction := rfl
  insideLoop := rfl
  lookup _ := rfl
  declare _ _ _ _ _ _ := rfl
  assign _ _ _ := rfl
  newObject _ := rfl
  newFunction c _ := by
    rw [Closure.map_id]
    rfl
  closure? {_ k l} id hnone hsome := by
    have same : (fun found => (k found).exec) = l := by
      funext found
      cases found with
      | none => exact hnone
      | some c =>
          have run := hsome c c.body.obeys_free
          rwa [Closure.map_id] at run
    subst same
    rfl
  field? _ _ := rfl
  putField _ _ _ := rfl
  display _ := rfl
  write _ _ := rfl
  print _ _ := rfl
  inBlock kind hx := congrArg (Exec.inBlock kind) hx
  inCall {_ p q _ _} range around hp hx := by
    obtain rfl : (fun frame => (p frame).exec) = q := funext hp
    obtain rfl := hx
    rfl
  repeatWithin turns hx := by
    obtain rfl := hx
    exact exec_repeatWithin _ turns

end Logged

theorem Task.exec_compute [Records ε ρ] (bound : Nat) (t : Task ρ α) (m : Machine ρ) :
    (t.compute bound : Logged ε ρ α).exec m = t.run bound m := by
  have same := (Logged.congruence (ε := ε)).simulation.task bound t.obeys_free
  rw [map_id] at same
  exact congrFun same m

end Guion
