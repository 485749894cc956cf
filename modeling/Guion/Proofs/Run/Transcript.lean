import Guion.Proofs.Run.Logged
import Guion.Proofs.Run.Printing
import Guion.Proofs.Run.Watched

/-!
# What a run writes

A run writes texts, one after the other, each for a call of the function that prints. Here a
run keeps the texts and where they were written. This transcript says how a run that ends
would end if the output were limited. If all texts fit, it ends as it does without a limit. If
not, the first text that does not fit is written as far as it does, and its writing fails; no
more is written then.
-/

namespace Guion

variable {ρ α β : Type}

/-- A text that is written, with the place a failure of writing it is reported at. -/
structure Writing (ρ : Type) where
  range : ρ
  text : String

/-- The bytes of texts, one behind the other. -/
def Writing.bytes : List (Writing ρ) → ByteArray
  | [] => .empty
  | w :: rest => w.text.toUTF8 ++ bytes rest

@[simp] theorem Writing.bytes_append (list more : List (Writing ρ)) :
    bytes (list ++ more) = bytes list ++ bytes more := by
  induction list with
  | nil => exact ByteArray.empty_append.symm
  | cons w rest ih => rw [List.cons_append, bytes, ih, bytes, ByteArray.append_assoc]

/-! ### Limits -/

theorem extract_append_of_le {a b : ByteArray} {n : Nat} (h : n ≤ a.size) :
    (a ++ b).extract 0 n = a.extract 0 n := by
  have none : b.extract (0 - a.size) (n - a.size) = .empty :=
    ByteArray.extract_eq_empty_iff.mpr (by omega)
  rw [ByteArray.extract_append, none, ByteArray.append_empty]

/-- The same machine with its output limited to so many bytes in all. -/
def Machine.limitedTo (limit : Nat) (m : Machine ρ) : Machine ρ :=
  { m with output := { m.output with limit := some limit } }

/-- How a computation ends under a limit, if without one it ends in a certain way and writes
certain texts behind the bytes there are: either they fit, or one of them is cut off. -/
inductive Outcome.Cut (limit : Nat) (start : ByteArray) (written : List (Writing ρ))
    (out : Outcome ρ α) : Outcome ρ α → Prop
  | fits : (start ++ Writing.bytes written).size ≤ limit →
      Cut limit start written out (out.alter (Machine.limitedTo limit))
  | full {before after : List (Writing ρ)} {w : Writing ρ} {stopped : Machine ρ} :
      written = before ++ w :: after → (start ++ Writing.bytes before).size ≤ limit →
      limit < (start ++ Writing.bytes (before ++ [w])).size →
      stopped.output = ⟨(start ++ Writing.bytes written).extract 0 limit, some limit⟩ →
      Cut limit start written out (.error ⟨w.range, .outputFailed Output.full⟩ stopped)

namespace Outcome.Cut

variable {limit : Nat} {start : ByteArray} {written more : List (Writing ρ)}
variable {out out' : Outcome ρ α}

/-- Changing the machines in other parts than the output changes nothing. -/
theorem alter {g : Machine ρ → Machine ρ} (output : ∀ m, (g m).output = m.output)
    (limited : ∀ m, (g m).limitedTo limit = g (m.limitedTo limit))
    (h : out.Cut limit start written out') :
    (out.alter g).Cut limit start written (out'.alter g) := by
  cases h with
  | fits small =>
      have same : (out.alter g).alter (Machine.limitedTo limit) =
          (out.alter (Machine.limitedTo limit)).alter g := by
        cases out with
        | ok a m => exact congrArg (Outcome.ok a) (limited m)
        | error fault m => exact congrArg (Outcome.error fault) (limited m)
        | unfinished => rfl
      rw [← same]
      exact .fits small
  | full split small large stopped =>
      exact .full split small large ((output _).trans stopped)

/-- What fits may be followed by something that is cut off. -/
theorem prepend (h : out.Cut limit (start ++ Writing.bytes written) more out') :
    out.Cut limit start (written ++ more) out' := by
  cases h with
  | fits small =>
      refine .fits ?_
      rwa [Writing.bytes_append, ← ByteArray.append_assoc]
  | @full before after w _ split small large stopped =>
      have behind : written ++ more = (written ++ before) ++ w :: after := by
        rw [split, List.append_assoc]
      refine .full behind ?_ ?_ ?_
      · rwa [Writing.bytes_append, ← ByteArray.append_assoc]
      · rwa [List.append_assoc, Writing.bytes_append, ← ByteArray.append_assoc]
      · rwa [Writing.bytes_append, ← ByteArray.append_assoc]

/-- Nothing is written behind what was cut off. -/
theorem full_append {before after : List (Writing ρ)} {w : Writing ρ} {stopped : Machine ρ}
    (split : written = before ++ w :: after) (small : (start ++ Writing.bytes before).size ≤ limit)
    (large : limit < (start ++ Writing.bytes (before ++ [w])).size)
    (output : stopped.output = ⟨(start ++ Writing.bytes written).extract 0 limit, some limit⟩) :
    out.Cut limit start (written ++ more)
      (.error ⟨w.range, .outputFailed Output.full⟩ stopped) := by
  have within : limit ≤ (start ++ Writing.bytes written).size := by
    have longer : written = (before ++ [w]) ++ after := by rw [split, List.append_assoc]; rfl
    rw [longer, Writing.bytes_append, ← ByteArray.append_assoc, ByteArray.size_append]
    omega
  have behind : written ++ more = before ++ w :: (after ++ more) := by
    rw [split, List.append_assoc, List.cons_append]
  refine .full behind small large ?_
  rw [output, Writing.bytes_append, ← ByteArray.append_assoc, extract_append_of_le within]

end Outcome.Cut

/-! ### What a transcript tells -/

/-- A value that has no text is never printed to its end, so that nothing is kept of it. -/
instance : Records (Writing ρ) ρ where
  write range text _ := [⟨range, text⟩]
  print range v m := (m.display? v).toList.map (⟨range, ·⟩)

/-- What a task writes on a machine within a bound. -/
def Task.transcript (bound : Nat) (t : Task ρ α) (m : Machine ρ) : List (Writing ρ) :=
  (t.compute bound : Logged (Writing ρ) ρ α).log m

namespace Logged

/-- Wherever a computation ends on a machine whose output is unlimited, its transcript is what
it adds to the output, and tells how it ends under a limit. -/
def Tells (x : Logged (Writing ρ) ρ α) : Prop :=
  ∀ (m : Machine ρ) (start : ByteArray), m.output = ⟨start, none⟩ →
    ∀ last, (x.exec m).machine? = some last →
      last.output = ⟨start ++ Writing.bytes (x.log m), none⟩ ∧
      ∀ limit, start.size ≤ limit →
        (x.exec m).Cut limit start (x.log m) (x.exec (m.limitedTo limit))

namespace Tells

variable {x : Logged (Writing ρ) ρ α}

/-- What does not look at the output and leaves it alone need not be told. -/
theorem quiet {x : Exec ρ α} (blind : ∀ (m : Machine ρ) (output : Output),
    x { m with output := output } = (x m).alter fun last => { last with output := output }) :
    Tells (Logged.quiet x) := by
  intro m start unlimited last ended
  change (x m).machine? = some last at ended
  have kept : last.output = m.output := by
    have same : (x m).machine? = (x m).machine?.map fun last => { last with output := m.output } :=
      (congrArg Outcome.machine? (blind m m.output)).trans (Outcome.machine?_alter ..)
    rw [ended, Option.map_some] at same
    have outputs := congrArg Machine.output (Option.some.inj same)
    exact outputs
  refine ⟨?_, fun limit small => ?_⟩
  · rw [kept, unlimited]
    exact congrArg (Output.mk · none) ByteArray.append_empty.symm
  · have same : x (m.limitedTo limit) = (x m).alter (Machine.limitedTo limit) := by
      refine (blind m _).trans ?_
      cases run : x m with
      | unfinished => rfl
      | _ a other =>
          rw [run] at ended
          cases ended
          simp only [Outcome.alter, Machine.limitedTo, kept]
    change Outcome.Cut limit start [] (x m) (x (m.limitedTo limit))
    rw [same]
    refine .fits ?_
    rwa [Writing.bytes, ByteArray.append_empty]

theorem bind {k : α → Logged (Writing ρ) ρ β} (hx : x.Tells) (hk : ∀ a, (k a).Tells) :
    (x.bind k).Tells := by
  intro m start unlimited final ended
  have told := hx m start unlimited
  cases run : x.exec m with
  | ok a last =>
      rw [run] at told
      obtain ⟨output, cut⟩ := told last rfl
      rw [exec_bind_of_ok run] at ended ⊢
      obtain ⟨output₂, cut₂⟩ := hk a last _ output final ended
      rw [log_bind_of_ok run]
      refine ⟨?_, fun limit small => ?_⟩
      · rw [Writing.bytes_append, ← ByteArray.append_assoc]
        exact output₂
      · have first := cut limit small
        change Outcome.Cut _ _ _ _ (Exec.bind x.exec (fun a => (k a).exec) (m.limitedTo limit))
        unfold Exec.bind
        generalize x.exec (m.limitedTo limit) = out at first ⊢
        cases first with
        | fits fits => exact (cut₂ limit fits).prepend
        | full split small large stopped => exact .full_append split small large stopped
  | unfinished => simp only [Logged.bind, Exec.bind, run, Outcome.machine?] at ended; cases ended
  | error fault last =>
      rw [run] at told
      obtain ⟨output, cut⟩ := told last rfl
      have same : (x.bind k).exec m = .error fault last := by
        simp only [Logged.bind, Exec.bind, run]
      rw [same] at ended ⊢
      cases ended
      rw [log_bind_of_fails (by simp [Outcome.Fails, run])]
      refine ⟨output, fun limit small => ?_⟩
      have first := cut limit small
      change Outcome.Cut _ _ _ _ (Exec.bind x.exec (fun a => (k a).exec) (m.limitedTo limit))
      unfold Exec.bind
      generalize x.exec (m.limitedTo limit) = out at first ⊢
      cases first with
      | fits fits => exact .fits fits
      | full split small large stopped => exact .full split small large stopped

/-- Something that runs elsewhere and comes back, without a look at the output. -/
theorem around {y : Logged (Writing ρ) ρ α} (hx : x.Tells) {enter : Machine ρ → Machine ρ}
    {leave : Machine ρ → Machine ρ → Machine ρ}
    (exec : ∀ m, y.exec m = (x.exec (enter m)).alter (leave m))
    (log : ∀ m, y.log m = x.log (enter m))
    (entered : ∀ m, (enter m).output = m.output ∧
      ∀ limit, enter (m.limitedTo limit) = (enter m).limitedTo limit)
    (left : ∀ m last, (leave m last).output = last.output ∧
      ∀ limit, leave (m.limitedTo limit) = leave m ∧
        (leave m last).limitedTo limit = leave m (last.limitedTo limit)) : y.Tells := by
  intro m start unlimited last ended
  rw [exec m, Outcome.machine?_alter, Option.map_eq_some_iff] at ended
  obtain ⟨before, ended, rfl⟩ := ended
  obtain ⟨output, cut⟩ := hx (enter m) start ((entered m).1.trans unlimited) before ended
  rw [exec m, log m]
  refine ⟨(left m before).1.trans output, fun limit small => ?_⟩
  rw [exec, (entered m).2 limit, ((left m m).2 limit).1]
  exact (cut limit small).alter (fun last => (left m last).1)
    fun last => ((left m last).2 limit).2

theorem within (scope : Scope) (hx : x.Tells) : (x.within scope).Tells :=
  hx.around (Exec.within_eq_alter scope x.exec) (fun _ => rfl)
    (fun _ => ⟨rfl, fun _ => rfl⟩) fun _ _ => ⟨rfl, fun _ => ⟨rfl, rfl⟩⟩

theorem counted (hx : x.Tells) : x.counted.Tells :=
  have exec (m : Machine ρ) : x.counted.exec m = (x.exec { m with depth := m.depth + 1 }).alter
      ((fun _ last => { last with depth := last.depth - 1 }) m) := Exec.counted_eq_alter x.exec m
  hx.around exec (fun _ => rfl)
    (fun _ => ⟨rfl, fun _ => rfl⟩) fun _ _ => ⟨rfl, fun _ => ⟨rfl, rfl⟩⟩

theorem inBlock (kind : ScopeKind) (hx : x.Tells) : (x.inBlock kind).Tells :=
  hx.around (fun m => Exec.within_eq_alter (m.scope.inner m.frames.size) x.exec
      { m with frames := m.frames.push ⟨kind, []⟩ }) (fun _ => rfl)
    (fun _ => ⟨rfl, fun _ => rfl⟩) fun _ _ => ⟨rfl, fun _ => ⟨rfl, rfl⟩⟩

theorem inCall {p : Nat → Logged (Writing ρ) ρ Unit} (range : ρ) (around : Scope)
    (hp : ∀ frame, (p frame).Tells) (hx : x.Tells) : (x.inCall range around p).Tells := by
  intro m start unlimited
  by_cases full : callLimit ≤ m.depth
  · have exceeded : Tells (Logged.quiet (Effects.fail range (.callDepthExceeded callLimit)) :
        Logged (Writing ρ) ρ α) := quiet fun _ _ => rfl
    have deep (limit : Nat) : callLimit ≤ (m.limitedTo limit).depth := full
    simp only [Logged.inCall, Exec.inCall, if_pos full, if_pos (deep _)]
    exact exceeded m start unlimited
  · have room (limit : Nat) : ¬ callLimit ≤ (m.limitedTo limit).depth := full
    simp only [Logged.inCall, Exec.inCall, if_neg full, if_neg (room _)]
    exact bind (hp m.frames.size) (fun _ => (hx.within (around.inner m.frames.size)).counted)
      { m with frames := m.frames.push ⟨.function, []⟩ } start unlimited

theorem repeatWithin {x : Logged (Writing ρ) ρ (Option α)} (hx : x.Tells) (turns : Nat) :
    (x.repeatWithin turns).Tells := by
  induction turns with
  | zero => exact quiet fun _ _ => rfl
  | succ turns ih =>
      refine hx.bind fun found => ?_
      cases found with
      | some a => exact quiet fun _ _ => rfl
      | none => exact ih

/-- A text that fits is written, and one that does not is written as far as it does. -/
theorem of_write (range : ρ) (text : String) {m : Machine ρ} {start : ByteArray}
    (unlimited : m.output = ⟨start, none⟩) {last : Machine ρ}
    (ended : (Exec.write range text m).machine? = some last) :
    last.output = ⟨start ++ Writing.bytes [(⟨range, text⟩ : Writing ρ)], none⟩ ∧
      ∀ limit, start.size ≤ limit → (Exec.write range text m).Cut limit start [⟨range, text⟩]
        (Exec.write range text (m.limitedTo limit)) := by
  have bytes : Writing.bytes [(⟨range, text⟩ : Writing ρ)] = text.toUTF8 := ByteArray.append_empty
  have free : Exec.write range text m =
      .ok () { m with output := ⟨start ++ text.toUTF8, none⟩ } := by
    rw [Exec.write_eq, unlimited]
    rfl
  rw [free] at ended ⊢
  cases ended
  refine ⟨by rw [bytes], fun limit small => ?_⟩
  rw [Exec.write_eq]
  simp only [Machine.limitedTo, unlimited, Output.write]
  by_cases fits : text.toUTF8.size ≤ limit - start.size
  · rw [if_pos fits]
    have small : (start ++ Writing.bytes [(⟨range, text⟩ : Writing ρ)]).size ≤ limit := by
      rw [bytes, ByteArray.size_append]
      omega
    exact Outcome.Cut.fits small
  · rw [if_neg fits]
    have first : [(⟨range, text⟩ : Writing ρ)] = [] ++ ⟨range, text⟩ :: [] := rfl
    refine .full first ?_ ?_ ?_
    · rwa [Writing.bytes, ByteArray.append_empty]
    · rw [List.nil_append, bytes, ByteArray.size_append]
      omega
    · have whole : start.extract 0 limit = start := by
        have same := ByteArray.extract_zero_max_size (a := start) (i := limit)
        rwa [Nat.max_eq_left small] at same
      rw [bytes, ByteArray.extract_append, whole, Nat.zero_sub]

/-- A value that has a text is printed as the text is written. One that has none is printed for
ever. -/
theorem print (range : ρ) (v : Value) :
    Tells (Effects.print range v : Logged (Writing ρ) ρ Unit) := by
  intro m start unlimited last ended
  change (Exec.print range v m).machine? = some last at ended
  cases shown : m.display? v with
  | some text =>
      have run (m : Machine ρ) (shown : m.display? v = some text) :
          (Effects.print range v : Logged (Writing ρ) ρ Unit).exec m = Exec.write range text m :=
        Exec.print_of_some range shown
      have log : (Effects.print range v : Logged (Writing ρ) ρ Unit).log m =
          [⟨range, text⟩] := by
        change (m.display? v).toList.map _ = _
        rw [shown]
        rfl
      rw [Exec.print_of_some range shown] at ended
      rw [log, run m shown]
      refine (of_write range text unlimited ended).imp_right fun cut limit small => ?_
      rw [run (m.limitedTo limit) shown]
      exact cut limit small
  | none =>
      rw [Exec.print_unlimited range shown (congrArg Output.limit unlimited)] at ended
      cases ended

theorem congruence : Congruence id (.free : Discipline ρ)
    fun α (x : Logged (Writing ρ) ρ α) (_ : Exec ρ α) => x.Tells where
  pure _ := quiet fun _ _ => rfl
  bind hx hk := hx.bind hk
  fail _ _ := quiet fun _ _ => rfl
  unfinished := quiet fun _ _ => rfl
  scope := quiet fun _ _ => rfl
  insideFunction := quiet fun _ _ => rfl
  insideLoop := quiet fun _ _ => rfl
  lookup name := by
    refine quiet fun m output => ?_
    simp only [Effects.lookup]
    cases m.frames.lookup m.scope name.value <;> rfl
  declare range frame name value type isConstant := by
    refine quiet fun m output => ?_
    simp only [Effects.declare, Exec.declare]
    cases m.frames.declared frame name value type isConstant <;> rfl
  assign range name value := by
    refine quiet fun m output => ?_
    simp only [Effects.assign, Exec.assign]
    cases m.frames.assigned m.scope name value <;> rfl
  newObject _ := quiet fun _ _ => rfl
  newFunction _ _ := quiet fun _ _ => rfl
  closure? {_ k _} id hnone hsome := by
    have look : Tells (Logged.quiet (Effects.closure? id) :
        Logged (Writing ρ) ρ (Option (Closure ρ))) := quiet fun _ _ => rfl
    refine look.bind fun found => ?_
    cases found with
    | none => exact hnone
    | some c => exact hsome c c.body.obeys_free
  field? _ _ := quiet fun _ _ => rfl
  putField _ _ _ := quiet fun _ _ => rfl
  display v := by
    refine quiet fun m output => ?_
    have same : Machine.display? { m with output := output } v = m.display? v := rfl
    simp only [Effects.display, same]
    cases m.display? v <;> rfl
  write range text := fun _ _ unlimited _ ended => of_write range text unlimited ended
  print := print
  inBlock kind hx := hx.inBlock kind
  inCall range around hp hx := inCall range around hp hx
  repeatWithin turns hx := hx.repeatWithin turns

end Tells

end Logged

/-- The transcript of a task that ends is what it adds to an unlimited output, and it tells how
the task ends under a limit. -/
theorem Task.transcript_tells (bound : Nat) (t : Task ρ α) {m last : Machine ρ}
    {start : ByteArray} (unlimited : m.output = ⟨start, none⟩)
    (ended : (t.run bound m).machine? = some last) :
    last.output = ⟨start ++ Writing.bytes (t.transcript bound m), none⟩ ∧
    ∀ limit, start.size ≤ limit →
      (t.run bound m).Cut limit start (t.transcript bound m)
        (t.run bound (m.limitedTo limit)) := by
  have tells := Logged.Tells.congruence.simulation.task bound t.obeys_free
  have told := tells m start unlimited last
  simp only [t.exec_compute] at told
  exact told ended

end Guion
