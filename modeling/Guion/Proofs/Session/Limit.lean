import Guion.Proofs.Run.Accounts
import Guion.Proofs.Run.Restoration
import Guion.Proofs.Session.Concatenation

/-!
# Limited output

A source can be run with an output that takes so many bytes in all and fails at the next one.
The output is then a prefix of what it would be without the limit: either everything fits, and
the run ends as it would, or the run ends at the call that writes the first byte too many.
-/

namespace Guion

variable {ρ α : Type}

/-- What a source writes when it is run as a program. -/
def Machine.transcript (bound : Nat) (source : String) (m : Machine Span) : List (Writing Span) :=
  match readWith Parser.program source with
  | .ok p => (Task.program p).transcript bound m
  | .error _ => []

/-- What a source computes when it is run as a program. -/
def Machine.visits (bound : Nat) (source : String) (m : Machine Span) : List (Visit Span) :=
  match readWith Parser.program source with
  | .ok p => (Task.program p).visits bound m
  | .error _ => []

/-- The calls of the function that prints among what a source computes. -/
def Machine.printings (bound : Nat) (source : String) (m : Machine Span) : List (Printing Span) :=
  (m.visits bound source).filterMap Visit.printing?

/-- A source writes what its calls of the function that prints write. -/
theorem Machine.transcript_eq (bound : Nat) (source : String) (m : Machine Span) :
    m.transcript bound source = (m.printings bound source).flatMap Printing.writings := by
  unfold transcript printings visits
  cases readWith Parser.program source with
  | ok p => exact (Task.program p).transcript_eq_writings bound m
  | error _ => rfl

/-- Each of these calls is an expression that the source computes. -/
theorem Machine.mem_printings {bound : Nat} {source : String} {m : Machine Span}
    {call : Printing Span} : call ∈ m.printings bound source ↔
      ∃ visit ∈ m.visits bound source, visit.Prints call := by
  simp only [printings, List.mem_filterMap, Visit.printing?_eq_some_iff]

/-- The end of a run with the output limited to so many bytes in all. -/
def Finish.limitedTo (limit : Nat) : Finish α → Finish α
  | ok a m => .ok a (m.limitedTo limit)
  | failed failure m => .failed failure (m.limitedTo limit)
  | unfinished => .unfinished

@[simp] theorem Machine.limitedTo_initial (limit : Nat) :
    (Machine.initial none : Machine ρ).limitedTo limit = Machine.initial (some limit) := rfl

theorem Finish.ofOutcome_alter (limit : Nat) (out : Outcome Span α) :
    ofOutcome (out.alter (Machine.limitedTo limit)) = (ofOutcome out).limitedTo limit := by
  cases out <;> rfl

theorem Finish.machine?_ofOutcome (out : Outcome Span α) :
    (ofOutcome out).machine? = out.machine? := by
  cases out <;> rfl

/-! ### Output only grows -/

/-- A machine has all that was written before at the front of its output. -/
def Machine.Continues (before after : Machine ρ) : Prop :=
  ∃ more, after.output.bytes = before.output.bytes ++ more

theorem Machine.Continues.trans {a b c : Machine ρ} (h : a.Continues b) (h' : b.Continues c) :
    a.Continues c := by
  obtain ⟨more, first⟩ := h
  obtain ⟨rest, second⟩ := h'
  exact ⟨more ++ rest, by rw [second, first, ByteArray.append_assoc]⟩

/-- No change takes anything back that was written. -/
theorem Change.continues {m m' : Machine ρ} (change : Change m m') : m.Continues m' := by
  cases change with
  | print text =>
      obtain ⟨frames, objects, closures, ⟨bytes, limit⟩, scope, depth⟩ := m
      cases limit with
      | none => exact ⟨text.toUTF8, rfl⟩
      | some limit =>
          by_cases fits : text.toUTF8.size ≤ limit - bytes.size
          · refine ⟨text.toUTF8, ?_⟩
            simp only [Output.write, if_pos fits]
          · refine ⟨text.toUTF8.extract 0 (limit - bytes.size), ?_⟩
            simp only [Output.write, if_neg fits]
  | _ => exact ⟨.empty, ByteArray.append_empty.symm⟩

/-- A task never takes anything back that was written. -/
theorem Task.continues (bound : Nat) (t : Task ρ α) (m : Machine ρ) :
    (t.watch bound m).moments.Pairwise Machine.Continues :=
  (t.watch bound m).path.pairwise (R := Machine.Continues) (fun h h' => h.trans h')
    fun change => change.continues

/-! ### Sources -/

/-- A limited output is a prefix of the unlimited one. If what a source writes without a limit
fits, its run ends in the same way with one. If not, it ends with an internal error at the
call of the function that prints which writes the first byte too many, and what was written is
all that fits. On the way, with a limit or without, output is only ever added. -/
theorem limited_output_is_a_prefix {bound : Nat} {source : String} {m last : Machine Span}
    (unlimited : m.output.limit = none)
    (ended : (m.run bound source).machine? = some last) :
    ∃ calls : List (Printing Span),
      calls = m.printings bound source ∧
      m.transcript bound source = calls.flatMap Printing.writings ∧
      last.output.bytes = m.output.bytes ++ Printing.bytes calls ∧
      ∀ limit, m.output.bytes.size ≤ limit →
        (last.output.bytes.size ≤ limit →
          (m.limitedTo limit).run bound source = (m.run bound source).limitedTo limit) ∧
        (limit < last.output.bytes.size →
          ∃ earlier call later failure stopped, calls = earlier ++ call :: later ∧
            (∃ visit ∈ m.visits bound source, visit.Prints call) ∧
            (m.output.bytes ++ Printing.bytes earlier).size ≤ limit ∧
            limit < (m.output.bytes ++ Printing.bytes (earlier ++ [call])).size ∧
            (m.limitedTo limit).run bound source = .failed failure stopped ∧
            failure = .runtime ⟨call.range, .outputFailed Output.full⟩ ∧
            failure.category = .internal ∧
            stopped.output.bytes = last.output.bytes.extract 0 limit) ∧
        ∀ p, readWith Parser.program source = .ok p →
          ((Task.program p).watch bound (m.limitedTo limit)).moments.Pairwise
            Machine.Continues := by
  have written := m.transcript_eq bound source
  cases read : readWith Parser.program source with
  | error failure =>
      have stays (m : Machine Span) : m.run bound source = .failed failure m := by
        rw [Machine.run, Machine.perform, read]
      have none : m.printings bound source = [] := by
        simp only [Machine.printings, Machine.visits, read, List.filterMap_nil]
      rw [stays] at ended
      cases ended
      refine ⟨_, rfl, written, by rw [none]; exact ByteArray.append_empty.symm,
        fun limit small => ⟨fun _ => ?_, fun large => absurd large (Nat.not_lt_of_le small),
          fun p _ => (Task.program p).continues bound _⟩⟩
      rw [stays, stays]
      rfl
  | ok p =>
      have runs (m : Machine Span) :
          m.run bound source = .ofOutcome ((Task.program p).run bound m) :=
        Machine.run_of_read read bound m
      rw [runs, Finish.machine?_ofOutcome] at ended
      have output : m.output = ⟨m.output.bytes, none⟩ := by rw [← unlimited]
      have program : m.transcript bound source = (Task.program p).transcript bound m := by
        rw [Machine.transcript, read]
      obtain ⟨told, cut⟩ := (Task.program p).transcript_tells bound output ended
      rw [← program, written] at told cut
      have whole : last.output.bytes =
          m.output.bytes ++ Printing.bytes (m.printings bound source) :=
        congrArg Output.bytes told
      refine ⟨_, rfl, written, whole, fun limit small => ⟨fun fits => ?_, fun large => ?_,
        fun p _ => (Task.program p).continues bound _⟩⟩
      · rw [whole] at fits
        rw [runs, runs, (cut limit small).eq_of_le fits, Finish.ofOutcome_alter]
      · rw [whole] at large ⊢
        obtain ⟨earlier, call, later, stopped, split, before, behind, run, front⟩ :=
          (cut limit small).exists_call large
        have mem : call ∈ m.printings bound source := by
          rw [split]
          exact List.mem_append_right earlier List.mem_cons_self
        refine ⟨earlier, call, later, _, stopped, split, Machine.mem_printings.mp mem, before,
          behind, ?_, rfl, rfl, front⟩
        rw [runs, run]
        rfl

/-- Two bytes of the three that a call prints. The failure is at the call, and not at its callee
or its argument. -/
theorem limited_output_is_a_prefix_cutOff :
    (Machine.initial none : Machine Span).output.limit = none ∧
      ∃ last, ((Machine.initial none).run 4 "imprimir(\"ab\");").machine? = some last ∧
        last.output.bytes = "ab\n".toUTF8 ∧ ∃ stopped,
          (Machine.initial (some 2)).run 4 "imprimir(\"ab\");" =
            .failed (.runtime ⟨⟨⟨0, 1, 1⟩, ⟨14, 1, 15⟩⟩, .outputFailed Output.full⟩) stopped ∧
          stopped.output.bytes = last.output.bytes.extract 0 2 := by
  have reads : (Scanner.ofText "imprimir(\"ab\");".toList).Reads
      [⟨.name "imprimir", ⟨⟨0, 1, 1⟩, ⟨8, 1, 9⟩⟩⟩,
        ⟨.punctuator .leftParen, ⟨⟨8, 1, 9⟩, ⟨9, 1, 10⟩⟩⟩,
        ⟨.text "ab", ⟨⟨9, 1, 10⟩, ⟨13, 1, 14⟩⟩⟩,
        ⟨.punctuator .rightParen, ⟨⟨13, 1, 14⟩, ⟨14, 1, 15⟩⟩⟩,
        ⟨.punctuator .semicolon, ⟨⟨14, 1, 15⟩, ⟨15, 1, 16⟩⟩⟩] ⟨[], ⟨15, 1, 16⟩, some ';'⟩ := by
    repeat' apply Scanner.Reads.token rfl (by decide)
    exact .done
  have lexed : tokenize "imprimir(\"ab\");" = .ok _ :=
    reads.tokens_eq (Scanner.tokens_of_end rfl rfl)
  have read : readWith Parser.program "imprimir(\"ab\");" = .ok _ :=
    readWith_eq_ok_iff.mpr ⟨_, _, lexed, rfl⟩
  obtain ⟨last, ended, bytes⟩ : ∃ last,
      ((Machine.initial none).run 4 "imprimir(\"ab\");").machine? = some last ∧
        last.output.bytes = "ab\n".toUTF8 := by
    rw [Machine.run, Machine.perform, read]
    exact ⟨_, rfl, by decide⟩
  have printed : ∃ values middle, (Machine.initial none).printings 4 "imprimir(\"ab\");" =
      [⟨⟨⟨0, 1, 1⟩, ⟨14, 1, 15⟩⟩, values, middle⟩] := by
    rw [Machine.printings, Machine.visits, read]
    exact ⟨_, _, rfl⟩
  obtain ⟨values, middle, printed⟩ := printed
  obtain ⟨calls, rfl, -, -, told⟩ := limited_output_is_a_prefix rfl ended
  obtain ⟨-, cut, -⟩ := told 2 (by decide)
  rw [Machine.limitedTo_initial] at cut
  obtain ⟨earlier, call, later, failure, stopped, split, -, -, -, fails, rfl, -, front⟩ :=
    cut (by rw [bytes]; decide)
  have only : call ∈ [(⟨⟨⟨0, 1, 1⟩, ⟨14, 1, 15⟩⟩, values, middle⟩ : Printing Span)] := by
    rw [← printed, split]
    exact List.mem_append_right earlier List.mem_cons_self
  obtain rfl := List.mem_singleton.mp only
  exact ⟨rfl, last, ended, bytes, stopped, fails, front⟩

end Guion
