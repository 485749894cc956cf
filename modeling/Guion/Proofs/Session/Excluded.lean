import Guion.Proofs.Parse.Invariants
import Guion.Proofs.Run.Checked
import Guion.Proofs.Run.Restoration
import Guion.Proofs.Token.Numbers

/-!
# Failures that cannot occur

Some failures are there only because each part of the program looks after itself. The parser
could come across a number that cannot be read, but the scanner makes none. A run could come
across an assignment to something that cannot be assigned to or a declaration with neither a
value nor a type, but the parser makes none, and every function that a later source calls is
part of a tree that was parsed before.
-/

namespace Guion

variable {ρ α β : Type}

/-- Failures that an earlier part of the program rules out. -/
def Failure.isRuledOut : Failure → Bool
  | .grammatical (.invalidNumber _) => true
  | .runtime ⟨_, .invalidTarget⟩ => true
  | .runtime ⟨_, .missingType _⟩ => true
  | .runtime ⟨_, .constantWithoutValue _⟩ => true
  | _ => false

theorem Failure.isRuledOut_grammatical (complaint : Complaint Span) :
    (Failure.grammatical complaint).isRuledOut = complaint.isInvalidNumber := by
  cases complaint <;> rfl

theorem Failure.isRuledOut_runtime (fault : Located Span Fault) :
    (Failure.runtime fault).isRuledOut = fault.value.isStatic := by
  obtain ⟨range, fault⟩ := fault
  cases fault <;> rfl

/-! ### Reading -/

/-- A cursor before numbers that can be read only. -/
def Cursor.Readable (c : Cursor ρ) : Prop := ∀ t ∈ c.rest, t.HasValue

theorem Cursor.Readable.peek {c : Cursor ρ} (h : c.Readable) : c.peek.HasValue := by
  obtain ⟨rest, last, finish⟩ := c
  cases rest with
  | nil => nofun
  | cons t rest => exact h t List.mem_cons_self

/-- Before numbers that can be read, parsers do not complain about numbers. -/
theorem Parser.invariant_readable :
    Parser.Invariant (Cursor.Readable (ρ := ρ)) (·.isInvalidNumber = false) where
  advance {c} h := by
    intro t ht
    unfold Cursor.advance at ht
    split at ht
    · exact h t ht
    · exact h t (List.mem_of_mem_tail ht)
  other h := h
  number h number unread := by
    have readable := h.peek _ number
    rw [unread] at readable
    cases readable

/-- Where a source is not read, it is not for a number in it. -/
theorem isRuledOut_of_readWith {parser : Parser Span α} {source : String} {failure : Failure}
    (upholds : Parser.Upholds Cursor.Readable (·.isInvalidNumber = false) parser)
    (h : readWith parser source = .error failure) : failure.isRuledOut = false := by
  unfold readWith at h
  cases lexed : tokenize source with
  | error e =>
      rw [lexed] at h
      cases h
      rfl
  | ok tokens =>
      rw [lexed] at h
      have reply := upholds (Cursor.ofTokens tokens) (hasValue_of_tokenize lexed)
      dsimp only at h
      cases parsed : parser (Cursor.ofTokens tokens) with
      | ok a next =>
          rw [parsed] at h
          cases h
      | error complaint next =>
          rw [parsed] at h reply
          cases h
          rw [Failure.isRuledOut_grammatical]
          exact reply.2

/-! ### Steps of a session -/

/-- An end of a source on a checked machine, without a failure that is ruled out. -/
inductive Finish.Sound : Finish α → Prop
  | ok (value : α) {last : Machine Span} : last.Checked → Finish.Sound (.ok value last)
  | failed {failure : Failure} {last : Machine Span} : last.Checked →
      failure.isRuledOut = false → Finish.Sound (.failed failure last)
  | unfinished : Finish.Sound .unfinished

theorem Finish.Sound.checked {finish : Finish α} (h : finish.Sound) {last : Machine Span}
    (ended : finish.machine? = some last) : last.Checked := by
  cases h with
  | ok value hlast | failed hlast _ =>
      cases ended
      exact hlast
  | unfinished => cases ended

theorem Finish.Sound.isRuledOut {finish : Finish α} (h : finish.Sound) {failure : Failure}
    {last : Machine Span} (failed : finish = .failed failure last) :
    failure.isRuledOut = false := by
  subst failed
  cases h with
  | failed _ dynamic => exact dynamic

namespace Machine

variable {m : Machine Span}

theorem perform_sound {parser : Parser Span α} {exec : α → Exec Span β}
    (upholds : Parser.Upholds Cursor.Readable (·.isInvalidNumber = false) parser)
    (sound : ∀ {c a next}, parser c = .ok a next → Exec.Sound (fun _ => True) (exec a))
    (source : String) (hm : m.Checked) : (m.perform parser exec source).Sound := by
  unfold perform
  cases read : readWith parser source with
  | error failure => exact .failed hm (isRuledOut_of_readWith upholds read)
  | ok a =>
      obtain ⟨tokens, next, -, parsed⟩ := readWith_eq_ok_iff.mp read
      have run := sound parsed m hm
      dsimp only
      generalize exec a m = out at run
      cases run with
      | ok hlast => exact .ok _ hlast
      | error hlast dynamic =>
          refine .failed hlast ?_
          rw [Failure.isRuledOut_runtime]
          exact dynamic
      | unfinished => exact .unfinished

theorem run_sound (bound : Nat) (source : String) (hm : m.Checked) :
    (m.run bound source).Sound := by
  refine perform_sound Parser.invariant_readable.program ?_ source hm
  intro c p next parsed
  have obeys := Parser.obeys_of_program Discipline.grammatical_checked
    (Discipline.checked_reflects _) parsed
  exact Task.sound (t := .program p) obeys bound

theorem runStatement_sound (bound : Nat) (source : String) (hm : m.Checked) :
    (m.runStatement bound source).Sound := by
  refine perform_sound Parser.invariant_readable.statement ?_ source hm
  intro c s next parsed
  have obeys := Parser.obeys_of_statement Discipline.grammatical_checked
    (Discipline.checked_reflects _) parsed
  exact Task.sound (t := .statement s) obeys bound

theorem runExpression_sound (bound : Nat) (source : String) (hm : m.Checked) :
    (m.runExpression bound source).Sound := by
  refine perform_sound Parser.invariant_readable.expression ?_ source hm
  intro c e next parsed
  have obeys := Parser.obeys_of_expression Discipline.grammatical_checked
    (Discipline.checked_reflects _) parsed
  exact Task.sound (t := .expression e) obeys bound

end Machine

/-- A session holds functions only that a parser could have made. -/
theorem Session.checked {limit : Option Nat} {m : Machine Span} (h : Session limit m) :
    m.Checked := by
  induction h with
  | start => exact Machine.checked_initial limit
  | program bound source _ ended ih => exact (Machine.run_sound bound source ih).checked ended
  | statement bound source _ ended ih =>
      exact (Machine.runStatement_sound bound source ih).checked ended
  | expression bound source _ ended ih =>
      exact (Machine.runExpression_sound bound source ih).checked ended

/-- The failures that an earlier part of the program rules out never occur. Whatever sources
a session has been given, as programs, statements or expressions, and however they ended, the
next one does not fail with one of them. And where the arguments of a call are bound, the
declaration of one whose type is right fails only if its name is declared already. -/
theorem excluded_failures_never_occur :
    (∀ (limit : Option Nat) (m : Machine Span), Session limit m → ∀ (bound : Nat) (source : String)
      (failure : Failure) (last : Machine Span),
      m.run bound source = .failed failure last ∨
        m.runStatement bound source = .failed failure last ∨
        m.runExpression bound source = .failed failure last →
      failure.isRuledOut = false) ∧
    ∀ {ρ : Type} (range : ρ) (frame : Nat) (parameters : List (String × ValueType))
      (values : List Value) (arguments : List (Expr ρ)) (m last : Machine ρ)
      (fault : Located ρ Fault),
      (Rules.bindParameters range frame parameters values arguments : Exec ρ Unit) m =
        .error fault last →
      (∃ p ∈ parameters, fault = ⟨range, .alreadyDeclared p.1⟩) ∨
        ∃ p ∈ parameters, ∃ v ∈ values, ∃ e ∈ arguments, v.type ≠ p.2 ∧
          fault = ⟨e.range, .argumentTypeMismatch p.1 p.2 v.type⟩ := by
  constructor
  · intro limit m session bound source failure last failed
    rcases failed with failed | failed | failed
    · exact (Machine.run_sound bound source session.checked).isRuledOut failed
    · exact (Machine.runStatement_sound bound source session.checked).isRuledOut failed
    · exact (Machine.runExpression_sound bound source session.checked).isRuledOut failed
  · intro ρ range frame parameters values arguments m last fault failed
    exact Exec.bindParameters_error failed

/-- A number that is assigned to a name which nobody declared, and two parameters of one
name. -/
theorem excluded_failures_never_occur_undeclared :
    (∃ last : Machine Span, Session none (Machine.initial none) ∧
      (Machine.initial none).run 2 "x = -1.5;" =
        .failed (.runtime ⟨⟨⟨0, 1, 1⟩, ⟨1, 1, 2⟩⟩, .undeclared "x"⟩) last ∧
      (Failure.runtime ⟨⟨⟨0, 1, 1⟩, ⟨1, 1, 2⟩⟩, .undeclared "x"⟩).isRuledOut = false) ∧
    ∃ (last : Machine Unit) (fault : Located Unit Fault),
      (Rules.bindParameters () 0 [("a", .text), ("a", .text)] [.text "", .text ""]
        [.text () "", .text () ""] : Exec Unit Unit) (Machine.initial none) = .error fault last ∧
      ∃ p ∈ [("a", ValueType.text), ("a", .text)], fault = ⟨(), .alreadyDeclared p.1⟩ := by
  constructor
  · have reads : (Scanner.ofText "x = -1.5;".toList).Reads
        [⟨.name "x", ⟨⟨0, 1, 1⟩, ⟨1, 1, 2⟩⟩⟩, ⟨.punctuator .assign, ⟨⟨2, 1, 3⟩, ⟨3, 1, 4⟩⟩⟩,
          ⟨.number "-1.5", ⟨⟨4, 1, 5⟩, ⟨8, 1, 9⟩⟩⟩,
          ⟨.punctuator .semicolon, ⟨⟨8, 1, 9⟩, ⟨9, 1, 10⟩⟩⟩] ⟨[], ⟨9, 1, 10⟩, some ';'⟩ := by
      repeat' apply Scanner.Reads.token rfl (by decide)
      exact .done
    have lexed : tokenize "x = -1.5;" = .ok _ := reads.tokens_eq (Scanner.tokens_of_end rfl rfl)
    have read : readWith Parser.program "x = -1.5;" = .ok _ :=
      readWith_eq_ok_iff.mpr ⟨_, _, lexed, rfl⟩
    obtain ⟨last, failed⟩ : ∃ last, (Machine.initial none).run 2 "x = -1.5;" =
        .failed (.runtime ⟨⟨⟨0, 1, 1⟩, ⟨1, 1, 2⟩⟩, .undeclared "x"⟩) last := by
      rw [Machine.run, Machine.perform, read]
      exact ⟨_, rfl⟩
    refine ⟨last, .start, failed, ?_⟩
    exact excluded_failures_never_occur.1 none _ .start 2 _ _ last (.inl failed)
  · obtain ⟨last, failed⟩ : ∃ last, (Rules.bindParameters () 0 [("a", .text), ("a", .text)]
        [.text "", .text ""] [.text () "", .text () ""] : Exec Unit Unit) (Machine.initial none) =
        .error ⟨(), .alreadyDeclared "a"⟩ last := ⟨_, rfl⟩
    refine ⟨last, _, failed, ?_⟩
    apply Or.resolve_right (excluded_failures_never_occur.2 _ _ _ _ _ _ _ _ failed)
    rintro ⟨p, hp, v, hv, e, he, other, ⟨⟩⟩

end Guion
