import Guion.Proofs.Parse.Correctness
import Guion.Proofs.Run.Moved
import Guion.Proofs.Token.Scan
import Guion.Session

/-!
# Layout

Two sources with the same lexemes differ in white space, in comments, in how the
characters of texts are written, and so in where everything stands. They mean the same:
they are parsed to trees that differ in positions only, or rejected for the same reason,
and running them does the same.
-/

namespace Guion

variable {ρ α : Type}

/-- Forgets where something stands. -/
def forget (_ : ρ) : Unit := ()

/-- How runs of two sources end that differ in positions only: with the same value or the
same fault, and with machines that differ only in where the functions in them stand. -/
inductive Finish.Alike : Finish α → Finish α → Prop
  | ok {a : α} {m m' : Machine Span} : m.map forget = m'.map forget → Alike (.ok a m) (.ok a m')
  | failed {range range' : Span} {fault : Fault} {m m' : Machine Span} :
      m.map forget = m'.map forget →
      Alike (.failed (.runtime ⟨range, fault⟩) m) (.failed (.runtime ⟨range', fault⟩) m')
  | unfinished : Alike .unfinished .unfinished

/-- The wording of a complaint does not say where it points. -/
theorem Complaint.message_map {σ : Type} (f : ρ → σ) (complaint : Complaint ρ) :
    (complaint.map f).message = complaint.message := by
  cases complaint <;> rfl

/-- Programs that differ in positions only, on machines that differ in positions only, end
in the same way but for positions. -/
theorem Program.run_forget {p p' : Program Span} (same : p.map forget = p'.map forget)
    {m m' : Machine Span} (machines : m.map forget = m'.map forget) (bound : Nat) :
    (Exec.program bound p m).map forget = (Exec.program bound p' m').map forget := by
  have left := (Task.program p).run_map forget bound m
  have right := (Task.program p').run_map forget bound m'
  calc (Exec.program bound p m).map forget
    _ = (Task.program (p.map forget)).run bound (m.map forget) := left.symm
    _ = (Task.program (p'.map forget)).run bound (m'.map forget) := by rw [same, machines]
    _ = (Exec.program bound p' m').map forget := right

/-- Runs of sources that are read as the same program, but for positions, end alike. -/
theorem Machine.run_alike {source source' : String} {p p' : Program Span}
    (read : readWith Parser.program source = .ok p)
    (read' : readWith Parser.program source' = .ok p') (same : p.map forget = p'.map forget)
    {m m' : Machine Span} (machines : m.map forget = m'.map forget) (bound : Nat) :
    (m.run bound source).Alike (m'.run bound source') := by
  have ends := Program.run_forget same machines bound
  simp only [Machine.run, Machine.perform, read, read']
  generalize Exec.program bound p m = out at ends
  generalize Exec.program bound p' m' = out' at ends
  cases out with
  | ok a n =>
      cases out' with
      | ok a' n' =>
          obtain ⟨rfl, machines'⟩ := Outcome.ok.inj ends
          exact .ok machines'
      | error | unfinished => cases ends
  | error located n =>
      cases out' with
      | error located' n' =>
          obtain ⟨faults, machines'⟩ := Outcome.error.inj ends
          obtain ⟨range, fault⟩ := located
          obtain ⟨range', fault'⟩ := located'
          obtain rfl : fault = fault' := congrArg Located.value faults
          exact .failed machines'
      | ok | unfinished => cases ends
  | unfinished =>
      cases out' with
      | unfinished => exact .unfinished
      | ok | error => cases ends

/-- Layout does not change what a source means. If two sources have the same lexemes, either
both are rejected, with the same complaint but for positions and with the same message, or
both are read as the same program but for positions; and then, on machines that are the
same but for positions, runs of the two end alike. -/
theorem layout_does_not_change_meaning {source source' : String}
    {tokens tokens' : List (Token Span)} (lexed : tokenize source = .ok tokens)
    (lexed' : tokenize source' = .ok tokens')
    (same : tokens.map Token.lexeme = tokens'.map Token.lexeme) :
    (∃ complaint complaint', readWith Parser.program source = .error (.grammatical complaint) ∧
      readWith Parser.program source' = .error (.grammatical complaint') ∧
      complaint.map forget = complaint'.map forget ∧
      complaint.message = complaint'.message) ∨
    ∃ p p', readWith Parser.program source = .ok p ∧ readWith Parser.program source' = .ok p' ∧
      p.map forget = p'.map forget ∧
      ∀ (bound : Nat) (m m' : Machine Span), m.map forget = m'.map forget →
        (m.run bound source).Alike (m'.run bound source') := by
  have parsed : (Parser.program (Cursor.ofTokens tokens)).map forget (Program.map forget) =
      (Parser.program (Cursor.ofTokens tokens')).map forget (Program.map forget) := by
    refine (Parser.program_bare tokens).symm.trans ?_
    rw [same]
    exact Parser.program_bare tokens'
  cases reply : Parser.program (Cursor.ofTokens tokens) with
  | ok p next =>
      cases reply' : Parser.program (Cursor.ofTokens tokens') with
      | ok p' next' =>
          rw [reply, reply'] at parsed
          have programs := (Reply.ok.inj parsed).1
          have read := readWith_eq_ok_iff.mpr ⟨tokens, next, lexed, reply⟩
          have read' := readWith_eq_ok_iff.mpr ⟨tokens', next', lexed', reply'⟩
          exact .inr ⟨p, p', read, read', programs, fun bound m m' machines =>
            Machine.run_alike read read' programs machines bound⟩
      | error complaint' next' =>
          rw [reply, reply'] at parsed
          cases parsed
  | error complaint next =>
      cases reply' : Parser.program (Cursor.ofTokens tokens') with
      | ok p' next' =>
          rw [reply, reply'] at parsed
          cases parsed
      | error complaint' next' =>
          rw [reply, reply'] at parsed
          have complaints := (Reply.error.inj parsed).1
          refine .inl ⟨complaint, complaint', ?_, ?_, complaints, ?_⟩
          · simp only [readWith, lexed, reply]
          · simp only [readWith, lexed', reply']
          · rw [← complaint.message_map forget, complaints, Complaint.message_map]

/-- An escape, a comment and a line feed do not change how a run ends. -/
theorem layout_does_not_change_meaning_escaped :
    ∃ tokens tokens', tokenize "\"a\";" = .ok tokens ∧ tokenize "/* */\n\"\\a\" ;" = .ok tokens' ∧
      tokens.map Token.lexeme = tokens'.map Token.lexeme ∧
      ∀ bound, ((Machine.initial none).run bound "\"a\";").Alike
        ((Machine.initial none).run bound "/* */\n\"\\a\" ;") := by
  have reads : (Scanner.ofText "\"a\";".toList).Reads
      [⟨.text "a", ⟨⟨0, 1, 1⟩, ⟨3, 1, 4⟩⟩⟩, ⟨.punctuator .semicolon, ⟨⟨3, 1, 4⟩, ⟨4, 1, 5⟩⟩⟩]
      ⟨[], ⟨4, 1, 5⟩, some ';'⟩ :=
    .token rfl (by decide) (.token rfl (by decide) .done)
  have reads' : (Scanner.ofText "/* */\n\"\\a\" ;".toList).Reads
      [⟨.text "a", ⟨⟨6, 2, 1⟩, ⟨10, 2, 5⟩⟩⟩, ⟨.punctuator .semicolon, ⟨⟨11, 2, 6⟩, ⟨12, 2, 7⟩⟩⟩]
      ⟨[], ⟨12, 2, 7⟩, some ';'⟩ :=
    .token rfl (by decide) (.token rfl (by decide) .done)
  have lexed : tokenize "\"a\";" = .ok _ := reads.tokens_eq (Scanner.tokens_of_end rfl rfl)
  have lexed' : tokenize "/* */\n\"\\a\" ;" = .ok _ :=
    reads'.tokens_eq (Scanner.tokens_of_end rfl rfl)
  refine ⟨_, _, lexed, lexed', rfl, fun bound => ?_⟩
  rcases layout_does_not_change_meaning lexed lexed' rfl with
    ⟨_, _, rejected, -⟩ | ⟨p, p', -, -, -, alike⟩
  · have read : readWith Parser.program "\"a\";" = .ok _ :=
      readWith_eq_ok_iff.mpr ⟨_, _, lexed, rfl⟩
    rw [read] at rejected
    cases rejected
  · exact alike bound _ _ rfl

end Guion
