import Guion.Proofs.Parse.Invariants
import Guion.Proofs.Parse.Seam

/-!
# Parsing goes on and comes to an end

A parser may be asked again and again, also behind a complaint, and whatever the tokens are.
Its cursor then only ever goes on, and it stops in front of the first end of the input among
the tokens. That every call comes back is said of its recursions: unfolded as often as there
are tokens, each of them answers what it answers, whatever parser stands where the unfolding
stops. So none of them gets there.
-/

namespace Guion

variable {ρ α : Type}

/-! ### Cursors that go on -/

namespace Cursor

/-- From one cursor on to another: the tokens between them are taken, and none of these is
the end of the input. -/
def Onward (c c' : Cursor ρ) : Prop :=
  ∃ taken, c.rest = taken ++ c'.rest ∧ ∀ t ∈ taken, t.lexeme ≠ .endOfFile

theorem atEnd_iff {c : Cursor ρ} : c.atEnd ↔ c.peek.lexeme = .endOfFile :=
  Lexeme.isEnd_iff

/-- Whether the end is at a cursor can be seen from the tokens that are left. -/
theorem atEnd_congr {c c' : Cursor ρ} (h : c'.rest = c.rest) : c'.atEnd = c.atEnd := by
  show c'.peek.lexeme.isEnd = c.peek.lexeme.isEnd
  rw [peek, peek, h]
  cases c.rest with
  | nil => rfl
  | cons t rest => rfl

namespace Onward

variable {c c' c'' : Cursor ρ}

theorem refl (c : Cursor ρ) : c.Onward c := ⟨[], rfl, by simp⟩

theorem trans (h : c.Onward c') (h' : c'.Onward c'') : c.Onward c'' := by
  obtain ⟨taken, hrest, going⟩ := h
  obtain ⟨more, hrest', going'⟩ := h'
  refine ⟨taken ++ more, ?_, ?_⟩
  · rw [hrest, hrest', List.append_assoc]
  · exact List.forall_mem_append.mpr ⟨going, going'⟩

/-- Taking a token goes on, or stays where the end is. -/
theorem advance (c : Cursor ρ) : c.Onward c.advance := by
  by_cases hend : c.atEnd
  · refine ⟨[], ?_, by simp⟩
    show c.rest = if c.atEnd then c.rest else c.rest.tail
    rw [if_pos hend]
  · rw [atEnd_iff] at hend
    cases hrest : c.rest with
    | nil => exact absurd (peek_eq_end hrest) hend
    | cons t rest =>
        have peeked : c.peek = t := by rw [peek, hrest]; rfl
        refine ⟨[t], ?_, ?_⟩
        · show c.rest = t :: if c.atEnd then c.rest else c.rest.tail
          rw [if_neg (mt atEnd_iff.mp hend), hrest]
          rfl
        · exact List.forall_mem_singleton.mpr (peeked ▸ hend)

/-- The end of the input is not passed. -/
theorem rest_eq (h : c.Onward c') (hend : c.atEnd) : c'.rest = c.rest := by
  obtain ⟨taken, hrest, going⟩ := h
  cases taken with
  | nil => exact hrest.symm
  | cons t taken =>
      have peeked : c.peek = t := by rw [peek, hrest]; rfl
      rw [atEnd_iff, peeked] at hend
      exact absurd hend (going t List.mem_cons_self)

end Onward

end Cursor

namespace Parser

/-! ### Requests -/

/-- What a parser can be asked for. -/
inductive Request where
  | program
  | statement
  | expression

/-- Going on is kept by whatever a parser does. -/
theorem invariant_onward (c : Cursor ρ) : Invariant c.Onward fun _ => True where
  advance h := h.trans (.advance _)
  other _ := trivial
  number _ _ _ := trivial

theorem Upheld.next {I : Cursor ρ → Prop} {J : Complaint ρ → Prop} {reply : Reply ρ α}
    (h : Upheld I J reply) : I reply.next := by
  cases reply with
  | ok a next => exact h
  | error complaint next => exact h.1

variable [Extent ρ]

/-- The cursor behind a request, whether it was met or complained about. -/
def Request.behind (c : Cursor ρ) : Request → Cursor ρ
  | program => (Parser.program c).next
  | statement => (Parser.statement c).next
  | expression => (Parser.expression c).next

/-- The cursor behind some requests, made one after the other. -/
def Request.behindAll (c : Cursor ρ) (requests : List Request) : Cursor ρ :=
  requests.foldl Request.behind c

theorem Request.onward_behind (c : Cursor ρ) (request : Request) :
    c.Onward (request.behind c) := by
  have onward := invariant_onward c
  cases request with
  | program => exact (onward.program c (.refl c)).next
  | statement => exact (onward.statement c (.refl c)).next
  | expression => exact (onward.expression c (.refl c)).next

theorem Request.onward_behindAll (c : Cursor ρ) (requests : List Request) :
    c.Onward (behindAll c requests) := by
  induction requests generalizing c with
  | nil => exact .refl c
  | cons request requests ih => exact (onward_behind c request).trans (ih _)

/-- Where a cursor stands that went on from the first of some tokens. -/
theorem exists_drop {tokens : List (Token ρ)} {c : Cursor ρ}
    (h : (Cursor.ofTokens tokens).Onward c) :
    ∃ k ≤ tokens.length, c.rest = tokens.drop k ∧
      ∀ t ∈ tokens.take k, t.lexeme ≠ .endOfFile := by
  obtain ⟨taken, hrest, going⟩ := h
  change tokens = taken ++ c.rest at hrest
  subst hrest
  refine ⟨taken.length, ?_, ?_, ?_⟩
  · rw [List.length_append]
    exact Nat.le_add_right _ _
  · rw [List.drop_left]
  · rwa [List.take_left]

/-! ### No recursion goes on forever -/

/-- The repetitions of the grammar that extend an expression. -/
inductive Continues : (Expr ρ → Parser ρ (Option (Expr ρ))) → Prop
  | accesses : Continues (postfixStep expression)
  | operators (tier : Lexeme → Option Operator) (tighter : List (Lexeme → Option Operator)) :
      Continues (operatorStep tier (binary (chain expression) tighter))

/-- The repetitions of the grammar that collect a list. -/
inductive Gathers : {α : Type} → Parser ρ (Option α) → Prop
  | arguments : Gathers (separatedStep .rightParen .argument expression)
  | properties : Gathers (separatedStep .rightBrace .property (property expression))
  | parameters : Gathers (separatedStep .rightParen .parameter parameter)
  | block : Gathers (blockStep statement)
  | program : Gathers programStep

theorem Continues.consumes {step : Expr ρ → Parser ρ (Option (Expr ρ))} (h : Continues step)
    (e : Expr ρ) : Consumes (step e) := by
  cases h with
  | accesses => exact consumes_postfixStep e
  | operators tier tighter => exact consumes_operatorStep tier tighter e

theorem Gathers.consumes {step : Parser ρ (Option α)} (h : Gathers step) : Consumes step := by
  have parallel := parallel_expression (Extent.respects_id (ρ := ρ)) (M := .positions id)
  cases h with
  | arguments => exact Parallel.consumes fun i => parallel_separatedStep (parallel i) _ _
  | properties =>
      exact Parallel.consumes fun _ => parallel_separatedStep (parallel_property below_self) _ _
  | parameters =>
      exact Parallel.consumes fun _ =>
        parallel_separatedStep (parallel_parameter (M := .positions id)) _ _
  | block => exact consumes_blockStep
  | program => exact consumes_programStep

/-- At a cursor, no recursion of the parser goes deeper and none of its repetitions goes on
longer than the tokens left allow: what stands there, were it even a parser that never comes
back, makes no difference. -/
structure Terminates (c : Cursor ρ) : Prop where
  nesting : ∀ inner n, depthBound c ≤ n →
    (nest^[n] inner).1 c = expression c ∧ (nest^[n] inner).2 c = statement c
  conditions : ∀ more n, c.rest.length < n →
    (conditionalStep expression statement)^[n] more c = conditional expression statement c
  extending : ∀ {step : Expr ρ → Parser ρ (Option (Expr ρ))}, Continues step →
    ∀ more n e, c.rest.length < n → (extendTurn step)^[n] more e c = extend step e c
  collecting : ∀ {α : Type} {step : Parser ρ (Option α)}, Gathers step →
    ∀ more n, c.rest.length < n → (collectTurn step)^[n] more c = collect step c

theorem terminates (c : Cursor ρ) : Terminates c where
  nesting inner _ hn := nest_iterate_eq inner hn
  conditions more _ hn := conditionalStep_iterate_eq more hn
  extending h more _ e hn := (extend_eq_iterate h.consumes more hn e).symm
  collecting h more _ hn := (collect_eq_iterate h.consumes more hn).symm

/-! ### What requests do -/

variable {c next : Cursor ρ}

theorem length_of_statement {s : Stmt ρ} (h : statement c = .ok s next) :
    next.rest.length < c.rest.length :=
  (closing_statement (M := .positions id) Extent.respects_id c.rest.length).cost trivial
    (Nat.le_refl _) h

theorem length_of_expression {e : Expr ρ} (h : expression c = .ok e next) :
    next.rest.length < c.rest.length :=
  (parallel_expression (M := .positions id) Extent.respects_id c.rest.length).cost trivial
    (Nat.le_refl _) h

theorem atEnd_of_program {p : Program ρ} (h : program c = .ok p next) : next.atEnd := by
  obtain ⟨first, c', hfirst, h⟩ := bind_eq_ok_iff.mp h
  cases hfirst
  obtain ⟨list, final, hlist, h⟩ := bind_eq_ok_iff.mp h
  cases h
  exact Cursor.atEnd_iff.mpr (collect_programStep_iff.mp hlist).peek_final

/-- At the end there is the empty program. -/
theorem program_of_atEnd (hend : c.atEnd) :
    program c = .ok ⟨Extent.through c.peek.range c.peek.range, []⟩ c := by
  have nothing : collect programStep c = .ok [] c :=
    collect_programStep_iff.mpr (.done (Cursor.atEnd_iff.mp hend))
  exact bind_eq_ok_iff.mpr ⟨_, c, rfl, bind_eq_ok_iff.mpr ⟨_, c, nothing, rfl⟩⟩

omit [Extent ρ] in
/-- At the end there is nothing that could pay for a value. -/
theorem exists_complaint {p : Parser ρ α} (onward : c.Onward (p c).next) (hend : c.atEnd)
    (costs : ∀ a next, p c = .ok a next → next.rest.length < c.rest.length) :
    ∃ complaint next, p c = .error complaint next ∧ next.rest = c.rest := by
  have still := onward.rest_eq hend
  cases hp : p c with
  | ok a next =>
      rw [hp] at still
      have shorter := costs a next hp
      change next.rest = c.rest at still
      rw [still] at shorter
      exact absurd shorter (Nat.lt_irrefl _)
  | error complaint next =>
      rw [hp] at still
      exact ⟨complaint, next, rfl, still⟩

/-- Whatever the tokens are and whatever was asked before: every call of the parser comes
back; its cursor goes on, within the tokens and not past an end of input; a statement or an
expression takes a token; and behind a program, or wherever the end is at the cursor, there
are empty programs only and the cursor stays. -/
theorem requests_end_and_go_on (tokens : List (Token ρ)) (past more : List Request) :
    let c := Request.behindAll (.ofTokens tokens) past
    let c' := Request.behindAll c more
    Terminates c ∧
    (∃ k k', k ≤ k' ∧ k' ≤ tokens.length ∧ c.rest = tokens.drop k ∧ c'.rest = tokens.drop k' ∧
      ∀ t ∈ tokens.take k', t.lexeme ≠ .endOfFile) ∧
    (∀ s next, statement c = .ok s next → next.rest.length < c.rest.length) ∧
    (∀ e next, expression c = .ok e next → next.rest.length < c.rest.length) ∧
    (∀ p next, program c = .ok p next → next.atEnd) ∧
    (c.atEnd → (∃ range, program c' = .ok ⟨range, []⟩ c') ∧
      (∃ complaint next, statement c' = .error complaint next ∧ next.rest = c'.rest) ∧
      ∃ complaint next, expression c' = .error complaint next ∧ next.rest = c'.rest) := by
  intro c c'
  have first : (Cursor.ofTokens tokens).Onward c := Request.onward_behindAll _ past
  have second : c.Onward c' := Request.onward_behindAll c more
  refine ⟨terminates c, ?_, fun _ _ => length_of_statement, fun _ _ => length_of_expression,
    fun _ _ => atEnd_of_program, fun hend => ?_⟩
  · obtain ⟨k, hk, hc, -⟩ := exists_drop first
    obtain ⟨k', hk', hc', going⟩ := exists_drop (first.trans second)
    obtain ⟨taken, split, -⟩ := second
    have lengths := congrArg List.length split
    rw [hc, hc', List.length_append, List.length_drop, List.length_drop] at lengths
    exact ⟨k, k', by omega, hk', hc, hc', going⟩
  · have hend' : c'.atEnd := (Cursor.atEnd_congr (second.rest_eq hend)).trans hend
    refine ⟨⟨_, program_of_atEnd hend'⟩, ?_, ?_⟩
    · apply exists_complaint (Request.onward_behind c' .statement) hend'
      exact fun _ _ => length_of_statement
    · apply exists_complaint (Request.onward_behind c' .expression) hend'
      exact fun _ _ => length_of_expression

/-- The first request takes a word that no expression begins with. Behind it stands an end of
input, so the name behind that one is never seen. -/
theorem requests_end_and_go_on_endInside :
    let c := Request.behindAll
      (.ofTokens [⟨.keyword .si, ()⟩, ⟨.endOfFile, ()⟩, ⟨.name "x", ()⟩]) [.expression]
    let c' := Request.behindAll c [.statement]
    c.atEnd ∧ (∃ range, program c' = .ok ⟨range, []⟩ c') ∧
      ∃ complaint next, statement c' = .error complaint next ∧ next.rest = c'.rest := by
  intro c c'
  have ended : c.atEnd := rfl
  have later := requests_end_and_go_on
    [⟨.keyword .si, ()⟩, ⟨.endOfFile, ()⟩, ⟨.name "x", ()⟩] [.expression] [.statement]
  obtain ⟨empty, stays, -⟩ := later.2.2.2.2.2 ended
  exact ⟨ended, empty, stays⟩

end Parser

end Guion
