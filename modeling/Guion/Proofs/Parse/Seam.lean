import Guion.Proofs.Parse.Unfolding

/-!
# Token lists end to end

A program is parsed statement by statement, and a statement ends with a token of its
own. So if two token lists are programs, the second can be put in the place of the end
of the first: what is parsed then is the statements of both. Two things must be shown
about the seam. No statement of the first list looks at what follows it, except that
a condition would go on with an alternative; and no statement of the second looks back
at the token taken last.
-/

namespace Guion.Parser

variable {ρ : Type} {α β : Type}

/-! ### The token taken last -/

/-- What a parser accepts does not depend on the token that was taken before. -/
def Fresh (p : Parser ρ α) : Prop :=
  ∀ c l a next, p c = .ok a next → p { c with last := l } = .ok a next

theorem Fresh.take : Fresh (Parser.take : Parser ρ (Token ρ)) :=
  fun _ _ _ _ h => h

theorem Fresh.bind {p : Parser ρ α} {h : α → Parser ρ β} (hp : Fresh p) : Fresh (p >>= h) := by
  intro c l b next hb
  obtain ⟨a, middle, ha, hb⟩ := bind_eq_ok_iff.mp hb
  exact bind_eq_ok_iff.mpr ⟨a, middle, hp c l a middle ha, hb⟩

theorem Fresh.peek {h : Token ρ → Parser ρ β} (hh : ∀ t, Fresh (h t)) :
    Fresh (Parser.peek >>= h) :=
  fun c l b next hb => hh c.peek c l b next hb

section

variable [Extent ρ]

theorem fresh_binary {operand : Parser ρ (Expr ρ)} (ho : Fresh operand) :
    ∀ tiers, Fresh (binary operand tiers)
  | [] => ho
  | _ :: tighter => (fresh_binary ho tighter).bind

theorem fresh_unit {expression : Parser ρ (Expr ρ)}
    {block : BlockKind → Context → Parser ρ (Block ρ)} : Fresh (unit expression block) := by
  have operators : Fresh (binary (chain expression) tiers) :=
    fresh_binary (Fresh.bind (Fresh.bind .take)) tiers
  refine .peek fun t => ?_
  split
  · exact Fresh.take.bind
  · exact Fresh.take.bind
  · exact operators

theorem fresh_expression : Fresh (expression : Parser ρ (Expr ρ)) := by
  intro c l e next h
  rw [expression_eq] at h ⊢
  exact fresh_unit.bind c l e next h

theorem fresh_conditional {expression : Parser ρ (Expr ρ)} {statement : Parser ρ (Stmt ρ)} :
    Fresh (conditional expression statement) :=
  fun c l choice next h => Fresh.take.bind c l choice next h

theorem fresh_statement : Fresh (statement : Parser ρ (Stmt ρ)) := by
  intro c l s next h
  have simple : Fresh (expressionStatement (expression : Parser ρ (Expr ρ))) :=
    .peek fun _ => fresh_expression.bind
  rw [statement_eq] at h ⊢
  unfold statementStep at h ⊢
  rw [show ({ c with last := l } : Cursor ρ).peek = c.peek from rfl,
    show ({ c with last := l } : Cursor ρ).peekSecond = c.peekSecond from rfl]
  cases hl : c.peek.lexeme with
  | keyword word =>
      rw [hl] at h
      cases word with
      | funcion =>
          dsimp only at h ⊢
          split at h
          · next named =>
            rw [if_pos named]
            exact Fresh.take.bind c l s next h
          · next unnamed =>
            rw [if_neg unnamed]
            exact simple c l s next h
      | si => exact fresh_conditional.bind c l s next h
      | peroSi => cases h
      | sino => cases h
      | hacer | y | o => exact simple c l s next h
      | var | const | devolver | mientras | romper | continuar => exact Fresh.take.bind c l s next h
  | name | number | text | punctuator | endOfFile =>
      rw [hl] at h
      exact simple c l s next h

/-! ### Statements up to the end -/

/-- `Statements c list final`: from `c` on there are the statements `list`, and then, at
`final`, the end. -/
inductive Statements : Cursor ρ → List (Stmt ρ) → Cursor ρ → Prop
  | done {c} : c.peek.lexeme = .endOfFile → Statements c [] c
  | more {c s next list final} : c.peek.lexeme ≠ .endOfFile → statement c = .ok s next →
      Statements next list final → Statements c (s :: list) final

theorem programStep_apply (c : Cursor ρ) :
    programStep c = if c.peek.lexeme = .endOfFile then .ok none c
      else (do let s ← statement; return some s) c := by
  change (if c.peek.lexeme.isEnd then _ else _ : Parser ρ _) c = _
  by_cases hend : c.peek.lexeme = .endOfFile
  · rw [if_pos hend, if_pos (by simp [hend])]
    rfl
  · rw [if_neg hend, if_neg (by simp [hend])]

/-- Parsing a program is finding its statements one after the other. -/
theorem collect_programStep_iff {c final : Cursor ρ} {list : List (Stmt ρ)} :
    collect programStep c = .ok list final ↔ Statements c list final := by
  constructor
  · intro h
    induction hn : c.rest.length using Nat.strongRecOn generalizing c list with
    | ind n ih =>
        subst hn
        rw [collect_eq consumes_programStep] at h
        by_cases hend : c.peek.lexeme = .endOfFile
        · rw [programStep_apply, if_pos hend] at h
          cases h
          exact .done hend
        · cases hstep : programStep c with
          | error complaint next => simp [hstep] at h
          | ok found next =>
              have found_ok := hstep
              rw [programStep_apply, if_neg hend] at hstep
              obtain ⟨s, middle, hs, hfound⟩ := bind_eq_ok_iff.mp hstep
              cases hfound
              simp only [found_ok] at h
              cases hrest : collect programStep next with
              | error complaint final => simp [hrest] at h
              | ok rest final' =>
                  simp only [hrest, Reply.ok.injEq] at h
                  obtain ⟨rfl, rfl⟩ := h
                  have shorter := consumes_programStep c s next found_ok
                  exact .more hend hs (ih next.rest.length shorter hrest rfl)
  · intro h
    induction h with
    | done hend =>
        refine collect_done consumes_programStep ?_
        rw [programStep_apply, if_pos hend]
    | more going hs _ ih =>
        refine collect_found consumes_programStep ?_ ih
        rw [programStep_apply, if_neg going]
        exact bind_eq_ok_iff.mpr ⟨_, _, hs, rfl⟩

/-- The statements of a program are over at its end. -/
theorem Statements.peek_final {c final : Cursor ρ} {list : List (Stmt ρ)}
    (h : Statements c list final) : final.peek.lexeme = .endOfFile := by
  induction h with
  | done hend => exact hend
  | more _ _ _ ih => exact ih

/-- The statements do not depend on the token that was taken before them. -/
theorem Statements.fresh {c final : Cursor ρ} {list : List (Stmt ρ)} (h : Statements c list final)
    (l : ρ) : ∃ final', Statements { c with last := l } list final' := by
  cases h with
  | done hend => exact ⟨_, .done hend⟩
  | more going hs rest => exact ⟨_, .more going (fresh_statement _ l _ _ hs) rest⟩

/-- No statement begins with a word that goes on with a condition. -/
theorem Statements.separate {c final : Cursor ρ} {list : List (Stmt ρ)}
    (h : Statements c list final) : Separate c.peek.lexeme := by
  cases h with
  | done hend =>
      rw [hend]
      decide
  | more _ hs _ =>
      refine Decidable.byContradiction fun going => ?_
      rw [statement_eq] at hs
      unfold statementStep at hs
      rcases eq_or_eq_of_not_separate going with hl | hl
      · rw [hl] at hs
        cases hs
      · rw [hl] at hs
        cases hs

end

/-! ### The seam -/

private theorem dropLast_cons_concat (t stop : Token ρ) (body : List (Token ρ)) :
    (t :: (body ++ [stop])).dropLast = t :: body := by
  rw [← List.cons_append, List.dropLast_concat]

/-- Other tokens in the place of the end. A statement of the tokens before does not look at
them, unless it is a condition and they begin with an alternative. -/
def seam (first : Token ρ) (others : List (Token ρ)) (finish : ρ)
    (separate : Separate first.lexeme) : Motion (id : ρ → ρ) where
  move c := ⟨c.rest.dropLast ++ first :: others, c.last, finish⟩
  Fits c := ∃ body stop, c.rest = body ++ [stop] ∧ stop.lexeme = .endOfFile ∧
    ∀ t ∈ body, t.lexeme ≠ .endOfFile
  least := 2
  length_le := by
    rintro c ⟨body, stop, hrest, -⟩
    simp [hrest]
  fits_advance := by
    rintro ⟨rest, last, final⟩ ⟨body, stop, rfl, hstop, hbody⟩
    cases body with
    | nil =>
        have same : (Cursor.advance ⟨[] ++ [stop], last, final⟩).rest = [] ++ [stop] := by
          simp [Cursor.advance, Cursor.atEnd, Cursor.peek, hstop]
        exact ⟨[], stop, same, hstop, hbody⟩
    | cons t body =>
        have going : t.lexeme.isEnd = false := by
          simpa [Bool.eq_false_iff] using hbody t (by simp)
        refine ⟨body, stop, ?_, hstop, fun t' ht' => hbody t' (by simp [ht'])⟩
        simp [Cursor.advance, Cursor.atEnd, Cursor.peek, going]
  last _ := rfl
  peek := by
    rintro ⟨rest, last, final⟩ ⟨body, stop, rfl, -⟩ hlength
    cases body with
    | nil => simp at hlength
    | cons t body => simp [Cursor.peek, dropLast_cons_concat]
  peekSecond := by
    rintro ⟨rest, last, final⟩ ⟨body, stop, rfl, -⟩ hlength
    match body with
    | [] => simp at hlength
    | [t] => simp at hlength
    | t :: t' :: body => simp [Cursor.peekSecond, dropLast_cons_concat]
  advance := by
    rintro ⟨rest, last, final⟩ ⟨body, stop, rfl, -, hbody⟩ hlength
    cases body with
    | nil => simp at hlength
    | cons t body =>
        have going : t.lexeme.isEnd = false := by
          simpa [Bool.eq_false_iff] using hbody t (by simp)
        simp [Cursor.advance, Cursor.atEnd, Cursor.peek, dropLast_cons_concat, going]
  edge := by
    rintro ⟨rest, last, final⟩ ⟨body, stop, rfl, hstop, hbody⟩ hlength
    cases body with
    | nil =>
        refine ⟨?_, by simpa [Cursor.peek] using separate⟩
        simp [Cursor.peek, hstop, Separate]
    | cons t body => simp at hlength

section

variable [Extent ρ] {first : Token ρ} {others : List (Token ρ)} {finish : ρ}
variable {separate : Separate first.lexeme}

/-- The statements before the seam are parsed as they were, and then those behind it. -/
theorem Statements.append {c final : Cursor ρ} {list more : List (Stmt ρ)}
    (fits : (seam first others finish separate).Fits c) (h : Statements c list final)
    (behind : ∀ l, ∃ final', Statements ⟨first :: others, l, finish⟩ more final') :
    ∃ final', Statements ((seam first others finish separate).move c) (list ++ more) final' := by
  induction h with
  | @done c hend =>
      obtain ⟨body, stop, hrest, -, hbody⟩ := fits
      cases body with
      | nil =>
          obtain ⟨final', h⟩ := behind c.last
          refine ⟨final', ?_⟩
          simpa [seam, hrest] using h
      | cons t body =>
          refine absurd ?_ (hbody t (by simp))
          simpa [Cursor.peek, hrest] using hend
  | @more c s next list final going hs _ ih =>
      have side := closing_statement (M := seam first others finish separate) Extent.respects_id
        c.rest.length c fits (Nat.le_refl _)
      rw [hs, Stmt.map_id] at side
      obtain ⟨fits', cost, moved⟩ := side
      obtain ⟨final', h⟩ := ih fits'
      obtain ⟨body, stop, hrest, -⟩ := fits'
      have left : 1 ≤ next.rest.length := by simp [hrest]
      have enough : 2 ≤ c.rest.length := by
        have : next.rest.length + 1 ≤ c.rest.length := cost
        omega
      have peeked := (seam first others finish separate).peek fits enough
      refine ⟨final', .more ?_ (moved left) h⟩
      rw [peeked, Token.map_lexeme]
      exact going

/-- A program parses to its statements. -/
theorem program_ok_iff {c : Cursor ρ} {list : List (Stmt ρ)} :
    (∃ p next, program c = .ok p next ∧ p.statements = list) ↔
      ∃ final, Statements c list final := by
  constructor
  · rintro ⟨p, next, h, rfl⟩
    obtain ⟨_, _, hfirst, h⟩ := bind_eq_ok_iff.mp h
    cases hfirst
    obtain ⟨list, final, hlist, h⟩ := bind_eq_ok_iff.mp h
    cases h
    exact ⟨_, collect_programStep_iff.mp hlist⟩
  · rintro ⟨final, h⟩
    refine ⟨⟨Extent.through c.peek.range final.peek.range, list⟩, final, ?_, rfl⟩
    refine bind_eq_ok_iff.mpr ⟨c.peek, c, rfl, ?_⟩
    exact bind_eq_ok_iff.mpr ⟨list, final, collect_programStep_iff.mpr h, rfl⟩

/-- If the tokens before their end and the tokens of another program are put end to end,
they are the statements of the one and then those of the other. -/
theorem program_append {body : List (Token ρ)} {stop : Token ρ} {c : Cursor ρ}
    (hbody : ∀ t ∈ body, t.lexeme ≠ .endOfFile) (hstop : stop.lexeme = .endOfFile)
    (hrest : c.rest ≠ []) (hfinish : (Cursor.ofTokens c.rest).finish = c.finish)
    {p₁ p₂ : Program ρ} {next₁ next₂ : Cursor ρ}
    (h₁ : program (Cursor.ofTokens (body ++ [stop])) = .ok p₁ next₁)
    (h₂ : program c = .ok p₂ next₂) :
    ∃ p next, program (Cursor.ofTokens (body ++ c.rest)) = .ok p next ∧
      p.statements = p₁.statements ++ p₂.statements := by
  obtain ⟨final₁, h₁⟩ := program_ok_iff.mp ⟨p₁, next₁, h₁, rfl⟩
  obtain ⟨final₂, h₂⟩ := program_ok_iff.mp ⟨p₂, next₂, h₂, rfl⟩
  obtain ⟨rest, last, finish⟩ := c
  cases rest with
  | nil => exact absurd rfl hrest
  | cons first others =>
      obtain rfl : (Cursor.ofTokens (first :: others)).finish = finish := hfinish
      let M := seam first others (Cursor.ofTokens (first :: others)).finish h₂.separate
      have fits : M.Fits (Cursor.ofTokens (body ++ [stop])) :=
        ⟨body, stop, rfl, hstop, hbody⟩
      have joined : M.move (Cursor.ofTokens (body ++ [stop])) =
          Cursor.ofTokens (body ++ first :: others) := by
        simp [M, seam, Cursor.ofTokens, List.getLast?_append, List.getLast?_cons]
      refine program_ok_iff.mpr ?_
      rw [← joined]
      exact h₁.append fits h₂.fresh

end

end Guion.Parser
