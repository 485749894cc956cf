import Mathlib.Logic.Function.Iterate
import Guion.Proofs.Parse.Productions

/-!
# The bounds of parsers are never felt

Parsers recurse within bounds that are computed from the tokens left. Here the
bounds are shown to be ample: if a recursion is unfolded often enough, the reply is
the same whatever parser stands where the unfolding stops. A bound puts one there
that complains, so a larger bound gives the same reply. And each recursive parser
satisfies the equation that one would have written without a bound; later proofs use
these equations only.
-/

namespace Guion.Parser

variable {ρ σ : Type} {α β : Type} {f : ρ → σ} {M : Motion f}

/-- At unmoved positions, parsers that go side by side give the same reply. -/
theorem Parallel.eq_of_id {i : Nat} {d : α → Nat} {p q : Parser ρ α}
    (h : Parallel (.positions id) i d id p q) {c : Cursor ρ} (hc : c.rest.length ≤ i) :
    q c = p c := by
  simpa using h.reply hc

/-- What a repetition finds costs a token. -/
def Consumes (step : Parser ρ (Option α)) : Prop :=
  ∀ c a next, step c = .ok (some a) next → next.rest.length < c.rest.length

theorem Parallel.consumes {g : α → β} {step : Parser ρ (Option α)} {step' : Parser σ (Option β)}
    (h : ∀ i, Parallel (.positions f) i used (Option.map g) step step') : Consumes step := by
  intro c a next ha
  exact (h c.rest.length).cost trivial (Nat.le_refl _) ha

/-! ### Repetitions -/

/-- One turn of a repetition that extends a value, given what the turns behind it do. -/
def extendTurn (step : α → Parser ρ (Option α)) (more : α → Parser ρ α) : α → Parser ρ α :=
  fun a c =>
    match step a c with
    | .ok (some longer) next => more longer next
    | .ok none next => .ok a next
    | .error complaint next => .error complaint next

/-- One turn of a repetition that collects values, given what the turns behind it do. -/
def collectTurn (step : Parser ρ (Option α)) (more : Parser ρ (List α)) : Parser ρ (List α) :=
  fun c =>
    match step c with
    | .ok (some a) next =>
      match more next with
      | .ok list final => .ok (a :: list) final
      | .error complaint final => .error complaint final
    | .ok none next => .ok [] next
    | .error complaint next => .error complaint next

/-- What the turns behind a turn do matters only where the turn finds something. -/
theorem extendTurn_congr {step : α → Parser ρ (Option α)} {more more' : α → Parser ρ α} {a : α}
    {c : Cursor ρ} (h : ∀ longer next, step a c = .ok (some longer) next →
      more longer next = more' longer next) :
    extendTurn step more a c = extendTurn step more' a c := by
  unfold extendTurn
  cases hs : step a c with
  | error complaint next => rfl
  | ok found next =>
      cases found with
      | none => rfl
      | some longer => exact h longer next hs

theorem collectTurn_congr {step : Parser ρ (Option α)} {more more' : Parser ρ (List α)}
    {c : Cursor ρ} (h : ∀ a next, step c = .ok (some a) next → more next = more' next) :
    collectTurn step more c = collectTurn step more' c := by
  unfold collectTurn
  cases hs : step c with
  | error complaint next => rfl
  | ok found next =>
      cases found with
      | none => rfl
      | some a =>
          dsimp only
          rw [h a next hs]

theorem extendWithin_eq_iterate (step : α → Parser ρ (Option α)) (n : Nat) :
    extendWithin step n = (extendTurn step)^[n] fun _ => stuck := by
  induction n with
  | zero => rfl
  | succ n ih =>
      rw [Function.iterate_succ_apply', ← ih]
      rfl

theorem collectWithin_eq_iterate (step : Parser ρ (Option α)) (n : Nat) :
    collectWithin step n = (collectTurn step)^[n] stuck := by
  induction n with
  | zero => rfl
  | succ n ih =>
      rw [Function.iterate_succ_apply', ← ih]
      rfl

/-- There is no turn that the tokens left do not pay for. -/
theorem extendTurn_iterate_eq {step : α → Parser ρ (Option α)}
    (hstep : ∀ a, Consumes (step a)) (more more' : α → Parser ρ α) :
    ∀ n n' a c, c.rest.length < n → c.rest.length < n' →
      (extendTurn step)^[n] more a c = (extendTurn step)^[n'] more' a c := by
  intro n
  induction n with
  | zero => intro n' a c hn; exact absurd hn (Nat.not_lt_zero _)
  | succ n ih =>
      intro n' a c hn hn'
      cases n' with
      | zero => exact absurd hn' (Nat.not_lt_zero _)
      | succ n' =>
          rw [Function.iterate_succ_apply', Function.iterate_succ_apply']
          refine extendTurn_congr fun longer next hs => ?_
          have := hstep a c longer next hs
          exact ih n' longer next (by omega) (by omega)

theorem collectTurn_iterate_eq {step : Parser ρ (Option α)} (hstep : Consumes step)
    (more more' : Parser ρ (List α)) :
    ∀ n n' c, c.rest.length < n → c.rest.length < n' →
      (collectTurn step)^[n] more c = (collectTurn step)^[n'] more' c := by
  intro n
  induction n with
  | zero => intro n' c hn; exact absurd hn (Nat.not_lt_zero _)
  | succ n ih =>
      intro n' c hn hn'
      cases n' with
      | zero => exact absurd hn' (Nat.not_lt_zero _)
      | succ n' =>
          rw [Function.iterate_succ_apply', Function.iterate_succ_apply']
          refine collectTurn_congr fun a next hs => ?_
          have := hstep c a next hs
          exact ih n' next (by omega) (by omega)

/-- A repetition is its turns, and what stands behind the last of them is not reached. -/
theorem extend_eq_iterate {step : α → Parser ρ (Option α)} (hstep : ∀ a, Consumes (step a))
    (more : α → Parser ρ α) {n : Nat} {c : Cursor ρ} (hn : c.rest.length < n) (a : α) :
    extend step a c = (extendTurn step)^[n] more a c := by
  change extendWithin step (c.rest.length + 1) a c = _
  rw [extendWithin_eq_iterate]
  exact extendTurn_iterate_eq hstep _ more _ n a c (Nat.lt_succ_self _) hn

theorem collect_eq_iterate {step : Parser ρ (Option α)} (hstep : Consumes step)
    (more : Parser ρ (List α)) {n : Nat} {c : Cursor ρ} (hn : c.rest.length < n) :
    collect step c = (collectTurn step)^[n] more c := by
  change collectWithin step (c.rest.length + 1) c = _
  rw [collectWithin_eq_iterate]
  exact collectTurn_iterate_eq hstep _ more _ n c (Nat.lt_succ_self _) hn

theorem extend_eq {step : α → Parser ρ (Option α)} (hstep : ∀ a, Consumes (step a)) (a : α)
    (c : Cursor ρ) :
    extend step a c = match step a c with
      | .ok (some longer) next => extend step longer next
      | .ok none next => .ok a next
      | .error complaint next => .error complaint next := by
  rw [extend_eq_iterate hstep (extend step) (Nat.lt_succ_self _), Function.iterate_succ_apply']
  refine extendTurn_congr fun longer next hs => ?_
  exact (extend_eq_iterate hstep _ (hstep a c longer next hs) longer).symm

theorem collect_eq {step : Parser ρ (Option α)} (hstep : Consumes step) (c : Cursor ρ) :
    collect step c = match step c with
      | .ok (some a) next =>
        match collect step next with
        | .ok more final => .ok (a :: more) final
        | .error complaint final => .error complaint final
      | .ok none next => .ok [] next
      | .error complaint next => .error complaint next := by
  rw [collect_eq_iterate hstep (collect step) (Nat.lt_succ_self _), Function.iterate_succ_apply']
  refine collectTurn_congr fun a next hs => ?_
  exact (collect_eq_iterate hstep _ (hstep c a next hs)).symm

/-- Once a step finds nothing, a repetition has what it has. -/
theorem extend_done {step : α → Parser ρ (Option α)}
    (hstep : ∀ a, Consumes (step a)) {a : α} {c : Cursor ρ} (h : step a c = .ok none c) :
    extend step a c = .ok a c := by
  rw [extend_eq hstep, h]

theorem extend_found {step : α → Parser ρ (Option α)}
    (hstep : ∀ a, Consumes (step a)) {a b : α} {c next : Cursor ρ}
    (h : step a c = .ok (some b) next) : extend step a c = extend step b next := by
  rw [extend_eq hstep, h]

theorem collect_done {step : Parser ρ (Option α)} (hstep : Consumes step)
    {c next : Cursor ρ} (h : step c = .ok none next) : collect step c = .ok [] next := by
  rw [collect_eq hstep, h]

theorem collect_found {step : Parser ρ (Option α)} (hstep : Consumes step)
    {a : α} {list : List α} {c next final : Cursor ρ} (h : step c = .ok (some a) next)
    (hlist : collect step next = .ok list final) : collect step c = .ok (a :: list) final := by
  rw [collect_eq hstep, h]
  simp only [hlist]

/-! ### Conditions -/

section

variable [Extent ρ] [Extent σ] (hf : Extent.Respects f)
variable {expression : Parser ρ (Expr ρ)} {expression' : Parser σ (Expr σ)}
variable {statement : Parser ρ (Stmt ρ)} {statement' : Parser σ (Stmt σ)}

include hf

/-- Alternatives are chained as often as there are tokens, whatever would go on then. -/
theorem closing_conditionalStep_iterate {i : Nat}
    (he : Below M i (Expr.map f) expression expression')
    (hs : ClosingBelow M i (Stmt.map f) statement statement')
    (more : Parser ρ (Conditional ρ)) (more' : Parser σ (Conditional σ)) :
    ∀ n n', i < n → i < n' → Closing M i (fun _ => 1) (Conditional.map f)
      ((conditionalStep expression statement)^[n] more)
      ((conditionalStep expression' statement')^[n'] more') := by
  induction i using Nat.strongRecOn with
  | ind i ih =>
      intro n n' hn hn'
      cases n with
      | zero => exact absurd hn (Nat.not_lt_zero _)
      | succ n =>
          cases n' with
          | zero => exact absurd hn' (Nat.not_lt_zero _)
          | succ n' =>
              rw [Function.iterate_succ_apply', Function.iterate_succ_apply']
              refine closing_conditionalStep hf he hs fun k hk => ?_
              exact ih k hk (he.mono (Nat.le_of_lt hk)) (hs.mono (Nat.le_of_lt hk)) n n'
                (by omega) (by omega)

omit hf in
theorem conditionalWithin_eq_iterate (expression : Parser ρ (Expr ρ))
    (statement : Parser ρ (Stmt ρ)) (n : Nat) :
    conditionalWithin expression statement n =
      (conditionalStep expression statement)^[n] stuck := by
  induction n with
  | zero => rfl
  | succ n ih =>
      rw [Function.iterate_succ_apply', ← ih]
      rfl

theorem closing_conditional {i : Nat} (he : Below M i (Expr.map f) expression expression')
    (hs : ClosingBelow M i (Stmt.map f) statement statement') :
    Closing M i (fun _ => 1) (Conditional.map f) (conditional expression statement)
      (conditional expression' statement') := by
  intro c fits hc
  have longer := M.length_le fits
  unfold conditional bounded
  rw [conditionalWithin_eq_iterate, conditionalWithin_eq_iterate]
  exact closing_conditionalStep_iterate hf (he.mono hc) (hs.mono hc) _ _ (c.rest.length + 1)
    ((M.move c).rest.length + 1) (Nat.lt_succ_self _) (by omega) c fits (Nat.le_refl _)

/-! ### The knot -/

theorem closing_statementStep {i : Nat}
    (he : Parallel M i (fun _ => 1) (Expr.map f) expression expression')
    (hs : ClosingBelow M i (Stmt.map f) statement statement') :
    Closing M i (fun _ => 1) (Stmt.map f) (statementStep expression statement)
      (statementStep expression' statement') := by
  intro c fits hc
  have below : Below M i (Expr.map f) expression expression' :=
    fun k hk => he.fewer (Nat.le_of_lt hk)
  have seen (left : M.least ≤ c.rest.length) : (M.move c).peek.lexeme = c.peek.lexeme := by
    rw [M.peek fits left, Token.map_lexeme]
  -- whatever the first token tells to parse takes it, and so it is the same once moved
  have turn {p : Parser ρ (Stmt ρ)} {p' : Parser σ (Stmt σ)}
      (hp : Closing M i (fun _ => 1) (Stmt.map f) p p')
      (hc' : (M.move c).peek.lexeme = c.peek.lexeme →
        statementStep expression' statement' (M.move c) = p' (M.move c)) :
      Follows M (M.least - 1) (fun _ => 1) (Stmt.map f) c
        (statementStep expression' statement' (M.move c)) (p c) :=
    (hp c fits hc).later (fun _ => Nat.le_refl _) (Nat.le_refl _) (fun _ => by omega)
      fun left => hc' (seen left)
  have simple := (closing_expressionStatement hf he).mono (e := fun _ => 1) (Nat.le_refl _)
    (fun _ => Nat.le_succ _) (Nat.le_refl _)
  unfold statementStep at turn ⊢
  cases hl : c.peek.lexeme with
  | keyword word =>
      cases word with
      | var => exact turn (closing_declaration hf below .var) fun h => by rw [h, hl]
      | const => exact turn (closing_declaration hf below .const) fun h => by rw [h, hl]
      | funcion =>
          -- a second token is looked at, and both ways to go on take two
          have second (left : M.least ≤ c.rest.length - 1) :
              (M.move c).peekSecond.asName?.isSome = c.peekSecond.asName?.isSome := by
            rw [M.peekSecond fits left, Token.asName?_map, Option.isSome_map]
          dsimp only
          by_cases named : c.peekSecond.asName?.isSome
          · rw [if_pos named]
            refine (closing_functionDeclaration hf hs c fits hc).given
              (P := M.least ≤ c.rest.length - 1) (fun _ => Nat.le_succ _) (fun exact => by omega)
              (fun _ left => by omega) fun left => ?_
            rw [seen (by omega), hl, if_pos ((second left).trans named)]
          · rw [if_neg named]
            refine (closing_expressionStatement hf he c fits hc).given
              (P := M.least ≤ c.rest.length - 1) (fun _ => Nat.le_succ _) (fun exact => by omega)
              (fun _ left => by omega) fun left => ?_
            rw [seen (by omega), hl, if_neg (by rwa [second left])]
      | devolver => exact turn (closing_giveBack hf he) fun h => by rw [h, hl]
      | si =>
          have choice : Closing M i (fun _ => 1) (Stmt.map f)
              (conditionalStatement expression statement)
              (conditionalStatement expression' statement') :=
            .seq (closing_conditional hf below hs) fun choice => .pure (by simp [Stmt.map]) rfl
          exact turn choice fun h => by rw [h, hl]
      | peroSi =>
          intro exact
          rw [seen (by omega), hl, M.peek fits (by omega)]
          rfl
      | sino =>
          intro exact
          rw [seen (by omega), hl, M.peek fits (by omega)]
          rfl
      | mientras => exact turn (closing_loop hf below hs) fun h => by rw [h, hl]
      | romper => exact turn (closing_control hf fun _ => rfl) fun h => by rw [h, hl]
      | continuar => exact turn (closing_control hf fun _ => rfl) fun h => by rw [h, hl]
      | hacer => exact turn simple fun h => by rw [h, hl]
      | y => exact turn simple fun h => by rw [h, hl]
      | o => exact turn simple fun h => by rw [h, hl]
  | name => exact turn simple fun h => by rw [h, hl]
  | number => exact turn simple fun h => by rw [h, hl]
  | text => exact turn simple fun h => by rw [h, hl]
  | punctuator => exact turn simple fun h => by rw [h, hl]
  | endOfFile => exact turn simple fun h => by rw [h, hl]

omit [Extent σ] hf in
/-- One level of nesting: how expressions and statements are parsed, given how those inside
them are. -/
def nest (inner : Parser ρ (Expr ρ) × Parser ρ (Stmt ρ)) :
    Parser ρ (Expr ρ) × Parser ρ (Stmt ρ) :=
  (expressionStep inner.1 (block inner.2), statementStep inner.1 inner.2)

/-- Expressions and statements nest as deep as the tokens allow, whatever would be done
deeper inside. A statement needs one level more than an expression, since it may begin with
one. -/
theorem along_nest_iterate (inner : Parser ρ (Expr ρ) × Parser ρ (Stmt ρ))
    (inner' : Parser σ (Expr σ) × Parser σ (Stmt σ)) (i : Nat) :
    (∀ n n', 2 * i + 1 ≤ n → 2 * i + 1 ≤ n' → Parallel M i (fun _ => 1) (Expr.map f)
      (nest^[n] inner).1 (nest^[n'] inner').1) ∧
    (∀ n n', 2 * i + 2 ≤ n → 2 * i + 2 ≤ n' → Closing M i (fun _ => 1) (Stmt.map f)
      (nest^[n] inner).2 (nest^[n'] inner').2) := by
  induction i using Nat.strongRecOn with
  | ind i ih =>
      have expressions : ∀ n n', 2 * i + 1 ≤ n → 2 * i + 1 ≤ n' → Parallel M i (fun _ => 1)
          (Expr.map f) (nest^[n] inner).1 (nest^[n'] inner').1 := by
        intro n n' hn hn'
        obtain ⟨n, rfl⟩ : ∃ k, n = k + 1 := ⟨n - 1, by omega⟩
        obtain ⟨n', rfl⟩ : ∃ k, n' = k + 1 := ⟨n' - 1, by omega⟩
        rw [Function.iterate_succ_apply', Function.iterate_succ_apply']
        refine parallel_expressionStep hf (fun k hk => (ih k hk).1 n n' (by omega) (by omega))
          fun kind before k hk => (closing_block hf (fun j hj => ?_) kind before).strict
        exact (ih j (by omega)).2 n n' (by omega) (by omega)
      refine ⟨expressions, fun n n' hn hn' => ?_⟩
      obtain ⟨n, rfl⟩ : ∃ k, n = k + 1 := ⟨n - 1, by omega⟩
      obtain ⟨n', rfl⟩ : ∃ k, n' = k + 1 := ⟨n' - 1, by omega⟩
      rw [Function.iterate_succ_apply', Function.iterate_succ_apply']
      refine closing_statementStep hf (expressions n n' (by omega) (by omega)) fun k hk => ?_
      exact (ih k hk).2 n n' (by omega) (by omega)

omit [Extent σ] hf in
theorem within_eq_iterate (n : Nat) :
    ((expressionWithin n, statementWithin n) : Parser ρ (Expr ρ) × Parser ρ (Stmt ρ)) =
      nest^[n] (stuck, stuck) := by
  induction n with
  | zero => rfl
  | succ n ih =>
      rw [Function.iterate_succ_apply', ← ih]
      rfl

/-- Any two bounds will do that the tokens cannot exceed. -/
theorem along_within (i : Nat) :
    (∀ n n', 2 * i + 1 ≤ n → 2 * i + 1 ≤ n' → Parallel M i (fun _ => 1) (Expr.map f)
      (expressionWithin n) (expressionWithin n')) ∧
    (∀ n n', 2 * i + 2 ≤ n → 2 * i + 2 ≤ n' → Closing M i (fun _ => 1) (Stmt.map f)
      (statementWithin n) (statementWithin n')) := by
  have within {τ : Type} [Extent τ] (n : Nat) := within_eq_iterate (ρ := τ) n
  have nested := along_nest_iterate (M := M) hf (stuck, stuck) (stuck, stuck) i
  simp only [← within] at nested
  exact nested

end

section

variable [Extent ρ] [Extent σ]

theorem parallel_expression (hf : Extent.Respects f) (i : Nat) :
    Parallel M i (fun _ => 1) (Expr.map f) (expression : Parser ρ _) (expression : Parser σ _) := by
  intro c fits _
  have longer := M.length_le fits
  exact (along_within hf c.rest.length).1 (depthBound c) (depthBound (M.move c))
    (by simp only [depthBound]; omega) (by simp only [depthBound]; omega) c fits (Nat.le_refl _)

theorem closing_statement (hf : Extent.Respects f) (i : Nat) :
    Closing M i (fun _ => 1) (Stmt.map f) (statement : Parser ρ _) (statement : Parser σ _) := by
  intro c fits _
  have longer := M.length_le fits
  exact (along_within hf c.rest.length).2 (depthBound c) (depthBound (M.move c))
    (by simp only [depthBound]; omega) (by simp only [depthBound]; omega) c fits (Nat.le_refl _)

theorem parallel_programStep (hf : Extent.Respects f) (i : Nat) :
    Parallel M i used (Option.map (Stmt.map f)) (programStep : Parser ρ _)
      (programStep : Parser σ _) := by
  refine .peek fun t => .of_parallel ?_
  rw [Token.map_lexeme]
  split
  · exact .pure rfl rfl
  · exact .first (closing_statement hf i).strict fun s k _ => .pure rfl rfl

/-- Where the tokens stand has no influence on the program that they make up. -/
theorem parallel_program (hf : Extent.Respects f) (i : Nat) :
    Parallel M i (fun _ => 0) (Program.map f) (program : Parser ρ _) (program : Parser σ _) := by
  refine .peek fun start => .of_parallel ?_
  refine .seq (.collect (Nat.le_refl _) (parallel_programStep hf i)) fun list => ?_
  refine .peek fun final => .of_parallel (.pure ?_ rfl)
  simp [Program.map, hf.through]

/-! ### Equations without bounds -/

/-- Within a bound that the tokens left cannot exceed, a parser does what it does
within its own bound. -/
theorem expressionWithin_eq {n : Nat} {c : Cursor ρ} (hn : 2 * c.rest.length + 1 ≤ n) :
    expressionWithin n c = expression c := by
  have side := (along_within (M := .positions id) (Extent.respects_id (ρ := ρ))
    c.rest.length).1 (depthBound c) n (Nat.le_succ _) hn
  rw [Expr.map_id] at side
  exact side.eq_of_id (Nat.le_refl _)

theorem statementWithin_eq {n : Nat} {c : Cursor ρ} (hn : 2 * c.rest.length + 2 ≤ n) :
    statementWithin n c = statement c := by
  have side := (along_within (M := .positions id) (Extent.respects_id (ρ := ρ))
    c.rest.length).2 (depthBound c) n (Nat.le_refl _) hn
  rw [Stmt.map_id] at side
  exact side.strict.eq_of_id (Nat.le_refl _)

/-- Whatever would be done deeper inside than the tokens allow is not done. -/
theorem nest_iterate_eq (inner : Parser ρ (Expr ρ) × Parser ρ (Stmt ρ)) {n : Nat} {c : Cursor ρ}
    (hn : depthBound c ≤ n) :
    (nest^[n] inner).1 c = expression c ∧ (nest^[n] inner).2 c = statement c := by
  have side := along_nest_iterate (M := .positions id) (Extent.respects_id (ρ := ρ))
    (stuck, stuck) inner c.rest.length
  simp only [Expr.map_id, Stmt.map_id, ← within_eq_iterate] at side
  constructor
  · exact (side.1 (depthBound c) n (Nat.le_succ _) (by unfold depthBound at hn; omega)).eq_of_id
      (Nat.le_refl _)
  · exact (side.2 (depthBound c) n (Nat.le_refl _) hn).strict.eq_of_id (Nat.le_refl _)

/-- Whatever would go on behind more alternatives than there are tokens is not reached. -/
theorem conditionalStep_iterate_eq (more : Parser ρ (Conditional ρ)) {n : Nat} {c : Cursor ρ}
    (hn : c.rest.length < n) :
    (conditionalStep expression statement)^[n] more c = conditional expression statement c := by
  have hid := Extent.respects_id (ρ := ρ)
  have side := closing_conditionalStep_iterate hid (M := .positions id) (i := c.rest.length)
    (fun k _ => parallel_expression hid k) (fun k _ => closing_statement hid k) stuck more
    (c.rest.length + 1) n (Nat.lt_succ_self _) hn
  rw [Conditional.map_id, ← conditionalWithin_eq_iterate] at side
  exact side.strict.eq_of_id (Nat.le_refl _)

/-- Parsers that agree with expressions on shorter cursors go side by side with them
there. -/
theorem below_expression {i : Nat} {p : Parser ρ (Expr ρ)}
    (h : ∀ c : Cursor ρ, c.rest.length < i → p c = expression c) :
    Below (.positions id) i (Expr.map id) p expression := by
  intro k hk c fits hc
  rw [h c (by omega)]
  exact parallel_expression Extent.respects_id k c fits hc

theorem below_statement {i : Nat} {p : Parser ρ (Stmt ρ)}
    (h : ∀ c : Cursor ρ, c.rest.length < i → p c = statement c) :
    ClosingBelow (.positions id) i (Stmt.map id) p statement := by
  intro k hk c fits hc
  rw [h c (by omega)]
  exact closing_statement Extent.respects_id k c fits hc

theorem expression_eq (c : Cursor ρ) :
    expression c = expressionStep expression (block statement) c := by
  have he : Below (.positions id) c.rest.length (Expr.map id)
      (expressionWithin (2 * c.rest.length + 1) : Parser ρ (Expr ρ)) expression :=
    below_expression fun c' hc' => expressionWithin_eq (by omega)
  have hs : ClosingBelow (.positions id) c.rest.length (Stmt.map id)
      (statementWithin (2 * c.rest.length + 1) : Parser ρ (Stmt ρ)) statement :=
    below_statement fun c' hc' => statementWithin_eq (by omega)
  have side := parallel_expressionStep Extent.respects_id he fun kind before k hk =>
    (closing_block Extent.respects_id (hs.mono (Nat.le_of_lt hk)) kind before).strict
  rw [Expr.map_id] at side
  exact (side.eq_of_id (Nat.le_refl _)).symm

theorem statement_eq (c : Cursor ρ) :
    statement c = statementStep expression statement c := by
  have he : Parallel (.positions id) c.rest.length (fun _ => 1) (Expr.map id)
      (expressionWithin (2 * c.rest.length + 1) : Parser ρ (Expr ρ)) expression :=
    below_expression (i := c.rest.length + 1) (fun c' hc' => expressionWithin_eq (by omega)) _
      (Nat.lt_succ_self _)
  have hs : ClosingBelow (.positions id) c.rest.length (Stmt.map id)
      (statementWithin (2 * c.rest.length + 1) : Parser ρ (Stmt ρ)) statement :=
    below_statement fun c' hc' => statementWithin_eq (by omega)
  have side := closing_statementStep Extent.respects_id he hs
  rw [Stmt.map_id] at side
  exact (side.strict.eq_of_id (Nat.le_refl _)).symm

theorem conditional_eq (c : Cursor ρ) :
    conditional expression statement c =
      conditionalStep expression statement (conditional expression statement) c := by
  have hid := Extent.respects_id (ρ := ρ)
  have he (i : Nat) : Below (.positions id) i (Expr.map id) (expression : Parser ρ _) expression :=
    fun k _ => parallel_expression hid k
  have hs (i : Nat) :
      ClosingBelow (.positions id) i (Stmt.map id) (statement : Parser ρ _) statement :=
    fun k _ => closing_statement hid k
  have chained : ClosingBelow (.positions id) c.rest.length (Conditional.map id)
      (conditionalWithin expression statement c.rest.length : Parser ρ _)
      (conditional expression statement) := by
    intro k hk c' fits hc'
    have longer := (Motion.positions id).length_le fits
    unfold conditional bounded
    rw [conditionalWithin_eq_iterate, conditionalWithin_eq_iterate]
    exact closing_conditionalStep_iterate hid (he _) (hs _) _ _ c.rest.length _ (by omega)
      (by omega) c' fits (Nat.le_refl _)
  have side := closing_conditionalStep hid (he _) (hs _) chained
  rw [Conditional.map_id] at side
  exact (side.strict.eq_of_id (Nat.le_refl _)).symm

/-! ### What repetitions cost -/

theorem below_self {i : Nat} :
    Below (.positions id) i (Expr.map id) (expression : Parser ρ _) expression :=
  fun k _ => parallel_expression Extent.respects_id k

theorem consumes_postfixStep (e : Expr ρ) : Consumes (postfixStep expression e) :=
  Parallel.consumes fun _ => parallel_postfixStep Extent.respects_id below_self e

theorem consumes_operatorStep (tier : Lexeme → Option Operator)
    (tighter : List (Lexeme → Option Operator)) (e : Expr ρ) :
    Consumes (operatorStep tier (binary (chain expression) tighter) e) :=
  Parallel.consumes fun _ => parallel_operatorStep Extent.respects_id tier
    (parallel_binary Extent.respects_id (parallel_chain Extent.respects_id below_self) tighter) e

theorem consumes_programStep : Consumes (programStep : Parser ρ (Option (Stmt ρ))) :=
  Parallel.consumes (g := Stmt.map id) fun i => parallel_programStep Extent.respects_id i

theorem consumes_blockStep : Consumes (blockStep (statement : Parser ρ _)) :=
  Parallel.consumes fun i => (closing_blockStep (closing_statement Extent.respects_id i)).mono
    (Nat.le_refl _) (fun found => by cases found <;> simp [uses]) (Nat.le_refl _)

end

end Guion.Parser
