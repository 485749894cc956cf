import Guion.Proofs.Parse.Parallel

/-!
# Every production goes side by side with itself

One lemma for each production. What a production calls is assumed to go side by
side on fewer tokens; the production then does so itself, and costs a token.
-/

namespace Guion.Parser

variable {ρ σ : Type} {α β : Type} {f : ρ → σ} {M : Motion f} {i : Nat}

/-- Side by side on fewer than `i` tokens, at the cost of one. -/
def Below (M : Motion f) (i : Nat) (g : α → β) (p : Parser ρ α) (q : Parser σ β) : Prop :=
  ∀ k < i, Parallel M k (fun _ => 1) g p q

/-- The same about parsers that end with a token of their own. -/
def ClosingBelow (M : Motion f) (i : Nat) (g : α → β) (p : Parser ρ α) (q : Parser σ β) : Prop :=
  ∀ k < i, Closing M k (fun _ => 1) g p q

theorem Below.mono {g : α → β} {p : Parser ρ α} {q : Parser σ β} {k : Nat}
    (h : Below M i g p q) (hk : k ≤ i) : Below M k g p q :=
  fun j hj => h j (Nat.lt_of_lt_of_le hj hk)

theorem ClosingBelow.mono {g : α → β} {p : Parser ρ α} {q : Parser σ β} {k : Nat}
    (h : ClosingBelow M i g p q) (hk : k ≤ i) : ClosingBelow M k g p q :=
  fun j hj => h j (Nat.lt_of_lt_of_le hj hk)

/-! ### Parts of productions -/

theorem parallel_comma (close : Punctuator) (context : Context) :
    Parallel M i (fun _ => 0) id (comma close context : Parser ρ Unit)
      (comma close context : Parser σ Unit) := by
  refine .sees fun b => ?_
  cases b with
  | true => exact .pure rfl rfl
  | false => exact .expect (fun _ => rfl) fun _ k _ => .pure rfl rfl

theorem parallel_separatedStep {g : α → β} {item : Parser ρ α} {item' : Parser σ β}
    (hi : Parallel M i (fun _ => 1) g item item') (close : Punctuator) (context : Context) :
    Parallel M i used (Option.map g) (separatedStep close context item)
      (separatedStep close context item') := by
  refine .sees fun b => ?_
  cases b with
  | true => exact .pure rfl rfl
  | false =>
      refine .first hi fun a k _ => ?_
      exact .seq (parallel_comma close context) fun _ => .pure rfl rfl

theorem parallel_separated {g : α → β} {item : Parser ρ α} {item' : Parser σ β}
    (hi : Parallel M i (fun _ => 1) g item item') (close : Punctuator) (context : Context) :
    Parallel M i (fun _ => 0) (List.map g) (separated close context item)
      (separated close context item') :=
  .collect (Nat.le_refl _) (parallel_separatedStep hi close context)

section Parts

variable {expression : Parser ρ (Expr ρ)} {expression' : Parser σ (Expr σ)}
variable {statement : Parser ρ (Stmt ρ)} {statement' : Parser σ (Stmt σ)}

theorem parallel_property (he : Below M i (Expr.map f) expression expression') :
    Parallel M i (fun _ => 1) (Property.map f) (property expression) (property expression') := by
  refine .name fun key k hk => .accept ?_ fun j hj => ?_
  · exact .pure rfl rfl
  · exact .seq (he j (by omega)) fun value => .pure rfl rfl

theorem parallel_parameter :
    Parallel M i (fun _ => 1) (Parameter.map f) (parameter : Parser ρ _)
      (parameter : Parser σ _) := by
  refine .name fun n j _ => .expect (fun _ => rfl) fun _ j' _ => .name fun t j'' _ => ?_
  exact .pure rfl rfl

theorem parallel_parameters (before : Context) :
    Parallel M i (fun _ => 1) (List.map (Parameter.map f)) (parameters before : Parser ρ _)
      (parameters before : Parser σ _) := by
  refine .expect (fun _ => rfl) fun _ _ _ => ?_
  refine .seq (parallel_separated parallel_parameter _ _) fun list => ?_
  exact .expect (fun _ => rfl) fun _ j _ => .pure rfl rfl

theorem parallel_ascription (context : Context) :
    Parallel M i (fun _ => 0) (Option.map (Located.map f)) (ascription context : Parser ρ _)
      (ascription context : Parser σ _) := by
  refine .accept (.pure rfl rfl) fun _ _ => .name fun n j _ => .pure rfl rfl

theorem parallel_returnType :
    Parallel M i (fun _ => 1) (Located.map f) (returnType : Parser ρ _)
      (returnType : Parser σ _) := by
  refine .expect (fun _ => rfl) fun _ k _ => ?_
  refine .take (fun r => .fail rfl) fun t j _ => ?_
  rw [Token.asName?_map]
  cases t.asName? with
  | some n => exact .pure rfl rfl
  | none => exact .fail rfl

theorem closing_semicolon :
    Closing M i (fun _ => 1) id (semicolon : Parser ρ Unit) (semicolon : Parser σ Unit) :=
  .seq (.expect fun _ => rfl) fun _ => .pure rfl rfl

theorem closing_blockStep (hs : Closing M i (fun _ => 1) (Stmt.map f) statement statement') :
    Closing M i (fun _ => 1) (Option.map (Stmt.map f)) (blockStep statement)
      (blockStep statement') := by
  have found : Closing M i (fun _ => 1) (Option.map (Stmt.map f))
      (do let s ← statement; return some s) (do let s ← statement'; return some s) :=
    .seq hs fun s => .pure rfl rfl
  refine .peek fun t => ?_
  rw [Token.map_lexeme]
  cases hl : t.lexeme with
  | punctuator mark =>
      by_cases hbrace : mark = .rightBrace
      · subst hbrace
        exact .take (by omega) (by simp [hl]) fun k _ => .pure rfl rfl
      · cases mark <;> first | contradiction | exact .of_along found
  | endOfFile => exact .of_along (.fail rfl)
  | keyword => exact .of_along found
  | name => exact .of_along found
  | number => exact .of_along found
  | text => exact .of_along found

theorem parallel_initial (he : Parallel M i (fun _ => 1) (Expr.map f) expression expression')
    (kind : VariableKind) (declared : Located ρ String) (type : Option (Located ρ String)) :
    Parallel M i (fun _ => 0) (Option.map (Expr.map f)) (initial expression kind declared type)
      (initial expression' kind (declared.map f) (type.map (Located.map f))) := by
  refine .accept ?_ fun k hk => ?_
  · cases kind with
    | const => exact .fail rfl
    | var =>
        cases type with
        | none => exact .fail rfl
        | some _ => exact .pure rfl rfl
  · refine .seq (he.fewer (Nat.le_of_lt hk)) fun value => ?_
    exact .pure rfl rfl

end Parts

section Expressions

variable [Extent ρ] [Extent σ] (hf : Extent.Respects f)
variable {expression : Parser ρ (Expr ρ)} {expression' : Parser σ (Expr σ)}
variable {block : BlockKind → Context → Parser ρ (Block ρ)}
variable {block' : BlockKind → Context → Parser σ (Block σ)}

include hf

/-! ### Expressions -/

theorem parallel_primary (he : Below M i (Expr.map f) expression expression') :
    Parallel M i (fun _ => 1) (Expr.map f) (primary expression) (primary expression') := by
  refine .take (fun r => .fail rfl) fun t k hk => ?_
  simp only [Token.asName?_map, Token.map_lexeme, Token.map_range]
  cases t.asName? with
  | some name => exact .pure rfl rfl
  | none =>
      cases t.lexeme with
      | number literal =>
          simp only [Option.map_none]
          cases Number.read? literal.toList with
          | some x => exact .pure rfl rfl
          | none => exact .fail rfl
      | text contents => exact .pure rfl rfl
      | punctuator mark =>
          by_cases hm : mark = .leftParen
          · subst hm
            refine .seq (he k hk) fun inner => .expect (fun _ => rfl) fun close j _ => ?_
            exact .pure (by rw [Expr.map_withRange, hf.through]) rfl
          · cases mark <;> first | contradiction | exact .fail rfl
      | keyword => exact .fail rfl
      | name => exact .fail rfl
      | endOfFile => exact .fail rfl

theorem parallel_postfixStep (he : Below M i (Expr.map f) expression expression')
    (base : Expr ρ) :
    Parallel M i used (Option.map (Expr.map f)) (postfixStep expression base)
      (postfixStep expression' (base.map f)) := by
  refine .peek fun t => ?_
  simp only [Token.map_lexeme, Token.map_range, Expr.range_map]
  cases hl : t.lexeme with
  | punctuator mark =>
      have going : t.lexeme ≠ .endOfFile := by simp [hl]
      by_cases hcall : mark = .leftParen
      · subst hcall
        refine .take going fun k hk => .seq (parallel_separated (he k hk) _ _) fun list => ?_
        refine .expect (fun _ => rfl) fun close j _ => .pure ?_ rfl
        simp [Expr.map, hf.through]
      by_cases hmember : mark = .period
      · subst hmember
        refine .take going fun k hk => .name fun n j _ => .pure ?_ rfl
        simp [Expr.map, hf.through]
      by_cases hkey : mark = .leftBracket
      · subst hkey
        refine .take going fun k hk => .seq (he k hk) fun key => ?_
        refine .expect (fun _ => rfl) fun close j _ => .pure ?_ rfl
        simp [Expr.map, hf.through]
      cases mark <;> first | contradiction | exact .of_parallel (.pure rfl rfl)
  | keyword => exact .of_parallel (.pure rfl rfl)
  | name => exact .of_parallel (.pure rfl rfl)
  | number => exact .of_parallel (.pure rfl rfl)
  | text => exact .of_parallel (.pure rfl rfl)
  | endOfFile => exact .of_parallel (.pure rfl rfl)

theorem parallel_chain (he : Below M i (Expr.map f) expression expression') :
    Parallel M i (fun _ => 1) (Expr.map f) (chain expression) (chain expression') := by
  refine .first (parallel_primary hf he) fun base k hk => ?_
  exact .extend (parallel_postfixStep hf (he.mono (Nat.le_of_lt hk))) base

theorem parallel_operatorStep (tier : Lexeme → Option Operator) {operand : Parser ρ (Expr ρ)}
    {operand' : Parser σ (Expr σ)} (ho : Parallel M i (fun _ => 1) (Expr.map f) operand operand')
    (lhs : Expr ρ) :
    Parallel M i used (Option.map (Expr.map f)) (operatorStep tier operand lhs)
      (operatorStep tier operand' (lhs.map f)) := by
  refine .peek fun t => .of_parallel ?_
  simp only [Token.map_lexeme, Token.map_range]
  cases tier t.lexeme with
  | none => exact .pure rfl rfl
  | some operator =>
      have made (rhs : Expr ρ) :
          Expr.binary (Extent.through (lhs.map f).range (rhs.map f).range)
              ⟨f t.range, operator⟩ (lhs.map f) (rhs.map f) =
            (Expr.binary (Extent.through lhs.range rhs.range) ⟨t.range, operator⟩ lhs rhs).map
              f := by
        simp [Expr.map, hf.through]
      refine .take (fun _ => .first ho fun rhs k _ => ?_) fun _ k hk =>
        .seq (ho.fewer (Nat.le_of_lt hk)) fun rhs => ?_
      · exact .pure (congrArg some (made rhs)) rfl
      · exact .pure (congrArg some (made rhs)) rfl

theorem parallel_binary {operand : Parser ρ (Expr ρ)} {operand' : Parser σ (Expr σ)}
    (ho : Parallel M i (fun _ => 1) (Expr.map f) operand operand') :
    ∀ tiers, Parallel M i (fun _ => 1) (Expr.map f) (binary operand tiers) (binary operand' tiers)
  | [] => ho
  | tier :: tighter => by
    have tight := parallel_binary ho tighter
    refine .first tight fun lhs k hk => ?_
    exact .extend (parallel_operatorStep hf tier
      (tight.fewer (Nat.le_of_lt hk))) lhs

theorem parallel_functionLiteral
    (hb : ∀ kind before, Below M i (Block.map f) (block kind before) (block' kind before)) :
    Parallel M i (fun _ => 1) (Expr.map f) (functionLiteral block) (functionLiteral block') := by
  refine .takeAny fun keyword => .first (parallel_parameters _) fun list k hk => ?_
  refine .seq (parallel_ascription _) fun type => .seq (hb _ _ k hk) fun body => ?_
  refine .last fun final => .pure ?_ rfl
  simp [Expr.map, Function.map, hf.through]

theorem parallel_object (he : Below M i (Expr.map f) expression expression') {t : Token ρ}
    (ht : t.lexeme ≠ .endOfFile) :
    ParallelAt M i t (fun _ => 1) (Expr.map f) (object expression) (object expression') := by
  refine .take ht fun k hk => ?_
  have items := parallel_property (he.mono (Nat.le_of_lt hk))
  refine .seq (parallel_separated items _ _) fun list => .takeAny fun closing => .pure ?_ rfl
  simp [Expr.map, hf.through]

theorem parallel_unit (he : Below M i (Expr.map f) expression expression')
    (hb : ∀ kind before, Below M i (Block.map f) (block kind before) (block' kind before)) :
    Parallel M i (fun _ => 1) (Expr.map f) (unit expression block) (unit expression' block') := by
  have operators := parallel_binary hf (parallel_chain hf he) tiers
  refine .peek fun t => ?_
  rw [Token.map_lexeme]
  cases hl : t.lexeme with
  | punctuator mark =>
      by_cases hbrace : mark = .leftBrace
      · subst hbrace
        exact parallel_object hf he (by simp [hl])
      · cases mark <;> first | contradiction | exact .of_parallel operators
  | keyword word =>
      by_cases hfun : word = .funcion
      · subst hfun
        exact .of_parallel (parallel_functionLiteral hf hb)
      · cases word <;> first | contradiction | exact .of_parallel operators
  | name => exact .of_parallel operators
  | number => exact .of_parallel operators
  | text => exact .of_parallel operators
  | endOfFile => exact .of_parallel operators

theorem parallel_expressionStep (he : Below M i (Expr.map f) expression expression')
    (hb : ∀ kind before, Below M i (Block.map f) (block kind before) (block' kind before)) :
    Parallel M i (fun _ => 1) (Expr.map f) (expressionStep expression block)
      (expressionStep expression' block') := by
  refine .first (parallel_unit hf he hb) fun target k hk => .sees fun assigned => ?_
  cases assigned with
  | false => exact .pure rfl rfl
  | true =>
      refine .takeAny fun equals => ?_
      rw [Expr.isAssignable_map]
      split
      · refine .seq (he k hk) fun source => .pure ?_ rfl
        simp [Expr.map, hf.cover]
      · exact .fail (by simp [Complaint.map])

end Expressions

section Alternatives

variable [Extent ρ] {statement : Parser ρ (Stmt ρ)} {choice : Parser ρ (Conditional ρ)}
variable {c : Cursor ρ}

theorem eq_or_eq_of_not_separate {l : Lexeme} (h : ¬Separate l) :
    l = .keyword .sino ∨ l = .keyword .peroSi := by
  simpa using (Decidable.not_not.mp h : l ∈ _)

/-- What is parsed at the word before the last block of a condition. -/
def otherwise (statement : Parser ρ (Stmt ρ)) : Parser ρ (Alternate ρ) := do
  let _ ← take
  let b ← block statement .conditional .sino
  return .otherwise b

/-- What is parsed at the word before one more condition. -/
def elseIf (choice : Parser ρ (Conditional ρ)) : Parser ρ (Alternate ρ) := do
  let another ← choice
  return .elseIf another

theorem alternate_apply : alternate statement choice c =
    (match c.peek.lexeme with
      | .keyword .sino => otherwise statement
      | .keyword .peroSi => elseIf choice
      | _ => Pure.pure .nothing) c :=
  rfl

theorem alternate_of_sino (h : c.peek.lexeme = .keyword .sino) :
    alternate statement choice c = otherwise statement c := by
  rw [alternate_apply, h]

theorem alternate_of_peroSi (h : c.peek.lexeme = .keyword .peroSi) :
    alternate statement choice c = elseIf choice c := by
  rw [alternate_apply, h]

theorem alternate_of_separate (h : Separate c.peek.lexeme) :
    alternate statement choice c = .ok .nothing c := by
  rw [alternate_apply]
  cases hl : c.peek.lexeme with
  | keyword word =>
      rw [hl] at h
      cases word with
      | sino => simp [Separate] at h
      | peroSi => simp [Separate] at h
      | _ => rfl
  | _ => rfl

end Alternatives

section Statements

variable [Extent ρ] [Extent σ] (hf : Extent.Respects f)
variable {expression : Parser ρ (Expr ρ)} {expression' : Parser σ (Expr σ)}
variable {statement : Parser ρ (Stmt ρ)} {statement' : Parser σ (Stmt σ)}

include hf

/-! ### Statements -/

theorem closing_block (hs : ClosingBelow M i (Stmt.map f) statement statement') (kind : BlockKind)
    (before : Context) :
    Closing M i (fun _ => 1) (Block.map f) (block statement kind before)
      (block statement' kind before) := by
  refine .behind (.expect_self fun _ => rfl) fun opening k hk => ?_
  have step := (closing_blockStep (hs k hk)).mono (e := uses 1) (Nat.le_refl _)
    (fun found => by cases found <;> exact Nat.le_refl _) (Nat.le_refl _)
  refine .seq (.collect (Nat.sub_le _ _) step) fun list => .last fun final => ?_
  exact .pure (by simp [Block.map, hf.through]) rfl

theorem closing_declaration (he : Below M i (Expr.map f) expression expression')
    (kind : VariableKind) :
    Closing M i (fun _ => 1) (Stmt.map f) (declaration expression kind)
      (declaration expression' kind) := by
  refine .after .take_self fun keyword => .behind .name_self fun declared k hk => ?_
  refine .after (parallel_ascription _) fun type => ?_
  refine .after (parallel_initial (he k hk) kind declared type) fun value => ?_
  refine .seq closing_semicolon fun _ => .last fun final => .pure ?_ rfl
  simp [Stmt.map, hf.through]

theorem closing_functionDeclaration (hs : ClosingBelow M i (Stmt.map f) statement statement') :
    Closing M i (fun _ => 2) (Stmt.map f) (functionDeclaration statement)
      (functionDeclaration statement') := by
  refine .after .take_self fun keyword => .first .name_self fun declared k hk => ?_
  refine .after (parallel_parameters _) fun list => .after parallel_returnType fun type => ?_
  refine .seq (closing_block hf (hs.mono (Nat.le_of_lt hk)) _ _) fun body => ?_
  refine .last fun final => .pure ?_ rfl
  simp [Stmt.map, Function.map, hf.through]

theorem closing_giveBack (he : Parallel M i (fun _ => 1) (Expr.map f) expression expression') :
    Closing M i (fun _ => 1) (Stmt.map f) (giveBack expression) (giveBack expression') := by
  have value : Parallel M i (fun _ => 0) (Option.map (Expr.map f)) (result expression)
      (result expression') := by
    refine .sees fun none => ?_
    cases none with
    | true => exact .pure rfl rfl
    | false => exact .seq he fun e => .pure rfl rfl
  refine .after .take_self fun keyword => .after value fun v => .seq closing_semicolon fun _ => ?_
  refine .last fun final => .pure ?_ rfl
  simp [Stmt.map, hf.through]

/-- At the edge of what a motion leaves as it is, there is no alternative either way. -/
theorem closing_alternate (hs : ClosingBelow M i (Stmt.map f) statement statement')
    {choice : Parser ρ (Conditional ρ)} {choice' : Parser σ (Conditional σ)}
    (hc : Closing M i (fun _ => 1) (Conditional.map f) choice choice') :
    Closing M i (fun _ => 0) (Alternate.map f) (alternate statement choice)
      (alternate statement' choice') := by
  intro c fits hi
  by_cases separate : Separate c.peek.lexeme
  · rw [alternate_of_separate separate]
    refine ⟨fits, Nat.le_refl _, fun left => alternate_of_separate ?_⟩
    by_cases enough : M.least ≤ c.rest.length
    · rw [M.peek fits enough, Token.map_lexeme]
      exact separate
    · exact (M.edge fits (by omega)).2
  -- an alternative takes a token, so that the one looked at is not at the edge
  have same (left : M.least ≤ c.rest.length) : (M.move c).peek.lexeme = c.peek.lexeme := by
    rw [M.peek fits left, Token.map_lexeme]
  rcases eq_or_eq_of_not_separate separate with hl | hl
  · rw [alternate_of_sino hl]
    have found : Closing M i (fun _ => 1) (Alternate.map f) (otherwise statement)
        (otherwise statement') :=
      .after .take_self fun _ => .seq (closing_block hf hs _ _) fun b => .pure rfl rfl
    exact (found c fits hi).later (fun _ => by omega) (Nat.le_refl _) (fun _ => by omega)
      fun left => alternate_of_sino ((same left).trans hl)
  · rw [alternate_of_peroSi hl]
    have found : Closing M i (fun _ => 1) (Alternate.map f) (elseIf choice) (elseIf choice') :=
      .seq hc fun another => .pure rfl rfl
    exact (found c fits hi).later (fun _ => by omega) (Nat.le_refl _) (fun _ => by omega)
      fun left => alternate_of_peroSi ((same left).trans hl)

theorem closing_conditionalStep (he : Below M i (Expr.map f) expression expression')
    (hs : ClosingBelow M i (Stmt.map f) statement statement')
    {choice : Parser ρ (Conditional ρ)} {choice' : Parser σ (Conditional σ)}
    (hc : ClosingBelow M i (Conditional.map f) choice choice') :
    Closing M i (fun _ => 1) (Conditional.map f) (conditionalStep expression statement choice)
      (conditionalStep expression' statement' choice') := by
  refine .after .take_self fun keyword => .behind (.expect_self fun _ => rfl) fun _ k hk => ?_
  refine .after (he k hk) fun condition => .after (.expect_self fun _ => rfl) fun _ => ?_
  refine .seq (closing_block hf (hs.mono (Nat.le_of_lt hk)) _ _) fun consequent => ?_
  refine .seq (closing_alternate hf (hs.mono (Nat.le_of_lt hk)) (hc k hk)) fun rest => ?_
  refine .last fun final => .pure ?_ rfl
  simp [Conditional.map, hf.through]

theorem closing_loop (he : Below M i (Expr.map f) expression expression')
    (hs : ClosingBelow M i (Stmt.map f) statement statement') :
    Closing M i (fun _ => 1) (Stmt.map f) (loop expression statement)
      (loop expression' statement') := by
  have word (k : Nat) : Parallel M k (fun _ => 0) id (hacer : Parser ρ Unit)
      (hacer : Parser σ Unit) := by
    refine .takeAny fun t => ?_
    rw [Token.map_lexeme]
    split
    · exact .pure rfl rfl
    · exact .fail rfl
  refine .after .take_self fun keyword => .behind (.expect_self fun _ => rfl) fun _ k hk => ?_
  refine .after (he k hk) fun condition => .after (.expect_self fun _ => rfl) fun _ => ?_
  refine .after (word k) fun _ => ?_
  refine .seq (closing_block hf (hs.mono (Nat.le_of_lt hk)) _ _) fun body => .last fun final => ?_
  exact .pure (by simp [Stmt.map, hf.through]) rfl

theorem closing_control {form : ρ → Stmt ρ} {form' : σ → Stmt σ}
    (hform : ∀ r, form' (f r) = (form r).map f) :
    Closing M i (fun _ => 1) (Stmt.map f) (control form) (control form') := by
  refine .after .take_self fun keyword => .seq closing_semicolon fun _ => .last fun final => ?_
  exact .pure (by simp [← hform, hf.through]) rfl

theorem closing_expressionStatement
    (he : Parallel M i (fun _ => 1) (Expr.map f) expression expression') :
    Closing M i (fun _ => 2) (Stmt.map f) (expressionStatement expression)
      (expressionStatement expression') := by
  refine .peek fun start => .of_along (Closing.first he fun value k _ => ?_)
  refine .seq closing_semicolon fun _ => .last fun final => .pure ?_ rfl
  simp [Stmt.map, hf.through]

end Statements

end Guion.Parser
