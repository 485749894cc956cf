import Guion.Proofs.Parse.Soundness
import Guion.Proofs.Parse.Unfolding

/-!
# What is derivable is parsed

Given the lexemes of a phrase and whatever may follow them, the parser of that kind
of phrase gives its tree and stops right behind it. `Reads` says for each kind of
phrase what may follow. A phrase of operators or of calls and accesses can go on
behind any of its parts, so for these it says instead that the parser comes to the
point where it has the tree and looks for more.
-/

namespace Guion.Parser

open Grammar

/-! ### How phrases begin -/

/-- The lexemes that an operand begins with. -/
def startsOperand : Lexeme → Bool
  | .name _ | .number _ | .text _ | .keyword .y | .keyword .o | .punctuator .leftParen => true
  | _ => false

/-- The lexemes that no statement begins with: those that end a list of statements or
go on with a condition. -/
def endsStatements : Lexeme → Bool
  | .keyword .sino | .keyword .peroSi | .punctuator .rightBrace | .endOfFile => true
  | _ => false

/-- How the phrases of a kind begin. -/
def Opens : Phrase → List Lexeme → Prop
  | .tier _, ls | .chain, ls | .primary, ls => startsOperand (ahead ls)
  | .expression, ls | .unit, ls | .item .argument, ls =>
      startsOperand (ahead ls) ∨ ahead ls = .punctuator .leftBrace ∨
        ∃ rest, ls = .keyword .funcion :: .punctuator .leftParen :: rest
  | .item .property, ls | .item .parameter, ls => startsOperand (ahead ls)
  | .statement, ls => endsStatements (ahead ls) = false
  | _, _ => True

theorem startsOperand_of_names {l : Lexeme} {n : String} (h : Names l n) : startsOperand l := by
  cases h <;> rfl

theorem endsStatements_of_operand {l : Lexeme} (h : startsOperand l) :
    endsStatements l = false := by
  unfold startsOperand at h
  split at h <;> first | rfl | cases h

theorem ahead_append {ls : List Lexeme} (h : ahead ls ≠ .endOfFile) (rest : List Lexeme) :
    ahead (ls ++ rest) = ahead ls := by
  cases ls with
  | nil => exact absurd rfl h
  | cons l ls => rfl

theorem ahead_ne_end_of_operand {ls : List Lexeme} (h : startsOperand (ahead ls)) :
    ahead ls ≠ .endOfFile := by
  intro hend
  rw [hend] at h
  cases h

theorem Opens.append {g : Phrase} {ls : List Lexeme} (h : Opens g ls) (rest : List Lexeme) :
    Opens g (ls ++ rest) := by
  have operand (h : startsOperand (ahead ls)) : startsOperand (ahead (ls ++ rest)) := by
    rw [ahead_append (ahead_ne_end_of_operand h)]
    exact h
  have unit (h : Opens .unit ls) : Opens .unit (ls ++ rest) := by
    rcases h with h | h | ⟨behind, rfl⟩
    · exact .inl (operand h)
    · exact .inr (.inl (by rw [ahead_append (by simp [h]), h]))
    · exact .inr (.inr ⟨behind ++ rest, rfl⟩)
  cases g with
  | tier | chain | primary => exact operand h
  | expression | unit => exact unit h
  | item what =>
      cases what with
      | argument => exact unit h
      | property | parameter => exact operand h
  | statement =>
      have hend : ahead ls ≠ .endOfFile := by
        intro hend
        rw [Opens, hend] at h
        cases h
      rw [Opens, ahead_append hend]
      exact h
  | _ => trivial

theorem opens_of_derives {g : Phrase} {ls : List Lexeme} {t : g.Tree} (h : Derives g ls t) :
    Opens g ls := by
  induction h with
  | unit _ ih => exact ih
  | assign _ _ _ ih => exact ih.append _
  | object => exact .inr (.inl rfl)
  | function => exact .inr (.inr ⟨_, by simp; rfl⟩)
  | operators _ ih => exact .inl ih
  | tighter _ _ ih => exact ih
  | binary _ _ _ ih => exact ih.append _
  | operand _ ih => exact ih
  | call _ _ ih => rw [List.append_assoc]; exact ih.append _
  | member _ _ ih => exact ih.append _
  | subscript _ _ ih => rw [List.append_assoc]; exact ih.append _
  | primary _ ih => exact ih
  | reference hn => exact startsOperand_of_names hn
  | number => rfl
  | text => rfl
  | parenthesized => rfl
  | argument _ ih => exact ih
  | shorthand hn => exact startsOperand_of_names hn
  | property hn => exact startsOperand_of_names hn
  | parameter hn => exact startsOperand_of_names hn
  | declare kind => cases kind <;> rfl
  | expression _ ih =>
      refine Opens.append (g := .statement) ?_ _
      rcases ih with h | h | ⟨rest, rfl⟩
      · exact endsStatements_of_operand h
      · rw [Opens, h]
        rfl
      · rfl
  | noItem | lastItem | moreItems | untyped | typed | choice | nothing | otherwise | elseIf
  | block | empty | statement | program => trivial
  | _ => rfl

/-! ### How phrases end -/

/-- A lexeme that no phrase of the tiers from one on goes on with. -/
def Stops (k : Nat) (l : Lexeme) : Prop :=
  (∀ tier ∈ tiers.drop k, tier l = none) ∧
    l ∉ [.punctuator .leftParen, .punctuator .period, .punctuator .leftBracket]

instance (k : Nat) (l : Lexeme) : Decidable (Stops k l) := inferInstanceAs (Decidable (_ ∧ _))

/-- The lexemes behind a whole expression, the end included. -/
def Closes (l : Lexeme) : Prop :=
  l ∈ [.punctuator .semicolon, .punctuator .rightParen, .punctuator .rightBracket,
    .punctuator .rightBrace, .punctuator .comma, .endOfFile]

instance (l : Lexeme) : Decidable (Closes l) := inferInstanceAs (Decidable (_ ∈ _))

theorem Stops.succ {k : Nat} {l : Lexeme} (h : Stops k l) : Stops (k + 1) l := by
  refine ⟨fun tier htier => h.1 tier ?_, h.2⟩
  rw [← List.drop_drop] at htier
  exact List.mem_of_mem_drop htier

theorem Closes.stops {l : Lexeme} (h : Closes l) : Stops 0 l := by
  simp only [Closes, List.mem_cons, List.not_mem_nil, or_false] at h
  rcases h with rfl | rfl | rfl | rfl | rfl | rfl <;> decide

theorem Closes.not_operand {l : Lexeme} (h : Closes l) : startsOperand l = false := by
  simp only [Closes, List.mem_cons, List.not_mem_nil, or_false] at h
  rcases h with rfl | rfl | rfl | rfl | rfl | rfl <;> rfl

theorem tier_lt (op : Operator) : op.tier < tiers.length := by
  cases op with
  | arithmetic op => cases op <;> decide
  | comparison op => cases op <;> decide
  | logical op => cases op <;> decide

theorem stops_operator (op : Operator) : Stops (op.tier + 1) op.lexeme := by
  cases op with
  | arithmetic op => cases op <;> decide
  | comparison op => cases op <;> decide
  | logical op => cases op <;> decide

/-- What the parser of some tiers does once it has an operand: look for an operator
of the loosest one. -/
def joined : List (Lexeme → Option Operator) → Expr Unit → Parser Unit (Expr Unit)
  | [], e => pure e
  | tier :: tighter, e =>
      extend (operatorStep tier (binary (chain expression) tighter)) e

/-- The parser of the items of a list. -/
def itemParser : (what : Item) → Parser Unit what.Tree
  | .argument => expression
  | .property => property expression
  | .parameter => parameter

/-- `Reads g ls t`: the parser for phrases of kind `g` follows the lexemes `ls` to
the tree `t`. -/
def Reads : (g : Phrase) → List Lexeme → g.Tree → Prop
  | .expression, ls, e => ∀ rest, Closes (ahead rest) →
      expression (Cursor.bare (ls ++ rest)) = .ok e (Cursor.bare rest)
  | .unit, ls, e => ∀ rest, Stops 0 (ahead rest) →
      unit expression (block statement) (Cursor.bare (ls ++ rest)) = .ok e (Cursor.bare rest)
  | .tier k, ls, e => ∀ rest, Stops (k + 1) (ahead rest) →
      binary (chain expression) (tiers.drop k) (Cursor.bare (ls ++ rest)) =
        joined (tiers.drop k) e (Cursor.bare rest)
  | .chain, ls, e => ∀ rest,
      chain expression (Cursor.bare (ls ++ rest)) =
        extend (postfixStep expression) e (Cursor.bare rest)
  | .primary, ls, e => ∀ rest,
      primary expression (Cursor.bare (ls ++ rest)) = .ok e (Cursor.bare rest)
  | .item what, ls, t => ∀ rest, Closes (ahead rest) →
      itemParser what (Cursor.bare (ls ++ rest)) = .ok t (Cursor.bare rest)
  | .items what, ls, list => ∀ close context rest, Closes (.punctuator close) → close ≠ .comma →
      separated close context (itemParser what) (Cursor.bare (ls ++ .punctuator close :: rest)) =
        .ok list (Cursor.bare (.punctuator close :: rest))
  | .ascription, ls, type => ∀ context rest, ahead rest ≠ .punctuator .colon →
      ascription context (Cursor.bare (ls ++ rest)) = .ok type (Cursor.bare rest)
  | .statement, ls, s => ∀ rest, Separate (ahead rest) →
      statement (Cursor.bare (ls ++ rest)) = .ok s (Cursor.bare rest)
  | .statements, ls, list =>
      (∀ rest, collect (blockStep statement) (Cursor.bare (ls ++ .punctuator .rightBrace :: rest)) =
        .ok list (Cursor.bare rest)) ∧
      ∀ rest, ahead rest = .endOfFile →
        collect programStep (Cursor.bare (ls ++ rest)) = .ok list (Cursor.bare rest)
  | .block kind, ls, b => ∀ before rest,
      block statement kind before (Cursor.bare (ls ++ rest)) = .ok b (Cursor.bare rest)
  | .choice, ls, choice => ∀ word rest, Separate (ahead rest) →
      conditional expression statement (Cursor.bare (.keyword word :: ls ++ rest)) =
        .ok choice (Cursor.bare rest)
  | .alternate, ls, a => ∀ rest, Separate (ahead rest) →
      alternate statement (conditional expression statement) (Cursor.bare (ls ++ rest)) =
        .ok a (Cursor.bare rest)
  | .program, ls, p => ∀ rest, ahead rest = .endOfFile →
      program (Cursor.bare (ls ++ rest)) = .ok p (Cursor.bare rest)

/-! ### Repetitions -/

theorem consumes_separatedStep (what : Item) (close : Punctuator) (context : Context) :
    Consumes (separatedStep close context (itemParser what)) := by
  cases what with
  | argument =>
      exact Parallel.consumes fun i =>
        parallel_separatedStep (parallel_expression Extent.respects_id i) close context
  | property =>
      exact Parallel.consumes fun _ =>
        parallel_separatedStep (parallel_property below_self) close context
  | parameter =>
      exact Parallel.consumes fun _ =>
        parallel_separatedStep (parallel_parameter (M := .positions id)) close context

/-! ### Expressions -/

theorem joined_stop {k : Nat} {e : Expr Unit} {rest : List Lexeme} (h : Stops k (ahead rest)) :
    joined (tiers.drop k) e (Cursor.bare rest) = .ok e (Cursor.bare rest) := by
  cases htiers : tiers.drop k with
  | nil => rfl
  | cons tier tighter =>
      refine extend_done (consumes_operatorStep tier tighter) ?_
      have none : tier (ahead rest) = none := h.1 tier (by simp [htiers])
      rw [operatorStep, bind_of_ok (peek_bare rest), none]
      rfl

theorem reads_reference {l : Lexeme} {n : String} (hn : Names l n) :
    Reads .primary [l] (.reference () ⟨(), n⟩) := by
  intro rest
  rw [primary]
  refine (bind_of_ok (take_bare hn.ne_end rest)).trans ?_
  cases hn <;> rfl

theorem reads_number {literal : String} {x : Float} (hx : Number.read? literal.toList = some x) :
    Reads .primary [.number literal] (.number () x) := by
  intro rest
  refine (bind_of_ok (take_bare (by simp) rest)).trans ?_
  simp [Token.asName?, Lexeme.asName?, hx]

theorem reads_text (contents : String) : Reads .primary [.text contents] (.text () contents) :=
  fun rest => bind_of_ok (take_bare (by simp) rest)

theorem reads_parenthesized {ls : List Lexeme} {e : Expr Unit} (h : Reads .expression ls e) :
    Reads .primary (.punctuator .leftParen :: ls ++ [.punctuator .rightParen]) e := by
  intro rest
  simp only [List.cons_append, List.append_assoc, List.nil_append]
  refine (bind_of_ok (take_bare (by simp) _)).trans ?_
  refine (bind_of_ok (h (.punctuator .rightParen :: rest) (by simp [Closes]))).trans ?_
  refine (bind_of_ok (expect_bare _ _ rest)).trans ?_
  simp

theorem reads_primary {ls : List Lexeme} {e : Expr Unit} (h : Reads .primary ls e) :
    Reads .chain ls e :=
  fun rest => bind_of_ok (h rest)

theorem reads_member {ls : List Lexeme} {base : Expr Unit} {l : Lexeme} {n : String}
    (h : Reads .chain ls base) (hn : Names l n) :
    Reads .chain (ls ++ [.punctuator .period, l]) (.member () base ⟨(), n⟩ ()) := by
  intro rest
  simp only [List.cons_append, List.append_assoc, List.nil_append]
  refine (h _).trans (extend_found consumes_postfixStep ?_)
  refine (bind_of_ok (peek_bare _)).trans ?_
  refine (bind_of_ok (take_bare (by simp) _)).trans ?_
  exact bind_of_ok (name_bare hn _ rest)

theorem reads_subscript {ls rs : List Lexeme} {base key : Expr Unit} (h : Reads .chain ls base)
    (hkey : Reads .expression rs key) :
    Reads .chain (ls ++ .punctuator .leftBracket :: rs ++ [.punctuator .rightBracket])
      (.subscript () base key ()) := by
  intro rest
  simp only [List.cons_append, List.append_assoc, List.nil_append]
  refine (h _).trans (extend_found consumes_postfixStep ?_)
  refine (bind_of_ok (peek_bare _)).trans ?_
  refine (bind_of_ok (take_bare (by simp) _)).trans ?_
  refine (bind_of_ok (hkey (.punctuator .rightBracket :: rest) (by simp [Closes]))).trans ?_
  exact bind_of_ok (expect_bare _ _ rest)

theorem reads_call {ls rs : List Lexeme} {callee : Expr Unit} {arguments : List (Expr Unit)}
    (h : Reads .chain ls callee) (hlist : Reads (.items .argument) rs arguments) :
    Reads .chain (ls ++ .punctuator .leftParen :: rs ++ [.punctuator .rightParen])
      (.call () callee arguments () () ()) := by
  intro rest
  simp only [List.cons_append, List.append_assoc, List.nil_append]
  refine (h _).trans (extend_found consumes_postfixStep ?_)
  refine (bind_of_ok (peek_bare _)).trans ?_
  refine (bind_of_ok (take_bare (by simp) _)).trans ?_
  refine (bind_of_ok (hlist .rightParen .argument rest (by decide) (by decide))).trans ?_
  exact bind_of_ok (expect_bare _ _ rest)

theorem reads_operand {ls : List Lexeme} {e : Expr Unit} (h : Reads .chain ls e) :
    Reads (.tier operandTier) ls e := by
  intro rest hrest
  refine (h rest).trans (extend_done consumes_postfixStep ?_)
  refine (bind_of_ok (peek_bare rest)).trans ?_
  have outside := hrest.2
  generalize ahead rest = l at outside
  cases l with
  | punctuator mark =>
      cases mark with
      | leftParen | period | leftBracket => exact absurd (by decide) outside
      | _ => rfl
  | _ => rfl

theorem reads_tighter {k : Nat} {ls : List Lexeme} {e : Expr Unit} (hk : k < operandTier)
    (h : Reads (.tier (k + 1)) ls e) : Reads (.tier k) ls e := by
  intro rest hrest
  have operand := (h rest hrest.succ).trans (joined_stop hrest)
  rw [List.drop_eq_getElem_cons hk]
  exact bind_of_ok operand

theorem reads_binary {ls rs : List Lexeme} {lhs rhs : Expr Unit} (op : Operator)
    (hl : Reads (.tier op.tier) ls lhs) (hr : Reads (.tier (op.tier + 1)) rs rhs) :
    Reads (.tier op.tier) (ls ++ op.lexeme :: rs) (.binary () ⟨(), op⟩ lhs rhs) := by
  intro rest hrest
  have operand := (hr rest hrest.succ).trans (joined_stop hrest)
  rw [List.append_assoc]
  refine (hl (op.lexeme :: (rs ++ rest)) (stops_operator op)).trans ?_
  rw [List.drop_eq_getElem_cons (tier_lt op)]
  refine extend_found (consumes_operatorStep _ _) ?_
  refine (bind_of_ok (peek_bare _)).trans ?_
  rw [ahead_cons, (tier_eq_some_iff (tier_lt op)).mpr ⟨rfl, rfl⟩]
  refine (bind_of_ok (take_bare (lexeme_ne_end op) _)).trans ?_
  exact bind_of_ok operand

/-- Where an operand begins, there is neither an object nor a function literal. -/
theorem unit_of_operand {ls : List Lexeme} (h : startsOperand (ahead ls)) :
    unit expression (block statement) (Cursor.bare ls) =
      binary (chain expression) tiers (Cursor.bare ls) := by
  refine (bind_of_ok (peek_bare ls)).trans ?_
  generalize ahead ls = l at h
  cases l with
  | punctuator mark =>
      cases mark with
      | leftBrace => cases h
      | _ => rfl
  | keyword word =>
      cases word with
      | funcion => cases h
      | _ => rfl
  | _ => rfl

theorem reads_operators {ls : List Lexeme} {e : Expr Unit} (hopens : startsOperand (ahead ls))
    (h : Reads (.tier 0) ls e) : Reads .unit ls e := by
  intro rest hrest
  rw [unit_of_operand (Opens.append (g := .primary) hopens rest)]
  exact (h rest hrest.succ).trans (joined_stop hrest)

theorem reads_object {ls : List Lexeme} {properties : List (Property Unit)}
    (h : Reads (.items .property) ls properties) :
    Reads .unit (.punctuator .leftBrace :: ls ++ [.punctuator .rightBrace])
      (.object () properties) := by
  intro rest _
  simp only [List.cons_append, List.append_assoc, List.nil_append]
  refine (bind_of_ok (peek_bare _)).trans ?_
  refine (bind_of_ok (take_bare (by simp) _)).trans ?_
  refine (bind_of_ok (h .rightBrace .property rest (by decide) (by decide))).trans ?_
  exact bind_of_ok (take_bare (by simp) rest)

theorem parameters_bare {ls : List Lexeme} {list : List (Parameter Unit)} (before : Context)
    (h : Reads (.items .parameter) ls list) (rest : List Lexeme) :
    parameters before (Cursor.bare
      (.punctuator .leftParen :: (ls ++ .punctuator .rightParen :: rest))) =
      .ok list (Cursor.bare rest) := by
  refine (bind_of_ok (expect_bare _ _ _)).trans ?_
  refine (bind_of_ok (h .rightParen .parameter rest (by decide) (by decide))).trans ?_
  exact bind_of_ok (expect_bare _ _ rest)

theorem reads_function {ls rs bs : List Lexeme} {list : List (Parameter Unit)}
    {type : Option (Located Unit String)} {body : Block Unit}
    (hlist : Reads (.items .parameter) ls list) (htype : Reads .ascription rs type)
    (hopens : ∀ rest, ahead (bs ++ rest) = .punctuator .leftBrace)
    (hbody : Reads (.block .function) bs body) :
    Reads .unit (.keyword .funcion :: .punctuator .leftParen :: ls ++
      .punctuator .rightParen :: rs ++ bs) (.function () ⟨list, type, body, ()⟩) := by
  intro rest _
  simp only [List.cons_append, List.append_assoc]
  refine (bind_of_ok (peek_bare _)).trans ?_
  refine (bind_of_ok (take_bare (by simp) _)).trans ?_
  refine (bind_of_ok (parameters_bare _ hlist _)).trans ?_
  refine (bind_of_ok (htype _ _ (by simp [hopens]))).trans ?_
  refine (bind_of_ok (hbody _ rest)).trans ?_
  exact bind_of_ok (last_bare rest)

theorem reads_unit {ls : List Lexeme} {e : Expr Unit} (h : Reads .unit ls e) :
    Reads .expression ls e := by
  intro rest hrest
  have apart : ahead rest ≠ .punctuator .assign := by
    intro hassign
    rw [hassign] at hrest
    exact absurd hrest (by decide)
  rw [expression_eq]
  refine (bind_of_ok (h rest hrest.stops)).trans ?_
  refine (bind_of_ok (sees_bare _ rest)).trans ?_
  simp [apart]

theorem reads_assign {ls rs : List Lexeme} {target source : Expr Unit}
    (htarget : Reads .unit ls target) (assignable : target.isAssignable = true)
    (hsource : Reads .expression rs source) :
    Reads .expression (ls ++ .punctuator .assign :: rs) (.assign () target source) := by
  intro rest hrest
  simp only [List.cons_append, List.append_assoc]
  rw [expression_eq]
  have behind : Stops 0 (ahead (.punctuator .assign :: (rs ++ rest))) := by
    rw [ahead_cons]
    decide
  refine (bind_of_ok (htarget _ behind)).trans ?_
  refine (bind_of_ok (sees_bare _ _)).trans ?_
  simp only [ahead_cons, decide_true, if_true]
  refine (bind_of_ok (take_bare (by simp) _)).trans ?_
  rw [if_pos assignable]
  exact bind_of_ok (hsource rest hrest)

/-! ### Lists -/

theorem reads_shorthand {l : Lexeme} {n : String} (hn : Names l n) :
    Reads (.item .property) [l] ⟨⟨(), n⟩, none⟩ := by
  intro rest hrest
  have apart : ahead rest ≠ .punctuator .colon := by
    intro hcolon
    rw [hcolon] at hrest
    exact absurd hrest (by decide)
  refine (bind_of_ok (name_bare hn _ rest)).trans ?_
  exact bind_of_ok (accept_bare_other apart)

theorem reads_property {l : Lexeme} {n : String} {ls : List Lexeme} {value : Expr Unit}
    (hn : Names l n) (h : Reads .expression ls value) :
    Reads (.item .property) (l :: .punctuator .colon :: ls) ⟨⟨(), n⟩, some value⟩ := by
  intro rest hrest
  refine (bind_of_ok (name_bare hn _ _)).trans ?_
  refine (bind_of_ok (accept_bare _ _)).trans ?_
  exact bind_of_ok (h rest hrest)

theorem reads_parameter {l l' : Lexeme} {n type : String} (hn : Names l n) (htype : Names l' type) :
    Reads (.item .parameter) [l, .punctuator .colon, l'] ⟨⟨(), n⟩, ⟨(), type⟩⟩ := by
  intro rest _
  refine (bind_of_ok (name_bare hn _ _)).trans ?_
  refine (bind_of_ok (expect_bare _ _ _)).trans ?_
  exact bind_of_ok (name_bare htype _ rest)

theorem reads_noItem {what : Item} : Reads (.items what) [] [] :=
  fun close context _ _ _ => collect_done (consumes_separatedStep what close context)
    (separatedStep_of_close (ahead_cons _ _))

theorem comma_of_close (close : Punctuator) (context : Context) (rest : List Lexeme) :
    comma close context (Cursor.bare (.punctuator close :: rest)) =
      .ok () (Cursor.bare (.punctuator close :: rest)) := by
  refine (bind_of_ok (sees_bare close _)).trans ?_
  simp

theorem comma_bare {close : Punctuator} (hclose : close ≠ .comma) (context : Context)
    (rest : List Lexeme) :
    comma close context (Cursor.bare (.punctuator .comma :: rest)) =
      .ok () (Cursor.bare rest) := by
  refine (bind_of_ok (sees_bare close _)).trans ?_
  have apart : ahead (.punctuator .comma :: rest) ≠ .punctuator close := by
    simpa using hclose.symm
  rw [decide_eq_false apart]
  exact bind_of_ok (expect_bare _ _ rest)

/-- No list has its closing sign where an item begins. -/
theorem ahead_item {what : Item} {ls : List Lexeme} (h : Opens (.item what) ls)
    {close : Punctuator} (hclose : Closes (.punctuator close)) (rest : List Lexeme) :
    ahead (ls ++ rest) ≠ .punctuator close := by
  intro heq
  rw [← heq] at hclose
  have outside := hclose.not_operand
  have hopens := h.append rest
  cases what with
  | argument =>
      rcases hopens with hopens | hopens | ⟨behind, hopens⟩
      · rw [outside] at hopens
        cases hopens
      · rw [hopens] at hclose
        exact absurd hclose (by decide)
      · rw [hopens] at heq
        cases heq
  | property | parameter =>
      rw [Opens, outside] at hopens
      cases hopens

theorem separatedStep_bare {what : Item} {ls : List Lexeme} {a : what.Tree}
    (hopens : Opens (.item what) ls) (h : Reads (.item what) ls a) {close : Punctuator}
    {context : Context} (hclose : Closes (.punctuator close)) {behind rest : List Lexeme}
    (hbehind : Closes (ahead behind))
    (hcomma : comma close context (Cursor.bare behind) = .ok () (Cursor.bare rest)) :
    separatedStep close context (itemParser what) (Cursor.bare (ls ++ behind)) =
      .ok (some a) (Cursor.bare rest) := by
  refine (bind_of_ok (sees_bare close _)).trans ?_
  rw [decide_eq_false (ahead_item hopens hclose _)]
  refine (bind_of_ok (h behind hbehind)).trans ?_
  exact bind_of_ok hcomma

theorem reads_lastItem {what : Item} {ls : List Lexeme} {a : what.Tree}
    (hopens : Opens (.item what) ls) (h : Reads (.item what) ls a) :
    Reads (.items what) ls [a] := by
  intro close context rest hclose hcomma
  have consumes := consumes_separatedStep what close context
  have found := separatedStep_bare hopens h hclose (by rwa [ahead_cons])
    (comma_of_close close context rest)
  exact collect_found consumes found
    (collect_done consumes (separatedStep_of_close (ahead_cons _ _)))

theorem reads_moreItems {what : Item} {ls rs : List Lexeme} {a : what.Tree}
    {list : List what.Tree} (hopens : Opens (.item what) ls) (h : Reads (.item what) ls a)
    (hlist : Reads (.items what) rs list) :
    Reads (.items what) (ls ++ .punctuator .comma :: rs) (a :: list) := by
  intro close context rest hclose hcomma
  simp only [List.append_assoc, List.cons_append]
  have found := separatedStep_bare hopens h hclose (by simp [Closes])
    (comma_bare hcomma context (rs ++ .punctuator close :: rest))
  exact collect_found (consumes_separatedStep what close context) found
    (hlist close context rest hclose hcomma)

theorem reads_untyped : Reads .ascription [] none :=
  fun _ _ hrest => bind_of_ok (accept_bare_other hrest)

theorem reads_typed {l : Lexeme} {n : String} (hn : Names l n) :
    Reads .ascription [.punctuator .colon, l] (some ⟨(), n⟩) := by
  intro context rest _
  refine (bind_of_ok (accept_bare _ _)).trans ?_
  exact bind_of_ok (name_bare hn _ rest)

/-! ### Statements -/

theorem semicolon_bare (rest : List Lexeme) :
    semicolon (Cursor.bare (.punctuator .semicolon :: rest)) = .ok () (Cursor.bare rest) :=
  bind_of_ok (expect_bare _ _ rest)

theorem reads_declare {l : Lexeme} {n : String} {rs ls : List Lexeme}
    {type : Option (Located Unit String)} {value : Expr Unit} (kind : VariableKind)
    (hn : Names l n) (htype : Reads .ascription rs type) (h : Reads .expression ls value) :
    Reads .statement (.keyword kind.keyword :: l :: rs ++ .punctuator .assign :: ls ++
      [.punctuator .semicolon]) (.declare () ⟨(), kind⟩ ⟨(), n⟩ type (some value)) := by
  intro rest _
  simp only [List.cons_append, List.append_assoc, List.nil_append]
  have declared : declaration expression kind (Cursor.bare (.keyword kind.keyword :: l ::
      (rs ++ .punctuator .assign :: (ls ++ .punctuator .semicolon :: rest)))) =
      .ok (.declare () ⟨(), kind⟩ ⟨(), n⟩ type (some value)) (Cursor.bare rest) := by
    refine (bind_of_ok (take_bare (by simp) _)).trans ?_
    refine (bind_of_ok (name_bare hn _ _)).trans ?_
    refine (bind_of_ok (htype _ _ (by simp))).trans ?_
    have given : initial expression kind ⟨(), n⟩ type (Cursor.bare (.punctuator .assign ::
        (ls ++ .punctuator .semicolon :: rest))) =
        .ok (some value) (Cursor.bare (.punctuator .semicolon :: rest)) := by
      refine (bind_of_ok (accept_bare _ _)).trans ?_
      exact bind_of_ok (h _ (by simp [Closes]))
    refine (bind_of_ok given).trans ?_
    refine (bind_of_ok (semicolon_bare rest)).trans ?_
    exact bind_of_ok (last_bare rest)
  rw [statement_eq]
  cases kind with
  | var => exact declared
  | const => exact declared

theorem reads_reserve {l l' : Lexeme} {n type : String} (hn : Names l n) (htype : Names l' type) :
    Reads .statement [.keyword .var, l, .punctuator .colon, l', .punctuator .semicolon]
      (.declare () ⟨(), .var⟩ ⟨(), n⟩ (some ⟨(), type⟩) none) := by
  intro rest _
  rw [statement_eq]
  refine (bind_of_ok (take_bare (by simp) _)).trans ?_
  refine (bind_of_ok (name_bare hn _ _)).trans ?_
  refine (bind_of_ok (reads_typed htype _ (.punctuator .semicolon :: rest) (by simp))).trans ?_
  have without : initial expression .var ⟨(), n⟩ (some ⟨(), type⟩) (Cursor.bare
      (.punctuator .semicolon :: rest)) =
      .ok none (Cursor.bare (.punctuator .semicolon :: rest)) :=
    bind_of_ok (accept_bare_other (by simp))
  refine (bind_of_ok without).trans ?_
  refine (bind_of_ok (semicolon_bare rest)).trans ?_
  exact bind_of_ok (last_bare rest)

theorem reads_declareFunction {l l' : Lexeme} {n type : String} {ls bs : List Lexeme}
    {list : List (Parameter Unit)} {body : Block Unit} (hn : Names l n)
    (hlist : Reads (.items .parameter) ls list) (htype : Names l' type)
    (hbody : Reads (.block .function) bs body) :
    Reads .statement (.keyword .funcion :: l :: .punctuator .leftParen :: ls ++
      .punctuator .rightParen :: .punctuator .colon :: l' :: bs)
      (.function () ⟨(), n⟩ ⟨list, some ⟨(), type⟩, body, ()⟩) := by
  intro rest _
  simp only [List.cons_append, List.append_assoc]
  rw [statement_eq]
  have named : (Cursor.bare (.keyword .funcion :: l :: .punctuator .leftParen :: (ls ++
      .punctuator .rightParen :: .punctuator .colon :: l' ::
        (bs ++ rest)))).peekSecond.asName?.isSome = true := by
    simp [Token.asName?, asName?_eq_some_iff.mpr hn]
  refine (if_pos named).trans ?_
  refine (bind_of_ok (take_bare (by simp) _)).trans ?_
  refine (bind_of_ok (name_bare hn _ _)).trans ?_
  refine (bind_of_ok (parameters_bare _ hlist _)).trans ?_
  have typed : returnType (Cursor.bare (.punctuator .colon :: l' :: (bs ++ rest))) =
      .ok ⟨(), type⟩ (Cursor.bare (bs ++ rest)) := by
    refine (bind_of_ok (expect_bare _ _ _)).trans ?_
    exact name_bare htype _ _
  refine (bind_of_ok typed).trans ?_
  refine (bind_of_ok (hbody _ rest)).trans ?_
  exact bind_of_ok (last_bare rest)

theorem reads_leave :
    Reads .statement [.keyword .devolver, .punctuator .semicolon] (.giveBack () () none) := by
  intro rest _
  rw [statement_eq]
  refine (bind_of_ok (take_bare (by simp) _)).trans ?_
  have without : result expression (Cursor.bare (.punctuator .semicolon :: rest)) =
      .ok none (Cursor.bare (.punctuator .semicolon :: rest)) := by
    refine (bind_of_ok (sees_bare _ _)).trans ?_
    simp
  refine (bind_of_ok without).trans ?_
  refine (bind_of_ok (semicolon_bare rest)).trans ?_
  exact bind_of_ok (last_bare rest)

/-- No expression begins with a sign that ends one. -/
theorem ahead_expression {ls : List Lexeme} (h : Opens .expression ls) {close : Punctuator}
    (hclose : Closes (.punctuator close)) (rest : List Lexeme) :
    ahead (ls ++ rest) ≠ .punctuator close :=
  @ahead_item .argument ls h close hclose rest

theorem reads_giveBack {ls : List Lexeme} {value : Expr Unit} (hopens : Opens .expression ls)
    (h : Reads .expression ls value) :
    Reads .statement (.keyword .devolver :: ls ++ [.punctuator .semicolon])
      (.giveBack () () (some value)) := by
  intro rest _
  simp only [List.cons_append, List.append_assoc, List.nil_append]
  rw [statement_eq]
  refine (bind_of_ok (take_bare (by simp) _)).trans ?_
  have given : result expression (Cursor.bare (ls ++ .punctuator .semicolon :: rest)) =
      .ok (some value) (Cursor.bare (.punctuator .semicolon :: rest)) := by
    refine (bind_of_ok (sees_bare _ _)).trans ?_
    rw [decide_eq_false (ahead_expression hopens (by decide) _)]
    exact bind_of_ok (h _ (by simp [Closes]))
  refine (bind_of_ok given).trans ?_
  refine (bind_of_ok (semicolon_bare rest)).trans ?_
  exact bind_of_ok (last_bare rest)

theorem reads_control {word : Keyword} {form : Unit → Stmt Unit}
    (hword : ∀ ls, statement (Cursor.bare (.keyword word :: ls)) =
      control form (Cursor.bare (.keyword word :: ls))) :
    Reads .statement [.keyword word, .punctuator .semicolon] (form ()) := by
  intro rest _
  refine (hword _).trans ?_
  refine (bind_of_ok (take_bare (by simp) _)).trans ?_
  refine (bind_of_ok (semicolon_bare rest)).trans ?_
  exact bind_of_ok (last_bare rest)

theorem reads_conditional {ls : List Lexeme} {choice : Conditional Unit}
    (h : Reads .choice ls choice) :
    Reads .statement (.keyword .si :: ls) (.conditional () choice) := by
  intro rest hrest
  rw [statement_eq]
  exact bind_of_ok (h .si rest hrest)

theorem reads_loop {ls bs : List Lexeme} {condition : Expr Unit} {body : Block Unit}
    (h : Reads .expression ls condition) (hbody : Reads (.block .loop) bs body) :
    Reads .statement (.keyword .mientras :: .punctuator .leftParen :: ls ++
      .punctuator .rightParen :: .keyword .hacer :: bs) (.loop () condition body) := by
  intro rest _
  simp only [List.cons_append, List.append_assoc]
  rw [statement_eq]
  refine (bind_of_ok (take_bare (by simp) _)).trans ?_
  refine (bind_of_ok (expect_bare _ _ _)).trans ?_
  refine (bind_of_ok (h _ (by simp [Closes]))).trans ?_
  refine (bind_of_ok (expect_bare _ _ _)).trans ?_
  have word : hacer (Cursor.bare (.keyword .hacer :: (bs ++ rest))) =
      .ok () (Cursor.bare (bs ++ rest)) :=
    bind_of_ok (take_bare (by simp) _)
  refine (bind_of_ok word).trans ?_
  refine (bind_of_ok (hbody _ rest)).trans ?_
  exact bind_of_ok (last_bare rest)

/-- Where an expression begins, a statement is that expression. -/
theorem statementStep_of_expression {ls : List Lexeme} (h : Opens .expression ls) :
    statementStep expression statement (Cursor.bare ls) =
      expressionStatement expression (Cursor.bare ls) := by
  have at_lexeme (hahead : startsOperand (ahead ls) ∨ ahead ls = .punctuator .leftBrace) :
      statementStep expression statement (Cursor.bare ls) =
        expressionStatement expression (Cursor.bare ls) := by
    unfold statementStep
    simp only [Cursor.peek_bare]
    generalize ahead ls = l at hahead
    cases l with
    | keyword word => cases word <;> first | rfl | simp [startsOperand] at hahead
    | _ => rfl
  rcases h with h | h | ⟨rest, rfl⟩
  · exact at_lexeme (.inl h)
  · exact at_lexeme (.inr h)
  · have unnamed : ¬ (Cursor.bare (.keyword .funcion :: .punctuator .leftParen :: rest)
        ).peekSecond.asName?.isSome = true := by
      simp [Token.asName?, Lexeme.asName?]
    simp only [statementStep, Cursor.peek_bare, ahead_cons]
    rw [if_neg unnamed]

theorem reads_expression {ls : List Lexeme} {value : Expr Unit} (hopens : Opens .expression ls)
    (h : Reads .expression ls value) :
    Reads .statement (ls ++ [.punctuator .semicolon]) (.expression () value) := by
  intro rest _
  simp only [List.cons_append, List.append_assoc, List.nil_append]
  rw [statement_eq, statementStep_of_expression (hopens.append _)]
  refine (bind_of_ok (peek_bare _)).trans ?_
  refine (bind_of_ok (h _ (by simp [Closes]))).trans ?_
  refine (bind_of_ok (semicolon_bare rest)).trans ?_
  exact bind_of_ok (last_bare rest)

theorem reads_choice {ls bs rs : List Lexeme} {condition : Expr Unit} {consequent : Block Unit}
    {rest : Alternate Unit} (h : Reads .expression ls condition)
    (hblock : Reads (.block .conditional) bs consequent) (hrest : Reads .alternate rs rest) :
    Reads .choice (.punctuator .leftParen :: ls ++ .punctuator .rightParen :: bs ++ rs)
      ⟨(), condition, consequent, rest⟩ := by
  intro word behind hbehind
  simp only [List.cons_append, List.append_assoc]
  rw [conditional_eq]
  refine (bind_of_ok (take_bare (by simp) _)).trans ?_
  refine (bind_of_ok (expect_bare _ _ _)).trans ?_
  refine (bind_of_ok (h _ (by simp [Closes]))).trans ?_
  refine (bind_of_ok (expect_bare _ _ _)).trans ?_
  refine (bind_of_ok (hblock _ _)).trans ?_
  refine (bind_of_ok (hrest behind hbehind)).trans ?_
  exact bind_of_ok (last_bare behind)

theorem reads_nothing : Reads .alternate [] .nothing := by
  intro rest hrest
  refine (bind_of_ok (peek_bare rest)).trans ?_
  generalize ahead rest = l at hrest
  cases l with
  | keyword word =>
      cases word with
      | sino | peroSi => exact absurd hrest (by decide)
      | _ => rfl
  | _ => rfl

theorem reads_otherwise {bs : List Lexeme} {b : Block Unit}
    (h : Reads (.block .conditional) bs b) :
    Reads .alternate (.keyword .sino :: bs) (.otherwise b) := by
  intro rest _
  refine (bind_of_ok (peek_bare _)).trans ?_
  refine (bind_of_ok (take_bare (by simp) _)).trans ?_
  exact bind_of_ok (h _ rest)

theorem reads_elseIf {ls : List Lexeme} {choice : Conditional Unit} (h : Reads .choice ls choice) :
    Reads .alternate (.keyword .peroSi :: ls) (.elseIf choice) := by
  intro rest hrest
  refine (bind_of_ok (peek_bare _)).trans ?_
  exact bind_of_ok (h .peroSi rest hrest)

theorem reads_block {ls : List Lexeme} {list : List (Stmt Unit)} (kind : BlockKind)
    (h : Reads .statements ls list) :
    Reads (.block kind) (.punctuator .leftBrace :: ls ++ [.punctuator .rightBrace])
      ⟨kind, (), list⟩ := by
  intro before rest
  simp only [List.cons_append, List.append_assoc, List.nil_append]
  refine (bind_of_ok (expect_bare _ _ _)).trans ?_
  refine (bind_of_ok (h.1 rest)).trans ?_
  exact bind_of_ok (last_bare rest)

theorem reads_empty : Reads .statements [] [] := by
  constructor
  · intro rest
    refine collect_done consumes_blockStep ?_
    refine (bind_of_ok (peek_bare _)).trans ?_
    exact bind_of_ok (take_bare (by simp) rest)
  · intro rest hrest
    refine collect_done consumes_programStep ?_
    refine (bind_of_ok (peek_bare rest)).trans ?_
    simp [hrest]

theorem blockStep_bare {ls : List Lexeme} (h : Opens .statement ls) :
    blockStep statement (Cursor.bare ls) =
      (do let s ← statement; return some s) (Cursor.bare ls) := by
  refine (bind_of_ok (peek_bare _)).trans ?_
  rw [Opens] at h
  generalize ahead ls = l at h
  cases l with
  | punctuator mark =>
      cases mark with
      | rightBrace => cases h
      | _ => rfl
  | endOfFile => cases h
  | _ => rfl

theorem programStep_bare {ls : List Lexeme} (h : Opens .statement ls) :
    programStep (Cursor.bare ls) =
      (do let s ← statement; return some s) (Cursor.bare ls) := by
  refine (bind_of_ok (peek_bare _)).trans ?_
  have going : (ahead ls).isEnd = false := by
    rw [Opens] at h
    cases hl : ahead ls with
    | endOfFile => rw [hl] at h; cases h
    | _ => rfl
  simp only [going]
  rfl

/-- What follows a statement in a list of them does not go on with a condition. -/
theorem separate_statements {rs : List Lexeme} {list : List (Stmt Unit)}
    (h : Derives .statements rs list) {rest : List Lexeme} (hrest : Separate (ahead rest)) :
    Separate (ahead (rs ++ rest)) := by
  cases h with
  | empty => exact hrest
  | @statement ls s rs list hs _ =>
      rw [List.append_assoc]
      have hopens := opens_of_derives hs
      intro hmem
      simp only [List.mem_cons, List.not_mem_nil, or_false] at hmem
      replace hopens := hopens.append (rs ++ rest)
      rw [Opens] at hopens
      rcases hmem with hmem | hmem
      · rw [hmem] at hopens
        cases hopens
      · rw [hmem] at hopens
        cases hopens

theorem reads_statement {ls rs : List Lexeme} {s : Stmt Unit} {list : List (Stmt Unit)}
    (hopens : Opens .statement ls) (hs : Reads .statement ls s)
    (hderives : Derives .statements rs list) (h : Reads .statements rs list) :
    Reads .statements (ls ++ rs) (s :: list) := by
  constructor
  · intro rest
    rw [List.append_assoc]
    refine collect_found consumes_blockStep ?_ (h.1 rest)
    rw [blockStep_bare (hopens.append _)]
    exact bind_of_ok (hs _ (separate_statements hderives (by simp [Separate])))
  · intro rest hrest
    rw [List.append_assoc]
    refine collect_found consumes_programStep ?_ (h.2 rest hrest)
    rw [programStep_bare (hopens.append _)]
    exact bind_of_ok (hs _ (separate_statements hderives (by simp [Separate, hrest])))

theorem reads_program {ls : List Lexeme} {list : List (Stmt Unit)} (h : Reads .statements ls list) :
    Reads .program ls ⟨(), list⟩ := by
  intro rest hrest
  refine (bind_of_ok (peek_bare _)).trans ?_
  refine (bind_of_ok (h.2 rest hrest)).trans ?_
  exact bind_of_ok (peek_bare rest)

/-! ### All phrases -/

/-- A block opens with its brace. -/
theorem ahead_block {kind : BlockKind} {bs : List Lexeme} {b : Block Unit}
    (h : Derives (.block kind) bs b) (rest : List Lexeme) :
    ahead (bs ++ rest) = .punctuator .leftBrace := by
  cases h
  rfl

/-- Every derivation is followed by the parser. -/
theorem reads_of_derives {g : Phrase} {ls : List Lexeme} {t : g.Tree} (h : Derives g ls t) :
    Reads g ls t := by
  induction h with
  | unit _ ih => exact reads_unit ih
  | assign _ assignable _ iht ihs => exact reads_assign iht assignable ihs
  | object _ ih => exact reads_object ih
  | function _ _ hb ihl iht ihb => exact reads_function ihl iht (ahead_block hb) ihb
  | operators h ih => exact reads_operators (opens_of_derives h) ih
  | tighter hk _ ih => exact reads_tighter hk ih
  | binary op _ _ ihl ihr => exact reads_binary op ihl ihr
  | operand _ ih => exact reads_operand ih
  | call _ _ ih ihl => exact reads_call ih ihl
  | member _ hn ih => exact reads_member ih hn
  | subscript _ _ ih ihk => exact reads_subscript ih ihk
  | primary _ ih => exact reads_primary ih
  | reference hn => exact reads_reference hn
  | number hx => exact reads_number hx
  | text contents => exact reads_text contents
  | parenthesized _ ih => exact reads_parenthesized ih
  | noItem => exact reads_noItem
  | lastItem h ih => exact reads_lastItem (opens_of_derives h) ih
  | moreItems h _ ih ihl => exact reads_moreItems (opens_of_derives h) ih ihl
  | argument _ ih => exact ih
  | shorthand hn => exact reads_shorthand hn
  | property hn _ ih => exact reads_property hn ih
  | parameter hn htype => exact reads_parameter hn htype
  | untyped => exact reads_untyped
  | typed hn => exact reads_typed hn
  | declare kind hn _ _ iht ih => exact reads_declare kind hn iht ih
  | reserve hn htype => exact reads_reserve hn htype
  | declareFunction hn _ htype _ ihl ihb => exact reads_declareFunction hn ihl htype ihb
  | leave => exact reads_leave
  | giveBack h ih => exact reads_giveBack (opens_of_derives h) ih
  | conditional _ ih => exact reads_conditional ih
  | loop _ _ ih ihb => exact reads_loop ih ihb
  | breakLoop => exact reads_control fun ls => statement_eq _
  | continueLoop => exact reads_control fun ls => statement_eq _
  | expression h ih => exact reads_expression (opens_of_derives h) ih
  | choice _ _ _ ih ihb iha => exact reads_choice ih ihb iha
  | nothing => exact reads_nothing
  | otherwise _ ih => exact reads_otherwise ih
  | elseIf _ ih => exact reads_elseIf ih
  | block kind _ ih => exact reads_block kind ih
  | empty => exact reads_empty
  | statement h hl ih ihl => exact reads_statement (opens_of_derives h) ih hl ihl
  | program _ ih => exact reads_program ih

end Guion.Parser
