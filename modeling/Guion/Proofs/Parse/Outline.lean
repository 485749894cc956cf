import Guion.Proofs.Parse.Contract

/-!
# Outlines of trees

An outline keeps of a tree what stands at a range of its own, and what of it stands inside
what: programs, statements, blocks, conditions, functions, expressions, the parts behind the
operand of a call or an access, and down to names, operators and single words. Two things can
be said of an outline. It lies along some tokens if each part was made of tokens that follow
each other, its range runs from the first of these to the last, and the parts inside come one
behind another. It is nested if no range ends before it begins, parts lie inside what they are
parts of, and none begins before the one in front has ended. Along tokens that come in order,
an outline is nested.

The name of a declared function stands inside the definition, between the keyword that the
definition begins with and the parameters.
-/

namespace Guion

open Grammar

/-! ### Nodes -/

/-- What stands at a range of its own in a tree. What is called, or accessed, is no part of
the `call`, the `member` or the `subscript` behind it. -/
inductive Node where
  | program (p : Program Span)
  | statement (s : Stmt Span)
  | block (b : Block Span)
  | conditional (c : Conditional Span)
  | function (f : Function Span)
  | expression (e : Expr Span)
  | call (arguments : List (Expr Span)) (opening closing part : Span)
  | member (name : Located Span String) (part : Span)
  | subscript (key : Expr Span) (part : Span)
  | operator (op : Located Span Operator)
  | name (n : Located Span String)
  | word (l : Lexeme) (range : Span)

namespace Node

/-- Where a node stands. -/
def range : Node → Span
  | program p => p.range
  | statement s => s.range
  | block b => b.range
  | conditional c => c.range
  | function f => f.range
  | expression e => e.range
  | call _ _ _ r | member _ r | subscript _ r | word _ r => r
  | operator op => op.range
  | name n => n.range

/-- `n.MadeOf ts`: these are the tokens that the node was parsed from. The keyword of a
condition is one of them, and so is that of a function; those of a program include the end. -/
def MadeOf : Node → List (Token Span) → Prop
  | program p, ts => ∃ body stop, ts = body ++ [⟨.endOfFile, stop⟩] ∧
      Covers .statements body p.statements
  | statement s, ts => Covers .statement ts s
  | block b, ts => Covers (.block b.kind) ts b
  | conditional c, ts => ∃ word r us, ts = ⟨.keyword word, r⟩ :: us ∧
      (word = .si ∨ word = .peroSi) ∧ Covers .choice us c
  | function f, ts => ∃ r us, ts = ⟨.keyword .funcion, r⟩ :: us ∧
      (Covers .unit ts (.function f.range f) ∨
        ∃ name, Covers .statement ts (.function f.range name f))
  | expression e, ts => Covers .expression ts e
  | call arguments opening closing _, ts => ∃ us, ts = ⟨.punctuator .leftParen, opening⟩ :: us ++
      [⟨.punctuator .rightParen, closing⟩] ∧ Covers (.items .argument) us arguments
  | member n _, ts => ∃ period l, ts = [⟨.punctuator .period, period⟩, ⟨l, n.range⟩] ∧
      Names l n.value
  | subscript key _, ts => ∃ opening us closing, ts = ⟨.punctuator .leftBracket, opening⟩ :: us ++
      [⟨.punctuator .rightBracket, closing⟩] ∧ Covers .expression us key
  | operator op, ts => ts = [⟨op.value.lexeme, op.range⟩]
  | name n, ts => ∃ l, ts = [⟨l, n.range⟩] ∧ Names l n.value
  | word l r, ts => ts = [⟨l, r⟩]

end Node

/-! ### Outlines -/

/-- A node, and the outlines of its parts in the order in which they stand. -/
inductive Outline where
  | mk (node : Node) (parts : List Outline)

namespace Outline

/-- What an outline is the outline of. -/
def node : Outline → Node
  | mk node _ => node

/-- The outlines of the parts. -/
def parts : Outline → List Outline
  | mk _ parts => parts

/-- Where the node stands. -/
def range (o : Outline) : Span := o.node.range

/-- A node without parts. -/
def leaf (node : Node) : Outline := mk node []

end Outline

/-- The outline of a name. -/
def Located.outline (n : Located Span String) : Outline := .leaf (.name n)

/-- The names in a parameter. -/
def Parameter.parts (p : Parameter Span) : List Outline := [p.name.outline, p.type.outline]

mutual

/-- What is inside an expression. -/
def Expr.parts : Expr Span → List Outline
  | .assign _ target source =>
    [⟨.expression target, target.parts⟩, ⟨.expression source, source.parts⟩]
  | .binary _ operator lhs rhs =>
    [⟨.expression lhs, lhs.parts⟩, .leaf (.operator operator), ⟨.expression rhs, rhs.parts⟩]
  | .function _ definition => [⟨.function definition, definition.parts⟩]
  | .object _ properties => Property.allParts properties
  | .call _ callee arguments opening closing part =>
    [⟨.expression callee, callee.parts⟩,
      ⟨.call arguments opening closing part, .leaf (.word (.punctuator .leftParen) opening) ::
        Expr.outlines arguments ++ [.leaf (.word (.punctuator .rightParen) closing)]⟩]
  | .member _ base name part =>
    [⟨.expression base, base.parts⟩, ⟨.member name part, [name.outline]⟩]
  | .subscript _ base key part =>
    [⟨.expression base, base.parts⟩, ⟨.subscript key part, [⟨.expression key, key.parts⟩]⟩]
  | .number .. | .text .. => []
  | .reference _ name => [name.outline]

/-- Several expressions. -/
def Expr.outlines : List (Expr Span) → List Outline
  | [] => []
  | e :: rest => ⟨.expression e, e.parts⟩ :: Expr.outlines rest

/-- An expression that may be missing. -/
def Expr.optionOutline : Option (Expr Span) → List Outline
  | none => []
  | some e => [⟨.expression e, e.parts⟩]

/-- The key of a property, and its value. -/
def Property.parts : Property Span → List Outline
  | ⟨key, value⟩ => key.outline :: Expr.optionOutline value

/-- What is inside several properties. -/
def Property.allParts : List (Property Span) → List Outline
  | [] => []
  | p :: rest => p.parts ++ Property.allParts rest

/-- What is inside a function, but for its name. -/
def Function.parts : Function Span → List Outline
  | ⟨parameters, returnType, body, _⟩ => parameters.flatMap Parameter.parts ++
      (returnType.toList.map Located.outline ++ [⟨.block body, body.parts⟩])

/-- The statements in a block. -/
def Block.parts : Block Span → List Outline
  | ⟨_, _, statements⟩ => Stmt.outlines statements

/-- What is inside a statement. -/
def Stmt.parts : Stmt Span → List Outline
  | .breakLoop _ | .continueLoop _ => []
  | .expression _ value => [⟨.expression value, value.parts⟩]
  | .function _ name definition => [⟨.function definition, name.outline :: definition.parts⟩]
  | .conditional _ choice => [⟨.conditional choice, choice.parts⟩]
  | .giveBack _ keyword value =>
    .leaf (.word (.keyword .devolver) keyword) :: Expr.optionOutline value
  | .declare _ kind name type value =>
    .leaf (.word (.keyword kind.value.keyword) kind.range) :: name.outline ::
      type.toList.map Located.outline ++ Expr.optionOutline value
  | .loop _ condition body =>
    [⟨.expression condition, condition.parts⟩, ⟨.block body, body.parts⟩]

/-- Several statements. -/
def Stmt.outlines : List (Stmt Span) → List Outline
  | [] => []
  | s :: rest => ⟨.statement s, s.parts⟩ :: Stmt.outlines rest

/-- What is inside a condition: the expression, its block, and what else there is. -/
def Conditional.parts : Conditional Span → List Outline
  | ⟨_, condition, consequent, alternate⟩ =>
    ⟨.expression condition, condition.parts⟩ :: ⟨.block consequent, consequent.parts⟩ ::
      alternate.outlines

/-- What follows the block of a condition. -/
def Alternate.outlines : Alternate Span → List Outline
  | .nothing => []
  | .otherwise block => [⟨.block block, block.parts⟩]
  | .elseIf choice => [⟨.conditional choice, choice.parts⟩]

end

/-- The outline of an expression. -/
def Expr.outline (e : Expr Span) : Outline := ⟨.expression e, e.parts⟩

/-- The outline of a statement. -/
def Stmt.outline (s : Stmt Span) : Outline := ⟨.statement s, s.parts⟩

/-- The outline of a block. -/
def Block.outline (b : Block Span) : Outline := ⟨.block b, b.parts⟩

/-- The outline of a program. -/
def Program.outline (p : Program Span) : Outline := ⟨.program p, p.statements.map Stmt.outline⟩

theorem Expr.outlines_eq (list : List (Expr Span)) :
    Expr.outlines list = list.flatMap fun e => [e.outline] := by
  induction list with
  | nil => rfl
  | cons e rest ih => rw [Expr.outlines, ih, List.flatMap_cons, Expr.outline, List.singleton_append]

theorem Property.allParts_eq (list : List (Property Span)) :
    Property.allParts list = list.flatMap Property.parts := by
  induction list with
  | nil => rfl
  | cons p rest ih => rw [Property.allParts, ih, List.flatMap_cons]

theorem Stmt.outlines_eq (list : List (Stmt Span)) :
    Stmt.outlines list = list.map Stmt.outline := by
  induction list with
  | nil => rfl
  | cons s rest ih => rw [Stmt.outlines, ih, List.map_cons, Stmt.outline]

/-- Parentheses change where an expression stands and nothing inside. -/
theorem Expr.parts_withRange (e : Expr Span) (r : Span) : (e.withRange r).parts = e.parts := by
  cases e <;> simp only [Expr.withRange, Expr.parts]

/-! ### Outlines along tokens -/

/-- `Outlined ts list`: these lie along the tokens, one behind another. -/
inductive Outlined : List (Token Span) → List Outline → Prop
  | none (ts) : Outlined ts []
  | part {ts node parts} : node.MadeOf ts → Spans ts node.range → Outlined ts parts →
      Outlined ts [⟨node, parts⟩]
  | append {ts us list more} : Outlined ts list → Outlined us more →
      Outlined (ts ++ us) (list ++ more)

/-- `o.Over ts`: the outline takes up these tokens. Its node was made of them and runs from the
first to the last, and its parts lie along them. -/
structure Outline.Over (o : Outline) (ts : List (Token Span)) : Prop where
  made : o.node.MadeOf ts
  spans : Spans ts o.range
  outlined : Outlined ts o.parts

namespace Outlined

variable {ts us : List (Token Span)} {list : List Outline}

theorem of_over {o : Outline} (h : o.Over ts) : Outlined ts [o] := by
  obtain ⟨node, parts⟩ := o
  exact .part h.made h.spans h.outlined

theorem before (h : Outlined ts list) (us : List (Token Span)) : Outlined (us ++ ts) list :=
  (Outlined.none us).append h

theorem behind (h : Outlined ts list) (us : List (Token Span)) : Outlined (ts ++ us) list := by
  simpa using h.append (.none us)

theorem word (l : Lexeme) (r : Span) : Outlined [⟨l, r⟩] [.leaf (.word l r)] :=
  .part rfl (.single ⟨l, r⟩) (.none _)

theorem operator (op : Located Span Operator) :
    Outlined [⟨op.value.lexeme, op.range⟩] [.leaf (.operator op)] :=
  .part rfl (.single ⟨_, op.range⟩) (.none _)

theorem name {t : Token Span} {n : String} (named : Names t.lexeme n) :
    Outlined [t] [Located.outline ⟨t.range, n⟩] :=
  .part ⟨t.lexeme, rfl, named⟩ (.single t) (.none _)

end Outlined

/-! ### Ranges inside each other -/

/-- `a.Within b`: no part of `a` is outside of `b`. -/
def Span.Within (a b : Span) : Prop :=
  b.start.offset ≤ a.start.offset ∧ a.stop.offset ≤ b.stop.offset

/-- `a.Before b`: where `b` begins, `a` has ended. -/
def Span.Before (a b : Span) : Prop := a.stop.offset ≤ b.start.offset

/-- An outline in which no range ends before it begins, each lies inside that of which it is a
part, and each begins where the one in front of it has ended, or behind that. -/
inductive Outline.Nested : Outline → Prop
  | mk {node : Node} {parts : List Outline} :
      node.range.start.offset ≤ node.range.stop.offset → (∀ o ∈ parts, o.Nested) →
      (∀ o ∈ parts, o.range.Within node.range) →
      parts.Pairwise (fun a b => a.range.Before b.range) → Nested ⟨node, parts⟩

section

variable {ts : List (Token Span)} {a : Span}

/-- No token ends behind the last one. -/
theorem InOrder.stop_le_lastOf {t : Token Span} (order : InOrder (t :: ts)) :
    ∀ u ∈ t :: ts, u.range.stop.offset ≤ (lastOf t.range ts).stop.offset := by
  induction ts generalizing t with
  | nil => exact List.forall_mem_singleton.mpr (Nat.le_refl _)
  | cons v ts ih =>
      have behind := ih (order.sublist (List.sublist_cons_self t _))
      refine List.forall_mem_cons.mpr ⟨?_, behind⟩
      calc t.range.stop.offset
        _ ≤ v.range.start.offset := (List.pairwise_cons.mp order.pairwise).1 v (by simp)
        _ ≤ v.range.stop.offset := order.le v (by simp)
        _ ≤ _ := behind v (by simp)

/-- What spans tokens that come in order has all of them inside. -/
theorem Spans.contains (h : Spans ts a) (order : InOrder ts) : ∀ t ∈ ts, t.range.Within a := by
  cases ts with
  | nil => exact h.elim
  | cons first rest =>
      subst h
      refine fun t ht => ⟨?_, order.stop_le_lastOf t ht⟩
      rcases List.mem_cons.mp ht with rfl | behind
      · exact Nat.le_refl _
      · have apart := (List.pairwise_cons.mp order.pairwise).1 t behind
        exact Nat.le_trans (order.le first (by simp)) apart

end

/-- Along tokens that come in order, outlines are nested, and come in order themselves. -/
theorem Outlined.nested {ts : List (Token Span)} {list : List Outline} (h : Outlined ts list)
    (order : InOrder ts) : (∀ o ∈ list, o.Nested ∧ Points ts o.range) ∧
      list.Pairwise (fun a b => a.range.Before b.range) := by
  induction h with
  | none => exact ⟨by simp, .nil⟩
  | @part ts node parts made spans _ ih =>
      obtain ⟨inside, apart⟩ := ih order
      refine ⟨fun o ho => ?_, List.pairwise_singleton _ _⟩
      obtain rfl := List.mem_singleton.mp ho
      refine ⟨.mk ?_ (fun o ho => (inside o ho).1) (fun o ho => ?_) apart, ts, .refl ts, spans⟩
      · obtain ⟨first, -, last, hlast, hrange, le⟩ := spans.exists_ends order
        rw [hrange]
        exact Nat.le_trans le (order.le last hlast)
      · obtain ⟨first, hfirst, last, hlast, hrange, -⟩ := (inside o ho).2.exists_ends order
        rw [hrange]
        exact ⟨(spans.contains order first hfirst).1, (spans.contains order last hlast).2⟩
  | @append ts us list more _ _ ihl ihm =>
      obtain ⟨front, apart⟩ := ihl order.left
      obtain ⟨back, apart'⟩ := ihm order.right
      refine ⟨List.forall_mem_append.mpr ⟨fun o ho => ?_, fun o ho => ?_⟩,
        List.pairwise_append.mpr ⟨apart, apart', fun o ho o' ho' => ?_⟩⟩
      · exact ⟨(front o ho).1, (front o ho).2.mono (List.sublist_append_left ts us)⟩
      · exact ⟨(back o ho).1, (back o ho).2.mono (List.sublist_append_right ts us)⟩
      · -- the one ends with a token of the first, the other begins with one of those behind
        obtain ⟨_, -, last, hlast, hrange, -⟩ := (front o ho).2.exists_ends order.left
        obtain ⟨first, hfirst, _, -, hrange', -⟩ := (back o' ho').2.exists_ends order.right
        rw [Span.Before, hrange, hrange']
        exact order.across last hlast first hfirst

/-- Over tokens that come in order, an outline is nested. -/
theorem Outline.Over.nested {o : Outline} {ts : List (Token Span)} (h : o.Over ts)
    (order : InOrder ts) : o.Nested :=
  (((Outlined.of_over h).nested order).1 o (List.mem_singleton.mpr rfl)).1

end Guion
