import Guion.Proofs.Parse.Contract

/-!
# The positions of a tree

Every position in a tree is a range of its tokens: it runs from one of them to the same or a
later one. Said of maps of positions: one that leaves the ranges of the tokens alone leaves
the tree alone.
-/

namespace Guion

/-- `Fixes f ts`: the tokens come in order, and the map leaves their ranges alone. -/
structure Fixes (f : Span → Span) (ts : List (Token Span)) : Prop where
  ordered : Ordered ts
  eq_of_points : ∀ r, Points ts r → f r = r

namespace Fixes

variable {f : Span → Span} {ts us : List (Token Span)} {t : Token Span} {r : Span}

theorem part (h : Fixes f ts) (hus : us.Sublist ts) : Fixes f us where
  ordered := h.ordered.sublist hus
  eq_of_points r points := h.eq_of_points r (points.mono hus)

theorem whole (h : Fixes f ts) (spans : Spans ts r) : f r = r :=
  h.eq_of_points r ⟨ts, .refl ts, spans⟩

theorem through (h : Fixes f ts) (us : List (Token Span)) (hus : us.Sublist ts)
    (spans : Spans us r) : f r = r :=
  (h.part hus).whole spans

theorem token (h : Fixes f ts) (ht : t ∈ ts) : f t.range = t.range :=
  h.through [t] (List.singleton_sublist.mpr ht) (.single t)

end Fixes

namespace Grammar

variable {f : Span → Span}

/-- An item that a map of positions leaves alone. -/
def Item.Fixed (f : Span → Span) : (what : Item) → what.TreeAt Span → Prop
  | .argument, e => e.map f = e
  | .property, p => p.map f = p
  | .parameter, p => p.map f = p

/-- A tree that a map of positions leaves alone. The range of a condition begins with a
keyword that is not among its tokens. -/
def Phrase.Fixed (f : Span → Span) : (g : Phrase) → g.TreeAt Span → Prop
  | .expression, e | .unit, e | .tier _, e | .chain, e | .primary, e => e.map f = e
  | .item what, a => what.Fixed f a
  | .items what, list => ∀ a ∈ list, what.Fixed f a
  | .ascription, type => type.map (Located.map f) = type
  | .statement, s => s.map f = s
  | .statements, list => list.map (Stmt.map f) = list
  | .block _, b => b.map f = b
  | .choice, c => f c.range = c.range → c.map f = c
  | .alternate, a => a.map f = a
  | .program, p => p.map f = p

/-- What leaves each of some things alone leaves their list alone. -/
theorem map_fixed {α : Type} {move : α → α} {list : List α} (h : ∀ a ∈ list, move a = a) :
    list.map move = list :=
  (List.map_congr_left h).trans (List.map_id list)

/-- Every position in a tree is a range of its tokens. -/
theorem Covers.fixed {g : Phrase} {ts : List (Token Span)} {t : g.TreeAt Span}
    (h : Covers g ts t) (fixes : Fixes f ts) : g.Fixed f t := by
  -- where the tree as a whole stands is known; its parts are ranges of fewer tokens
  have spanned := h.spanned
  induction h with
  | unit h ih => exact ih fixes h.spanned
  | @assign _ _ _ target source ht _ hs iht ihs =>
      have range : f (target.range.cover source.range) = _ := fixes.whole (spanned fixes.ordered)
      have target_eq : target.map f = target := iht (fixes.part (by grind)) ht.spanned
      have source_eq : source.map f = source := ihs (fixes.part (by grind)) hs.spanned
      rw [Phrase.Fixed, Expr.map, range, target_eq, source_eq]
  | @object _ opening closing properties hp ih =>
      have range : f (opening.through closing) = _ := fixes.whole spanned
      have each : ∀ p ∈ properties, p.map f = p := ih (fixes.part (by grind)) hp.spanned
      rw [Phrase.Fixed, Expr.map, Property.mapAll_eq, map_fixed each, range]
  | @function _ _ _ keyword _ _ parameters type body hp ht hb ihp iht ihb =>
      have range : f (keyword.through body.range) = _ := fixes.whole spanned
      have each : ∀ p ∈ parameters, p.map f = p := ihp (fixes.part (by grind)) hp.spanned
      have type_eq : type.map (Located.map f) = type := iht (fixes.part (by grind)) ht.spanned
      have body_eq : body.map f = body := ihb (fixes.part (by grind)) hb.spanned
      rw [Phrase.Fixed, Expr.map, Function.map, map_fixed each, type_eq, body_eq, range]
  | operators h ih => exact ih fixes h.spanned
  | tighter _ h ih => exact ih fixes h.spanned
  | @binary _ _ r lhs rhs op hl hr ihl ihr =>
      have range : f (lhs.range.through rhs.range) = _ := fixes.whole spanned
      have sign : f r = r := fixes.token (t := ⟨op.lexeme, r⟩) (by simp)
      have lhs_eq : lhs.map f = lhs := ihl (fixes.part (by grind)) hl.spanned
      have rhs_eq : rhs.map f = rhs := ihr (fixes.part (by grind)) hr.spanned
      rw [Phrase.Fixed, Expr.map, Located.map, lhs_eq, rhs_eq, sign, range]
  | operand h ih => exact ih fixes h.spanned
  | @call _ us opening closing arguments callee hc ha ihc iha =>
      have range : f (callee.range.through closing) = _ := fixes.whole spanned
      have opening_eq : f opening = opening :=
        fixes.token (t := ⟨.punctuator .leftParen, opening⟩) (by simp)
      have closing_eq : f closing = closing :=
        fixes.token (t := ⟨.punctuator .rightParen, closing⟩) (by simp)
      have part : f (opening.through closing) = _ :=
        fixes.through (⟨.punctuator .leftParen, opening⟩ :: us ++
          [⟨.punctuator .rightParen, closing⟩]) (by simp) (by simp [Spans])
      have callee_eq : callee.map f = callee := ihc (fixes.part (by grind)) hc.spanned
      have each : ∀ e ∈ arguments, e.map f = e := iha (fixes.part (by grind)) ha.spanned
      rw [Phrase.Fixed, Expr.map, Expr.mapAll_eq, map_fixed each, callee_eq, opening_eq,
        closing_eq, part, range]
  | @member _ period t _ base hb _ ih =>
      have range : f (base.range.through t.range) = _ := fixes.whole spanned
      have name : f t.range = _ := fixes.token (by simp)
      have part : f (period.through t.range) = _ :=
        fixes.through [⟨.punctuator .period, period⟩, t] (by simp) rfl
      have base_eq : base.map f = base := ih (fixes.part (by grind)) hb.spanned
      rw [Phrase.Fixed, Expr.map, Located.map, base_eq, name, part, range]
  | @subscript _ us opening closing base key hb hk ihb ihk =>
      have range : f (base.range.through closing) = _ := fixes.whole spanned
      have part : f (opening.through closing) = _ :=
        fixes.through (⟨.punctuator .leftBracket, opening⟩ :: us ++
          [⟨.punctuator .rightBracket, closing⟩]) (by simp) (by simp [Spans])
      have base_eq : base.map f = base := ihb (fixes.part (by grind)) hb.spanned
      have key_eq : key.map f = key := ihk (fixes.part (by grind)) hk.spanned
      rw [Phrase.Fixed, Expr.map, base_eq, key_eq, part, range]
  | primary h ih => exact ih fixes h.spanned
  | @reference t _ _ =>
      have range : f t.range = _ := fixes.whole spanned
      rw [Phrase.Fixed, Expr.map, Located.map, range]
  | @number _ r _ _ | @text _ r =>
      have range : f r = _ := fixes.whole spanned
      rw [Phrase.Fixed, Expr.map, range]
  | @parenthesized _ opening closing e h ih =>
      have range := fixes.whole spanned
      have inner : e.map f = e := ih (fixes.part (by grind)) h.spanned
      rw [Expr.range_withRange] at range
      rw [Phrase.Fixed, Expr.map_withRange, inner, range]
  | noItem => exact fun a ha => absurd ha List.not_mem_nil
  | lastItem h ih => exact List.forall_mem_singleton.mpr (ih fixes h.spanned)
  | moreItems ha hl iha ihl =>
      refine List.forall_mem_cons.mpr ⟨iha (fixes.part (by grind)) ha.spanned, ?_⟩
      exact ihl (fixes.part (by grind)) hl.spanned
  | argument h ih => exact ih fixes h.spanned
  | @shorthand t _ _ =>
      have key : f t.range = _ := fixes.token (by simp)
      rw [Phrase.Fixed, Item.Fixed, Property.map, Located.map, key]
      rfl
  | @property t _ _ _ e _ h ih =>
      have key : f t.range = _ := fixes.token (by simp)
      have value : e.map f = e := ih (fixes.part (by grind)) h.spanned
      rw [Phrase.Fixed, Item.Fixed, Property.map, Located.map, Expr.mapOption, key, value]
  | @parameter t _ _ u _ _ _ =>
      have name : f t.range = _ := fixes.token (by simp)
      have type : f u.range = _ := fixes.token (by simp)
      rw [Phrase.Fixed, Item.Fixed, Parameter.map, Located.map, Located.map, name, type]
  | untyped => rfl
  | @typed _ t _ _ =>
      have type : f t.range = _ := fixes.token (by simp)
      rw [Phrase.Fixed, Option.map_some, Located.map, type]
  | @declare t _ _ _ type keyword _ final value kind _ ht hv iht ihv =>
      have range : f (keyword.through final) = _ := fixes.whole spanned
      have word : f keyword = _ := fixes.token (t := ⟨.keyword kind.keyword, keyword⟩) (by simp)
      have name : f t.range = _ := fixes.token (by simp)
      have type_eq : type.map (Located.map f) = type := iht (fixes.part (by grind)) ht.spanned
      have value_eq : value.map f = value := ihv (fixes.part (by grind)) hv.spanned
      rw [Phrase.Fixed, Stmt.map, Located.map, Located.map, Expr.mapOption, type_eq, value_eq,
        word, name, range]
  | @reserve t _ u _ keyword _ final _ _ =>
      have range : f (keyword.through final) = _ := fixes.whole spanned
      have word : f keyword = _ := fixes.token (t := ⟨.keyword .var, keyword⟩) (by simp)
      have name : f t.range = _ := fixes.token (by simp)
      have type : f u.range = _ := fixes.token (by simp)
      rw [Phrase.Fixed, Stmt.map, Located.map, Located.map, Option.map_some, Located.map, type,
        word, name, range]
      rfl
  | @declareFunction t _ _ parameters u _ _ keyword _ _ _ body _ hp _ hb ihp ihb =>
      have range : f (keyword.through body.range) = _ := fixes.whole spanned
      have name : f t.range = _ := fixes.token (by simp)
      have type : f u.range = _ := fixes.token (by simp)
      have each : ∀ p ∈ parameters, p.map f = p := ihp (fixes.part (by grind)) hp.spanned
      have body_eq : body.map f = body := ihb (fixes.part (by grind)) hb.spanned
      rw [Phrase.Fixed, Stmt.map, Function.map, map_fixed each, Located.map, Option.map_some,
        Located.map, body_eq, type, name, range]
  | @leave keyword final =>
      have range : f (keyword.through final) = _ := fixes.whole spanned
      have word : f keyword = _ := fixes.token (t := ⟨.keyword .devolver, keyword⟩) (by simp)
      rw [Phrase.Fixed, Stmt.map, Expr.mapOption, word, range]
  | @giveBack _ keyword final value h ih =>
      have range : f (keyword.through final) = _ := fixes.whole spanned
      have word : f keyword = _ := fixes.token (t := ⟨.keyword .devolver, keyword⟩) (by simp)
      have value_eq : value.map f = value := ih (fixes.part (by grind)) h.spanned
      rw [Phrase.Fixed, Stmt.map, Expr.mapOption, word, value_eq, range]
  | @conditional _ _ choice h spans ih =>
      have range : f choice.range = _ := fixes.whole spans
      have choice_eq : choice.map f = choice := ih (fixes.part (by grind)) h.spanned range
      rw [Phrase.Fixed, Stmt.map, choice_eq, range]
  | @loop _ condition _ keyword _ _ _ body hc hb ihc ihb =>
      have range : f (keyword.through body.range) = _ := fixes.whole spanned
      have condition_eq : condition.map f = condition := ihc (fixes.part (by grind)) hc.spanned
      have body_eq : body.map f = body := ihb (fixes.part (by grind)) hb.spanned
      rw [Phrase.Fixed, Stmt.map, condition_eq, body_eq, range]
  | @breakLoop keyword final | @continueLoop keyword final =>
      have range : f (keyword.through final) = _ := fixes.whole spanned
      rw [Phrase.Fixed, Stmt.map, range]
  | @expression t _ value final h ih =>
      have range : f (t.range.through final) = _ := fixes.whole spanned
      have value_eq : value.map f = value := ih (fixes.part (by grind)) h.spanned
      rw [Phrase.Fixed, Stmt.map, value_eq, range]
  | @choice _ condition _ consequent _ alternate _ _ _ hc hb ha ihc ihb iha =>
      intro range
      have condition_eq : condition.map f = condition := ihc (fixes.part (by grind)) hc.spanned
      have block_eq : consequent.map f = consequent := ihb (fixes.part (by grind)) hb.spanned
      have rest_eq : alternate.map f = alternate := iha (fixes.part (by grind)) ha.spanned
      rw [Conditional.map, condition_eq, block_eq, rest_eq, range]
  | nothing => rfl
  | @otherwise _ block _ h ih =>
      have block_eq : block.map f = block := ih (fixes.part (by grind)) h.spanned
      rw [Phrase.Fixed, Alternate.map, block_eq]
  | @elseIf _ _ choice h spans ih =>
      have range : f choice.range = _ := fixes.whole spans
      have choice_eq : choice.map f = choice := ih (fixes.part (by grind)) h.spanned range
      rw [Phrase.Fixed, Alternate.map, choice_eq]
  | @block _ list opening closing kind h ih =>
      have range : f (opening.through closing) = _ := fixes.whole spanned
      have list_eq : list.map (Stmt.map f) = list := ih (fixes.part (by grind)) h.spanned
      rw [Phrase.Fixed, Block.map, Stmt.mapAll_eq, list_eq, range]
  | empty => rfl
  | @statement _ s _ list hs hl ihs ihl =>
      have s_eq : s.map f = s := ihs (fixes.part (by grind)) hs.spanned
      have list_eq : list.map (Stmt.map f) = list := ihl (fixes.part (by grind)) hl.spanned
      rw [Phrase.Fixed, List.map_cons, s_eq, list_eq]

end Grammar

end Guion
