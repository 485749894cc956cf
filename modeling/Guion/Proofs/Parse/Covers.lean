import Guion.Proofs.Parse.Soundness
import Guion.Proofs.Tree.Positions

/-!
# Phrases and their tokens

The grammar again, with positions: which lists of tokens make up which trees, and where the
parts of a tree stand. The rules are those of the grammar of lexemes, one for one. A part
of a tree stands from the first to the last token that it was made of; only of an
assignment this is said in another way, and it takes tokens that come in order to see that
it is the same.
-/

namespace Guion

/-! ### Ranges of tokens -/

/-- The range of the last of some tokens; that of the token before them if there are none. -/
def lastOf (before : Span) (ts : List (Token Span)) : Span := ts.foldl (fun _ t => t.range) before

@[simp] theorem lastOf_nil (before : Span) : lastOf before [] = before := rfl

@[simp] theorem lastOf_cons (before : Span) (t : Token Span) (ts : List (Token Span)) :
    lastOf before (t :: ts) = lastOf t.range ts := rfl

@[simp] theorem lastOf_append (before : Span) (ts us : List (Token Span)) :
    lastOf before (ts ++ us) = lastOf (lastOf before ts) us :=
  List.foldl_append

/-- Tokens in the order in which they stand, one behind another. -/
structure InOrder (ts : List (Token Span)) : Prop where
  le : ∀ t ∈ ts, t.range.start.offset ≤ t.range.stop.offset
  pairwise : ts.Pairwise fun t u => t.range.stop.offset ≤ u.range.start.offset

namespace InOrder

variable {ts us : List (Token Span)}

theorem sublist (h : InOrder ts) (hus : us.Sublist ts) : InOrder us :=
  ⟨fun t ht => h.le t (hus.subset ht), h.pairwise.sublist hus⟩

theorem left (h : InOrder (ts ++ us)) : InOrder ts := h.sublist (List.sublist_append_left ts us)

theorem right (h : InOrder (ts ++ us)) : InOrder us := h.sublist (List.sublist_append_right ts us)

theorem across (h : InOrder (ts ++ us)) :
    ∀ t ∈ ts, ∀ u ∈ us, t.range.stop.offset ≤ u.range.start.offset :=
  (List.pairwise_append.mp h.pairwise).2.2

end InOrder

/-- `Spans ts r`: the range runs from the first of these tokens to the last. -/
def Spans : List (Token Span) → Span → Prop
  | [], _ => False
  | t :: ts, r => r = t.range.through (lastOf t.range ts)

namespace Spans

variable {ts us : List (Token Span)} {a b : Span}

theorem ne_nil (h : Spans ts a) : ts ≠ [] := by
  rintro rfl
  exact h

theorem single (t : Token Span) : Spans [t] t.range := rfl

/-- To run to the last token is to run to the end of the range. -/
theorem through_lastOf (h : Spans ts a) (before r : Span) :
    r.through (lastOf before ts) = r.through a := by
  cases ts with
  | nil => exact h.elim
  | cons t ts =>
      subst h
      rfl

/-- With more tokens behind them, the range runs to the last of those. -/
theorem extend (h : Spans ts a) (us : List (Token Span)) :
    Spans (ts ++ us) (a.through (lastOf a us)) := by
  cases ts with
  | nil => exact h.elim
  | cons t ts =>
      subst h
      rw [List.cons_append, Spans, lastOf_append]
      cases us with
      | nil => rfl
      | cons u us => rfl

theorem concat (h : Spans ts a) (us : List (Token Span)) (t : Token Span) :
    Spans (ts ++ us ++ [t]) (a.through t.range) := by
  have whole := h.extend (us ++ [t])
  rwa [lastOf_append, ← List.append_assoc] at whole

theorem through (ha : Spans ts a) (hb : Spans us b) (middle : List (Token Span)) :
    Spans (ts ++ (middle ++ us)) (a.through b) := by
  have whole := ha.extend (middle ++ us)
  rwa [lastOf_append, hb.through_lastOf] at whole

/-- What spans tokens that come in order begins with one of them and ends with one. -/
theorem exists_ends (h : Spans ts a) (order : InOrder ts) :
    ∃ first ∈ ts, ∃ last ∈ ts, a = ⟨first.range.start, last.range.stop⟩ ∧
      first.range.start.offset ≤ last.range.start.offset := by
  cases ts with
  | nil => exact h.elim
  | cons t ts =>
      subst h
      rcases List.eq_nil_or_concat ts with rfl | ⟨ts, u, rfl⟩
      · exact ⟨t, by simp, t, by simp, rfl, Nat.le_refl _⟩
      · refine ⟨t, by simp, u, by simp, by simp [Span.through], ?_⟩
        have behind := (List.pairwise_cons.mp order.pairwise).1 u (by simp)
        exact Nat.le_trans (order.le t (by simp)) behind

end Spans

/-- Tokens in the order in which they stand, each of some length. -/
structure Ordered (ts : List (Token Span)) : Prop where
  lt : ∀ t ∈ ts, t.range.start.offset < t.range.stop.offset
  pairwise : ts.Pairwise fun t u => t.range.stop.offset ≤ u.range.start.offset

namespace Ordered

variable {ts us : List (Token Span)} {a b : Span}

theorem sublist (h : Ordered ts) (hus : us.Sublist ts) : Ordered us :=
  ⟨fun t ht => h.lt t (hus.subset ht), h.pairwise.sublist hus⟩

theorem left (h : Ordered (ts ++ us)) : Ordered ts := h.sublist (List.sublist_append_left ts us)

theorem right (h : Ordered (ts ++ us)) : Ordered us := h.sublist (List.sublist_append_right ts us)

theorem inOrder (h : Ordered ts) : InOrder ts :=
  ⟨fun t ht => Nat.le_of_lt (h.lt t ht), h.pairwise⟩

theorem start_lt_stop (h : Ordered ts) (ha : Spans ts a) : a.start.offset < a.stop.offset := by
  obtain ⟨first, -, last, hlast, rfl, le⟩ := ha.exists_ends h.inOrder
  exact Nat.lt_of_le_of_lt le (h.lt last hlast)

/-- One behind the other, two stretches are covered by what goes through both. -/
theorem cover_eq (h : Ordered (ts ++ us)) (ha : Spans ts a) (hb : Spans us b) :
    a.cover b = a.through b := by
  have ab : a.stop.offset ≤ b.start.offset := by
    obtain ⟨_, -, last, hlast, rfl, -⟩ := ha.exists_ends h.left.inOrder
    obtain ⟨first, hfirst, _, -, rfl, -⟩ := hb.exists_ends h.right.inOrder
    exact h.inOrder.across last hlast first hfirst
  have hstart := h.left.start_lt_stop ha
  have hstop := h.right.start_lt_stop hb
  have apart {x y : Location} (lt : x.offset < y.offset) : y.order x ≠ .lt := by
    have : compare y.offset x.offset = .gt := Nat.compare_eq_gt.mpr lt
    simp [Location.order, this, Ordering.then]
  have first : a.start.earlier b.start = a.start := by
    rw [Location.earlier, if_neg (apart (by omega))]
  have last : a.stop.later b.stop = b.stop := by
    rw [Location.later, if_neg (apart (by omega))]
  rw [Span.cover, first, last, Span.through]

end Ordered

namespace Grammar

/-! ### Trees at positions -/

/-- The trees of the items of a list, with positions. -/
@[reducible] def Item.TreeAt (ρ : Type) : Item → Type
  | .argument => Expr ρ
  | .property => Property ρ
  | .parameter => Parameter ρ

/-- The trees of a kind of phrase, with positions. -/
@[reducible] def Phrase.TreeAt (ρ : Type) : Phrase → Type
  | .expression | .unit | .tier _ | .chain | .primary => Expr ρ
  | .item what => what.TreeAt ρ
  | .items what => List (what.TreeAt ρ)
  | .ascription => Option (Located ρ String)
  | .statement => Stmt ρ
  | .statements => List (Stmt ρ)
  | .block _ => Block ρ
  | .choice => Conditional ρ
  | .alternate => Alternate ρ
  | .program => Program ρ

/-- An item without its positions. -/
def Item.forget : (what : Item) → what.TreeAt Span → what.Tree
  | .argument => Expr.map fun _ => ()
  | .property => Property.map fun _ => ()
  | .parameter => Parameter.map fun _ => ()

/-- A tree without its positions. -/
def Phrase.forget : (g : Phrase) → g.TreeAt Span → g.Tree
  | .expression | .unit | .tier _ | .chain | .primary => Expr.map fun _ => ()
  | .item what => what.forget
  | .items what => List.map what.forget
  | .ascription => Option.map (Located.map fun _ => ())
  | .statement => Stmt.map fun _ => ()
  | .statements => List.map (Stmt.map fun _ => ())
  | .block _ => Block.map fun _ => ()
  | .choice => Conditional.map fun _ => ()
  | .alternate => Alternate.map fun _ => ()
  | .program => Program.map fun _ => ()

/-- `Covers g ts t`: the tokens `ts` are a phrase of kind `g` whose tree is `t`. -/
inductive Covers : (g : Phrase) → List (Token Span) → g.TreeAt Span → Prop
  -- Expressions
  | unit {ts e} : Covers .unit ts e → Covers .expression ts e
  | assign {ts us equals} {target source : Expr Span} : Covers .unit ts target →
      target.isAssignable = true → Covers .expression us source →
      Covers .expression (ts ++ ⟨.punctuator .assign, equals⟩ :: us)
        (.assign (target.range.cover source.range) target source)
  | object {ts opening closing properties} : Covers (.items .property) ts properties →
      Covers .unit (⟨.punctuator .leftBrace, opening⟩ :: ts ++
        [⟨.punctuator .rightBrace, closing⟩]) (.object (opening.through closing) properties)
  | function {ts us bs keyword opening closing parameters type} {body : Block Span} :
      Covers (.items .parameter) ts parameters → Covers .ascription us type →
      Covers (.block .function) bs body →
      Covers .unit (⟨.keyword .funcion, keyword⟩ :: ⟨.punctuator .leftParen, opening⟩ :: ts ++
        ⟨.punctuator .rightParen, closing⟩ :: us ++ bs)
        (.function (keyword.through body.range)
          ⟨parameters, type, body, keyword.through body.range⟩)
  | operators {ts e} : Covers (.tier 0) ts e → Covers .unit ts e
  | tighter {level ts e} : level < operandTier → Covers (.tier (level + 1)) ts e →
      Covers (.tier level) ts e
  | binary {ts us r} {lhs rhs : Expr Span} (op : Operator) : Covers (.tier op.tier) ts lhs →
      Covers (.tier (op.tier + 1)) us rhs →
      Covers (.tier op.tier) (ts ++ ⟨op.lexeme, r⟩ :: us)
        (.binary (lhs.range.through rhs.range) ⟨r, op⟩ lhs rhs)
  | operand {ts e} : Covers .chain ts e → Covers (.tier operandTier) ts e
  | call {ts us opening closing arguments} {callee : Expr Span} : Covers .chain ts callee →
      Covers (.items .argument) us arguments →
      Covers .chain (ts ++ ⟨.punctuator .leftParen, opening⟩ :: us ++
        [⟨.punctuator .rightParen, closing⟩])
        (.call (callee.range.through closing) callee arguments opening closing
          (opening.through closing))
  | member {ts period t n} {base : Expr Span} : Covers .chain ts base → Names t.lexeme n →
      Covers .chain (ts ++ [⟨.punctuator .period, period⟩, t])
        (.member (base.range.through t.range) base ⟨t.range, n⟩ (period.through t.range))
  | subscript {ts us opening closing} {base key : Expr Span} : Covers .chain ts base →
      Covers .expression us key →
      Covers .chain (ts ++ ⟨.punctuator .leftBracket, opening⟩ :: us ++
        [⟨.punctuator .rightBracket, closing⟩])
        (.subscript (base.range.through closing) base key (opening.through closing))
  | primary {ts e} : Covers .primary ts e → Covers .chain ts e
  | reference {t n} : Names t.lexeme n → Covers .primary [t] (.reference t.range ⟨t.range, n⟩)
  | number {literal r x} : Number.read? literal.toList = some x →
      Covers .primary [⟨.number literal, r⟩] (.number r x)
  | text (contents : String) {r} : Covers .primary [⟨.text contents, r⟩] (.text r contents)
  | parenthesized {ts opening closing} {e : Expr Span} : Covers .expression ts e →
      Covers .primary (⟨.punctuator .leftParen, opening⟩ :: ts ++
        [⟨.punctuator .rightParen, closing⟩]) (e.withRange (opening.through closing))
  -- Lists; a comma may stand behind the last item
  | noItem {what} : Covers (.items what) [] []
  | lastItem {what ts a} : Covers (.item what) ts a → Covers (.items what) ts [a]
  | moreItems {what ts us r a list} : Covers (.item what) ts a → Covers (.items what) us list →
      Covers (.items what) (ts ++ ⟨.punctuator .comma, r⟩ :: us) (a :: list)
  | argument {ts e} : Covers .expression ts e → Covers (.item .argument) ts e
  | shorthand {t n} : Names t.lexeme n → Covers (.item .property) [t] ⟨⟨t.range, n⟩, none⟩
  | property {t n r ts} {e : Expr Span} : Names t.lexeme n → Covers .expression ts e →
      Covers (.item .property) (t :: ⟨.punctuator .colon, r⟩ :: ts) ⟨⟨t.range, n⟩, some e⟩
  | parameter {t n r u type} : Names t.lexeme n → Names u.lexeme type →
      Covers (.item .parameter) [t, ⟨.punctuator .colon, r⟩, u] ⟨⟨t.range, n⟩, ⟨u.range, type⟩⟩
  | untyped : Covers .ascription [] none
  | typed {r t n} : Names t.lexeme n →
      Covers .ascription [⟨.punctuator .colon, r⟩, t] (some ⟨t.range, n⟩)
  -- Statements
  | declare {t n us ts type keyword equals final} {value : Expr Span} (kind : VariableKind) :
      Names t.lexeme n → Covers .ascription us type → Covers .expression ts value →
      Covers .statement (⟨.keyword kind.keyword, keyword⟩ :: t :: us ++
        ⟨.punctuator .assign, equals⟩ :: ts ++ [⟨.punctuator .semicolon, final⟩])
        (.declare (keyword.through final) ⟨keyword, kind⟩ ⟨t.range, n⟩ type (some value))
  | reserve {t n u type keyword colon final} : Names t.lexeme n → Names u.lexeme type →
      Covers .statement [⟨.keyword .var, keyword⟩, t, ⟨.punctuator .colon, colon⟩, u,
        ⟨.punctuator .semicolon, final⟩]
        (.declare (keyword.through final) ⟨keyword, .var⟩ ⟨t.range, n⟩ (some ⟨u.range, type⟩)
          none)
  | declareFunction {t n ts parameters u type bs keyword opening closing colon}
      {body : Block Span} : Names t.lexeme n → Covers (.items .parameter) ts parameters →
      Names u.lexeme type → Covers (.block .function) bs body →
      Covers .statement (⟨.keyword .funcion, keyword⟩ :: t :: ⟨.punctuator .leftParen, opening⟩ ::
        ts ++ ⟨.punctuator .rightParen, closing⟩ :: ⟨.punctuator .colon, colon⟩ :: u :: bs)
        (.function (keyword.through body.range) ⟨t.range, n⟩
          ⟨parameters, some ⟨u.range, type⟩, body, keyword.through body.range⟩)
  | leave {keyword final} :
      Covers .statement [⟨.keyword .devolver, keyword⟩, ⟨.punctuator .semicolon, final⟩]
        (.giveBack (keyword.through final) keyword none)
  | giveBack {ts keyword final} {value : Expr Span} : Covers .expression ts value →
      Covers .statement (⟨.keyword .devolver, keyword⟩ :: ts ++
        [⟨.punctuator .semicolon, final⟩])
        (.giveBack (keyword.through final) keyword (some value))
  | conditional {ts keyword} {choice : Conditional Span} : Covers .choice ts choice →
      Spans (⟨.keyword .si, keyword⟩ :: ts) choice.range →
      Covers .statement (⟨.keyword .si, keyword⟩ :: ts) (.conditional choice.range choice)
  | loop {ts condition bs keyword opening closing word} {body : Block Span} :
      Covers .expression ts condition → Covers (.block .loop) bs body →
      Covers .statement (⟨.keyword .mientras, keyword⟩ :: ⟨.punctuator .leftParen, opening⟩ ::
        ts ++ ⟨.punctuator .rightParen, closing⟩ :: ⟨.keyword .hacer, word⟩ :: bs)
        (.loop (keyword.through body.range) condition body)
  | breakLoop {keyword final} :
      Covers .statement [⟨.keyword .romper, keyword⟩, ⟨.punctuator .semicolon, final⟩]
        (.breakLoop (keyword.through final))
  | continueLoop {keyword final} :
      Covers .statement [⟨.keyword .continuar, keyword⟩, ⟨.punctuator .semicolon, final⟩]
        (.continueLoop (keyword.through final))
  | expression {t ts value final} : Covers .expression (t :: ts) value →
      Covers .statement (t :: ts ++ [⟨.punctuator .semicolon, final⟩])
        (.expression (t.range.through final) value)
  -- The keyword of a condition stands before its tokens
  | choice {ts condition bs consequent us alternate opening closing range} :
      Covers .expression ts condition → Covers (.block .conditional) bs consequent →
      Covers .alternate us alternate →
      Covers .choice (⟨.punctuator .leftParen, opening⟩ :: ts ++
        ⟨.punctuator .rightParen, closing⟩ :: bs ++ us)
        ⟨range, condition, consequent, alternate⟩
  | nothing : Covers .alternate [] .nothing
  | otherwise {bs block keyword} : Covers (.block .conditional) bs block →
      Covers .alternate (⟨.keyword .sino, keyword⟩ :: bs) (.otherwise block)
  | elseIf {ts keyword} {choice : Conditional Span} : Covers .choice ts choice →
      Spans (⟨.keyword .peroSi, keyword⟩ :: ts) choice.range →
      Covers .alternate (⟨.keyword .peroSi, keyword⟩ :: ts) (.elseIf choice)
  | block {ts list opening closing} (kind : BlockKind) : Covers .statements ts list →
      Covers (.block kind) (⟨.punctuator .leftBrace, opening⟩ :: ts ++
        [⟨.punctuator .rightBrace, closing⟩]) ⟨kind, opening.through closing, list⟩
  | empty : Covers .statements [] []
  | statement {ts s us list} : Covers .statement ts s → Covers .statements us list →
      Covers .statements (ts ++ us) (s :: list)

/-! ### Positions forgotten -/

/-- Without positions, this is the grammar of lexemes. -/
theorem Covers.derives {g : Phrase} {ts : List (Token Span)} {t : g.TreeAt Span}
    (h : Covers g ts t) : Derives g (ts.map Token.lexeme) (g.forget t) := by
  induction h with
  | unit _ ih => exact .unit ih
  | @assign _ _ _ target _ _ assignable _ iht ihs =>
      have assignable : (target.map fun _ => ()).isAssignable = true := by
        rw [Expr.isAssignable_map, assignable]
      simpa [Phrase.forget, Expr.map] using Derives.assign iht assignable ihs
  | object _ ih => simpa [Phrase.forget, Item.forget, Expr.map] using Derives.object ih
  | function _ _ _ ihp iht ihb =>
      simpa [Phrase.forget, Item.forget, Expr.map, Function.map] using Derives.function ihp iht ihb
  | operators _ ih => exact .operators ih
  | tighter level _ ih => exact .tighter level ih
  | binary op _ _ ihl ihr =>
      simpa [Phrase.forget, Expr.map, Located.map] using Derives.binary op ihl ihr
  | operand _ ih => exact .operand ih
  | call _ _ ihc iha =>
      simpa [Phrase.forget, Item.forget, Expr.map] using Derives.call ihc iha
  | member _ named ih => simpa [Phrase.forget, Expr.map, Located.map] using Derives.member ih named
  | subscript _ _ ihb ihk => simpa [Phrase.forget, Expr.map] using Derives.subscript ihb ihk
  | primary _ ih => exact .primary ih
  | reference named => exact .reference named
  | number read => exact .number read
  | text contents => exact .text contents
  | @parenthesized _ _ _ e _ ih =>
      have same (r : Span) : ((e.withRange r).map fun _ => ()) = e.map fun _ => () := by
        rw [Expr.map_withRange, Parser.withRange_unit]
      simpa [Phrase.forget, same] using Derives.parenthesized ih
  | noItem => exact .noItem
  | lastItem _ ih => exact .lastItem ih
  | moreItems _ _ iha ihl => simpa [Phrase.forget] using Derives.moreItems iha ihl
  | argument _ ih => exact .argument ih
  | shorthand named => exact .shorthand named
  | property named _ ih => exact .property named ih
  | parameter named typed => exact .parameter named typed
  | untyped => exact .untyped
  | typed named => exact .typed named
  | declare kind named _ _ iht ihv =>
      simpa [Phrase.forget, Stmt.map, Located.map] using Derives.declare kind named iht ihv
  | reserve named typed => exact .reserve named typed
  | declareFunction named _ typed _ ihp ihb =>
      simpa [Phrase.forget, Item.forget, Stmt.map, Function.map, Located.map] using
        Derives.declareFunction named ihp typed ihb
  | leave => exact .leave
  | giveBack _ ih => simpa [Phrase.forget, Stmt.map] using Derives.giveBack ih
  | conditional _ _ ih => exact .conditional ih
  | loop _ _ ihc ihb => simpa [Phrase.forget, Stmt.map] using Derives.loop ihc ihb
  | breakLoop => exact .breakLoop
  | continueLoop => exact .continueLoop
  | expression _ ih => simpa [Phrase.forget, Stmt.map] using Derives.expression ih
  | choice _ _ _ ihc ihb iha =>
      simpa [Phrase.forget, Conditional.map] using Derives.choice ihc ihb iha
  | nothing => exact .nothing
  | otherwise _ ih => exact .otherwise ih
  | elseIf _ _ ih => exact .elseIf ih
  | block kind _ ih => simpa [Phrase.forget, Block.map] using Derives.block kind ih
  | empty => exact .empty
  | statement _ _ ihs ihl => simpa [Phrase.forget] using Derives.statement ihs ihl

/-! ### Where the parts of a tree stand -/

/-- What is said of where a phrase stands. An assignment asks for tokens in order. -/
def Phrase.Spanned : (g : Phrase) → List (Token Span) → g.TreeAt Span → Prop
  | .expression, ts, e => Ordered ts → Spans ts e.range
  | .unit, ts, e | .tier _, ts, e | .chain, ts, e | .primary, ts, e => Spans ts e.range
  | .statement, ts, s => Spans ts s.range
  | .block _, ts, b => Spans ts b.range
  | _, _, _ => True

theorem Covers.spanned {g : Phrase} {ts : List (Token Span)} {t : g.TreeAt Span}
    (h : Covers g ts t) : g.Spanned ts t := by
  induction h with
  | unit _ ih => exact fun _ => ih
  | @assign ts us equals _ _ _ _ _ iht ihs =>
      intro ordered
      have apart : Ordered (ts ++ us) :=
        ordered.sublist ((List.sublist_cons_self _ us).append_left ts)
      have source := ihs apart.right
      have whole := iht.through source [⟨.punctuator .assign, equals⟩]
      rwa [← apart.cover_eq iht source] at whole
  | operators _ ih => exact ih
  | tighter level _ ih => exact ih
  | @binary _ _ r _ _ op _ _ ihl ihr => exact ihl.through ihr [⟨op.lexeme, r⟩]
  | operand _ ih => exact ih
  | @call _ us opening closing _ _ _ _ ih _ => exact ih.concat _ ⟨_, closing⟩
  | @member _ period t _ _ _ _ ih => exact ih.extend [⟨.punctuator .period, period⟩, t]
  | @subscript _ us opening closing _ _ _ _ ih _ => exact ih.concat _ ⟨_, closing⟩
  | primary _ ih => exact ih
  | reference | number | text => rfl
  | parenthesized => simp [Phrase.Spanned, Spans]
  | conditional _ spans => exact spans
  | function _ _ _ _ _ ih | declareFunction _ _ _ _ _ ih =>
      have body : Spans _ _ := ih
      simp [Phrase.Spanned, Spans, Expr.range, Stmt.range, body.through_lastOf]
  | loop _ _ _ ih =>
      have body : Spans _ _ := ih
      simp [Phrase.Spanned, Spans, Stmt.range, body.through_lastOf]
  | _ => simp [Phrase.Spanned, Spans, Expr.range, Stmt.range]

/-- An expression is made of something. -/
theorem Covers.ne_nil {ts : List (Token Span)} {e : Expr Span} (h : Covers .expression ts e) :
    ts ≠ [] := by
  cases h with
  | unit h => exact Spans.ne_nil h.spanned
  | assign => simp

theorem Covers.item_ne_nil {what : Item} {ts : List (Token Span)} {a : what.TreeAt Span}
    (h : Covers (.item what) ts a) : ts ≠ [] := by
  cases h with
  | argument h => exact h.ne_nil
  | shorthand | property | parameter => simp

end Grammar

end Guion
