import Guion.Proofs.Parse.Outline
import Guion.Proofs.Parse.Rejection
import Guion.Proofs.Parse.Seam

/-!
# Ranges of syntax trees

The range of whatever stands in a syntax tree is that of the tokens that it was made of: the
outline of a phrase lies along its tokens, rule by rule of the grammar. So the outline of a
parsed program takes up all tokens of its source, the end included, and as these come in order
it is nested.
-/

namespace Guion

namespace Grammar

variable {ts us : List (Token Span)} {e : Expr Span}

/-! ### Phrases that are expressions -/

theorem covers_looser {level tight : Nat} (le : level ≤ tight) (bound : tight ≤ operandTier)
    (h : Covers (.tier tight) ts e) : Covers (.tier level) ts e := by
  induction le with
  | refl => exact h
  | step _ ih => exact ih (Nat.le_of_succ_le bound) (.tighter bound h)

theorem Covers.of_tier {level : Nat} (bound : level ≤ operandTier)
    (h : Covers (.tier level) ts e) : Covers .expression ts e :=
  .unit (.operators (covers_looser (Nat.zero_le level) bound h))

theorem Covers.of_chain (h : Covers .chain ts e) : Covers .expression ts e :=
  .of_tier (Nat.le_refl _) (.operand h)

/-! ### Outlines of phrases -/

/-- What is inside an item. -/
def Item.parts : (what : Item) → what.TreeAt Span → List Outline
  | .argument, e => [e.outline]
  | .property, p => p.parts
  | .parameter, p => p.parts

/-- What is inside a phrase lies along its tokens. -/
def Phrase.Laid : (g : Phrase) → List (Token Span) → g.TreeAt Span → Prop
  | .expression, ts, e | .unit, ts, e | .tier _, ts, e | .chain, ts, e | .primary, ts, e =>
    Outlined ts e.parts
  | .item what, ts, a => Outlined ts (what.parts a)
  | .items what, ts, list => Outlined ts (list.flatMap what.parts)
  | .ascription, ts, type => Outlined ts (type.toList.map Located.outline)
  | .statement, ts, s => Outlined ts s.parts
  | .statements, ts, list => Outlined ts (list.map Stmt.outline)
  | .block _, ts, b => Outlined ts b.parts
  | .choice, ts, c => Outlined ts c.parts
  | .alternate, ts, a => Outlined ts a.outlines
  | .program, _, _ => True

/-- An expression lies along its tokens if what is inside does. -/
theorem Covers.outlined (h : Covers .expression ts e) (ordered : Ordered ts)
    (inside : Ordered ts → Outlined ts e.parts) : Outlined ts [e.outline] :=
  .part h (h.spanned ordered) (inside ordered)

/-- A block lies along its tokens if what is inside does. -/
theorem Covers.outlined_block {kind : BlockKind} {b : Block Span} (h : Covers (.block kind) ts b)
    (inside : Outlined ts b.parts) : Outlined ts [b.outline] := by
  have spans : Spans ts b.range := h.spanned
  cases h with
  | block kind h => exact .part (.block kind h) spans inside

/-- What is inside a phrase lies along its tokens. -/
theorem Covers.laid {g : Phrase} {t : g.TreeAt Span} (h : Covers g ts t) (ordered : Ordered ts) :
    g.Laid ts t := by
  induction h with
  | unit _ ih | operators _ ih | tighter _ _ ih | operand _ ih | primary _ ih => exact ih ordered
  | @assign ts us equals target source ht _ hs iht ihs =>
      have left : Outlined ts [target.outline] := (Covers.unit ht).outlined ordered.left iht
      have right : Outlined us [source.outline] := hs.outlined (ordered.sublist (by simp)) ihs
      exact left.append (right.before [⟨.punctuator .assign, equals⟩])
  | @object ts opening closing properties _ ih =>
      have inside : Outlined ts (properties.flatMap Property.parts) :=
        ih (ordered.sublist (by grind))
      rw [Phrase.Laid, Expr.parts, Property.allParts_eq]
      exact (inside.before [_]).behind [_]
  | @function ts us bs keyword opening closing parameters type body hp ht hb ihp iht ihb =>
      have whole := @Covers.function _ _ _ keyword opening closing _ _ _ hp ht hb
      have names : Outlined ts (parameters.flatMap Parameter.parts) :=
        ihp (ordered.sublist (by grind))
      have result : Outlined us (type.toList.map Located.outline) :=
        iht (ordered.sublist (by grind))
      have inside : Outlined bs [body.outline] :=
        hb.outlined_block (ihb (ordered.sublist (by grind)))
      refine .part ⟨keyword, _, rfl, .inl whole⟩ whole.spanned ?_
      rw [List.append_assoc]
      exact (names.before [_, _]).append ((result.append inside).before [_])
  | @binary ts us r lhs rhs op hl hr ihl ihr =>
      have bound : op.tier + 1 ≤ operandTier := Parser.tier_lt op
      have left : Outlined ts [lhs.outline] :=
        (hl.of_tier (Nat.le_of_succ_le bound)).outlined ordered.left ihl
      have right : Outlined us [rhs.outline] :=
        (hr.of_tier bound).outlined (ordered.sublist (by simp)) ihr
      exact left.append ((Outlined.operator ⟨r, op⟩).append right)
  | @call ts us opening closing arguments callee hc ha ihc iha =>
      have left : Outlined ts [callee.outline] :=
        hc.of_chain.outlined (ordered.sublist (by grind)) ihc
      have each : Outlined us (Expr.outlines arguments) := by
        rw [Expr.outlines_eq]
        exact iha (ordered.sublist (by grind))
      have made : (Node.call arguments opening closing (opening.through closing)).MadeOf
          (⟨.punctuator .leftParen, opening⟩ :: us ++ [⟨.punctuator .rightParen, closing⟩]) :=
        ⟨us, rfl, ha⟩
      have inside := ((Outlined.word (.punctuator .leftParen) opening).append each).append
        (.word (.punctuator .rightParen) closing)
      rw [Phrase.Laid, List.append_assoc]
      exact left.append (.part made (by simp [Spans, Node.range]) inside)
  | @member ts period t n base hb named ih =>
      have left : Outlined ts [base.outline] := hb.of_chain.outlined ordered.left ih
      have made : (Node.member ⟨t.range, n⟩ (period.through t.range)).MadeOf
          [⟨.punctuator .period, period⟩, t] := ⟨period, t.lexeme, rfl, named⟩
      exact left.append (.part made rfl ((Outlined.name named).before [_]))
  | @subscript ts us opening closing base key hb hk ihb ihk =>
      have left : Outlined ts [base.outline] :=
        hb.of_chain.outlined (ordered.sublist (by grind)) ihb
      have inside : Outlined us [key.outline] := hk.outlined (ordered.sublist (by grind)) ihk
      have made : (Node.subscript key (opening.through closing)).MadeOf
          (⟨.punctuator .leftBracket, opening⟩ :: us ++ [⟨.punctuator .rightBracket, closing⟩]) :=
        ⟨opening, us, closing, rfl, hk⟩
      rw [Phrase.Laid, List.append_assoc]
      exact left.append (.part made (by simp [Spans, Node.range]) ((inside.before [_]).behind [_]))
  | reference named => exact .name named
  | number | text => exact .none _
  | parenthesized _ ih =>
      rw [Phrase.Laid, Expr.parts_withRange]
      exact ((ih (ordered.sublist (by grind))).before [_]).behind [_]
  | noItem => exact .none _
  | lastItem _ ih => simpa [Phrase.Laid] using ih ordered
  | moreItems _ _ iha ihl =>
      rw [Phrase.Laid, List.flatMap_cons]
      exact (iha ordered.left).append ((ihl (ordered.sublist (by simp))).before [_])
  | argument h ih => exact h.outlined ordered ih
  | shorthand named => exact .name named
  | @property t n r ts e named h ih =>
      have value : Outlined ts [e.outline] := h.outlined (ordered.sublist (by grind)) ih
      exact (Outlined.name named).append (value.before [_])
  | parameter named typed => exact (Outlined.name named).append ((Outlined.name typed).before [_])
  | untyped => exact .none _
  | typed named => exact (Outlined.name named).before [_]
  | @declare t n us ts type keyword equals final value kind named _ hv iht ihv =>
      have word := Outlined.word (.keyword kind.keyword) keyword
      have ascribed : Outlined us (type.toList.map Located.outline) :=
        iht (ordered.sublist (by grind))
      have given : Outlined ts [value.outline] := hv.outlined (ordered.sublist (by grind)) ihv
      have front := word.append ((Outlined.name named).append ascribed)
      exact (front.append (given.before [_])).behind [_]
  | @reserve _ _ _ _ keyword colon final named typed =>
      have word := Outlined.word (.keyword .var) keyword
      have ascribed := (Outlined.name typed).before [⟨.punctuator .colon, colon⟩]
      exact word.append ((Outlined.name named).append (ascribed.behind [_]))
  | @declareFunction t n ts parameters u type bs keyword opening closing colon body named hp typed
      hb ihp ihb =>
      have whole := @Covers.declareFunction _ _ _ _ _ _ _ keyword opening closing colon _
        named hp typed hb
      have names : Outlined ts (parameters.flatMap Parameter.parts) :=
        ihp (ordered.sublist (by grind))
      have inside : Outlined bs [body.outline] :=
        hb.outlined_block (ihb (ordered.sublist (by grind)))
      refine .part ⟨keyword, _, rfl, .inr ⟨_, whole⟩⟩ whole.spanned ?_
      exact (((Outlined.name named).append (names.before [_])).before [_]).append
        (((Outlined.name typed).append inside).before [_, _])
  | leave => exact (Outlined.word _ _).behind [_]
  | @giveBack ts keyword final value h ih =>
      have word := Outlined.word (.keyword .devolver) keyword
      exact (word.append (h.outlined (ordered.sublist (by grind)) ih)).behind [_]
  | @conditional ts keyword choice h spans ih =>
      have inside : Outlined ts choice.parts := ih (ordered.sublist (by grind))
      exact .part ⟨.si, keyword, ts, rfl, .inl rfl, h⟩ spans (inside.before [_])
  | @loop ts condition bs keyword opening closing word body hc hb ihc ihb =>
      have test : Outlined ts [condition.outline] := hc.outlined (ordered.sublist (by grind)) ihc
      have inside : Outlined bs [body.outline] :=
        hb.outlined_block (ihb (ordered.sublist (by grind)))
      exact (test.before [_, _]).append (inside.before [_, _])
  | breakLoop | continueLoop => exact .none _
  | expression h ih => exact (h.outlined ordered.left ih).behind [_]
  | @choice ts condition bs consequent us alternate _ _ _ hc hb _ ihc ihb iha =>
      have test : Outlined ts [condition.outline] := hc.outlined (ordered.sublist (by grind)) ihc
      have first : Outlined bs [consequent.outline] :=
        hb.outlined_block (ihb (ordered.sublist (by grind)))
      have rest : Outlined us alternate.outlines := iha ordered.right
      exact ((test.before [_]).append (first.before [_])).append rest
  | nothing => exact .none _
  | otherwise h ih => exact (h.outlined_block (ih (ordered.sublist (by grind)))).before [_]
  | @elseIf ts keyword choice h spans ih =>
      have inside : Outlined ts choice.parts := ih (ordered.sublist (by grind))
      exact .part ⟨.peroSi, keyword, ts, rfl, .inr rfl, h⟩ spans (inside.before [_])
  | @block ts list opening closing kind _ ih =>
      have inside : Outlined ts (list.map Stmt.outline) := ih (ordered.sublist (by grind))
      rw [Phrase.Laid, Block.parts, Stmt.outlines_eq]
      exact (inside.before [_]).behind [_]
  | empty => exact .none _
  | @statement ts s us list hs _ ihs ihl =>
      have first : Outlined ts [s.outline] := .part hs hs.spanned (ihs ordered.left)
      exact first.append (ihl ordered.right)

/-- An expression takes up the tokens that it was made of, if these come in order. -/
theorem Covers.takes_up (h : Covers .expression ts e) (ordered : Ordered ts) :
    e.outline.Over ts :=
  ⟨h, h.spanned ordered, h.laid ordered⟩

end Grammar

namespace Parser

open Grammar

/-! ### What is parsed -/

/-- An expression is parsed from the tokens that are taken for it. -/
theorem exists_covers_of_expression {c next : Cursor Span} {e : Expr Span}
    (h : expression c = .ok e next) : ∃ ts, Passes c ts next ∧ Covers .expression ts e := by
  have stands : Stands c.rest.length [] c := ⟨by simp, c.last, rfl⟩
  have meets := (keeps_within c.rest.length).1 c.peek c stands rfl
  obtain ⟨ts, passes, covers, -⟩ := meets.yields h
  exact ⟨ts, passes, covers⟩

variable {tokens : List (Token Span)} {p : Program Span} {next : Cursor Span}

/-- The tokens that are a program are its statements and the end. -/
theorem exists_statements_of_program {text : List Char} (tiles : Tiles [] tokens text)
    (h : program (Cursor.ofTokens tokens) = .ok p next) :
    ∃ body stop, tokens = body ++ [⟨.endOfFile, stop⟩] ∧ Covers .statements body p.statements ∧
      Spans tokens p.range := by
  obtain ⟨first, c, hfirst, h⟩ := bind_eq_ok_iff.mp h
  cases hfirst
  obtain ⟨list, final, hlist, h⟩ := bind_eq_ok_iff.mp h
  cases h
  have meets := contract_program tokens.length _ (stands_ofTokens tokens)
  obtain ⟨used, passes, covers, -⟩ := meets.yields hlist
  have split : tokens = used ++ next.rest := congrArg Cursor.rest passes.eq_lead
  have ends := (collect_programStep_iff.mp hlist).peek_final
  obtain ⟨body, hbody, going⟩ := tiles.exists_stop
  cases hrest : next.rest with
  | nil =>
      -- the end is among the tokens, and no statement takes it
      rw [split, hrest, List.append_nil] at tiles
      exact absurd tiles.end_mem covers.derives.no_end
  | cons t rest =>
      have peeked : next.peek = t := by rw [Cursor.peek, hrest]; rfl
      rw [peeked] at ends
      have absent : t ∉ body := fun ht => (going t ht).1 ends
      rw [hbody, hrest] at split
      obtain ⟨rfl, stop, -⟩ := (List.append_cons_inj_of_notMem absent List.not_mem_nil).mp split
      refine ⟨body, _, hbody, covers, ?_⟩
      rw [peeked, ← stop, hbody]
      cases body with
      | nil => rfl
      | cons first body => simp [Spans, Cursor.ofTokens, Cursor.peek]

/-- Ranges are those of tokens. The outline of a parsed program takes up the tokens of its
source: the range of every node, from the whole program, which includes the end of the input,
down to single names, runs from the beginning of the first token that it was parsed from to the
end of the last. It is nested: no range ends before it begins, each lies inside that of the
parent, and siblings come one behind another. The same holds of whatever expression the parser
makes on the way, before parentheses around it give it a wider range. -/
theorem ranges_span_their_tokens {source : String} (lexed : tokenize source = .ok tokens)
    (parsed : program (Cursor.ofTokens tokens) = .ok p next) :
    p.outline.Over tokens ∧ p.outline.Nested ∧
      (∀ t ∈ tokens, t.range.start.offset ≤ t.range.stop.offset) ∧
      ∀ used c e next', Passes (Cursor.ofTokens tokens) used c → expression c = .ok e next' →
        ∃ ts, Passes c ts next' ∧ e.outline.Over ts ∧ e.outline.Nested := by
  have tiles := tiles_of_tokenize lexed
  have order := tiles.inOrder
  have whole : p.outline.Over tokens := by
    obtain ⟨body, stop, rfl, covers, spans⟩ := exists_statements_of_program tiles parsed
    have ordered := tiles.ordered (List.sublist_append_left body _) covers.derives.no_end
    have inside : Outlined body (p.statements.map Stmt.outline) := covers.laid ordered
    exact ⟨⟨body, stop, rfl, covers⟩, spans, inside.behind _⟩
  refine ⟨whole, whole.nested order, order.le, fun used c e next' begins made => ?_⟩
  obtain ⟨ts, passes, covers⟩ := exists_covers_of_expression made
  have inside : ts.Sublist tokens := by
    have split : tokens = used ++ ts ++ next'.rest :=
      congrArg Cursor.rest (begins.trans passes).eq_lead
    rw [split, List.append_assoc]
    exact (List.sublist_append_left ts _).trans (List.sublist_append_right used _)
  have takes := covers.takes_up (tiles.ordered inside covers.derives.no_end)
  exact ⟨ts, passes, takes, takes.nested (order.sublist inside)⟩

/-- An operand in parentheses, and a line feed before the end. -/
theorem ranges_span_their_tokens_parenthesized :
    ∃ tokens p next, tokenize "(a) + b;\n" = .ok tokens ∧
      program (Cursor.ofTokens tokens) = .ok p next ∧
      p = ⟨⟨⟨0, 1, 1⟩, ⟨9, 2, 1⟩⟩, [.expression ⟨⟨0, 1, 1⟩, ⟨8, 1, 9⟩⟩
        (.binary ⟨⟨0, 1, 1⟩, ⟨7, 1, 8⟩⟩ ⟨⟨⟨4, 1, 5⟩, ⟨5, 1, 6⟩⟩, .arithmetic .add⟩
          (.reference ⟨⟨0, 1, 1⟩, ⟨3, 1, 4⟩⟩ ⟨⟨⟨1, 1, 2⟩, ⟨2, 1, 3⟩⟩, "a"⟩)
          (.reference ⟨⟨6, 1, 7⟩, ⟨7, 1, 8⟩⟩ ⟨⟨⟨6, 1, 7⟩, ⟨7, 1, 8⟩⟩, "b"⟩))]⟩ ∧
      p.outline.Over tokens ∧ p.outline.Nested := by
  have reads : (Scanner.ofText "(a) + b;\n".toList).Reads
      [⟨.punctuator .leftParen, ⟨⟨0, 1, 1⟩, ⟨1, 1, 2⟩⟩⟩, ⟨.name "a", ⟨⟨1, 1, 2⟩, ⟨2, 1, 3⟩⟩⟩,
        ⟨.punctuator .rightParen, ⟨⟨2, 1, 3⟩, ⟨3, 1, 4⟩⟩⟩,
        ⟨.punctuator .plus, ⟨⟨4, 1, 5⟩, ⟨5, 1, 6⟩⟩⟩, ⟨.name "b", ⟨⟨6, 1, 7⟩, ⟨7, 1, 8⟩⟩⟩,
        ⟨.punctuator .semicolon, ⟨⟨7, 1, 8⟩, ⟨8, 1, 9⟩⟩⟩] ⟨['\n'], ⟨8, 1, 9⟩, some ';'⟩ := by
    repeat' apply Scanner.Reads.token rfl (by decide)
    exact .done
  have lexed : tokenize "(a) + b;\n" = .ok _ := reads.tokens_eq (Scanner.tokens_of_end rfl rfl)
  refine ⟨_, _, _, lexed, rfl, rfl, ?_⟩
  obtain ⟨whole, nested, -⟩ := ranges_span_their_tokens lexed rfl
  exact ⟨whole, nested⟩

end Parser

end Guion
