import Guion.Proofs.Token.Joined

/-!
# White space and comments

What may stand between two tokens, as a grammar on characters: blanks, line comments with
the end of their line, and block comments, which nest. Behind the last token a comment may
also be cut off by the end of the source. Skipping layout skips exactly these texts.
-/

namespace Guion

/-- Whether a character is the first of a pair that opens or closes a block comment. -/
def BeginsPair (c : Char) (rest : List Char) : Prop :=
  (c = '/' ∧ rest.head? = some '*') ∨ (c = '*' ∧ rest.head? = some '/')

/-- `CommentTail cut text`: what stands behind the pair that opens a block comment, up to
and including the pair that closes it. If `cut` holds, the comment is never closed and
the end of the source cuts it off. -/
inductive CommentTail : (cut : Bool) → List Char → Prop
  | close : CommentTail false ['*', '/']
  | cut : CommentTail true []
  | nested {cut inner rest} : CommentTail false inner → CommentTail cut rest →
      CommentTail cut ('/' :: '*' :: (inner ++ rest))
  | nestedCut {rest} : CommentTail true rest → CommentTail true ('/' :: '*' :: rest)
  | char {cut c rest} : ¬BeginsPair c rest → CommentTail cut rest → CommentTail cut (c :: rest)

/-- Whether a text stays on its line. -/
def InLine (text : List Char) : Prop := ∀ c ∈ text, isLineEnd c = false

/-- `Spacing cut text`: the text is white space and comments. If `cut` holds, the end of
the source may cut off the last comment. -/
inductive Spacing : (cut : Bool) → List Char → Prop
  | nil {cut} : Spacing cut []
  | blank {cut c rest} : isLayoutBlank c → Spacing cut rest → Spacing cut (c :: rest)
  | line {cut inside stop rest} : InLine inside → isLineEnd stop → Spacing cut rest →
      Spacing cut ('/' :: '/' :: (inside ++ stop :: rest))
  | lineCut {inside} : InLine inside → Spacing true ('/' :: '/' :: inside)
  | block {cut tail rest} : CommentTail false tail → Spacing cut rest →
      Spacing cut ('/' :: '*' :: (tail ++ rest))
  | blockCut {tail} : CommentTail true tail → Spacing true ('/' :: '*' :: tail)

/-! ### Spacing is skipped -/

/-- A comment that is closed tells its first character, whatever follows it. -/
theorem CommentTail.head?_append {tail : List Char} (h : CommentTail false tail)
    (rest : List Char) : (tail ++ rest).head? = tail.head? := by
  cases h <;> rfl

/-- In a comment, a character that begins no pair is passed on its own. -/
theorem splitLayout_char {c : Char} {rest : List Char} (around : Nat) (h : ¬BeginsPair c rest) :
    splitLayout (.block around) (c :: rest) =
      (c :: (splitLayout (.block around) rest).1, (splitLayout (.block around) rest).2) := by
  rw [splitLayout]
  · rintro left rfl rfl
    exact h (.inl ⟨rfl, rfl⟩)
  · rintro left rfl rfl
    exact h (.inr ⟨rfl, rfl⟩)

/-- A block comment is passed as a whole, however deep it is nested. -/
theorem CommentTail.splitLayout_eq {tail : List Char} (h : CommentTail false tail) (around : Nat)
    (rest : List Char) :
    splitLayout (.block around) (tail ++ rest) =
      (tail ++ (splitLayout (.closed around) rest).1, (splitLayout (.closed around) rest).2) := by
  generalize hcut : false = cut at h
  induction h generalizing around rest with
  | close => rfl
  | cut => cases hcut
  | nestedCut => cases hcut
  | @nested cut inner behind _ _ ihInner ihRest =>
      subst hcut
      have inside := ihInner (around + 1) (behind ++ rest) rfl
      have outside := ihRest around rest rfl
      rw [List.cons_append, List.cons_append, List.append_assoc, splitLayout, inside]
      change _ = ('/' :: '*' :: (inner ++ behind) ++ _, _)
      simp only [LayoutState.closed, outside, List.append_assoc, List.cons_append]
  | @char cut c behind pair tail ih =>
      subst hcut
      have apart : ¬BeginsPair c (behind ++ rest) := by
        rwa [BeginsPair, tail.head?_append]
      rw [List.cons_append, splitLayout_char around apart, ih around rest rfl]
      rfl

theorem splitLayout_inLine {inside : List Char} (h : InLine inside) {stop : Char}
    (hstop : isLineEnd stop) (rest : List Char) :
    splitLayout .line (inside ++ stop :: rest) =
      (inside ++ stop :: (splitLayout .between rest).1, (splitLayout .between rest).2) := by
  induction inside with
  | nil => simp [splitLayout, hstop]
  | cons c inside ih =>
      obtain ⟨going, inside⟩ := List.forall_mem_cons.mp h
      simp [splitLayout, going, ih inside]

/-- Spacing is skipped, whatever follows it. -/
theorem Spacing.splitLayout_eq {gap : List Char} (h : Spacing false gap) (rest : List Char) :
    splitLayout .between (gap ++ rest) =
      (gap ++ (splitLayout .between rest).1, (splitLayout .between rest).2) := by
  generalize hcut : false = cut at h
  induction h with
  | nil => rfl
  | blank blank _ ih =>
      rw [List.cons_append, splitLayout_blank blank, ih hcut]
      rfl
  | line inside stop _ ih =>
      have split := splitLayout_inLine inside stop
      simp only [List.cons_append, List.append_assoc, splitLayout, split, ih hcut]
  | lineCut => cases hcut
  | @block cut tail behind closed _ ih =>
      have split := closed.splitLayout_eq 0 (behind ++ rest)
      simp only [List.cons_append, List.append_assoc, splitLayout, split]
      simp only [LayoutState.closed, ih hcut]
  | blockCut => cases hcut

/-! ### What is skipped is spacing -/

/-- What may stand between a place in a block comment, with so many more around it, and the
next token: for each of them what closes it, and then spacing. -/
def CommentTails (cut : Bool) : Nat → List Char → Prop
  | 0, text => (∃ tail rest, text = tail ++ rest ∧ CommentTail false tail ∧ Spacing cut rest) ∨
      (cut = true ∧ CommentTail true text)
  | around + 1, text => (∃ tail rest, text = tail ++ rest ∧ CommentTail false tail ∧
      CommentTails cut around rest) ∨ (cut = true ∧ CommentTail true text)

/-- What may stand between a state of the walk over layout and the next token. -/
def Layout (cut : Bool) : LayoutState → List Char → Prop
  | .between, text => Spacing cut text
  | .line, text => (∃ inside stop rest, text = inside ++ stop :: rest ∧ InLine inside ∧
      isLineEnd stop ∧ Spacing cut rest) ∨ (cut = true ∧ InLine text)
  | .block around, text => CommentTails cut around text

theorem layout_block {cut : Bool} {around : Nat} {text : List Char} :
    Layout cut (.block around) text ↔ (∃ tail rest, text = tail ++ rest ∧
      CommentTail false tail ∧ Layout cut (.closed around) rest) ∨
        (cut = true ∧ CommentTail true text) := by
  cases around <;> rfl

namespace Layout

variable {cut : Bool} {around : Nat} {c : Char} {text : List Char}

theorem line_opened (h : Layout cut .line text) : Spacing cut ('/' :: '/' :: text) := by
  rcases h with ⟨inside, stop, rest, rfl, inLine, ends, spacing⟩ | ⟨rfl, inLine⟩
  · exact .line inLine ends spacing
  · exact .lineCut inLine

theorem block_opened (h : Layout cut (.block 0) text) : Spacing cut ('/' :: '*' :: text) := by
  rcases h with ⟨tail, rest, rfl, closed, spacing⟩ | ⟨rfl, open_⟩
  · exact .block closed spacing
  · exact .blockCut open_

theorem line_cons (going : isLineEnd c = false) (h : Layout cut .line text) :
    Layout cut .line (c :: text) := by
  rcases h with ⟨inside, stop, rest, rfl, inLine, ends, spacing⟩ | ⟨rfl, inLine⟩
  · exact .inl ⟨c :: inside, stop, rest, rfl, List.forall_mem_cons.mpr ⟨going, inLine⟩, ends,
      spacing⟩
  · exact .inr ⟨rfl, List.forall_mem_cons.mpr ⟨going, inLine⟩⟩

theorem block_cons (apart : ¬BeginsPair c text) (h : Layout cut (.block around) text) :
    Layout cut (.block around) (c :: text) := by
  rw [layout_block] at h ⊢
  rcases h with ⟨tail, rest, rfl, closed, behind⟩ | ⟨rfl, open_⟩
  · refine .inl ⟨c :: tail, rest, rfl, .char ?_ closed, behind⟩
    rwa [BeginsPair, closed.head?_append] at apart
  · exact .inr ⟨rfl, .char apart open_⟩

/-- A comment that is opened in another one: the inner one ends and the outer one goes on,
or the source ends before. -/
theorem block_nested (h : Layout cut (.block (around + 1)) text) :
    Layout cut (.block around) ('/' :: '*' :: text) := by
  rw [layout_block] at h ⊢
  rcases h with ⟨inner, rest, rfl, closed, behind⟩ | ⟨rfl, open_⟩
  · rcases layout_block.mp behind with ⟨tail, rest, rfl, closed', behind⟩ | ⟨rfl, open_⟩
    · refine .inl ⟨'/' :: '*' :: (inner ++ tail), rest, ?_, .nested closed closed', behind⟩
      simp
    · exact .inr ⟨rfl, .nested closed open_⟩
  · exact .inr ⟨rfl, .nestedCut open_⟩

end Layout

/-- What is skipped up to the next token, or up to the end of the source, is layout. -/
theorem layout_splitLayout (state : LayoutState) (text : List Char) :
    Layout (splitLayout state text).2.isEmpty state (splitLayout state text).1 := by
  fun_induction splitLayout state text with
  | case1 state =>
      cases state with
      | between => exact Spacing.nil
      | line => exact .inr ⟨rfl, by simp [InLine]⟩
      | block around => exact layout_block.mpr (.inr ⟨rfl, .cut⟩)
  | case2 rest layout left split ih =>
      rw [split] at ih
      exact ih.line_opened
  | case3 rest layout left split ih =>
      rw [split] at ih
      exact ih.block_opened
  | case4 c rest _ _ blank layout left split ih =>
      rw [split] at ih
      exact Spacing.blank blank ih
  | case5 c rest _ _ other => exact Spacing.nil
  | case6 c rest layout left split ih =>
      rw [split] at ih
      by_cases ends : isLineEnd c
      · rw [if_pos ends] at ih
        exact .inl ⟨[], c, layout, rfl, by simp [InLine], ends, ih⟩
      · rw [if_neg ends] at ih
        exact ih.line_cons (by simpa using ends)
  | case7 around rest layout left split ih =>
      rw [split] at ih
      exact ih.block_nested
  | case8 around rest layout left split ih =>
      rw [split] at ih
      exact layout_block.mpr (.inl ⟨['*', '/'], layout, rfl, .close, ih⟩)
  | case9 around c rest opens closes layout left split ih =>
      rw [split] at ih
      refine ih.block_cons ?_
      have whole := splitLayout_append (.block around) rest
      rw [split] at whole
      have first {d : Char} (h : layout.head? = some d) : ∃ more, rest = d :: more := by
        obtain ⟨inside, rfl⟩ := List.head?_eq_some_iff.mp h
        exact ⟨inside ++ left, whole.symm⟩
      rintro (⟨rfl, star⟩ | ⟨rfl, slash⟩)
      · obtain ⟨more, hmore⟩ := first star
        exact opens more rfl hmore
      · obtain ⟨more, hmore⟩ := first slash
        exact closes more rfl hmore

end Guion
