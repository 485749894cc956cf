import Guion.Proofs.Token.Extension
import Guion.Proofs.Tree.Positions

/-!
# Sources end to end

If a line feed and another source are written behind a source, the tokens of the first
stay as they are, and those of the second are moved by the length of what stands before
them. The line feed sees to it that no lexeme, no line comment and no pair of characters
reaches over the seam; only a block comment that is still open does.
-/

namespace Guion
/-! ### Behind the first source -/

/-- Where there is nothing but layout, and no block comment is open at its end, the layout
goes on behind the line feed. -/
theorem splitLayout_newline {state final : LayoutState} {text : List Char} (more : List Char)
    (h : layoutEnd state text = some final) (closed : ∀ around, final ≠ .block around) :
    splitLayout state (text ++ '\n' :: more) =
      (text ++ '\n' :: (splitLayout .between more).1, (splitLayout .between more).2) := by
  rw [splitLayout_append_of_some more .newline h]
  cases final with
  | between => rw [splitLayout_blank rfl]
  | line => rfl
  | block around => exact absurd rfl (closed around)

namespace Scanner

/-- Behind nothing but layout, a scanner reads on as one that stands behind the line feed. -/
theorem next_append_of_end {s : Scanner} {state : LayoutState} (more : List Char)
    (h : layoutEnd .between s.rest = some state) (closed : ∀ around, state ≠ .block around) :
    (s.append ('\n' :: more)).next = next ⟨more, s.finish.next '\n', some '\n'⟩ := by
  have layout := splitLayout_newline more h closed
  have skipped : (s.append ('\n' :: more)).skipLayout =
      skipLayout ⟨more, s.finish.next '\n', some '\n'⟩ := by
    simp only [skipLayout, append, layout, move, finish]
    cases hlast : (splitLayout .between more).1.getLast? <;>
      simp [List.getLast?_append, List.getLast?_cons, hlast]
  unfold next
  rw [skipped]

end Scanner

/-! ### Moved places -/

/-- A place that so many more bytes and lines stand before. -/
def Location.shift (bytes lines : Nat) (place : Location) : Location :=
  ⟨place.offset + bytes, place.line + lines, place.column⟩

/-- A span that so many more bytes and lines stand before. -/
def Span.shift (bytes lines : Nat) (s : Span) : Span :=
  ⟨s.start.shift bytes lines, s.stop.shift bytes lines⟩

/-- Moves a span of a source to where it stands if another source and a line feed are
written before it. -/
def Span.behindSource (source : String) : Span → Span :=
  Span.shift (source.utf8ByteSize + 1) (source.toList.count '\n' + 1)

section Shift

variable {bytes lines : Nat}

theorem Location.shift_next (place : Location) (c : Char) :
    (place.shift bytes lines).next c = (place.next c).shift bytes lines := by
  unfold Location.next
  split
  · simp only [shift, mk.injEq, and_true]
    omega
  · simp only [shift, mk.injEq, and_true]
    omega

theorem Location.shift_after (place : Location) (text : List Char) :
    (place.shift bytes lines).after text = (place.after text).shift bytes lines := by
  induction text generalizing place with
  | nil => rfl
  | cons c text ih => rw [after_cons, after_cons, shift_next, ih]

theorem Location.order_shift (a b : Location) :
    (a.shift bytes lines).order (b.shift bytes lines) = a.order b := by
  have moved (x y k : Nat) : compare (x + k) (y + k) = compare x y := by
    simp [Nat.compare_eq_ite_lt]
  simp only [order, shift, moved]

/-- The place behind a text, counted from the place before it. -/
theorem Location.after_eq (place : Location) (text : List Char) :
    (place.after text).offset = place.offset + (String.ofList text).utf8ByteSize ∧
      (place.after text).line = place.line + text.count '\n' := by
  induction text generalizing place with
  | nil => simp
  | cons c text ih =>
      have size : (String.ofList (c :: text)).utf8ByteSize =
          c.utf8Size + (String.ofList text).utf8ByteSize := by
        rw [← List.singleton_append, String.ofList_append, String.utf8ByteSize_append,
          ← String.singleton_eq_ofList, String.utf8ByteSize_singleton]
      obtain ⟨offset, line⟩ := ih (place.next c)
      rw [after_cons, offset, line, size]
      unfold Location.next
      by_cases feed : c = '\n'
      · subst feed
        simp only [if_true, List.count_cons_self]
        omega
      · rw [if_neg feed, List.count_cons_of_ne feed]
        dsimp only
        omega

/-- The place behind a source and a line feed is the origin, moved. -/
theorem Location.after_newline (source : String) :
    (origin.after source.toList).next '\n' =
      origin.shift (source.utf8ByteSize + 1) (source.toList.count '\n' + 1) := by
  obtain ⟨offset, line⟩ := origin.after_eq source.toList
  rw [String.ofList_toList] at offset
  have one : '\n'.utf8Size = 1 := rfl
  simp only [next, if_true, shift, offset, line, one, mk.injEq]
  exact ⟨Nat.add_assoc _ _ _, Nat.add_assoc _ _ _, rfl⟩

/-- Two scanners at the same text, of which the second stands behind so many more bytes and
lines. What was read last matters only as far as it is a digit. -/
structure Scanner.Shifted (bytes lines : Nat) (s s' : Scanner) : Prop where
  rest : s'.rest = s.rest
  place : s'.place = s.place.shift bytes lines
  previous : s'.previous.any Char.isDigit = s.previous.any Char.isDigit

theorem readLexeme_previous {previous previous' : Option Char}
    (h : previous'.any Char.isDigit = previous.any Char.isDigit) (text : List Char) :
    readLexeme previous' text = readLexeme previous text := by
  cases text with
  | nil => rfl
  | cons c rest =>
      have sign : signsNumber previous' rest = signsNumber previous rest := by
        simp only [signsNumber, h]
      simp only [readLexeme, sign]

namespace Scanner.Shifted

variable {s s' : Scanner}

theorem move (h : Shifted bytes lines s s') (taken rest : List Char) :
    Shifted bytes lines (s.move taken rest) (s'.move taken rest) where
  rest := rfl
  place := by
    simp only [Scanner.move, h.place]
    exact s.place.shift_after taken
  previous := by
    simp only [Scanner.move]
    cases taken.getLast? with
    | none => exact h.previous
    | some c => rfl

theorem skipLayout (h : Shifted bytes lines s s') :
    Shifted bytes lines s.skipLayout s'.skipLayout := by
  simp only [Scanner.skipLayout, h.rest]
  exact h.move _ _

theorem next {behind : Scanner} {t : Token Span} (h : Shifted bytes lines s s')
    (hnext : s.next = (.ok t, behind)) :
    ∃ behind', s'.next = (.ok (t.map (Span.shift bytes lines)), behind') ∧
      Shifted bytes lines behind behind' := by
  obtain ⟨hread, rfl, hrange⟩ := next_eq_ok_iff.mp hnext
  have skipped := h.skipLayout
  have same := readLexeme_previous skipped.previous s.skipLayout.rest
  rw [← skipped.rest] at same
  refine ⟨_, next_eq_ok_iff.mpr ⟨?_, rfl, ?_⟩, ?_⟩
  · rw [same, skipped.rest]
    exact hread
  · rw [Token.map_range, hrange, same, skipped.rest, skipped.place, (skipped.move _ _).place]
    rfl
  · rw [same, skipped.rest]
    exact skipped.move _ _

/-- Scanners at the same text read the same tokens, moved. -/
theorem tokens {tokens : List (Token Span)} (h : Shifted bytes lines s s')
    (htokens : s.tokens = .ok tokens) :
    s'.tokens = .ok (tokens.map (Token.map (Span.shift bytes lines))) := by
  fun_induction Scanner.tokens s generalizing s' tokens with
  | case1 s e behind hnext => cases htokens
  | case2 s t behind hnext hend =>
      cases htokens
      obtain ⟨behind', hnext', -⟩ := h.next hnext
      exact tokens_of_end hnext' hend
  | case3 s t behind hnext going ih =>
      obtain ⟨behind', hnext', h'⟩ := h.next hnext
      cases hrest : behind.tokens with
      | error e =>
          rw [hrest] at htokens
          cases htokens
      | ok rest =>
          rw [hrest] at htokens
          cases htokens
          rw [tokens_of_token hnext' going, ih h' hrest]
          rfl

end Scanner.Shifted

end Shift

/-! ### Two sources -/

/-- Whether a source ends inside a block comment that is never closed: behind its last
token there is nothing but layout, and a block comment is open at the end of it. -/
def EndsInComment (source : String) : Prop :=
  ∃ tokens final around, (Scanner.ofText source.toList).Reads tokens final ∧
    layoutEnd .between final.rest = some (.block around)

/-- It is enough to look behind the last token. -/
theorem endsInComment_iff {source : String} {tokens : List (Token Span)} {final : Scanner}
    (reads : (Scanner.ofText source.toList).Reads tokens final) {state : LayoutState}
    (h : layoutEnd .between final.rest = some state) :
    EndsInComment source ↔ ∃ around, state = .block around := by
  have nothing {s : Scanner} {state : LayoutState} (h : layoutEnd .between s.rest = some state) :
      s.skipLayout.rest = [] := by
    refine Decidable.byContradiction fun going => ?_
    rw [(layoutEnd_eq_none_iff .between s.rest).mpr going] at h
    cases h
  constructor
  · rintro ⟨tokens', final', around, reads', h'⟩
    obtain rfl := reads.eq_of_end reads' (nothing h) (nothing h')
    rw [h] at h'
    exact ⟨around, Option.some.inj h'⟩
  · rintro ⟨around, rfl⟩
    exact ⟨tokens, final, around, reads, h⟩

/-- The tokens of a source, and then those of another one at their new places. -/
theorem tokenize_append {source₁ source₂ : String} {tokens₁ tokens₂ : List (Token Span)}
    (h₁ : tokenize source₁ = .ok tokens₁) (h₂ : tokenize source₂ = .ok tokens₂)
    (closed : ¬EndsInComment source₁) :
    ∃ body stop, tokens₁ = body ++ [stop] ∧ (∀ t ∈ body, t.lexeme ≠ .endOfFile) ∧
      stop.lexeme = .endOfFile ∧
      tokenize (source₁ ++ "\n" ++ source₂) =
        .ok (body ++ tokens₂.map (Token.map (Span.behindSource source₁))) := by
  obtain ⟨body, stop, final, behind, rfl, hreads, hnext, hstop⟩ := Scanner.reads_of_tokens h₁
  refine ⟨body, stop, rfl, hreads.ne_end, hstop, ?_⟩
  have nothing : (splitLayout .between final.rest).2 = [] :=
    (Scanner.next_eq_end_iff hnext).mp hstop
  cases hlayout : layoutEnd .between final.rest with
  | none => exact absurd nothing ((layoutEnd_eq_none_iff _ _).mp hlayout)
  | some state =>
      have open_ne (around : Nat) : state ≠ .block around := by
        rintro rfl
        exact closed ⟨body, final, around, hreads, hlayout⟩
      have place : final.finish.next '\n' = Location.origin.shift (source₁.utf8ByteSize + 1)
          (source₁.toList.count '\n' + 1) := by
        rw [hreads.finish_eq, Scanner.finish_ofText, Location.after_newline]
      have start : Scanner.Shifted (source₁.utf8ByteSize + 1) (source₁.toList.count '\n' + 1)
          (Scanner.ofText source₂.toList) ⟨source₂.toList, final.finish.next '\n', some '\n'⟩ :=
        ⟨rfl, place, rfl⟩
      have rest := start.tokens h₂
      have text : (source₁ ++ "\n" ++ source₂).toList =
          source₁.toList ++ '\n' :: source₂.toList := by
        simp
      unfold tokenize
      rw [text]
      refine (hreads.append source₂.toList .newline).tokens_eq ?_
      rw [Scanner.tokens_congr (Scanner.next_append_of_end _ hlayout open_ne)]
      exact rest

end Guion
