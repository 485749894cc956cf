import Guion.Proofs.Token.Scan

/-!
# Reading up to a seam

Some characters go on with nothing that stands before them: with no lexeme, and with no pair
of characters that begins or ends a comment. A line feed is one. If a text goes on with such
a character, all that was read of the text before its end is read again, and is read the same.
-/

namespace Guion

/-! ### Where reading stops -/

/-- A character that goes on with no name, no number, no sign and no pair of characters. -/
structure EndsLexemes (c : Char) : Prop where
  name : isNameChar c = false
  point : c ≠ '.'
  equals : c ≠ '='
  slash : c ≠ '/'
  star : c ≠ '*'

theorem EndsLexemes.newline : EndsLexemes '\n' := by
  constructor <;> decide

/-- Names may go on with digits. -/
theorem EndsLexemes.noDigit {c : Char} (h : EndsLexemes c) : c.isDigit = false :=
  ((Bool.or_eq_false_iff).mp h.name).2

/-! ### Layout up to the end -/

/-- The state in which a walk over layout comes to the end of a text, if the text is
layout to its end. -/
def layoutEnd : LayoutState → List Char → Option LayoutState
  | state, [] => some state
  | .between, '/' :: '/' :: rest => layoutEnd .line rest
  | .between, '/' :: '*' :: rest => layoutEnd (.block 0) rest
  | .between, c :: rest => if isLayoutBlank c then layoutEnd .between rest else none
  | .line, c :: rest => layoutEnd (if isLineEnd c then .between else .line) rest
  | .block around, '/' :: '*' :: rest => layoutEnd (.block (around + 1)) rest
  | .block around, '*' :: '/' :: rest => layoutEnd (.closed around) rest
  | .block around, _ :: rest => layoutEnd (.block around) rest

/-- Either something begins behind the layout, or the text is layout to its end. -/
theorem layoutEnd_eq_none_iff (state : LayoutState) (text : List Char) :
    layoutEnd state text = none ↔ (splitLayout state text).2 ≠ [] := by
  fun_induction layoutEnd state text <;> simp_all [splitLayout]

theorem splitLayout_blank {c : Char} (h : isLayoutBlank c) (rest : List Char) :
    splitLayout .between (c :: rest) =
      (c :: (splitLayout .between rest).1, (splitLayout .between rest).2) := by
  have slash : c ≠ '/' := by
    rintro rfl
    cases h
  rw [splitLayout]
  · simp [h]
  · exact fun left hc => absurd hc slash
  · exact fun left hc => absurd hc slash

section Seam

variable {seam : Char} (more : List Char)

/-- No pair of characters reaches over the seam. -/
theorem seam_ne_pair {rest : List Char} {c d e : Char} (he : e ≠ seam)
    (h : ∀ left, c = d → rest = e :: left → False) :
    ∀ left, c = d → rest ++ seam :: more = e :: left → False := by
  intro left hc joined
  cases rest with
  | nil => exact he (List.cons.inj joined).1.symm
  | cons a rest =>
      obtain ⟨rfl, -⟩ := List.cons.inj joined
      exact h rest hc rfl

/-- Where something begins behind the layout, what is written behind it does not matter. -/
theorem splitLayout_append_of_none (ends : EndsLexemes seam) {state : LayoutState}
    {text : List Char} (h : layoutEnd state text = none) :
    splitLayout state (text ++ seam :: more) =
      ((splitLayout state text).1, (splitLayout state text).2 ++ seam :: more) := by
  fun_induction layoutEnd state text with
  | case4 c rest _ _ blank ih =>
      rw [List.cons_append, splitLayout_blank blank, splitLayout_blank blank, ih h]
  | case5 c rest line block other =>
      rw [List.cons_append, splitLayout, splitLayout, if_neg other, if_neg other]
      · rfl
      · exact line
      · exact block
      · exact seam_ne_pair more ends.slash.symm line
      · exact seam_ne_pair more ends.star.symm block
  | case9 around c rest opened closed ih =>
      rw [List.cons_append, splitLayout, splitLayout, ih h]
      · exact opened
      · exact closed
      · exact seam_ne_pair more ends.star.symm opened
      · exact seam_ne_pair more ends.slash.symm closed
  | _ => simp_all [splitLayout]

/-- Where there is nothing but layout, the walk over it goes on behind the seam. -/
theorem splitLayout_append_of_some (ends : EndsLexemes seam) {state final : LayoutState}
    {text : List Char} (h : layoutEnd state text = some final) :
    splitLayout state (text ++ seam :: more) =
      (text ++ (splitLayout final (seam :: more)).1, (splitLayout final (seam :: more)).2) := by
  fun_induction layoutEnd state text with
  | case1 state =>
      cases h
      rfl
  | case4 c rest _ _ blank ih =>
      rw [List.cons_append, splitLayout_blank blank, ih h]
      rfl
  | case9 around c rest opens closes ih =>
      rw [List.cons_append, splitLayout, ih h]
      · rfl
      · exact seam_ne_pair more ends.star.symm opens
      · exact seam_ne_pair more ends.slash.symm closes
  | _ => simp_all [splitLayout]

/-! ### Lexemes before a seam -/

/-- The same reading with more text left. -/
def Reading.append (reading : Reading) (more : List Char) : Reading :=
  { reading with rest := reading.rest ++ more }

theorem takeWhile_append_seam {p : Char → Bool} (hp : p seam = false) (text : List Char) :
    (text ++ seam :: more).takeWhile p = text.takeWhile p := by
  induction text with
  | nil => simp [hp]
  | cons c text ih => simp [List.takeWhile_cons, ih]

theorem dropWhile_append_seam {p : Char → Bool} (hp : p seam = false) (text : List Char) :
    (text ++ seam :: more).dropWhile p = text.dropWhile p ++ seam :: more := by
  induction text with
  | nil => simp [hp]
  | cons c text ih =>
      simp only [List.cons_append, List.dropWhile_cons, ih]
      split
      · rfl
      · rfl

theorem readContents_append_of_some {text contents taken rest : List Char}
    (h : readContents text = some (contents, taken, rest)) :
    readContents (text ++ more) = some (contents, taken, rest ++ more) := by
  fun_induction readContents text generalizing contents taken with
  | case1 => cases h
  | case2 rest => cases h; rfl
  | case3 => cases h
  | case4 c rest ih =>
    obtain ⟨⟨contents', taken', left⟩, hread, heq⟩ := Option.map_eq_some_iff.1 h
    cases heq
    simp [readContents, ih hread]
  | case5 c rest quote last escape ih =>
    obtain ⟨⟨contents', taken', left⟩, hread, heq⟩ := Option.map_eq_some_iff.1 h
    cases heq
    have plain : c ≠ '\\' := by
      rintro rfl
      cases rest with
      | nil => exact last rfl rfl
      | cons d rest => exact escape d rest rfl rfl
    simp [readContents, ih hread, plain]

theorem splitDigits_append_seam (ends : EndsLexemes seam) (text : List Char) :
    splitDigits (text ++ seam :: more) =
      ((splitDigits text).1, (splitDigits text).2 ++ seam :: more) := by
  have noDigit := ends.noDigit
  unfold splitDigits
  rw [takeWhile_append_seam more noDigit, dropWhile_append_seam more noDigit]
  match text.dropWhile Char.isDigit with
  | [] => simp [ends.point]
  | [c] =>
      by_cases point : c = '.'
      · subst point
        simp [noDigit]
      · simp [point]
  | c :: d :: rest =>
      by_cases point : c = '.'
      · subst point
        simp only [List.cons_append]
        split
        · rename_i digit
          simp [takeWhile_append_seam, dropWhile_append_seam, digit, noDigit]
        · rfl
      · simp [point]

theorem readMark_append_seam (ends : EndsLexemes seam) (c : Char) (rest : List Char)
    {lexeme : Lexeme} (h : (readMark c rest).result = .ok lexeme) :
    readMark c (rest ++ seam :: more) = (readMark c rest).append (seam :: more) := by
  unfold readMark at h ⊢
  cases hmark : Punctuator.ofChar? c with
  | some mark =>
      dsimp only
      cases mark.withEquals? with
      | none => rfl
      | some longer =>
          match rest with
          | [] => simp [ends.equals, Reading.append]
          | d :: rest =>
              by_cases equals : d = '='
              · subst equals
                rfl
              · simp [equals, Reading.append]
  | none =>
      rw [hmark] at h
      dsimp only at h ⊢
      split at h
      · rename_i bang
        rw [if_pos bang, if_pos bang]
        match rest with
        | [] => cases h
        | d :: rest =>
            by_cases equals : d = '='
            · subst equals
              rfl
            · simp [equals] at h
      · cases h

theorem signsNumber_append_seam (ends : EndsLexemes seam) (previous : Option Char)
    (rest : List Char) :
    signsNumber previous (rest ++ seam :: more) = signsNumber previous rest := by
  cases rest with
  | nil => simp [signsNumber, ends.noDigit]
  | cons c rest => rfl

/-- A lexeme that is read at the head of a text is read there whatever is written behind
the seam. -/
theorem readLexeme_append_seam (ends : EndsLexemes seam) {previous : Option Char}
    {text : List Char} {lexeme : Lexeme} (h : (readLexeme previous text).result = .ok lexeme)
    (htext : text ≠ []) :
    readLexeme previous (text ++ seam :: more) =
      (readLexeme previous text).append (seam :: more) := by
  cases text with
  | nil => exact absurd rfl htext
  | cons c rest =>
      simp only [List.cons_append, readLexeme, signsNumber_append_seam more ends] at h ⊢
      split
      · rename_i quote
        rw [if_pos quote] at h
        unfold readText at h ⊢
        cases hread : readContents rest with
        | none => simp [hread] at h
        | some parts =>
            obtain ⟨contents, taken, left⟩ := parts
            rw [readContents_append_of_some _ hread]
            rfl
      rename_i noQuote
      rw [if_neg noQuote] at h
      split
      · have split := splitDigits_append_seam more ends (c :: rest)
        rw [List.cons_append] at split
        simp only [readNumber, split]
        rfl
      rename_i noDigit
      rw [if_neg noDigit] at h
      split
      · simp only [readNumber, splitDigits_append_seam more ends]
        rfl
      rename_i noSign
      rw [if_neg noSign] at h
      split
      · have taken := takeWhile_append_seam more ends.name (c :: rest)
        have left := dropWhile_append_seam more ends.name (c :: rest)
        rw [List.cons_append] at taken left
        simp only [readName, taken, left]
        rfl
      · rename_i noName
        rw [if_neg noName] at h
        exact readMark_append_seam more ends c rest h

namespace Scanner

/-- The same scanner with more text left. -/
def append (s : Scanner) (more : List Char) : Scanner :=
  { s with rest := s.rest ++ more }

theorem skipLayout_append (ends : EndsLexemes seam) {s : Scanner} (h : s.skipLayout.rest ≠ []) :
    (s.append (seam :: more)).skipLayout = s.skipLayout.append (seam :: more) := by
  have going : layoutEnd .between s.rest = none := (layoutEnd_eq_none_iff .between s.rest).mpr h
  have layout := splitLayout_append_of_none more ends going
  simp only [skipLayout, append, layout]
  rfl

/-- A token is read whatever is written behind the seam. -/
theorem next_append (ends : EndsLexemes seam) {s behind : Scanner} {t : Token Span}
    (h : s.next = (.ok t, behind)) (going : t.lexeme ≠ .endOfFile) :
    (s.append (seam :: more)).next = (.ok t, behind.append (seam :: more)) := by
  have hrest : s.skipLayout.rest ≠ [] := fun hnil => going ((next_eq_end_iff h).mpr hnil)
  obtain ⟨hread, rfl, hrange⟩ := next_eq_ok_iff.mp h
  have reading := readLexeme_append_seam more ends hread hrest
  have whole : readLexeme (s.append (seam :: more)).skipLayout.previous
      (s.append (seam :: more)).skipLayout.rest =
      (readLexeme s.skipLayout.previous s.skipLayout.rest).append (seam :: more) := by
    rw [skipLayout_append more ends hrest]
    exact reading
  refine next_eq_ok_iff.mpr ?_
  rw [whole, skipLayout_append more ends hrest]
  exact ⟨hread, rfl, hrange⟩

theorem Reads.append (ends : EndsLexemes seam) {s final : Scanner} {tokens : List (Token Span)}
    (h : s.Reads tokens final) :
    (s.append (seam :: more)).Reads tokens (final.append (seam :: more)) := by
  induction h with
  | done => exact .done
  | token hnext going _ ih => exact .token (next_append more ends hnext going) going ih

end Scanner

end Seam

end Guion
