import Guion.Token.Lexer

/-!
# What a scanner reads

The tokens of a text are read one after the other. Here this is said as a relation
between the scanner before some tokens and the scanner behind them, which never includes
the end of the input; the token list of a text is such a run and then the end. Whatever
is read divides the text, so the place behind all of it is known from the text alone.
-/

namespace Guion

/-! ### Reading divides the text -/

theorem readContents_append {text contents taken rest : List Char}
    (h : readContents text = some (contents, taken, rest)) : taken ++ rest = text := by
  fun_induction readContents text generalizing contents taken with
  | case1 => cases h
  | case2 rest => cases h; rfl
  | case3 => cases h
  | case4 c rest ih =>
    obtain ⟨⟨contents', taken', left⟩, hread, heq⟩ := Option.map_eq_some_iff.1 h
    cases heq
    simp [ih hread]
  | case5 c rest _ _ _ ih =>
    obtain ⟨⟨contents', taken', left⟩, hread, heq⟩ := Option.map_eq_some_iff.1 h
    cases heq
    simp [ih hread]

theorem splitDigits_append (text : List Char) :
    (splitDigits text).1 ++ (splitDigits text).2 = text := by
  have whole := text.takeWhile_append_dropWhile (p := Char.isDigit)
  unfold splitDigits
  split
  · rename_i d rest heq
    rw [heq] at whole
    split
    · rename_i digit
      simp [digit, List.takeWhile_append_dropWhile, whole]
    · exact whole
  · exact whole

theorem readMark_append (c : Char) (rest : List Char) :
    (readMark c rest).taken ++ (readMark c rest).rest = c :: rest := by
  unfold readMark
  split
  · split <;> rfl
  · split
    · split <;> rfl
    · rfl

/-- A lexeme and what is left are the text again. -/
theorem readLexeme_append (previous : Option Char) (text : List Char) :
    (readLexeme previous text).taken ++ (readLexeme previous text).rest = text := by
  unfold readLexeme
  split
  · rfl
  · rename_i c rest
    split
    · rename_i quote
      unfold readText
      split
      · rename_i hread
        simp [quote, readContents_append hread]
      · simp [quote]
    split
    · exact splitDigits_append (c :: rest)
    split
    · simp [readNumber, splitDigits_append]
    split
    · exact List.takeWhile_append_dropWhile
    · exact readMark_append c rest

/-- The end of the input is read at the end only. -/
theorem readLexeme_ne_end (previous : Option Char) (c : Char) (rest : List Char) :
    (readLexeme previous (c :: rest)).result ≠ .ok .endOfFile := by
  simp only [readLexeme]
  split
  · unfold readText
    split <;> simp
  split
  · simp [readNumber]
  split
  · simp [readNumber]
  split
  · simp only [readName]
    split <;> simp
  · unfold readMark
    split
    · split <;> simp
    · split
      · split <;> simp
      · simp

namespace Scanner

/-- The place behind all of the text. -/
def finish (s : Scanner) : Location := s.place.after s.rest

theorem finish_ofText (text : List Char) : (ofText text).finish = Location.origin.after text := rfl

/-- One token: the lexeme behind the layout, at the place where it stands. -/
theorem next_eq_ok_iff {s behind : Scanner} {t : Token Span} :
    s.next = (.ok t, behind) ↔
      (readLexeme s.skipLayout.previous s.skipLayout.rest).result = .ok t.lexeme ∧
        behind = s.skipLayout.move (readLexeme s.skipLayout.previous s.skipLayout.rest).taken
          (readLexeme s.skipLayout.previous s.skipLayout.rest).rest ∧
        t.range = ⟨s.skipLayout.place, behind.place⟩ := by
  unfold next
  dsimp only
  constructor
  · intro h
    split at h
    · rename_i hread
      cases h
      exact ⟨hread, rfl, rfl⟩
    · cases h
  · rintro ⟨hread, rfl, hrange⟩
    rw [hread]
    obtain ⟨lexeme, range⟩ := t
    cases hrange
    rfl

/-- A failure: its cause, at the place where the token would stand. -/
theorem next_eq_error_iff {s behind : Scanner} {e : LexError} :
    s.next = (.error e, behind) ↔
      (readLexeme s.skipLayout.previous s.skipLayout.rest).result = .error e.cause ∧
        behind = s.skipLayout.move (readLexeme s.skipLayout.previous s.skipLayout.rest).taken
          (readLexeme s.skipLayout.previous s.skipLayout.rest).rest ∧
        e.place = s.skipLayout.place := by
  unfold next
  dsimp only
  constructor
  · intro h
    split at h
    · cases h
    · rename_i hread
      cases h
      exact ⟨hread, rfl, rfl⟩
  · rintro ⟨hread, rfl, hplace⟩
    rw [hread]
    obtain ⟨place, cause⟩ := e
    cases hplace
    rfl

/-- Where a token is read there is something behind the layout. -/
theorem next_eq_end_iff {s behind : Scanner} {t : Token Span} (h : s.next = (.ok t, behind)) :
    t.lexeme = .endOfFile ↔ s.skipLayout.rest = [] := by
  obtain ⟨hread, -, -⟩ := next_eq_ok_iff.mp h
  cases hrest : s.skipLayout.rest with
  | nil =>
      rw [hrest] at hread
      simpa using (Except.ok.inj hread).symm
  | cons c rest =>
      rw [hrest] at hread
      simp only [reduceCtorEq, iff_false]
      intro hend
      rw [hend] at hread
      exact readLexeme_ne_end _ c rest hread

/-- A step moves over a piece of the text. -/
theorem exists_taken (s : Scanner) :
    ∃ taken, s.rest = taken ++ s.next.2.rest ∧ s.next.2.place = s.place.after taken := by
  have behind : s.next.2 = s.skipLayout.move
      (readLexeme s.skipLayout.previous s.skipLayout.rest).taken
      (readLexeme s.skipLayout.previous s.skipLayout.rest).rest := by
    unfold next
    dsimp only
    split
    · rfl
    · rfl
  have layout := splitLayout_append .between s.rest
  have lexeme := readLexeme_append s.skipLayout.previous s.skipLayout.rest
  refine ⟨(splitLayout .between s.rest).1 ++
    (readLexeme s.skipLayout.previous s.skipLayout.rest).taken, ?_, ?_⟩
  · rw [behind, List.append_assoc]
    exact layout.symm.trans (congrArg _ lexeme.symm)
  · rw [behind, Location.after_append]
    rfl

/-! ### Runs of tokens -/

/-- `s.Reads tokens final`: the scanner reads these tokens, none of them the end of the
input, and then stands at `final`. -/
inductive Reads : Scanner → List (Token Span) → Scanner → Prop
  | done {s} : Reads s [] s
  | token {s t behind tokens final} : s.next = (.ok t, behind) → t.lexeme ≠ .endOfFile →
      Reads behind tokens final → Reads s (t :: tokens) final

/-- The equation of the token list, with the next token named. -/
theorem tokens_eq_of_next {s behind : Scanner} {read : Except LexError (Token Span)}
    (h : s.next = (read, behind)) :
    s.tokens = read.bind fun t =>
      if t.lexeme = .endOfFile then .ok [t] else behind.tokens.map (t :: ·) := by
  rw [tokens]
  split
  · rename_i heq
    cases h.symm.trans heq
    rfl
  · rename_i heq
    cases h.symm.trans heq
    rfl

theorem tokens_of_end {s behind : Scanner} {t : Token Span} (h : s.next = (.ok t, behind))
    (hend : t.lexeme = .endOfFile) : s.tokens = .ok [t] :=
  (tokens_eq_of_next h).trans (if_pos hend)

theorem tokens_of_token {s behind : Scanner} {t : Token Span} (h : s.next = (.ok t, behind))
    (going : t.lexeme ≠ .endOfFile) : s.tokens = behind.tokens.map (t :: ·) :=
  (tokens_eq_of_next h).trans (if_neg going)

theorem tokens_of_error {s behind : Scanner} {e : LexError} (h : s.next = (.error e, behind)) :
    s.tokens = .error e :=
  tokens_eq_of_next h

/-- The tokens depend on the next token and where it leaves the scanner only. -/
theorem tokens_congr {s s' : Scanner} (h : s.next = s'.next) : s.tokens = s'.tokens :=
  (tokens_eq_of_next h).trans (tokens_eq_of_next rfl).symm

namespace Reads

variable {s final behind : Scanner} {body : List (Token Span)} {stop : Token Span}

theorem ne_end (h : s.Reads body final) : ∀ t ∈ body, t.lexeme ≠ .endOfFile := by
  induction h with
  | done => simp
  | token _ going _ ih => simpa using ⟨going, ih⟩

/-- What was read is a piece of the text. -/
theorem exists_read (h : s.Reads body final) :
    ∃ taken, s.rest = taken ++ final.rest ∧ final.place = s.place.after taken := by
  induction h with
  | done => exact ⟨[], rfl, rfl⟩
  | @token s t behind _ _ hnext _ _ ih =>
      obtain ⟨first, hrest, hplace⟩ := s.exists_taken
      obtain ⟨more, hmore, hfinal⟩ := ih
      rw [hnext] at hrest hplace
      refine ⟨first ++ more, ?_, ?_⟩
      · rw [hrest, hmore, List.append_assoc]
      · rw [hfinal, hplace, Location.after_append]

theorem finish_eq (h : s.Reads body final) : final.finish = s.finish := by
  obtain ⟨taken, hrest, hplace⟩ := h.exists_read
  rw [finish, finish, hplace, hrest, Location.after_append]

/-- All tokens are read up to the same place. -/
theorem eq_of_end {tokens : List (Token Span)} {final' : Scanner} (h : s.Reads body final)
    (h' : s.Reads tokens final') (hend : final.skipLayout.rest = [])
    (hend' : final'.skipLayout.rest = []) : final' = final := by
  induction h generalizing tokens with
  | done =>
      cases h' with
      | done => rfl
      | token hnext going _ => exact absurd ((next_eq_end_iff hnext).mpr hend) going
  | token hnext going _ ih =>
      cases h' with
      | done => exact absurd ((next_eq_end_iff hnext).mpr hend') going
      | token hnext' _ rest =>
          cases hnext.symm.trans hnext'
          exact ih rest hend

/-- What is read before the end, and the end, are the tokens. -/
theorem tokens_eq {rest : List (Token Span)} (h : s.Reads body final)
    (hrest : final.tokens = .ok rest) : s.tokens = .ok (body ++ rest) := by
  induction h with
  | done => exact hrest
  | token hnext going _ ih =>
      rw [tokens_of_token hnext going, ih hrest]
      rfl

/-- What is read before a failure does not change it. -/
theorem tokens_eq_error {e : LexError} (h : s.Reads body final)
    (hfinal : final.tokens = .error e) : s.tokens = .error e := by
  induction h with
  | done => exact hfinal
  | token hnext going _ ih =>
      rw [tokens_of_token hnext going, ih hfinal]
      rfl

end Reads

/-- Every token list is a run of tokens and the end of the input. -/
theorem reads_of_tokens {s : Scanner} {tokens : List (Token Span)} (h : s.tokens = .ok tokens) :
    ∃ body stop final behind, tokens = body ++ [stop] ∧ s.Reads body final ∧
      final.next = (.ok stop, behind) ∧ stop.lexeme = .endOfFile := by
  fun_induction Scanner.tokens s generalizing tokens with
  | case1 s e behind hnext => cases h
  | case2 s t behind hnext hend =>
      cases h
      exact ⟨[], t, s, behind, rfl, .done, hnext, hend⟩
  | case3 s t behind hnext going ih =>
      cases hrest : behind.tokens with
      | error e =>
          rw [hrest] at h
          cases h
      | ok rest =>
          rw [hrest] at h
          cases h
          obtain ⟨body, stop, final, last, rfl, hreads, hstop⟩ := ih hrest
          exact ⟨t :: body, stop, final, last, rfl, .token hnext going hreads, hstop⟩

/-- Every failure stands behind a run of tokens. -/
theorem reads_of_error {s : Scanner} {e : LexError} (h : s.tokens = .error e) :
    ∃ body final behind, s.Reads body final ∧ final.next = (.error e, behind) := by
  fun_induction Scanner.tokens s with
  | case1 s e' behind hnext =>
      cases h
      exact ⟨[], s, behind, .done, hnext⟩
  | case2 => cases h
  | case3 s t behind hnext going ih =>
      cases hrest : behind.tokens with
      | ok rest =>
          rw [hrest] at h
          cases h
      | error e' =>
          rw [hrest] at h
          cases h
          obtain ⟨body, final, last, hreads, hfails⟩ := ih hrest
          exact ⟨t :: body, final, last, .token hnext going hreads, hfails⟩

end Scanner

end Guion
