import Guion.Proofs.Token.Compact
import Guion.Proofs.Token.Extension
import Guion.Proofs.Token.Partition

/-!
# Where lexing fails

A source is refused where, outside of its texts and comments, a character stands that nothing
begins with, an exclamation mark without its equals sign, or a quote that no other quote
answers. None of these goes on with what stands before it. So a source that is cut off there
is read without a failure, as the tokens that were read up to there, and a source that goes on
like this fails there and nowhere else.
-/

namespace Guion

/-! ### Unreadable positions -/

/-- Behind an opening quote no quote closes the text: each one is part of an escape. -/
def Unclosed (text : List Char) : Prop :=
  ∀ raw contents rest, Expands raw contents → text ≠ raw ++ '"' :: rest

/-- Whether white space or a token can begin with a character. Comments begin like the sign
of a division. -/
def BeginsSomething (c : Char) : Prop :=
  isLayoutBlank c ∨ c = '"' ∨ c.isDigit ∨ isNameStart c ∨
    ∃ mark : Punctuator, mark.spelling.toList.head? = some c

/-- `Unreadable cause text`: no token can be read at the head of the text, and why. -/
inductive Unreadable : LexCause → List Char → Prop
  | unclosed {rest} : Unclosed rest → Unreadable .unterminatedText ('"' :: rest)
  | exclamation {rest} : rest.head? ≠ some '=' → Unreadable (.illegalCharacter '!') ('!' :: rest)
  | character {c rest} : ¬BeginsSomething c → Unreadable (.illegalCharacter c) (c :: rest)

theorem unclosed_iff {text : List Char} : Unclosed text ↔ readContents text = none := by
  constructor
  · intro h
    cases hread : readContents text with
    | none => rfl
    | some parts =>
        obtain ⟨contents, taken, left⟩ := parts
        obtain ⟨raw, rfl, expands⟩ := expands_of_readContents hread
        have whole := readContents_append hread
        rw [List.append_assoc] at whole
        exact absurd whole.symm (h raw contents left expands)
  · rintro h raw contents rest expands rfl
    rw [readContents_of_expands expands] at h
    cases h

/-- The first characters of signs are those that signs are read from, and the exclamation
mark. -/
theorem exists_mark_iff {c : Char} :
    (∃ mark : Punctuator, mark.spelling.toList.head? = some c) ↔
      Punctuator.ofChar? c ≠ none ∨ c = '!' := by
  constructor
  · rintro ⟨mark, first⟩
    cases mark <;> cases first <;> decide
  · rintro (mark | rfl)
    · obtain ⟨mark, hmark⟩ := Option.ne_none_iff_exists'.mp mark
      refine ⟨mark, ?_⟩
      rw [Punctuator.spelling_of_ofChar? hmark]
      rfl
    · exact ⟨.notEqual, rfl⟩

namespace Unreadable

variable {cause : LexCause} {text rest : List Char} {c : Char}

theorem cons_iff (quote : c ≠ '"') (bang : c ≠ '!') :
    Unreadable cause (c :: rest) ↔ cause = .illegalCharacter c ∧ ¬BeginsSomething c := by
  constructor
  · intro h
    cases h with
    | unclosed => exact absurd rfl quote
    | exclamation => exact absurd rfl bang
    | character nothing => exact ⟨rfl, nothing⟩
  · rintro ⟨rfl, nothing⟩
    exact .character nothing

theorem quote_iff : Unreadable cause ('"' :: rest) ↔ cause = .unterminatedText ∧ Unclosed rest := by
  constructor
  · intro h
    cases h with
    | unclosed unclosed => exact ⟨rfl, unclosed⟩
    | character nothing => exact absurd (.inr (.inl rfl)) nothing
  · rintro ⟨rfl, unclosed⟩
    exact .unclosed unclosed

theorem exclamation_iff :
    Unreadable cause ('!' :: rest) ↔ cause = .illegalCharacter '!' ∧ rest.head? ≠ some '=' := by
  constructor
  · intro h
    cases h with
    | exclamation alone => exact ⟨rfl, alone⟩
    | character nothing =>
        exact absurd (.inr (.inr (.inr (.inr (exists_mark_iff.mpr (.inr rfl)))))) nothing
  · rintro ⟨rfl, alone⟩
    exact .exclamation alone

/-- The character at an unreadable position goes on with nothing. -/
theorem endsLexemes (h : Unreadable cause text) :
    ∃ c rest, text = c :: rest ∧ EndsLexemes c ∧ isLayoutBlank c = false := by
  cases h with
  | unclosed => exact ⟨_, _, rfl, by constructor <;> decide, rfl⟩
  | exclamation => exact ⟨_, _, rfl, by constructor <;> decide, rfl⟩
  | @character c rest nothing =>
      simp only [BeginsSomething, exists_mark_iff, not_or, Bool.not_eq_true] at nothing
      obtain ⟨blank, -, digit, start, mark, -⟩ := nothing
      have apart {d : Char} (hd : Punctuator.ofChar? d ≠ none) : c ≠ d := by
        rintro rfl
        exact mark hd
      refine ⟨c, rest, rfl, ?_, blank⟩
      constructor
      · show (isNameStart c || c.isDigit) = false
        rw [start, digit]
        rfl
      all_goals exact apart (by decide)

/-- No layout begins at an unreadable position. -/
theorem splitLayout_eq (h : Unreadable cause text) : splitLayout .between text = ([], text) := by
  obtain ⟨c, rest, rfl, ends, visible⟩ := h.endsLexemes
  rw [splitLayout, visible]
  · rfl
  · exact fun _ slash => absurd slash ends.slash
  · exact fun _ slash => absurd slash ends.slash

end Unreadable

/-! ### Reading fails at unreadable positions -/

theorem readMark_exclamation {rest : List Char} {cause : LexCause} :
    (readMark '!' rest).result = .error cause ↔ Unreadable cause ('!' :: rest) := by
  rw [Unreadable.exclamation_iff]
  cases rest with
  | nil => simpa [readMark, Punctuator.ofChar?] using eq_comm
  | cons c left =>
      by_cases equals : c = '='
      · subst equals
        simp [readMark, Punctuator.ofChar?]
      · simpa [readMark, Punctuator.ofChar?, equals] using eq_comm

theorem readMark_eq_error_iff {c : Char} {rest : List Char} {cause : LexCause} (quote : c ≠ '"')
    (other : ¬(isLayoutBlank c ∨ c.isDigit ∨ isNameStart c)) :
    (readMark c rest).result = .error cause ↔ Unreadable cause (c :: rest) := by
  by_cases bang : c = '!'
  · subst bang
    exact readMark_exclamation
  · rw [Unreadable.cons_iff quote bang, BeginsSomething, exists_mark_iff]
    unfold readMark
    cases hmark : Punctuator.ofChar? c with
    | none =>
        rw [not_or, not_or] at other
        simpa [other, quote, bang] using eq_comm
    | some mark =>
        dsimp only
        split <;> simp

/-- Where no layout begins, reading fails at unreadable positions only. -/
theorem readLexeme_eq_error_iff {previous : Option Char} {text : List Char} {cause : LexCause}
    (visible : ∀ c ∈ text.head?, isLayoutBlank c = false) :
    (readLexeme previous text).result = .error cause ↔ Unreadable cause text := by
  cases text with
  | nil =>
      constructor
      · intro read
        cases read
      · intro unreadable
        cases unreadable
  | cons c rest =>
      have blank : isLayoutBlank c = false := visible c rfl
      have begun (h : BeginsSomething c) (quote : c ≠ '"') (bang : c ≠ '!') :
          ¬Unreadable cause (c :: rest) :=
        fun unreadable => ((Unreadable.cons_iff quote bang).mp unreadable).2 h
      rw [readLexeme]
      by_cases quote : c = '"'
      · subst quote
        rw [if_pos rfl, Unreadable.quote_iff, unclosed_iff]
        unfold readText
        cases readContents rest with
        | none => simpa using eq_comm
        | some parts => simp
      rw [if_neg quote]
      by_cases digit : c.isDigit
      · have bang : c ≠ '!' := by
          rintro rfl
          cases digit
        rw [if_pos digit]
        refine iff_of_false (fun read => by cases read) ?_
        exact begun (.inr (.inr (.inl digit))) quote bang
      rw [if_neg digit]
      by_cases sign : c = '-' && signsNumber previous rest
      · rw [if_pos sign]
        obtain ⟨rfl, -⟩ : c = '-' ∧ _ := by simpa using sign
        have mark := exists_mark_iff.mpr (.inl (by decide : Punctuator.ofChar? '-' ≠ none))
        refine iff_of_false (fun read => by cases read) ?_
        exact begun (.inr (.inr (.inr (.inr mark)))) quote (by decide)
      rw [if_neg sign]
      by_cases start : isNameStart c
      · have bang : c ≠ '!' := by
          rintro rfl
          cases start
        rw [if_pos start]
        refine iff_of_false (fun read => by cases read) ?_
        exact begun (.inr (.inr (.inr (.inl start)))) quote bang
      · rw [if_neg start]
        exact readMark_eq_error_iff quote (by simp [blank, digit, start])

/-- Where a lexeme is spelled, something is read. -/
theorem Spells.not_unreadable {l : Lexeme} {word rest : List Char} (h : Spells l word)
    (cause : LexCause) : ¬Unreadable cause (word ++ rest) := by
  have named {word : List Char} (h : isName word) : ¬Unreadable cause (word ++ rest) := by
    cases word with
    | nil => cases h
    | cons c tail =>
        have start : isNameStart c := ((Bool.and_eq_true _ _).mp h).1
        have apart {d : Char} (hd : isNameStart d = false) : c ≠ d := by
          rintro rfl
          rw [start] at hd
          cases hd
        rw [List.cons_append, Unreadable.cons_iff (apart (by decide)) (apart (by decide))]
        exact fun h => h.2 (.inr (.inr (.inr (.inl start))))
  have signed {c : Char} (mark : Punctuator.ofChar? c ≠ none) (rest : List Char) :
      ¬Unreadable cause (c :: rest) := by
    have apart {d : Char} (hd : Punctuator.ofChar? d = none) : c ≠ d := by
      rintro rfl
      exact mark hd
    rw [Unreadable.cons_iff (apart (by decide)) (apart (by decide))]
    exact fun h => h.2 (.inr (.inr (.inr (.inr (exists_mark_iff.mpr (.inl mark))))))
  cases h with
  | keyword word => exact named (isName_spelling word)
  | name spelled _ => exact named spelled
  | @number literal numeral =>
      generalize literal.toList = word at numeral
      cases numeral with
      | negative => exact signed (by decide) _
      | unsigned decimal =>
          obtain ⟨c, more, rfl, digit⟩ := decimal.first
          have apart {d : Char} (hd : d.isDigit = false) : c ≠ d := by
            rintro rfl
            rw [digit] at hd
            cases hd
          rw [List.cons_append, Unreadable.cons_iff (apart (by decide)) (apart (by decide))]
          exact fun h => h.2 (.inr (.inr (.inl digit)))
  | @text raw contents expands =>
      rw [List.cons_append, Unreadable.quote_iff, List.append_assoc]
      exact fun h => h.2 raw _ rest expands rfl
  | punctuator mark =>
      by_cases bang : mark = .notEqual
      · subst bang
        exact fun h => (Unreadable.exclamation_iff.mp h).2 rfl
      · cases mark <;> first | exact signed (by decide) _ | exact absurd rfl bang

/-- Behind layout no blank stands. -/
theorem head_splitLayout (state : LayoutState) (text : List Char) :
    ∀ c ∈ (splitLayout state text).2.head?, isLayoutBlank c = false := by
  fun_induction splitLayout state text <;> simp_all

/-! ### Cutting a source -/

namespace Scanner

variable {s behind final : Scanner} {tokens : List (Token Span)}

theorem unreadable_of_next {e : LexError} (h : s.next = (.error e, behind)) :
    Unreadable e.cause s.skipLayout.rest :=
  (readLexeme_eq_error_iff (head_splitLayout .between s.rest)).mp (next_eq_error_iff.mp h).1

section Cut

variable {seam : Char} {more left : List Char} (ends : EndsLexemes seam)

include ends in
/-- A token that is read before the seam is read of the text that ends there. -/
theorem next_of_append {t : Token Span} (h : (s.append (seam :: more)).next = (.ok t, behind))
    (going : t.lexeme ≠ .endOfFile) (hrest : behind.rest = left ++ seam :: more) :
    ∃ short, s.next = (.ok t, short) ∧ behind = short.append (seam :: more) := by
  obtain ⟨hread, hbehind, -⟩ := next_eq_ok_iff.mp h
  have hleft := congrArg Scanner.rest hbehind
  rw [hrest] at hleft
  change left ++ seam :: more = (readLexeme _ _).rest at hleft
  have visible : s.skipLayout.rest ≠ [] := by
    -- if it were all layout, the token would have to end before it begins
    intro nothing
    obtain ⟨state, hstate⟩ : ∃ state, layoutEnd .between s.rest = some state :=
      Option.ne_none_iff_exists'.mp fun going =>
        (layoutEnd_eq_none_iff .between s.rest).mp going nothing
    have layout := congrArg Prod.snd (splitLayout_append_of_some more ends hstate)
    have small := length_splitLayout_le state (seam :: more)
    have taken := length_readLexeme hread going
    rw [← hleft] at taken
    change _ < (splitLayout .between (s.rest ++ seam :: more)).2.length at taken
    rw [layout, List.length_append] at taken
    change _ < (splitLayout state (seam :: more)).2.length at taken
    omega
  cases hnext : s.next with
  | mk read short =>
      cases read with
      | ok u =>
          have unended : u.lexeme ≠ .endOfFile := mt (next_eq_end_iff hnext).mp visible
          cases h.symm.trans (next_append more ends hnext unended)
          exact ⟨short, rfl, rfl⟩
      | error e =>
          have unreadable := unreadable_of_next hnext
          have spells := spells_readLexeme hread going
          have divided := readLexeme_append (s.append (seam :: more)).skipLayout.previous
            (s.append (seam :: more)).skipLayout.rest
          rw [← hleft, skipLayout_append more ends visible, ← List.append_assoc] at divided
          have word := List.append_cancel_right divided
          rw [← word] at unreadable
          rw [skipLayout_append more ends visible] at spells
          exact absurd unreadable (spells.not_unreadable e.cause)

include ends in
/-- Tokens that are read before the seam are read of the text that ends there. -/
theorem Reads.of_append (h : (s.append (seam :: more)).Reads tokens final)
    (hrest : final.rest = left ++ seam :: more) :
    ∃ short, s.Reads tokens short ∧ final = short.append (seam :: more) := by
  generalize hlong : s.append (seam :: more) = long at h
  induction h generalizing s with
  | done => exact ⟨s, .done, hlong.symm⟩
  | @token long t behind tokens final hnext going reads ih =>
      subst hlong
      obtain ⟨taken, hbehind, -⟩ := reads.exists_read
      rw [hrest, ← List.append_assoc] at hbehind
      obtain ⟨short, hshort, rfl⟩ := next_of_append ends hnext going hbehind
      obtain ⟨last, hlast, hfinal⟩ := ih hrest rfl
      exact ⟨last, .token hshort going hlast, hfinal⟩

end Cut

end Scanner

/-! ### The first failure -/

/-- Whether a text ends outside of texts and comments: tokens are read of it, and behind them
stand white space and comments that are closed. -/
def EndsOutside (text : List Char) : Prop :=
  ∃ tokens final, (Scanner.ofText text).Reads tokens final ∧ Spacing false final.rest

/-- Such a text is read to its end. -/
theorem tokenize_of_spacing {text : List Char} {tokens : List (Token Span)} {final : Scanner}
    (reads : (Scanner.ofText text).Reads tokens final) (spacing : Spacing false final.rest) :
    tokenize (String.ofList text) = .ok (tokens ++ [⟨.endOfFile, .point (.atEnd text)⟩]) := by
  have nothing : final.skipLayout.rest = [] := by
    have split := spacing.splitLayout_eq []
    rw [List.append_nil] at split
    exact congrArg Prod.snd split
  obtain ⟨stop, -, last⟩ := Scanner.tokens_of_skipLayout nothing
  have read : tokenize (String.ofList text) = .ok (tokens ++ [stop]) := by
    unfold tokenize
    rw [String.toList_ofList]
    exact reads.tokens_eq last
  obtain ⟨body, same, -⟩ := (tiles_of_tokenize read).exists_stop
  rw [String.toList_ofList] at same
  rw [read, (List.append_inj' same rfl).2]
  rfl

/-- Where a text ends outside of texts and comments and goes on unreadably, reading fails. -/
theorem tokens_eq_error_of_unreadable {before rest : List Char} {cause : LexCause}
    (outside : EndsOutside before) (unreadable : Unreadable cause rest) :
    (Scanner.ofText (before ++ rest)).tokens = .error ⟨.atEnd before, cause⟩ := by
  obtain ⟨tokens, final, reads, spacing⟩ := outside
  obtain ⟨seam, more, rfl, ends, visible⟩ := unreadable.endsLexemes
  have split := spacing.splitLayout_eq (seam :: more)
  rw [unreadable.splitLayout_eq, List.append_nil] at split
  have skipped : (final.append (seam :: more)).skipLayout =
      final.move final.rest (seam :: more) := by
    simp only [Scanner.skipLayout, Scanner.append, split]
    rfl
  have place : (final.append (seam :: more)).skipLayout.place = .atEnd before := by
    rw [skipped]
    exact reads.finish_eq.trans (Location.origin_after before)
  have reading : (readLexeme (final.append (seam :: more)).skipLayout.previous
      (final.append (seam :: more)).skipLayout.rest).result = .error cause := by
    rw [skipped]
    refine (readLexeme_eq_error_iff ?_).mpr unreadable
    rintro _ ⟨⟩
    exact visible
  have fails := Scanner.next_eq_error_iff (e := ⟨.atEnd before, cause⟩).mpr
    ⟨reading, rfl, place.symm⟩
  exact (reads.append more ends).tokens_eq_error (Scanner.tokens_of_error fails)

/-- What was read before a failure is read of the text that ends there. -/
theorem cut_of_error {source : List Char} {tokens : List (Token Span)} {final behind : Scanner}
    {e : LexError} (reads : (Scanner.ofText source).Reads tokens final)
    (fails : final.next = (.error e, behind)) :
    ∃ before rest short, source = before ++ rest ∧ e.place = .atEnd before ∧
      Unreadable e.cause rest ∧ (Scanner.ofText before).Reads tokens short ∧
      Spacing false short.rest := by
  have unreadable := Scanner.unreadable_of_next fails
  obtain ⟨seam, more, hrest, ends, -⟩ := unreadable.endsLexemes
  obtain ⟨taken, hsource, place⟩ := reads.exists_read
  obtain ⟨gap, hfinal, spacing, skipped⟩ :=
    final.exists_gap (place.trans (Location.origin_after taken))
  rw [hrest] at unreadable spacing hfinal
  change source = taken ++ final.rest at hsource
  rw [hfinal, ← List.append_assoc] at hsource
  subst hsource
  obtain ⟨short, hshort, rfl⟩ := Scanner.Reads.of_append (s := .ofText (taken ++ gap)) ends reads
    hfinal
  have left : short.rest = gap := List.append_cancel_right hfinal
  refine ⟨taken ++ gap, seam :: more, short, rfl, ?_, unreadable, hshort, left.symm ▸ spacing⟩
  rw [(Scanner.next_eq_error_iff.mp fails).2.2, skipped]

/-- A source that is refused is refused at one of its places. -/
theorem isIn_of_tokenize_error {source : String} {e : LexError}
    (h : tokenize source = .error e) : e.place.IsIn source := by
  obtain ⟨tokens, final, behind, reads, fails⟩ := Scanner.reads_of_error h
  obtain ⟨before, rest, -, split, place, -⟩ := cut_of_error reads fails
  exact ⟨before, rest, split, place⟩

/-- A source is refused at its first unreadable position outside of texts and comments, with
its cause, and nowhere else. The scanner has then read the tokens of the source that ends at
this position, which is read without a failure. -/
theorem tokenize_fails_at_first_unreadable (source : String) (e : LexError) :
    (tokenize source = .error e ↔ ∃ before rest, source.toList = before ++ rest ∧
      e.place = .atEnd before ∧ EndsOutside before ∧ Unreadable e.cause rest) ∧
    (tokenize source = .error e → ∃ before rest tokens final behind,
      source.toList = before ++ rest ∧ e.place = .atEnd before ∧ Unreadable e.cause rest ∧
      (Scanner.ofText source.toList).Reads tokens final ∧ final.next = (.error e, behind) ∧
      tokenize (String.ofList before) = .ok (tokens ++ [⟨.endOfFile, .point e.place⟩])) := by
  constructor
  · constructor
    · intro h
      obtain ⟨tokens, final, behind, reads, fails⟩ := Scanner.reads_of_error h
      obtain ⟨before, rest, short, split, place, unreadable, hshort, spacing⟩ :=
        cut_of_error reads fails
      exact ⟨before, rest, split, place, ⟨tokens, short, hshort, spacing⟩, unreadable⟩
    · rintro ⟨before, rest, split, place, outside, unreadable⟩
      obtain ⟨hplace, cause⟩ := e
      subst place
      unfold tokenize
      rw [split]
      exact tokens_eq_error_of_unreadable outside unreadable
  · intro h
    obtain ⟨tokens, final, behind, reads, fails⟩ := Scanner.reads_of_error h
    obtain ⟨before, rest, short, split, place, unreadable, hshort, spacing⟩ :=
      cut_of_error reads fails
    refine ⟨before, rest, tokens, final, behind, split, place, unreadable, reads, fails, ?_⟩
    rw [place]
    exact tokenize_of_spacing hshort spacing

/-- A quote in a comment opens no text, and a quote behind a backslash closes none. -/
theorem tokenize_fails_at_first_unreadable_escaped :
    tokenize "x /* \" */ -1!= \"a\\\"" = .error ⟨⟨15, 1, 16⟩, .unterminatedText⟩ ∧
      ∃ before rest tokens final behind,
        "x /* \" */ -1!= \"a\\\"".toList = before ++ rest ∧ ⟨15, 1, 16⟩ = Location.atEnd before ∧
        Unreadable .unterminatedText rest ∧
        (Scanner.ofText "x /* \" */ -1!= \"a\\\"".toList).Reads tokens final ∧
        final.next = (.error ⟨⟨15, 1, 16⟩, .unterminatedText⟩, behind) ∧
        tokenize (String.ofList before) =
          .ok (tokens ++ [⟨.endOfFile, .point ⟨15, 1, 16⟩⟩]) := by
  have reads : (Scanner.ofText "x /* \" */ -1!= \"a\\\"".toList).Reads
      [⟨.name "x", ⟨⟨0, 1, 1⟩, ⟨1, 1, 2⟩⟩⟩, ⟨.number "-1", ⟨⟨10, 1, 11⟩, ⟨12, 1, 13⟩⟩⟩,
        ⟨.punctuator .notEqual, ⟨⟨12, 1, 13⟩, ⟨14, 1, 15⟩⟩⟩]
      ⟨" \"a\\\"".toList, ⟨14, 1, 15⟩, some '='⟩ :=
    .token rfl (by decide) (.token rfl (by decide) (.token rfl (by decide) .done))
  have fails : tokenize "x /* \" */ -1!= \"a\\\"" = .error ⟨⟨15, 1, 16⟩, .unterminatedText⟩ :=
    reads.tokens_eq_error (Scanner.tokens_of_error rfl)
  exact ⟨fails, (tokenize_fails_at_first_unreadable _ _).2 fails⟩

end Guion
