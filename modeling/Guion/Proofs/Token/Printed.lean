import Guion.Proofs.Token.Spacing
import Guion.Proofs.Token.Spelling

/-!
# Lexing undoes printing

Lexemes are printed by their spellings, each behind a separator that begins with a blank.
Lexing gives them back: a separator is skipped whatever its comments hold, the blank at
its head keeps the lexeme before it from going on, and no separator ends in a digit, so
that a minus sign behind it still signs a number.
-/

namespace Guion

/-- What is printed before a lexeme: a blank, and then any white space and comments. -/
structure Separator where
  text : List Char
  blank_first : ∃ c ∈ text.head?, isLayoutBlank c
  spacing : Spacing false text

/-- The text of some lexemes, each behind its separator. -/
def printed : List (Separator × Lexeme) → List Char
  | [] => []
  | (separator, l) :: items => separator.text ++ (l.written ++ printed items)

/-! ### Separators -/

theorem CommentTail.getLast?_eq {tail : List Char} (h : CommentTail false tail) :
    tail.getLast? = some '/' := by
  generalize hcut : false = cut at h
  induction h with
  | close => rfl
  | cut | nestedCut => cases hcut
  | nested _ _ _ ih => simp [List.getLast?_cons, List.getLast?_append, ih hcut]
  | char _ _ ih => simp [List.getLast?_cons, ih hcut]

theorem noDigit_last_cons {d : Char} (hd : ¬d.isDigit) {rest : List Char}
    (h : ∀ c ∈ rest.getLast?, ¬c.isDigit) : ∀ c ∈ (d :: rest).getLast?, ¬c.isDigit := by
  intro c hc
  rw [List.getLast?_cons] at hc
  cases hlast : rest.getLast? with
  | none =>
      rw [hlast] at hc
      cases hc
      exact hd
  | some e =>
      rw [hlast] at hc h
      cases hc
      exact h _ rfl

/-- No spacing ends in a digit. -/
theorem Spacing.noDigit_last {gap : List Char} (h : Spacing false gap) :
    ∀ c ∈ gap.getLast?, ¬c.isDigit := by
  generalize hcut : false = cut at h
  induction h with
  | nil => simp
  | blank blank _ ih =>
      refine noDigit_last_cons ?_ (ih hcut)
      simp only [isLayoutBlank, Bool.or_eq_true, beq_iff_eq] at blank
      rcases blank with ((rfl | rfl) | rfl) | rfl <;> decide
  | @line cut inside stop rest _ ends _ ih =>
      have last : ('/' :: '/' :: (inside ++ stop :: rest)).getLast? = (stop :: rest).getLast? := by
        simp [List.getLast?_cons, List.getLast?_append]
      rw [last]
      refine noDigit_last_cons ?_ (ih hcut)
      simp only [isLineEnd, Bool.or_eq_true, beq_iff_eq] at ends
      rcases ends with rfl | rfl <;> decide
  | lineCut | blockCut => cases hcut
  | @block cut tail rest closed _ ih =>
      have last : ('/' :: '*' :: (tail ++ rest)).getLast? = ('/' :: rest).getLast? := by
        cases hrest : rest.getLast? <;>
          simp [List.getLast?_cons, List.getLast?_append, closed.getLast?_eq, hrest]
      rw [last]
      exact noDigit_last_cons (by decide) (ih hcut)

/-! ### Printed lexemes -/

/-- No layout begins where a spelling does, if what follows lets it be. -/
theorem Spells.splitLayout_eq {l : Lexeme} {word rest : List Char} (h : Spells l word)
    (followed : l.Followed rest) : splitLayout .between (word ++ rest) = ([], word ++ rest) := by
  obtain ⟨c, tail, rfl, visible, alone⟩ := h.first
  have pair (d : Char) (hd : d = '/' ∨ d = '*') :
      ∀ left, c = '/' → tail ++ rest = d :: left → False := by
    rintro left slash joined
    obtain ⟨rfl, rfl⟩ := alone slash
    rw [List.nil_append] at joined
    have apart := (followed d (by rw [joined]; rfl)).2.2 rfl
    exact hd.elim apart.1 apart.2
  rw [List.cons_append, splitLayout]
  · simp [visible]
  · exact pair '/' (.inl rfl)
  · exact pair '*' (.inr rfl)

theorem head?_printed (items : List (Separator × Lexeme)) :
    ∀ c ∈ (printed items).head?, isLayoutBlank c := by
  cases items with
  | nil => simp [printed]
  | cons item items =>
      obtain ⟨separator, l⟩ := item
      obtain ⟨d, hd, blank⟩ := separator.blank_first
      intro c hc
      rw [printed, List.head?_append, Option.mem_def.mp hd] at hc
      cases hc
      exact blank

namespace Scanner

/-- Behind white space and comments a lexeme is read where it is spelled. -/
theorem next_of_spells (s : Scanner) {gap word rest : List Char} (spacing : Spacing false gap)
    {l : Lexeme} (spells : Spells l word) (followed : l.Followed rest)
    (apart : ∀ literal, l = .number literal →
      (gap.getLast?.or s.previous).any Char.isDigit = false)
    (hrest : s.rest = gap ++ (word ++ rest)) :
    ∃ t behind, s.next = (.ok t, behind) ∧ t.lexeme = l ∧ behind.rest = rest ∧
      behind.previous = word.getLast? := by
  have skipped : s.skipLayout = s.move gap (word ++ rest) := by
    have layout := spacing.splitLayout_eq (word ++ rest)
    rw [spells.splitLayout_eq followed, List.append_nil] at layout
    simp only [skipLayout, hrest, layout]
  have reading : readLexeme s.skipLayout.previous s.skipLayout.rest = ⟨.ok l, word, rest⟩ := by
    rw [skipped]
    exact readLexeme_of_spells spells followed apart
  refine ⟨⟨l, s.skipLayout.place, _⟩, s.skipLayout.move word rest,
    next_eq_ok_iff.mpr ⟨?_, ?_, rfl⟩, rfl, rfl, ?_⟩
  · rw [reading]
  · rw [reading]
  · obtain ⟨c, tail, rfl, -⟩ := spells.first
    rw [move, List.getLast?_cons]
    rfl

/-- Behind a separator, a lexeme is read where it was printed. -/
theorem next_printed (s : Scanner) (separator : Separator) {l : Lexeme} (valid : l.Valid)
    {rest : List Char} (blank : ∀ c ∈ rest.head?, isLayoutBlank c)
    (hrest : s.rest = separator.text ++ (l.written ++ rest)) :
    ∃ t behind, s.next = (.ok t, behind) ∧ t.lexeme = l ∧ behind.rest = rest := by
  have previous : (separator.text.getLast?.or s.previous).any Char.isDigit = false := by
    obtain ⟨c, hc, -⟩ := separator.blank_first
    obtain ⟨more, htext⟩ := List.head?_eq_some_iff.mp hc
    have last : separator.text.getLast? = some (more.getLast?.getD c) := by
      rw [htext, List.getLast?_cons]
    have noDigit := separator.spacing.noDigit_last _ last
    rw [last]
    simpa using noDigit
  obtain ⟨t, behind, hnext, ht, hbehind, -⟩ := s.next_of_spells separator.spacing valid.spells
    (l.followed_of_blank blank) (fun _ _ => previous) hrest
  exact ⟨t, behind, hnext, ht, hbehind⟩

/-- A scanner at printed lexemes reads all of them. -/
theorem reads_printed (items : List (Separator × Lexeme)) (valid : ∀ item ∈ items, item.2.Valid)
    (s : Scanner) (hrest : s.rest = printed items) :
    ∃ tokens final, s.Reads tokens final ∧ tokens.map Token.lexeme = items.map Prod.snd ∧
      final.rest = [] := by
  induction items generalizing s with
  | nil => exact ⟨[], s, .done, rfl, hrest⟩
  | cons item items ih =>
      obtain ⟨separator, l⟩ := item
      obtain ⟨hl, hitems⟩ := List.forall_mem_cons.mp valid
      obtain ⟨t, behind, hnext, rfl, hbehind⟩ :=
        s.next_printed separator hl (head?_printed items) hrest
      obtain ⟨tokens, final, reads, lexemes, hfinal⟩ := ih hitems behind hbehind
      refine ⟨t :: tokens, final, .token hnext hl.spells.ne_end reads, ?_, hfinal⟩
      rw [List.map_cons, List.map_cons, lexemes]

/-- Where nothing is left, the end is read. -/
theorem tokens_of_empty {s : Scanner} (h : s.rest = []) :
    s.tokens = .ok [⟨.endOfFile, .point s.place⟩] := by
  obtain ⟨rest, place, previous⟩ := s
  subst h
  exact tokens_of_end rfl rfl

end Scanner

/-- Lexing undoes printing: if lexemes that a source can hold are printed, each behind a
separator of its own, the lexemes of that source are these, and then the end. -/
theorem tokenize_printed (items : List (Separator × Lexeme))
    (valid : ∀ item ∈ items, item.2.Valid) :
    ∃ tokens, tokenize (String.ofList (printed items)) = .ok tokens ∧
      tokens.map Token.lexeme = items.map Prod.snd ++ [.endOfFile] := by
  obtain ⟨body, final, reads, lexemes, hfinal⟩ := Scanner.reads_printed items valid
    (.ofText (String.ofList (printed items)).toList) String.toList_ofList
  refine ⟨_, reads.tokens_eq (Scanner.tokens_of_empty hfinal), ?_⟩
  simp [lexemes]

/-- A separator with a line comment that ends in a digit, and with a comment in another. -/
def Separator.commented : Separator where
  text := "\t//1\n/*/*/1*/*/".toList
  blank_first := ⟨'\t', rfl, rfl⟩
  spacing := by
    have slash : ¬BeginsPair '/' ['1', '*', '/'] := by simp [BeginsPair]
    have one : ¬BeginsPair '1' ['*', '/'] := by simp [BeginsPair]
    have inner : CommentTail false ['/', '1', '*', '/'] := .char slash (.char one .close)
    have outer : CommentTail false ['/', '*', '/', '1', '*', '/', '*', '/'] := .nested inner .close
    have inLine : InLine ['1'] := by simp [InLine, isLineEnd]
    exact .blank rfl (.line inLine rfl (.block outer .nil))

theorem tokenize_printed_commented :
    ∃ tokens, tokenize (String.ofList (printed [(.commented, .number "1"),
        (.commented, .number "-2.5"), (.commented, .text "\"\\")])) = .ok tokens ∧
      tokens.map Token.lexeme =
        [.number "1", .number "-2.5", .text "\"\\", .endOfFile] := by
  refine tokenize_printed [(.commented, .number "1"), (.commented, .number "-2.5"),
    (.commented, .text "\"\\")] ?_
  have two : Decimal (['2'] ++ '.' :: ['5']) := .fraction rfl rfl
  simp only [List.forall_mem_cons, List.not_mem_nil, false_implies, implies_true, and_true]
  exact ⟨.unsigned (.whole rfl), .negative two, trivial⟩

end Guion
