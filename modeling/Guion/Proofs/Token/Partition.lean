import Guion.Proofs.Token.Spacing
import Guion.Proofs.Token.Spelling

/-!
# Tokens partition their source

The scanner keeps its place by moving over every character it passes. Here the same place
is counted in the text that stands before it, once and for all: its bytes, its line feeds,
and its characters behind the last of them. Between the tokens of a source stand white
space and comments only, each token stands where its spelling does, and the end is read
at the end.
-/

namespace Guion

/-! ### Places, counted -/

/-- The place at the end of a text that begins its source. -/
def Location.atEnd (text : List Char) : Location where
  offset := (String.ofList text).utf8ByteSize
  line := 1 + text.count '\n'
  column := 1 + (text.reverse.takeWhile (· ≠ '\n')).length

/-- A place between two characters of a source, or at one of its ends. -/
def Location.IsIn (source : String) (place : Location) : Prop :=
  ∃ before behind, source.toList = before ++ behind ∧ place = .atEnd before

namespace Location

theorem after_concat (place : Location) (text : List Char) (c : Char) :
    place.after (text ++ [c]) = (place.after text).next c := by
  rw [after_append, after_cons, after_nil]

theorem column_after (text : List Char) :
    (origin.after text).column = 1 + (text.reverse.takeWhile (· ≠ '\n')).length := by
  -- the column counts back from the end, so the induction takes characters off there
  rw [← text.reverse_reverse]
  induction text.reverse with
  | nil => rfl
  | cons c text ih =>
      rw [List.reverse_cons, after_concat, next]
      rw [List.reverse_reverse] at ih
      by_cases feed : c = '\n'
      · simp [feed]
      · simp [feed, ih, Nat.add_comm]

/-- Moving over a text from the origin, the place is the one at its end. -/
theorem origin_after (text : List Char) : origin.after text = atEnd text := by
  obtain ⟨offset, line⟩ := origin.after_eq text
  have column := column_after text
  simp only [origin, Nat.zero_add] at offset line
  rw [atEnd, ← offset, ← line, ← column]
  rfl

/-- Moving over more text, the place is at the end of all of it. -/
theorem atEnd_after (before text : List Char) :
    (atEnd before).after text = atEnd (before ++ text) := by
  rw [← origin_after, ← origin_after, after_append]

theorem offset_atEnd_append (before text : List Char) :
    (atEnd (before ++ text)).offset =
      (atEnd before).offset + (String.ofList text).utf8ByteSize := by
  simp only [atEnd, String.ofList_append, String.utf8ByteSize_append]

theorem offset_atEnd_le (before text : List Char) :
    (atEnd before).offset ≤ (atEnd (before ++ text)).offset := by
  rw [offset_atEnd_append]
  exact Nat.le_add_right _ _

theorem offset_atEnd_lt (before : List Char) {text : List Char} (h : text ≠ []) :
    (atEnd before).offset < (atEnd (before ++ text)).offset := by
  have size : 0 < (String.ofList text).utf8ByteSize := by
    obtain ⟨c, rest, rfl⟩ := List.exists_cons_of_ne_nil h
    rw [← List.singleton_append, String.ofList_append, String.utf8ByteSize_append,
      ← String.singleton_eq_ofList, String.utf8ByteSize_singleton]
    exact Nat.lt_of_lt_of_le c.utf8Size_pos (Nat.le_add_right _ _)
  rw [offset_atEnd_append]
  exact Nat.lt_add_of_pos_right size

end Location

/-! ### Tilings -/

/-- `Tiles before tokens text`: behind `before`, the text consists of these tokens, each at
its place and behind white space and comments, and the last one the end of the source. -/
inductive Tiles : List Char → List (Token Span) → List Char → Prop
  | stop {before gap} : Spacing true gap →
      Tiles before [⟨.endOfFile, .point (.atEnd (before ++ gap))⟩] gap
  | token {before gap word text l tokens} : Spacing false gap → Spells l word →
      Tiles (before ++ gap ++ word) tokens text →
      Tiles before (⟨l, ⟨.atEnd (before ++ gap), .atEnd (before ++ gap ++ word)⟩⟩ :: tokens)
        (gap ++ word ++ text)

namespace Tiles

variable {before text : List Char} {tokens : List (Token Span)}

/-- All tokens stand behind what was read before them. -/
theorem offset_le (h : Tiles before tokens text) :
    ∀ t ∈ tokens, (Location.atEnd before).offset ≤ t.range.start.offset := by
  induction h with
  | @stop before gap _ =>
      exact List.forall_mem_singleton.mpr (Location.offset_atEnd_le before gap)
  | @token before gap word text l tokens _ _ _ ih =>
      refine List.forall_mem_cons.mpr ⟨Location.offset_atEnd_le before gap, fun t ht => ?_⟩
      have behind := Location.offset_atEnd_le before (gap ++ word)
      rw [← List.append_assoc] at behind
      exact Nat.le_trans behind (ih t ht)

/-- The tokens stand one behind the other. -/
theorem pairwise (h : Tiles before tokens text) :
    tokens.Pairwise fun t u => t.range.stop.offset ≤ u.range.start.offset := by
  induction h with
  | stop => exact List.pairwise_singleton _ _
  | token _ _ rest ih => exact List.pairwise_cons.mpr ⟨rest.offset_le, ih⟩

/-- The end of the source is the last token and no other, and it stands at the end. -/
theorem exists_stop (h : Tiles before tokens text) :
    ∃ body, tokens = body ++ [⟨.endOfFile, .point (.atEnd (before ++ text))⟩] ∧
      ∀ t ∈ body, t.lexeme ≠ .endOfFile ∧ t.range.start.offset < t.range.stop.offset := by
  induction h with
  | stop => exact ⟨[], rfl, by simp⟩
  | @token before gap word text l tokens _ spells _ ih =>
      obtain ⟨body, rfl, hbody⟩ := ih
      have visible : word ≠ [] := by
        obtain ⟨c, tail, rfl, -⟩ := spells.first
        exact List.cons_ne_nil c tail
      refine ⟨⟨l, ⟨.atEnd (before ++ gap), .atEnd (before ++ gap ++ word)⟩⟩ :: body, ?_, ?_⟩
      · simp only [List.append_assoc, List.cons_append]
      · rw [List.forall_mem_cons]
        exact ⟨⟨spells.ne_end, Location.offset_atEnd_lt _ visible⟩, hbody⟩

/-- All places are places of the source. -/
theorem isIn {source : String} (h : Tiles before tokens text)
    (hsource : source.toList = before ++ text) :
    ∀ t ∈ tokens, t.range.start.IsIn source ∧ t.range.stop.IsIn source := by
  induction h with
  | @stop before gap _ =>
      have place : (Location.atEnd (before ++ gap)).IsIn source :=
        ⟨before ++ gap, [], by simpa using hsource, rfl⟩
      simpa using ⟨place, place⟩
  | @token before gap word text l tokens _ _ _ ih =>
      refine List.forall_mem_cons.mpr ⟨⟨⟨before ++ gap, word ++ text, ?_, rfl⟩,
        ⟨before ++ gap ++ word, text, ?_, rfl⟩⟩, ih ?_⟩
      all_goals simpa using hsource

end Tiles

/-! ### What the scanner reads is a tiling -/

namespace Scanner

variable {s behind : Scanner} {before : List Char} {t : Token Span}

/-- Up to the next token or the end, the scanner passes white space and comments. -/
theorem exists_gap (s : Scanner) (hplace : s.place = .atEnd before) :
    ∃ gap, s.rest = gap ++ s.skipLayout.rest ∧ Spacing s.skipLayout.rest.isEmpty gap ∧
      s.skipLayout.place = .atEnd (before ++ gap) := by
  refine ⟨_, (splitLayout_append .between s.rest).symm, layout_splitLayout .between s.rest, ?_⟩
  rw [← Location.atEnd_after, ← hplace]
  rfl

/-- A token is spelled by the characters it was read from, and stands where they do. -/
theorem next_tiles (hplace : s.place = .atEnd before) (hnext : s.next = (.ok t, behind))
    (going : t.lexeme ≠ .endOfFile) :
    ∃ gap word, s.rest = gap ++ word ++ behind.rest ∧ Spacing false gap ∧ Spells t.lexeme word ∧
      t.range = ⟨.atEnd (before ++ gap), .atEnd (before ++ gap ++ word)⟩ ∧
      behind.place = .atEnd (before ++ gap ++ word) := by
  obtain ⟨gap, hrest, spacing, place⟩ := s.exists_gap hplace
  have more : s.skipLayout.rest.isEmpty = false := by
    have := mt (next_eq_end_iff hnext).mpr going
    simpa using this
  obtain ⟨hread, rfl, hrange⟩ := next_eq_ok_iff.mp hnext
  have divided := readLexeme_append s.skipLayout.previous s.skipLayout.rest
  have moved : (s.skipLayout.place.after
      (readLexeme s.skipLayout.previous s.skipLayout.rest).taken) = .atEnd (before ++ gap ++
        (readLexeme s.skipLayout.previous s.skipLayout.rest).taken) := by
    rw [place, Location.atEnd_after]
  refine ⟨gap, _, ?_, more ▸ spacing, spells_readLexeme hread going, ?_, moved⟩
  · rw [List.append_assoc]
    exact hrest.trans (congrArg (gap ++ ·) divided.symm)
  · rw [hrange, place]
    exact congrArg _ moved

/-- At the end, only white space and comments are left. -/
theorem end_tiles (hplace : s.place = .atEnd before) (hnext : s.next = (.ok t, behind))
    (hend : t.lexeme = .endOfFile) : Tiles before [t] s.rest := by
  obtain ⟨gap, hrest, spacing, place⟩ := s.exists_gap hplace
  have nothing := (next_eq_end_iff hnext).mp hend
  obtain ⟨-, rfl, hrange⟩ := next_eq_ok_iff.mp hnext
  rw [nothing] at spacing hrest hrange
  rw [hrest, List.append_nil]
  have range : t.range = .point (.atEnd (before ++ gap)) := by
    rw [hrange, place]
    exact congrArg _ place
  obtain ⟨l, range'⟩ := t
  subst hend
  subst range
  exact .stop spacing

theorem Reads.tiles {body : List (Token Span)} {final : Scanner} (h : s.Reads body final)
    (hplace : s.place = .atEnd before) (hnext : final.next = (.ok t, behind))
    (hend : t.lexeme = .endOfFile) : Tiles before (body ++ [t]) s.rest := by
  induction h generalizing before with
  | done => exact end_tiles hplace hnext hend
  | @token s u next tokens final hread going _ ih =>
      obtain ⟨gap, word, hrest, spacing, spells, hrange, place⟩ := next_tiles hplace hread going
      rw [hrest]
      obtain ⟨l, range⟩ := u
      subst hrange
      exact .token spacing spells (ih place hnext)

end Scanner

/-- The tokens of a source tile it. -/
theorem tiles_of_tokenize {source : String} {tokens : List (Token Span)}
    (h : tokenize source = .ok tokens) : Tiles [] tokens source.toList := by
  obtain ⟨body, stop, final, behind, rfl, reads, hnext, hend⟩ := Scanner.reads_of_tokens h
  exact reads.tiles (Location.origin_after []) hnext hend

/-- The tokens of a source partition it. The last one and no other is the end of the
source, and it stands there. They come in order and do not overlap; each of the others
takes up some of the source. Every place among them is a place of the source with its line
and column counted there. What stands between them is white space and comments, and each
of them is spelled by what stands at its range. -/
theorem tokens_partition_source {source : String} {tokens : List (Token Span)}
    (h : tokenize source = .ok tokens) :
    (∃ body stop, tokens = body ++ [stop] ∧ stop.lexeme = .endOfFile ∧
      stop.range = .point (.atEnd source.toList) ∧
      stop.range.start.offset = source.utf8ByteSize ∧
      ∀ t ∈ body, t.lexeme ≠ .endOfFile ∧ t.range.start.offset < t.range.stop.offset) ∧
    (tokens.Pairwise fun t u => t.range.stop.offset ≤ u.range.start.offset) ∧
    (∀ t ∈ tokens, t.range.start.IsIn source ∧ t.range.stop.IsIn source) ∧
    Tiles [] tokens source.toList := by
  have tiles := tiles_of_tokenize h
  obtain ⟨body, hbody, inside⟩ := tiles.exists_stop
  have size : (Location.atEnd source.toList).offset = source.utf8ByteSize := by
    rw [Location.atEnd, String.ofList_toList]
  exact ⟨⟨body, _, hbody, rfl, rfl, size, inside⟩, tiles.pairwise, tiles.isIn rfl, tiles⟩

/-- A text over two lines, and a comment that is never closed. -/
theorem tokens_partition_source_cutOff :
    tokenize "\"é\n\\\"\" /*" = .ok [⟨.text "é\n\"", ⟨⟨0, 1, 1⟩, ⟨7, 2, 4⟩⟩⟩,
        ⟨.endOfFile, ⟨⟨10, 2, 7⟩, ⟨10, 2, 7⟩⟩⟩] ∧
      Tiles [] [⟨.text "é\n\"", ⟨⟨0, 1, 1⟩, ⟨7, 2, 4⟩⟩⟩,
        ⟨.endOfFile, ⟨⟨10, 2, 7⟩, ⟨10, 2, 7⟩⟩⟩] "\"é\n\\\"\" /*".toList := by
  have reads : (Scanner.ofText "\"é\n\\\"\" /*".toList).Reads
      [⟨.text "é\n\"", ⟨⟨0, 1, 1⟩, ⟨7, 2, 4⟩⟩⟩] ⟨[' ', '/', '*'], ⟨7, 2, 4⟩, some '"'⟩ :=
    .token rfl (by decide) .done
  have lexed : tokenize "\"é\n\\\"\" /*" = .ok _ :=
    reads.tokens_eq (Scanner.tokens_of_end rfl rfl)
  exact ⟨lexed, (tokens_partition_source lexed).2.2.2⟩

end Guion
