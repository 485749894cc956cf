import Guion.Proofs.Parse.Correctness
import Guion.Proofs.Parse.Promises
import Guion.Proofs.Token.Partition

/-!
# Where parsing stops

The parser of programs goes on as long as what it has taken can go on to a program, and no
longer. The token that it complains about is the first one behind which there is none.
-/

namespace Guion

namespace Tiles

variable {before text : List Char} {tokens used : List (Token Span)}

/-- No token stands twice among those of a source. -/
theorem nodup (h : Tiles before tokens text) : tokens.Nodup := by
  have apart := h.pairwise
  obtain ⟨body, rfl, hbody⟩ := h.exists_stop
  refine List.nodup_append.mpr ⟨?_, List.pairwise_singleton _ _, ?_⟩
  · refine (List.pairwise_append.mp apart).1.imp_of_mem fun {t u} ht _ le => ?_
    rintro rfl
    exact absurd (hbody t ht).2 (Nat.not_lt.mpr le)
  · rintro t ht _ hu rfl
    rw [List.mem_singleton.mp hu] at ht
    exact (hbody _ ht).1 rfl

/-- The end is among the tokens of a source. -/
theorem end_mem (h : Tiles before tokens text) : .endOfFile ∈ tokens.map Token.lexeme := by
  obtain ⟨body, rfl, -⟩ := h.exists_stop
  simp

/-- The tokens of a source come in order. The end is one of them, and it is empty. -/
theorem inOrder (h : Tiles before tokens text) : InOrder tokens := by
  refine ⟨?_, h.pairwise⟩
  obtain ⟨body, rfl, hbody⟩ := h.exists_stop
  refine List.forall_mem_append.mpr ⟨fun t ht => Nat.le_of_lt (hbody t ht).2, ?_⟩
  exact List.forall_mem_singleton.mpr (Nat.le_refl _)

/-- Tokens of a source other than its end take up some of it. -/
theorem ordered (h : Tiles before tokens text) (hused : used.Sublist tokens)
    (absent : .endOfFile ∉ used.map Token.lexeme) : Ordered used := by
  refine ⟨fun t ht => ?_, h.pairwise.sublist hused⟩
  obtain ⟨body, rfl, hbody⟩ := h.exists_stop
  have going : t.lexeme ≠ .endOfFile := fun hend => absent (hend ▸ List.mem_map_of_mem ht)
  rcases List.mem_append.mp (hused.subset ht) with inside | last
  · exact (hbody t inside).2
  · rw [List.mem_singleton.mp last] at going
    exact absurd rfl going

end Tiles

namespace Parser

open Grammar

variable {tokens others : List (Token Span)} {complaint : Complaint Span} {next : Cursor Span}

/-! ### What the parser of programs promises -/

theorem stands_ofTokens (tokens : List (Token Span)) :
    Stands tokens.length [] (Cursor.ofTokens tokens) :=
  ⟨by simp [Cursor.ofTokens], Extent.origin, rfl⟩

/-- A program fails where its statements do. -/
theorem program_eq_error_iff {c : Cursor Span} :
    program c = .error complaint next ↔ collect programStep c = .error complaint next := by
  change Parser.bind (collect programStep) _ c = _ ↔ _
  unfold Parser.bind
  cases collect programStep c with
  | ok list final => exact ⟨nofun, nofun⟩
  | error complaint next => simp

/-- The statements of a program cover the tokens that it begins with. -/
theorem exists_covers_of_program {p : Program Span}
    (h : program (Cursor.ofTokens tokens) = .ok p next) :
    ∃ used, used <+: tokens ∧ Covers .statements used p.statements := by
  obtain ⟨first, c, hfirst, h⟩ := bind_eq_ok_iff.mp h
  cases hfirst
  obtain ⟨list, final, hlist, h⟩ := bind_eq_ok_iff.mp h
  cases h
  have meets := contract_program tokens.length _ (stands_ofTokens tokens)
  obtain ⟨used, passes, covers, -⟩ := meets.yields hlist
  have split : tokens = used ++ next.rest := congrArg Cursor.rest passes.eq_lead
  exact ⟨used, ⟨next.rest, split.symm⟩, covers⟩

/-- A complaint about a program comes of the tokens up to the one that it blames, which could
have gone on to statements without that one, and it points to some of them. -/
theorem exists_viable_of_program (ends : .endOfFile ∈ tokens.map Token.lexeme)
    (h : program (Cursor.ofTokens tokens) = .error complaint next) :
    ∃ used rest, tokens = used ++ complaint.blamed next :: rest ∧ Viable .statements used ∧
      Points (used ++ [complaint.blamed next]) complaint.range ∧
      ∀ more, ∃ complaint' next',
        program (Cursor.ofTokens (used ++ complaint.blamed next :: more)) =
          .error complaint' next' := by
  have meets := contract_program tokens.length _ (stands_ofTokens tokens)
  obtain ⟨used, stop, passes, blamed, viable, points, elsewhere⟩ :=
    meets.rejects (program_eq_error_iff.mp h)
  have split : tokens = used ++ stop.rest := congrArg Cursor.rest passes.eq_lead
  rw [blamed]
  obtain ⟨rest, hrest⟩ : ∃ rest, stop.rest = stop.peek :: rest := by
    cases hrest : stop.rest with
    | nil =>
        -- the end is among the tokens, and nothing takes it
        obtain ⟨more, list, -, derives⟩ := viable
        rw [split, hrest, List.append_nil] at ends
        exact absurd (List.mem_append_left more ends) derives.no_end
    | cons t rest =>
        refine ⟨rest, ?_⟩
        rw [Cursor.peek, hrest]
        rfl
  refine ⟨used, rest, by rw [split, hrest], viable, points, fun more => ?_⟩
  obtain ⟨complaint', next', h⟩ := elsewhere
    ⟨stop.peek :: more, stop.last, (Cursor.ofTokens (used ++ stop.peek :: more)).finish⟩ rfl rfl
  exact ⟨complaint', next', program_eq_error_iff.mpr h⟩

/-! ### Programs and their beginnings -/

/-- Tokens that the parser takes for a program. -/
def Accepted (tokens : List (Token Span)) : Prop :=
  ∃ p next, program (Cursor.ofTokens tokens) = .ok p next

theorem accepted_iff_bare :
    Accepted tokens ↔ ∃ q next, program (Cursor.bare (tokens.map Token.lexeme)) = .ok q next := by
  constructor
  · rintro ⟨p, next, h⟩
    exact ⟨_, (program_forget tokens _).mp ⟨p, next, h, rfl⟩⟩
  · rintro ⟨q, h⟩
    obtain ⟨p, next, h, -⟩ := (program_forget tokens q).mpr h
    exact ⟨p, next, h⟩

/-- Whether tokens are a program does not depend on where they stand. -/
theorem accepted_congr (same : others.map Token.lexeme = tokens.map Token.lexeme) :
    Accepted others ↔ Accepted tokens := by
  rw [accepted_iff_bare, accepted_iff_bare, same]

/-- What can go on to statements goes on to a program. -/
theorem exists_accepted_of_viable {used : List (Token Span)} (h : Viable .statements used) :
    ∃ more : List Lexeme, (∀ l ∈ more, l.Valid) ∧ ∀ others,
      others.map Token.lexeme = used.map Token.lexeme ++ more ++ [.endOfFile] →
      Accepted others := by
  obtain ⟨more, list, valid, derives⟩ := h
  refine ⟨more, valid, fun others same => accepted_iff_bare.mpr ⟨⟨(), list⟩, ?_⟩⟩
  rw [same]
  exact (program_bare_iff derives.no_end).mpr (.program derives)

/-- If tokens are a program by themselves, they are one before the end. -/
theorem Accepted.concat_end {stop : Token Span} (h : Accepted tokens)
    (absent : Lexeme.endOfFile ∉ tokens.map Token.lexeme) (ends : stop.lexeme = .endOfFile) :
    Accepted (tokens ++ [stop]) := by
  obtain ⟨q, next, h⟩ := accepted_iff_bare.mp h
  obtain ⟨used, rest, split, hrest, derives⟩ := program_ok h
  cases rest with
  | nil =>
      rw [List.append_nil] at split
      rw [accepted_iff_bare, List.map_append, List.map_singleton, ends]
      refine ⟨q, (program_bare_iff absent).mpr ?_⟩
      rwa [split]
  | cons l rest =>
      obtain rfl : l = .endOfFile := hrest
      exact absurd (split ▸ by simp) absent

/-- If the parser fails on some tokens whatever follows them, then nothing that begins with
their lexemes is a program. -/
theorem not_accepted_of_begins
    (fails : ∀ more, ∃ complaint next,
      program (Cursor.ofTokens (tokens ++ more)) = .error complaint next)
    (begins : tokens.map Token.lexeme <+: others.map Token.lexeme) : ¬Accepted others := by
  obtain ⟨more, hmore⟩ := begins
  have behind : (others.drop tokens.length).map Token.lexeme = more := by
    rw [List.map_drop, ← hmore, List.drop_left' (List.length_map _)]
  have same : others.map Token.lexeme =
      (tokens ++ others.drop tokens.length).map Token.lexeme := by
    rw [List.map_append, behind, hmore]
  rw [accepted_congr same]
  rintro ⟨p, final, accepted⟩
  obtain ⟨complaint, next, rejected⟩ := fails (others.drop tokens.length)
  rw [rejected] at accepted
  cases accepted

/-- Parsing stops at the first token that cannot go on to a program. The token that the
complaint blames stands once among the tokens. Some lexemes that a source can hold go on with
the tokens before it to a program; nothing that begins with these tokens and the one that is
blamed is a program, nor are they one by themselves if it is the end that is blamed. -/
theorem program_stops_at_first_unviable {source : String} (lexed : tokenize source = .ok tokens)
    (fails : program (Cursor.ofTokens tokens) = .error complaint next) :
    ∃ i, (∀ j, tokens[j]? = some (complaint.blamed next) ↔ j = i) ∧
      (∃ more : List Lexeme, (∀ l ∈ more, l.Valid) ∧ ∀ others, others.map Token.lexeme =
        (tokens.take i).map Token.lexeme ++ more ++ [.endOfFile] → Accepted others) ∧
      (∀ others, (tokens.take (i + 1)).map Token.lexeme <+: others.map Token.lexeme →
        ¬Accepted others) ∧
      ((complaint.blamed next).lexeme = .endOfFile → ∀ others,
        others.map Token.lexeme = (tokens.take i).map Token.lexeme → ¬Accepted others) := by
  have tiles := tiles_of_tokenize lexed
  obtain ⟨used, rest, split, viable, -, fails⟩ := exists_viable_of_program tiles.end_mem fails
  have first : tokens.take used.length = used := by rw [split, List.take_left]
  have through : tokens.take (used.length + 1) = used ++ [complaint.blamed next] := by
    rw [split, List.append_cons, List.take_left' (by simp)]
  have rejected : ∀ more, ∃ complaint' next',
      program (Cursor.ofTokens (used ++ [complaint.blamed next] ++ more)) =
        .error complaint' next' := by
    simpa using fails
  refine ⟨used.length, fun j => ?_, ?_, fun others begins => ?_, fun ends others same => ?_⟩
  · have here : tokens[used.length]? = some (complaint.blamed next) := by simp [split]
    have inside : used.length < tokens.length := by simp [split]
    rw [← here, eq_comm, List.getElem?_inj inside tiles.nodup, eq_comm]
  · rw [first]
    exact exists_accepted_of_viable viable
  · rw [through] at begins
    exact not_accepted_of_begins rejected begins
  · intro accepted
    have absent : Lexeme.endOfFile ∉ used.map Token.lexeme := by
      obtain ⟨more, list, -, derives⟩ := viable
      exact mt (List.mem_append_left more) derives.no_end
    rw [first] at same
    have whole := ((accepted_congr same).mp accepted).concat_end absent ends
    exact not_accepted_of_begins rejected (List.prefix_refl _) whole

/-- A call cannot be assigned to: it may go on to a program, but not with an equals sign. -/
theorem program_stops_at_first_unviable_call :
    ∃ tokens complaint next, tokenize "f() = 1;" = .ok tokens ∧
      program (Cursor.ofTokens tokens) = .error complaint next ∧
      (∃ more : List Lexeme, (∀ l ∈ more, l.Valid) ∧ ∀ others, others.map Token.lexeme =
        [.name "f", .punctuator .leftParen, .punctuator .rightParen] ++ more ++ [.endOfFile] →
        Accepted others) ∧
      ∀ others, [.name "f", .punctuator .leftParen, .punctuator .rightParen,
        .punctuator .assign] <+: others.map Token.lexeme → ¬Accepted others := by
  have reads : (Scanner.ofText "f() = 1;".toList).Reads [⟨.name "f", ⟨⟨0, 1, 1⟩, ⟨1, 1, 2⟩⟩⟩,
      ⟨.punctuator .leftParen, ⟨⟨1, 1, 2⟩, ⟨2, 1, 3⟩⟩⟩,
      ⟨.punctuator .rightParen, ⟨⟨2, 1, 3⟩, ⟨3, 1, 4⟩⟩⟩,
      ⟨.punctuator .assign, ⟨⟨4, 1, 5⟩, ⟨5, 1, 6⟩⟩⟩, ⟨.number "1", ⟨⟨6, 1, 7⟩, ⟨7, 1, 8⟩⟩⟩,
      ⟨.punctuator .semicolon, ⟨⟨7, 1, 8⟩, ⟨8, 1, 9⟩⟩⟩] ⟨[], ⟨8, 1, 9⟩, some ';'⟩ :=
    .token rfl (by decide) (.token rfl (by decide) (.token rfl (by decide) (.token rfl (by decide)
      (.token rfl (by decide) (.token rfl (by decide) .done)))))
  have lexed : tokenize "f() = 1;" = .ok _ := reads.tokens_eq (Scanner.tokens_of_end rfl rfl)
  refine ⟨_, _, _, lexed, rfl, ?_⟩
  obtain ⟨i, blamed, viable, rejected, -⟩ := program_stops_at_first_unviable lexed rfl
  obtain rfl : 3 = i := (blamed 3).mp rfl
  exact ⟨viable, rejected⟩

end Parser

end Guion
