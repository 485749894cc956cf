import Mathlib.Data.List.Basic
import Guion.Proofs.Parse.Completeness

/-!
# The parser is the grammar

The parser of programs accepts exactly the token lists that the grammar derives,
with the tree that the grammar gives them; and the grammar gives no token list two
trees. Positions play no part in it, so the argument is made without them and then
carried over to tokens at any positions.
-/

namespace Guion.Parser

open Grammar

/-- Two splits of lexemes at their first end are the same. -/
theorem append_end_inj {used rest body : List Lexeme} (hused : Lexeme.endOfFile ∉ used)
    (hbody : Lexeme.endOfFile ∉ body) (hrest : ahead rest = .endOfFile)
    (h : body ++ [.endOfFile] = used ++ rest) : body = used := by
  cases rest with
  | nil =>
      rw [List.append_nil] at h
      exact absurd (h ▸ by simp) hused
  | cons l rest =>
      obtain rfl : l = .endOfFile := hrest
      exact ((List.append_cons_inj_of_notMem hbody List.not_mem_nil).mp h).1

/-- Without positions: a program is parsed exactly if it is derived. -/
theorem program_bare_iff {body : List Lexeme} (hbody : Lexeme.endOfFile ∉ body)
    {q : Program Unit} :
    (∃ next, program (Cursor.bare (body ++ [.endOfFile])) = .ok q next) ↔
      Derives .program body q := by
  constructor
  · rintro ⟨next, h⟩
    obtain ⟨used, rest, heq, hrest, hD⟩ := program_ok h
    rw [append_end_inj hD.no_end hbody hrest heq]
    exact hD
  · intro h
    exact ⟨_, reads_of_derives h [.endOfFile] rfl⟩

/-- Without positions, the cursor before some tokens is the cursor before their lexemes. -/
theorem map_ofTokens {ρ : Type} [Extent ρ] (tokens : List (Token ρ)) :
    (Cursor.ofTokens tokens).map (fun _ => ()) = Cursor.bare (tokens.map Token.lexeme) := by
  rw [Cursor.eq_bare (Cursor.map _ _)]
  simp [Cursor.map, Cursor.ofTokens, Function.comp_def]

/-- What is parsed without positions is what is parsed with them, but for the
positions. -/
theorem program_bare {ρ : Type} [Extent ρ] (tokens : List (Token ρ)) :
    program (Cursor.bare (tokens.map Token.lexeme)) =
      (program (Cursor.ofTokens tokens)).map (fun _ => ()) (Program.map fun _ => ()) := by
  rw [← map_ofTokens]
  exact (parallel_program Extent.respects_unit _).reply (Nat.le_refl _)

/-- Forgetting positions forgets nothing that a parse depends on. -/
theorem program_forget {ρ : Type} [Extent ρ] (tokens : List (Token ρ)) (q : Program Unit) :
    (∃ p next, program (Cursor.ofTokens tokens) = .ok p next ∧ p.map (fun _ => ()) = q) ↔
      ∃ next, program (Cursor.bare (tokens.map Token.lexeme)) = .ok q next := by
  rw [program_bare]
  cases program (Cursor.ofTokens tokens) with
  | ok p next => simp [Reply.map]
  | error complaint next => simp [Reply.map]

/-- The parser accepts the programs of the grammar, as the trees that the grammar
gives them, and the grammar is not ambiguous. -/
theorem program_ok_iff_derives {ρ : Type} [Extent ρ] (body : List (Token ρ)) (stop : Token ρ)
    (hbody : ∀ token ∈ body, token.lexeme ≠ .endOfFile) (hstop : stop.lexeme = .endOfFile) :
    (∀ q : Program Unit,
      (∃ p next, program (Cursor.ofTokens (body ++ [stop])) = .ok p next ∧
        p.map (fun _ => ()) = q) ↔ Derives .program (body.map Token.lexeme) q) ∧
    ∀ q q', Derives .program (body.map Token.lexeme) q →
      Derives .program (body.map Token.lexeme) q' → q = q' := by
  have absent : Lexeme.endOfFile ∉ body.map Token.lexeme := by
    simpa [eq_comm] using hbody
  constructor
  · intro q
    rw [program_forget, List.map_append, List.map_singleton, hstop]
    exact program_bare_iff absent
  · intro q q' h h'
    obtain ⟨next, hq⟩ := (program_bare_iff absent).mpr h
    obtain ⟨next', hq'⟩ := (program_bare_iff absent).mpr h'
    rw [hq] at hq'
    exact (Reply.ok.inj hq').1

/-- The operators `y` and `o` are names where a name is expected. -/
theorem program_ok_iff_derives_logical :
    Derives .program [.name "a", .punctuator .assign, .keyword .y, .keyword .o, .keyword .o,
        .punctuator .semicolon]
      ⟨(), [.expression () (.assign () (.reference () ⟨(), "a"⟩)
        (.binary () ⟨(), .logical .or⟩ (.reference () ⟨(), "y"⟩) (.reference () ⟨(), "o"⟩)))]⟩ :=
  ((program_ok_iff_derives [⟨.name "a", ()⟩, ⟨.punctuator .assign, ()⟩, ⟨.keyword .y, ()⟩,
    ⟨.keyword .o, ()⟩, ⟨.keyword .o, ()⟩, ⟨.punctuator .semicolon, ()⟩] ⟨.endOfFile, ()⟩
    (by decide) rfl).1 _).mp ⟨_, _, rfl, rfl⟩

end Guion.Parser
