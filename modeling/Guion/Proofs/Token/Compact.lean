import Guion.Proofs.Token.Printed

/-!
# Lexemes close together

Between most lexemes nothing has to stand. Here a text writes lexemes with a blank or nothing
between them, each followed by something that does not go on with it; a number must not stand
right behind a digit, where its minus sign would be read as an operator. Such a text is read
as these lexemes.
-/

namespace Guion

/-- `Writes previous text ls rest`: behind the character `previous` and before `rest`, the text
writes these lexemes. -/
inductive Writes : Option Char → List Char → List Lexeme → List Char → Prop
  | done {previous rest} : Writes previous [] [] rest
  | blank {previous text ls rest} : Writes (some ' ') text ls rest →
      Writes previous (' ' :: text) ls rest
  | lexeme {previous l word text ls rest} : Spells l word → l.Followed (text ++ rest) →
      (∀ literal, l = .number literal → previous.any Char.isDigit = false) →
      Writes word.getLast? text ls rest → Writes previous (word ++ text) (l :: ls) rest

/-- No sign becomes longer behind this one, and it signs no number and begins no comment. -/
def Punctuator.Alone (mark : Punctuator) : Prop :=
  mark ≠ .minus ∧ mark ≠ .slash ∧ mark.withEquals? = none

instance (mark : Punctuator) : Decidable mark.Alone := inferInstanceAs (Decidable (_ ∧ _))

theorem Punctuator.Alone.followed {mark : Punctuator} (h : mark.Alone) (rest : List Char) :
    (Lexeme.punctuator mark).Followed rest :=
  fun _ _ => ⟨fun minus => absurd minus h.1, fun longer => absurd h.2.2 longer,
    fun slash => absurd slash h.2.1⟩

theorem spacing_replicate (blanks : Nat) : Spacing false (List.replicate blanks ' ') := by
  induction blanks with
  | zero => exact .nil
  | succ n ih => exact .blank rfl ih

/-- Where nothing but layout is left, the end is read. -/
theorem Scanner.tokens_of_skipLayout {s : Scanner} (h : s.skipLayout.rest = []) :
    ∃ stop, stop.lexeme = .endOfFile ∧ s.tokens = .ok [stop] := by
  have hnext : s.next = (.ok ⟨.endOfFile, ⟨s.skipLayout.place, _⟩⟩, _) :=
    next_eq_ok_iff.mpr ⟨by rw [h]; rfl, rfl, rfl⟩
  exact ⟨_, rfl, tokens_of_end hnext rfl⟩

namespace Writes

variable {previous : Option Char} {text more rest : List Char} {ls ls' : List Lexeme}

/-- One text behind another. What the second begins with does not mind what it stands behind. -/
theorem append (h : Writes previous text ls (more ++ rest))
    (h' : ∀ previous, Writes previous more ls' rest) :
    Writes previous (text ++ more) (ls ++ ls') rest := by
  generalize hbehind : more ++ rest = behind at h
  induction h with
  | done => exact h' _
  | blank _ ih => exact .blank (ih hbehind)
  | lexeme spells followed apart _ ih =>
      subst hbehind
      rw [List.append_assoc]
      refine .lexeme spells ?_ apart (ih rfl)
      rwa [List.append_assoc]

/-- A sign that stays as it is whatever follows. -/
theorem mark {mark : Punctuator} {c : Char} (spelled : mark.spelling.toList = [c])
    (alone : mark.Alone) (h : Writes (some c) text ls rest) :
    Writes previous (c :: text) (.punctuator mark :: ls) rest := by
  have spells := Spells.punctuator mark
  rw [spelled] at spells
  exact .lexeme spells (alone.followed _) nofun h

/-- An operator between blanks. -/
theorem spaced {l : Lexeme} {word : List Char} (spells : Spells l word)
    (operator : ∀ literal, l ≠ .number literal) (h : Writes (some ' ') text ls rest) :
    Writes previous (' ' :: (word ++ ' ' :: text)) (l :: ls) rest := by
  refine .blank (.lexeme spells (l.followed_of_blank ?_) ?_ (.blank h))
  · rintro _ ⟨⟩
    rfl
  · exact fun literal same => absurd same (operator literal)

/-- A scanner at blanks and a text reads the lexemes that the text writes. -/
theorem reads (h : Writes previous text ls rest) (s : Scanner) (blanks : Nat)
    (hrest : s.rest = List.replicate blanks ' ' ++ (text ++ rest))
    (behind : (List.replicate blanks ' ').getLast?.or s.previous = previous) :
    ∃ tokens final left, s.Reads tokens final ∧ tokens.map Token.lexeme = ls ∧
      final.rest = List.replicate left ' ' ++ rest := by
  induction h generalizing s blanks with
  | done => exact ⟨[], s, blanks, .done, rfl, hrest⟩
  | blank _ ih =>
      refine ih s (blanks + 1) ?_ ?_
      · rw [hrest, List.replicate_succ', List.append_assoc]
        rfl
      · rw [List.getLast?_replicate]
        rfl
  | @lexeme _ l word text ls rest spells followed apart _ ih =>
      subst behind
      rw [List.append_assoc] at hrest
      obtain ⟨t, next, hnext, rfl, hbehind, last⟩ :=
        s.next_of_spells (spacing_replicate blanks) spells followed apart hrest
      obtain ⟨tokens, final, left, hreads, lexemes, hfinal⟩ := ih next 0 hbehind last
      refine ⟨t :: tokens, final, left, .token hnext spells.ne_end hreads, ?_, hfinal⟩
      rw [List.map_cons, lexemes]

/-- The lexemes of a source are those that it writes. -/
theorem tokenize_eq {source : String} (h : Writes none source.toList ls []) :
    ∃ tokens stop, tokenize source = .ok (tokens ++ [stop]) ∧
      tokens.map Token.lexeme = ls ∧ stop.lexeme = .endOfFile := by
  obtain ⟨tokens, final, left, hreads, lexemes, hfinal⟩ :=
    h.reads (.ofText source.toList) 0 (List.append_nil _).symm rfl
  have split := (spacing_replicate left).splitLayout_eq []
  have ended : final.skipLayout.rest = [] := by
    rw [Scanner.skipLayout, hfinal, split]
    rfl
  obtain ⟨stop, hstop, tokensEq⟩ := Scanner.tokens_of_skipLayout ended
  exact ⟨tokens, stop, hreads.tokens_eq tokensEq, lexemes, hstop⟩

end Writes

end Guion
