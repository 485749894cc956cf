import Guion.Parse.Statement
import Guion.Proofs.Parse.Grammar

/-!
# Parsing bare lexemes

Without positions a cursor is nothing but the lexemes ahead of it. This module says
what each primitive parser does to them: once as an equation, for following a
derivation forwards, and once as an inversion, for reading one off a parse.
-/

namespace Guion

open Grammar

/-- The cursor over some lexemes without positions. -/
def Cursor.bare (ls : List Lexeme) : Cursor Unit :=
  ⟨ls.map (⟨·, ()⟩), (), ()⟩

/-- The lexeme ahead; past the last one it is the end. -/
def ahead (ls : List Lexeme) : Lexeme := ls.headD .endOfFile

@[simp] theorem ahead_cons (l : Lexeme) (ls : List Lexeme) : ahead (l :: ls) = l := rfl

/-- A lexeme ahead that is not the end is the first of those left. -/
theorem exists_cons_of_ahead {ls : List Lexeme} {l : Lexeme} (h : ahead ls = l)
    (hl : l ≠ .endOfFile) : ∃ rest, ls = l :: rest := by
  cases ls with
  | nil => exact absurd h.symm hl
  | cons head rest => exact ⟨rest, by rw [← h, ahead_cons]⟩

namespace Cursor

@[simp] theorem peek_bare (ls : List Lexeme) : (bare ls).peek = ⟨ahead ls, ()⟩ := by
  cases ls <;> rfl

@[simp] theorem peekSecond_bare (l : Lexeme) (ls : List Lexeme) :
    (bare (l :: ls)).peekSecond = ⟨ahead ls, ()⟩ := by
  cases ls <;> rfl

theorem advance_bare {l : Lexeme} (hl : l ≠ .endOfFile) (ls : List Lexeme) :
    (bare (l :: ls)).advance = bare ls := by
  have going : (bare (l :: ls)).atEnd = false := by
    rw [atEnd, Bool.eq_false_iff, ne_eq, Lexeme.isEnd_iff]
    exact hl
  simp only [advance, going]
  rfl

theorem advance_bare_end {ls : List Lexeme} (h : ahead ls = .endOfFile) :
    (bare ls).advance = bare ls := by
  have ended : (bare ls).atEnd = true := by simp [atEnd, h]
  simp only [advance, ended]
  rfl

/-- Without positions there are no other cursors. -/
theorem eq_bare (c : Cursor Unit) : c = bare (c.rest.map Token.lexeme) := by
  obtain ⟨rest, _, _⟩ := c
  simp [bare, Function.comp_def]

end Cursor

namespace Grammar

theorem Names.ne_end {l : Lexeme} {n : String} (h : Names l n) : l ≠ .endOfFile := by
  cases h <;> simp

@[simp] theorem asName?_eq_some_iff {l : Lexeme} {n : String} :
    l.asName? = some n ↔ Names l n := by
  constructor
  · intro h
    cases l with
    | name spelled =>
        obtain rfl : spelled = n := by simpa [Lexeme.asName?] using h
        exact .name spelled
    | keyword word =>
        cases word <;> simp [Lexeme.asName?, Keyword.isLogical, Keyword.spelling] at h
        · subst h
          exact .y
        · subst h
          exact .o
    | number => simp [Lexeme.asName?] at h
    | text => simp [Lexeme.asName?] at h
    | punctuator => simp [Lexeme.asName?] at h
    | endOfFile => simp [Lexeme.asName?] at h
  · intro h
    cases h <;> rfl

end Grammar

namespace Parser

variable {α β : Type}

/-! ### Forwards -/

theorem bind_of_ok {ρ : Type} {p : Parser ρ α} {f : α → Parser ρ β} {c next : Cursor ρ} {a : α}
    (h : p c = .ok a next) : (p >>= f) c = f a next := by
  change Parser.bind p f c = _
  rw [Parser.bind, h]

@[simp] theorem peek_bare (ls : List Lexeme) :
    peek (Cursor.bare ls) = .ok ⟨ahead ls, ()⟩ (Cursor.bare ls) := by
  rw [peek, Cursor.peek_bare]

@[simp] theorem last_bare (ls : List Lexeme) :
    last (Cursor.bare ls) = .ok () (Cursor.bare ls) := rfl

@[simp] theorem sees_bare (mark : Punctuator) (ls : List Lexeme) :
    sees mark (Cursor.bare ls) = .ok (ahead ls = .punctuator mark) (Cursor.bare ls) := by
  simp [sees]

theorem take_bare {l : Lexeme} (hl : l ≠ .endOfFile) (ls : List Lexeme) :
    take (Cursor.bare (l :: ls)) = .ok ⟨l, ()⟩ (Cursor.bare ls) := by
  rw [take, Cursor.peek_bare, Cursor.advance_bare hl, ahead_cons]

theorem take_bare_end {ls : List Lexeme} (h : ahead ls = .endOfFile) :
    take (Cursor.bare ls) = .ok ⟨.endOfFile, ()⟩ (Cursor.bare ls) := by
  rw [take, Cursor.peek_bare, Cursor.advance_bare_end h, h]

@[simp] theorem expect_bare (mark : Punctuator) (complain : Token Unit → Complaint Unit)
    (ls : List Lexeme) :
    expect mark complain (Cursor.bare (.punctuator mark :: ls)) = .ok () (Cursor.bare ls) := by
  rw [expect, bind_of_ok (take_bare (by simp) ls)]
  simp

theorem name_bare {l : Lexeme} {n : String} (h : Names l n) (context : Context)
    (ls : List Lexeme) :
    name context (Cursor.bare (l :: ls)) = .ok ⟨(), n⟩ (Cursor.bare ls) := by
  rw [name, bind_of_ok (take_bare h.ne_end ls)]
  simp [Token.asName?, asName?_eq_some_iff.mpr h]

@[simp] theorem accept_bare (mark : Punctuator) (ls : List Lexeme) :
    accept mark (Cursor.bare (.punctuator mark :: ls)) = .ok true (Cursor.bare ls) := by
  simp [accept, Cursor.advance_bare]

theorem accept_bare_other {mark : Punctuator} {ls : List Lexeme}
    (h : ahead ls ≠ .punctuator mark) :
    accept mark (Cursor.bare ls) = .ok false (Cursor.bare ls) := by
  simp [accept, h]

/-! ### Backwards -/

/-- What `p` accepts are lexemes that `D` relates to the value. -/
def Accepts (p : Parser Unit α) (D : List Lexeme → α → Prop) : Prop :=
  ∀ ls a next, p (Cursor.bare ls) = .ok a next →
    ∃ used rest, ls = used ++ rest ∧ next = Cursor.bare rest ∧ D used a

/-- The same where a given lexeme is ahead. -/
def AcceptsAt (l : Lexeme) (p : Parser Unit α) (D : List Lexeme → α → Prop) : Prop :=
  ∀ ls a next, ahead ls = l → p (Cursor.bare ls) = .ok a next →
    ∃ used rest, ls = used ++ rest ∧ next = Cursor.bare rest ∧ D used a

/-- What a step that extends a value may find: nothing, or a longer value that
relates to the lexemes of both. -/
def Extends (I : List Lexeme → α → Prop) (a : α) : List Lexeme → Option α → Prop
  | more, some b => ∀ used, I used a → I (used ++ more) b
  | more, none => more = []

/-- What a step that collects values may find: one to put before any others, or the
end of them. -/
def Collects (I : List Lexeme → List α → Prop) : List Lexeme → Option α → Prop
  | used, some a => ∀ more list, I more list → I (used ++ more) (a :: list)
  | used, none => I used []

namespace Accepts

variable {p : Parser Unit α} {D : List Lexeme → α → Prop} {E : List Lexeme → β → Prop}

theorem at_lexeme {l : Lexeme} (h : Accepts p D) : AcceptsAt l p D :=
  fun ls a next _ hp => h ls a next hp

theorem pure {a : α} (h : D [] a) : Accepts (Pure.pure a) D := by
  intro ls a' next hp
  obtain ⟨rfl, rfl⟩ : a = a' ∧ Cursor.bare ls = next := by simpa using hp
  exact ⟨[], ls, rfl, rfl, h⟩

theorem fail {complaint : Complaint Unit} : Accepts (Parser.fail complaint) D := by
  intro ls a next hp
  cases hp

theorem bind_at {l : Lexeme} {f : α → Parser Unit β} (hp : AcceptsAt l p D)
    (hf : ∀ a used, D used a → Accepts (f a) fun more => E (used ++ more)) :
    AcceptsAt l (p >>= f) E := by
  intro ls b final hahead h
  obtain ⟨a, next, ha, hb⟩ := bind_eq_ok_iff.mp h
  obtain ⟨used, rest, rfl, rfl, hD⟩ := hp ls a next hahead ha
  obtain ⟨more, rest, rfl, rfl, hE⟩ := hf a used hD rest b final hb
  exact ⟨used ++ more, rest, by rw [List.append_assoc], rfl, hE⟩

theorem bind {f : α → Parser Unit β} (hp : Accepts p D)
    (hf : ∀ a used, D used a → Accepts (f a) fun more => E (used ++ more)) :
    Accepts (p >>= f) E :=
  fun ls b final h => bind_at hp.at_lexeme hf ls b final rfl h

theorem peek {f : Token Unit → Parser Unit β} (hf : ∀ l, AcceptsAt l (f ⟨l, ()⟩) E) :
    Accepts (Parser.peek >>= f) E := by
  intro ls b next h
  rw [bind_of_ok (peek_bare ls)] at h
  exact hf (ahead ls) ls b next rfl h

theorem last {f : Unit → Parser Unit β} (hf : Accepts (f ()) E) :
    Accepts (Parser.last >>= f) E := by
  intro ls b next h
  rw [bind_of_ok (last_bare ls)] at h
  exact hf ls b next h

theorem take {f : Token Unit → Parser Unit β} (atEnd : Accepts (f ⟨.endOfFile, ()⟩) E)
    (token : ∀ l, l ≠ .endOfFile → Accepts (f ⟨l, ()⟩) fun more => E (l :: more)) :
    Accepts (Parser.take >>= f) E := by
  intro ls b next h
  by_cases hend : ahead ls = .endOfFile
  · rw [bind_of_ok (take_bare_end hend)] at h
    exact atEnd ls b next h
  · cases ls with
    | nil => exact absurd rfl hend
    | cons l rest =>
        rw [ahead_cons] at hend
        rw [bind_of_ok (take_bare hend rest)] at h
        obtain ⟨more, rest, rfl, rfl, hE⟩ := token l hend rest b next h
        exact ⟨l :: more, rest, rfl, rfl, hE⟩

theorem expect {f : Unit → Parser Unit β} {mark : Punctuator}
    {complain : Token Unit → Complaint Unit}
    (hf : Accepts (f ()) fun more => E (.punctuator mark :: more)) :
    Accepts (Parser.expect mark complain >>= f) E := by
  have taken : Accepts (Parser.expect mark complain) fun used _ => used = [.punctuator mark] := by
    refine take fail fun l _ => ?_
    by_cases hl : l = .punctuator mark
    · subst hl
      rw [if_pos rfl]
      exact pure rfl
    · rw [if_neg hl]
      exact fail
  refine bind taken fun _ used hused => ?_
  subst hused
  exact hf

theorem name_alone {context : Context} :
    Accepts (Parser.name context) fun used n => ∃ l, used = [l] ∧ Names l n.value := by
  refine take fail fun l _ => ?_
  cases hn : l.asName? with
  | none =>
      simp only [Token.asName?, hn, Option.map_none]
      exact fail
  | some n =>
      simp only [Token.asName?, hn, Option.map_some]
      exact pure ⟨l, rfl, asName?_eq_some_iff.mp hn⟩

theorem name {f : Located Unit String → Parser Unit β} {context : Context}
    (hf : ∀ l n, Names l n → Accepts (f ⟨(), n⟩) fun more => E (l :: more)) :
    Accepts (Parser.name context >>= f) E := by
  refine bind name_alone fun n used hused => ?_
  obtain ⟨l, rfl, hn⟩ := hused
  exact hf l n.value hn

theorem accept {f : Bool → Parser Unit β} {mark : Punctuator} (absent : Accepts (f false) E)
    (present : Accepts (f true) fun more => E (.punctuator mark :: more)) :
    Accepts (Parser.accept mark >>= f) E := by
  intro ls b next h
  by_cases hmark : ahead ls = .punctuator mark
  · obtain ⟨rest, rfl⟩ := exists_cons_of_ahead hmark (by simp)
    rw [bind_of_ok (accept_bare mark rest)] at h
    obtain ⟨more, rest, rfl, rfl, hE⟩ := present rest b next h
    exact ⟨_ :: more, rest, rfl, rfl, hE⟩
  · rw [bind_of_ok (accept_bare_other hmark)] at h
    exact absent ls b next h

theorem sees {f : Bool → Parser Unit β} {mark : Punctuator} (absent : Accepts (f false) E)
    (present : AcceptsAt (.punctuator mark) (f true) E) :
    Accepts (Parser.sees mark >>= f) E := by
  intro ls b next h
  rw [bind_of_ok (sees_bare mark ls)] at h
  by_cases hmark : ahead ls = .punctuator mark
  · rw [decide_eq_true hmark] at h
    exact present ls b next hmark h
  · rw [decide_eq_false hmark] at h
    exact absent ls b next h

/-- A repetition that extends a value keeps what relates values to all lexemes used
so far. -/
theorem extend {I : List Lexeme → α → Prop} {step : α → Parser Unit (Option α)}
    (hstep : ∀ a, Accepts (step a) (Extends I a)) {a : α} {used : List Lexeme} (ha : I used a) :
    Accepts (Parser.extend step a) fun more => I (used ++ more) := by
  have within : ∀ n used a, I used a →
      Accepts (extendWithin step n a) fun more => I (used ++ more) := by
    intro n
    induction n with
    | zero => intro used a _ ls b next h; cases h
    | succ n ih =>
        intro used a ha ls b final h
        rw [extendWithin] at h
        cases hs : step a (Cursor.bare ls) with
        | error complaint next => simp [hs] at h
        | ok found next =>
            obtain ⟨more, rest, rfl, rfl, hfound⟩ := hstep a ls found next hs
            simp only [hs] at h
            cases found with
            | none =>
                subst hfound
                obtain ⟨rfl, rfl⟩ : a = b ∧ _ = final := by simpa using h
                exact ⟨[], rest, rfl, rfl, by simpa using ha⟩
            | some longer =>
                obtain ⟨yet, rest, rfl, rfl, hI⟩ :=
                  ih (used ++ more) longer (hfound used ha) rest b final h
                refine ⟨more ++ yet, rest, by rw [List.append_assoc], rfl, ?_⟩
                simpa only [List.append_assoc] using hI
  intro ls b next h
  exact within _ used a ha ls b next h

/-- A repetition that collects values, given what relates lists of them to lexemes. -/
theorem collect {I : List Lexeme → List α → Prop} {step : Parser Unit (Option α)}
    (hstep : Accepts step (Collects I)) :
    Accepts (Parser.collect step) I := by
  have within : ∀ n, Accepts (collectWithin step n) I := by
    intro n
    induction n with
    | zero => intro ls list next h; cases h
    | succ n ih =>
        intro ls list final h
        rw [collectWithin] at h
        cases hs : step (Cursor.bare ls) with
        | error complaint next => simp [hs] at h
        | ok found next =>
            obtain ⟨used, rest, rfl, rfl, hfound⟩ := hstep ls found next hs
            simp only [hs] at h
            cases found with
            | none =>
                obtain ⟨rfl, rfl⟩ : [] = list ∧ _ = final := by simpa using h
                exact ⟨used, rest, rfl, rfl, hfound⟩
            | some a =>
                cases hr : collectWithin step n (Cursor.bare rest) with
                | error complaint next => simp [hr] at h
                | ok more next =>
                    obtain ⟨rfl, rfl⟩ : a :: more = list ∧ next = final := by simpa [hr] using h
                    obtain ⟨yet, rest, rfl, rfl, hI⟩ := ih rest more next hr
                    exact ⟨used ++ yet, rest, by rw [List.append_assoc], rfl, hfound yet more hI⟩
  intro ls list next h
  exact within _ ls list next h

end Accepts

/-- Taking a lexeme that has been looked at and is not the end. -/
theorem AcceptsAt.take {l : Lexeme} {f : Token Unit → Parser Unit β}
    {E : List Lexeme → β → Prop} (hl : l ≠ .endOfFile)
    (hf : Accepts (f ⟨l, ()⟩) fun more => E (l :: more)) :
    AcceptsAt l (Parser.take >>= f) E := by
  intro ls b next hahead h
  obtain ⟨rest, rfl⟩ := exists_cons_of_ahead hahead hl
  rw [bind_of_ok (take_bare hl rest)] at h
  obtain ⟨more, rest, rfl, rfl, hE⟩ := hf rest b next h
  exact ⟨_ :: more, rest, rfl, rfl, hE⟩

end Parser

end Guion
