import Guion.Proofs.Parse.Covers
import Guion.Proofs.Parse.Unfolding

/-!
# What a parser promises

A contract says what a parser does on the cursors behind some tokens. If it gives a value,
the value fits the tokens behind which it then stands. If it complains, it does so at a
token that is to blame, and what was taken up to there could have been the beginning of
something. Either way the parser saw no more than the tokens it took and the one behind
them, so it would have done the same on any other tokens that begin like these.

There is one rule for each way to make a parser. What a production calls itself is called
behind a token, and may be known for fewer tokens only.
-/

namespace Guion

open Grammar

/-- The token that a complaint blames: the one it carries, or the one at the cursor. -/
def Complaint.blamed {ρ : Type} (next : Cursor ρ) : Complaint ρ → Token ρ
  | expectedLeftParen _ found | expectedRightParen _ found | expectedLeftBrace _ found
  | expectedRightBrace _ found | expectedRightBracket _ found | expectedColon _ found
  | expectedComma _ found | expectedSemicolon found | expectedName _ found
  | expectedHacer found | unknownStart found | danglingAlternate found
  | invalidNumber found => found
  | invalidTarget equals _ => equals
  | missingType _ | constantWithoutValue _ => next.peek

/-! ### Cursors before more tokens -/

namespace Cursor

variable {c other : Cursor Span} {before after : Span} {t : Token Span}

/-- The cursor before some more tokens, behind a given one. -/
def lead (before : Span) (used : List (Token Span)) (c : Cursor Span) : Cursor Span :=
  ⟨used ++ c.rest, before, c.finish⟩

theorem lead_lead (used more : List (Token Span)) :
    (c.lead after more).lead before used = c.lead before (used ++ more) := by
  simp [lead]

theorem lead_nil (h : c.last = before) : c.lead before [] = c := by
  subst h
  rfl

@[simp] theorem length_lead (used : List (Token Span)) :
    (c.lead before used).rest.length = used.length + c.rest.length :=
  List.length_append

@[simp] theorem peek_lead_cons (used : List (Token Span)) :
    (c.lead before (t :: used)).peek = t := rfl

/-- What is at the cursor is among the tokens before another cursor, or at that one. -/
theorem peek_lead (used : List (Token Span)) (h : other.peek = c.peek) :
    (other.lead before used).peek = (c.lead after used).peek := by
  cases used with
  | nil => exact h
  | cons t used => rfl

theorem peekSecond_lead (used : List (Token Span)) (h : other.peek = c.peek) :
    (other.lead before (t :: used)).peekSecond = (c.lead after (t :: used)).peekSecond := by
  cases used with
  | nil => exact h
  | cons u used => rfl

theorem advance_lead (c : Cursor Span) (before : Span) (ht : t.lexeme ≠ .endOfFile)
    (used : List (Token Span)) :
    (c.lead before (t :: used)).advance = c.lead t.range used := by
  have going : (c.lead before (t :: used)).atEnd = false := by
    rw [atEnd, Bool.eq_false_iff, ne_eq, Lexeme.isEnd_iff]
    exact ht
  simp only [advance, going, peek_lead_cons]
  rfl

/-- A token at the cursor that is not the end is the first of those left. -/
theorem lead_advance (ht : c.peek.lexeme ≠ .endOfFile) : c = c.advance.lead c.last [c.peek] := by
  obtain ⟨rest, last, finish⟩ := c
  cases rest with
  | nil => exact absurd rfl ht
  | cons t rest =>
      have taken := advance_lead ⟨rest, last, finish⟩ last ht []
      exact congrArg (lead last [t]) taken.symm

end Cursor

/-- `Passes c used next`: between the two cursors stand these tokens. -/
structure Passes (c : Cursor Span) (used : List (Token Span)) (next : Cursor Span) : Prop where
  eq_lead : c = next.lead c.last used
  last_eq : next.last = lastOf c.last used

namespace Passes

variable {c next final other : Cursor Span} {used more : List (Token Span)}

theorem refl (c : Cursor Span) : Passes c [] c := ⟨rfl, rfl⟩

theorem trans (h : Passes c used next) (h' : Passes next more final) :
    Passes c (used ++ more) final where
  eq_lead := by
    have first := h.eq_lead
    rw [h'.eq_lead, Cursor.lead_lead] at first
    exact first
  last_eq := by rw [h'.last_eq, h.last_eq, lastOf_append]

theorem token (ht : c.peek.lexeme ≠ .endOfFile) : Passes c [c.peek] c.advance :=
  ⟨Cursor.lead_advance ht, rfl⟩

theorem length_eq (h : Passes c used next) : c.rest.length = used.length + next.rest.length := by
  have := congrArg (fun c => c.rest.length) h.eq_lead
  rwa [Cursor.length_lead] at this

/-- Before another cursor with the same token, the same token comes first. -/
theorem peek_lead (h : Passes c used next) (same : other.peek = next.peek) :
    (other.lead c.last used).peek = c.peek := by
  have first := congrArg Cursor.peek h.eq_lead
  rw [first]
  exact Cursor.peek_lead used same

theorem peekSecond_lead (h : Passes c used next) (same : other.peek = next.peek)
    (some : used ≠ []) : (other.lead c.last used).peekSecond = c.peekSecond := by
  obtain ⟨t, used, rfl⟩ := List.exists_cons_of_ne_nil some
  have second := congrArg Cursor.peekSecond h.eq_lead
  rw [second]
  exact Cursor.peekSecond_lead used same

end Passes

/-! ### Contracts -/

/-- `Points ts r`: the range runs from one of these tokens to the same or a later one. -/
def Points (ts : List (Token Span)) (r : Span) : Prop := ∃ us, us.Sublist ts ∧ Spans us r

theorem Points.mono {ts us : List (Token Span)} {r : Span} (h : Points us r)
    (hus : us.Sublist ts) : Points ts r := by
  obtain ⟨vs, inside, spans⟩ := h
  exact ⟨vs, inside.trans hus, spans⟩

/-- What points to tokens that come in order begins with one of them and ends with one. -/
theorem Points.exists_ends {ts : List (Token Span)} {r : Span} (h : Points ts r)
    (order : InOrder ts) :
    ∃ first ∈ ts, ∃ last ∈ ts, r = ⟨first.range.start, last.range.stop⟩ ∧
      first.range.start.offset ≤ last.range.start.offset := by
  obtain ⟨us, inside, spans⟩ := h
  obtain ⟨first, hfirst, last, hlast, hrange⟩ := spans.exists_ends (order.sublist inside)
  exact ⟨first, inside.subset hfirst, last, inside.subset hlast, hrange⟩

theorem Points.found (ts : List (Token Span)) (t : Token Span) : Points (ts ++ [t]) t.range :=
  ⟨[t], List.sublist_append_right ts [t], .single t⟩

namespace Parser

variable {α β : Type} {i : Nat} {before : List (Token Span)} {t : Token Span}
variable {p q : Parser Span α} {f : α → Parser Span β}
variable {D : List (Token Span) → α → Prop} {E : List (Token Span) → β → Prop}
variable {V : List (Token Span) → Prop}

/-- A cursor behind some tokens, with at most so many in all. -/
structure Stands (i : Nat) (before : List (Token Span)) (c : Cursor Span) : Prop where
  length_le : before.length + c.rest.length ≤ i
  last_eq : ∃ r, c.last = lastOf r before

/-- A value that fits the tokens taken, and that comes of them whatever follows, if it
begins the same. -/
def Yields (before : List (Token Span)) (D : List (Token Span) → α → Prop) (p : Parser Span α)
    (c : Cursor Span) (a : α) (next : Cursor Span) : Prop :=
  ∃ used, Passes c used next ∧ D (before ++ used) a ∧
    ∀ other : Cursor Span, other.last = next.last → other.peek = next.peek →
      p (other.lead c.last used) = .ok a other

/-- A complaint that blames the token behind those taken, points to some of them, and comes
of that token whatever follows it. -/
def Rejects (before : List (Token Span)) (V : List (Token Span) → Prop) (p : Parser Span α)
    (c : Cursor Span) (complaint : Complaint Span) (next : Cursor Span) : Prop :=
  ∃ used stop, Passes c used stop ∧ complaint.blamed next = stop.peek ∧ V (before ++ used) ∧
    Points (before ++ used ++ [stop.peek]) complaint.range ∧
    ∀ other : Cursor Span, other.last = stop.last → other.peek = stop.peek →
      ∃ complaint' next', p (other.lead c.last used) = .error complaint' next'

/-- What a parser does on one cursor. -/
def Meets (before : List (Token Span)) (D : List (Token Span) → α → Prop)
    (V : List (Token Span) → Prop) (p : Parser Span α) (c : Cursor Span) : Prop :=
  match p c with
  | .ok a next => Yields before D p c a next
  | .error complaint next => Rejects before V p c complaint next

/-- What a parser does behind some tokens. -/
def Contract (i : Nat) (before : List (Token Span)) (p : Parser Span α)
    (D : List (Token Span) → α → Prop) (V : List (Token Span) → Prop) : Prop :=
  ∀ c, Stands i before c → Meets before D V p c

/-- What a parser does behind some tokens and before a given one. -/
def ContractAt (i : Nat) (before : List (Token Span)) (t : Token Span) (p : Parser Span α)
    (D : List (Token Span) → α → Prop) (V : List (Token Span) → Prop) : Prop :=
  ∀ c, Stands i before c → c.peek = t → Meets before D V p c

theorem Stands.passes {c next : Cursor Span} {used : List (Token Span)} (h : Stands i before c)
    (passes : Passes c used next) : Stands i (before ++ used) next where
  length_le := by
    have := h.length_le
    have := passes.length_eq
    rw [List.length_append]
    omega
  last_eq := by
    obtain ⟨r, hr⟩ := h.last_eq
    exact ⟨r, by rw [passes.last_eq, hr, lastOf_append]⟩

section

variable {c next : Cursor Span}

theorem Meets.intro (ok : ∀ a next, p c = .ok a next → Yields before D p c a next)
    (error : ∀ complaint next, p c = .error complaint next →
      Rejects before V p c complaint next) : Meets before D V p c := by
  unfold Meets
  cases hp : p c with
  | ok a next => exact ok a next hp
  | error complaint next => exact error complaint next hp

theorem Meets.yields {a : α} (h : Meets before D V p c) (hp : p c = .ok a next) :
    Yields before D p c a next := by
  unfold Meets at h
  rwa [hp] at h

theorem Meets.rejects {complaint : Complaint Span} (h : Meets before D V p c)
    (hp : p c = .error complaint next) : Rejects before V p c complaint next := by
  unfold Meets at h
  rwa [hp] at h

end

/-- Parsers that agree on a cursor, and wherever else what is taken there is taken, do the
same. -/
theorem Meets.agree {c : Cursor Span} (h : Meets before D V q c) (here : p c = q c)
    (same : ∀ used stop (other : Cursor Span), Passes c used stop → other.peek = stop.peek →
      V (before ++ used) ∨ (∃ a, D (before ++ used) a) →
      p (other.lead c.last used) = q (other.lead c.last used)) : Meets before D V p c := by
  apply Meets.intro
  · intro a next hp
    obtain ⟨used, passes, hD, elsewhere⟩ := h.yields (here.symm.trans hp)
    refine ⟨used, passes, hD, fun other hlast hpeek => ?_⟩
    rw [same used next other passes hpeek (.inr ⟨a, hD⟩)]
    exact elsewhere other hlast hpeek
  · intro complaint next hp
    obtain ⟨used, stop, passes, blamed, hV, points, elsewhere⟩ := h.rejects (here.symm.trans hp)
    refine ⟨used, stop, passes, blamed, hV, points, fun other hlast hpeek => ?_⟩
    rw [same used stop other passes hpeek (.inl hV)]
    exact elsewhere other hlast hpeek

/-- Parsers that agree wherever the same token is at the cursor and the same was taken last
do the same. -/
theorem Meets.congr {c : Cursor Span} (h : Meets before D V q c)
    (same : ∀ c' : Cursor Span, c'.last = c.last → c'.peek = c.peek → p c' = q c') :
    Meets before D V p c :=
  h.agree (same c rfl rfl) fun _ _ _ passes hpeek _ => same _ rfl (passes.peek_lead hpeek)

/-- The same for parsers that look at two tokens, if they take one. -/
theorem Meets.congr_second {c : Cursor Span} (h : Meets before D V q c)
    (someD : ∀ used a, D (before ++ used) a → used ≠ [])
    (someV : ∀ used, V (before ++ used) → used ≠ [])
    (same : ∀ c' : Cursor Span, c'.peek = c.peek → c'.peekSecond = c.peekSecond → p c' = q c') :
    Meets before D V p c := by
  refine h.agree (same c rfl rfl) fun used stop other passes hpeek taken => ?_
  have some : used ≠ [] := by
    rcases taken with hV | ⟨a, hD⟩
    · exact someV used hV
    · exact someD used a hD
  exact same _ (passes.peek_lead hpeek) (passes.peekSecond_lead hpeek some)

theorem Meets.mono {c : Cursor Span} {D' : List (Token Span) → α → Prop}
    {V' : List (Token Span) → Prop} (h : Meets before D V p c)
    (hD : ∀ used next a, p c = .ok a next → Passes c used next → D (before ++ used) a →
      D' (before ++ used) a)
    (hV : ∀ used, V (before ++ used) → V' (before ++ used)) : Meets before D' V' p c := by
  apply Meets.intro
  · intro a next hp
    obtain ⟨used, passes, holds, elsewhere⟩ := h.yields hp
    exact ⟨used, passes, hD used next a hp passes holds, elsewhere⟩
  · intro complaint next hp
    obtain ⟨used, stop, passes, blamed, viable, rest⟩ := h.rejects hp
    exact ⟨used, stop, passes, blamed, hV used viable, rest⟩

theorem bind_of_error {c next : Cursor Span} {complaint : Complaint Span}
    (h : p c = .error complaint next) : (p >>= f) c = .error complaint next := by
  change Parser.bind p f c = _
  simp only [Parser.bind, h]

/-- A parser that complains, with anything behind it. -/
theorem Rejects.bind {c next : Cursor Span} {complaint : Complaint Span}
    (h : Rejects before V p c complaint next) : Rejects before V (p >>= f) c complaint next := by
  obtain ⟨used, stop, passes, blamed, hV, points, elsewhere⟩ := h
  refine ⟨used, stop, passes, blamed, hV, points, fun other hlast hpeek => ?_⟩
  obtain ⟨complaint', next', hother⟩ := elsewhere other hlast hpeek
  exact ⟨complaint', next', bind_of_error hother⟩

/-- A parser that gives a value, with what is done with the value behind it. -/
theorem Yields.bind {c next : Cursor Span} {a : α} (h : Yields before D p c a next)
    (hp : p c = .ok a next)
    (hf : ∀ used, Passes c used next → D (before ++ used) a →
      Meets (before ++ used) E V (f a) next) : Meets before E V (p >>= f) c := by
  obtain ⟨used, passes, hD, elsewhere⟩ := h
  have second := hf used passes hD
  -- what follows the value is seen behind the tokens of both
  have first {other stop : Cursor Span} {more : List (Token Span)} (passes' : Passes next more stop)
      (hpeek : other.peek = stop.peek) :
      (p >>= f) (other.lead c.last (used ++ more)) = f a (other.lead next.last more) := by
    rw [← Cursor.lead_lead]
    exact bind_of_ok (elsewhere _ rfl (passes'.peek_lead hpeek))
  apply Meets.intro
  · intro b final hb
    rw [bind_of_ok hp] at hb
    obtain ⟨more, passes', hE, elsewhere'⟩ := second.yields hb
    refine ⟨used ++ more, passes.trans passes', ?_, fun other hlast hpeek => ?_⟩
    · rwa [← List.append_assoc]
    · rw [first passes' hpeek]
      exact elsewhere' other hlast hpeek
  · intro complaint final hb
    rw [bind_of_ok hp] at hb
    obtain ⟨more, stop, passes', blamed, hV, points, elsewhere'⟩ := second.rejects hb
    refine ⟨used ++ more, stop, passes.trans passes', blamed, ?_, ?_, fun other hlast hpeek => ?_⟩
    · rwa [← List.append_assoc]
    · rwa [← List.append_assoc]
    · rw [first passes' hpeek]
      exact elsewhere' other hlast hpeek

/-- One parser after another. -/
theorem Meets.bind {c : Cursor Span} (hc : Stands i before c) (hp : Meets before D V p c)
    (hf : ∀ a used, D used a → Contract i used (f a) E V) : Meets before E V (p >>= f) c := by
  cases hpc : p c with
  | ok a next =>
      refine (hp.yields hpc).bind hpc fun used passes hD => ?_
      exact hf a _ hD next (hc.passes passes)
  | error complaint next =>
      apply Meets.intro
      · intro b final hb
        rw [bind_of_error hpc] at hb
        cases hb
      · intro complaint' final hb
        rw [bind_of_error hpc] at hb
        cases hb
        exact (hp.rejects hpc).bind

namespace ContractAt

theorem congr (h : ContractAt i before t q D V)
    (same : ∀ c : Cursor Span, c.peek = t → p c = q c) : ContractAt i before t p D V := by
  rintro c hc rfl
  exact (h c hc rfl).congr fun c' _ hpeek => same c' hpeek

theorem bind (hp : ContractAt i before t p D V)
    (hf : ∀ a used, D used a → Contract i used (f a) E V) :
    ContractAt i before t (p >>= f) E V :=
  fun c hc ht => (hp c hc ht).bind hc hf

theorem weaken {V' : List (Token Span) → Prop} (h : ContractAt i before t p D V)
    (hV : ∀ used, V used → V' used) : ContractAt i before t p D V' :=
  fun c hc ht => (h c hc ht).mono (fun _ _ _ _ _ => id) fun _ => hV _

/-- Behind some tokens, a parser does what it does on its own with fewer of them. -/
theorem reset {V' : List (Token Span) → Prop} (hp : ∀ k < i, ContractAt k [] t p D V')
    (behind : before ≠ []) (hV : ∀ used, V' used → V (before ++ used)) :
    ContractAt i before t p (fun all a => ∃ used, all = before ++ used ∧ D used a) V := by
  intro c hc ht
  have shorter : c.rest.length < i := by
    have := hc.length_le
    have := List.length_pos_iff.mpr behind
    omega
  have h := hp c.rest.length shorter c ⟨by simp, c.last, rfl⟩ ht
  apply Meets.intro
  · intro a next hpc
    obtain ⟨used, passes, hD, elsewhere⟩ := h.yields hpc
    exact ⟨used, passes, ⟨used, rfl, hD⟩, elsewhere⟩
  · intro complaint next hpc
    obtain ⟨used, stop, passes, blamed, viable, points, elsewhere⟩ := h.rejects hpc
    refine ⟨used, stop, passes, blamed, hV used viable, ?_, elsewhere⟩
    rw [List.append_assoc]
    exact points.mono (List.sublist_append_right before _)

/-- A parser that complains about the token at the cursor. -/
theorem reject (complaint : Complaint Span) (viable : V before)
    (points : Points (before ++ [t]) complaint.range)
    (h : ∀ c : Cursor Span, c.peek = t →
      ∃ next, p c = .error complaint next ∧ complaint.blamed next = t) :
    ContractAt i before t p D V := by
  rintro c hc rfl
  obtain ⟨next, hpc, blamed⟩ := h c rfl
  unfold Meets
  rw [hpc]
  refine ⟨[], c, .refl c, blamed, ?_, ?_, fun other _ hpeek => ?_⟩
  · rwa [List.append_nil]
  · rwa [List.append_nil]
  · obtain ⟨next', hother, -⟩ := h (other.lead c.last []) hpeek
    exact ⟨complaint, next', hother⟩

/-- Taking a token that is not the end. -/
theorem take {f : Token Span → Parser Span β} (ht : t.lexeme ≠ .endOfFile)
    (hf : Contract i (before ++ [t]) (f t) E V) :
    ContractAt i before t (Parser.take >>= f) E V := by
  have taken : ContractAt i before t Parser.take
      (fun used a => used = before ++ [t] ∧ a = t) V := by
    rintro c hc rfl
    refine ⟨[c.peek], .token ht, ⟨rfl, rfl⟩, fun other hlast _ => ?_⟩
    have same : other.lead c.peek.range [] = other := Cursor.lead_nil hlast
    rw [Parser.take, Cursor.peek_lead_cons, other.advance_lead c.last ht, same]
  refine taken.bind fun a used => ?_
  rintro ⟨rfl, rfl⟩
  exact hf

/-- Looking at the token that is known to be there. -/
theorem peek {f : Token Span → Parser Span β} (hf : ContractAt i before t (f t) E V) :
    ContractAt i before t (Parser.peek >>= f) E V := by
  refine hf.congr fun c hc => ?_
  change f c.peek c = _
  rw [hc]

end ContractAt

namespace Contract

theorem at_token (h : Contract i before p D V) : ContractAt i before t p D V :=
  fun c hc _ => h c hc

theorem of_at (h : ∀ t, ContractAt i before t p D V) : Contract i before p D V :=
  fun c hc => h c.peek c hc rfl

theorem mono {D' : List (Token Span) → α → Prop} {V' : List (Token Span) → Prop}
    (h : Contract i before p D V) (hD : ∀ used a, D used a → D' used a)
    (hV : ∀ used, V used → V' used) : Contract i before p D' V' :=
  fun c hc => (h c hc).mono (fun _ _ _ _ _ => hD _ _) fun _ => hV _

theorem weaken {V' : List (Token Span) → Prop} (h : Contract i before p D V)
    (hV : ∀ used, V used → V' used) : Contract i before p D V' :=
  h.mono (fun _ _ => id) hV

theorem pure {a : α} (h : D before a) : Contract i before (Pure.pure a) D V := by
  intro c _
  refine ⟨[], .refl c, by rwa [List.append_nil], fun other hlast _ => ?_⟩
  rw [Cursor.lead_nil hlast]
  rfl

theorem bind (hp : Contract i before p D V)
    (hf : ∀ a used, D used a → Contract i used (f a) E V) : Contract i before (p >>= f) E V :=
  of_at fun _ => hp.at_token.bind hf

/-- Behind some tokens, calling a parser that is known for fewer of them. -/
theorem call {V' : List (Token Span) → Prop} (hp : ∀ k < i, Contract k [] p D V')
    (behind : before ≠ []) (hV : ∀ used, V' used → V (before ++ used))
    (hf : ∀ a used, D used a → Contract i (before ++ used) (f a) E V) :
    Contract i before (p >>= f) E V := by
  refine of_at fun t => (ContractAt.reset (fun k hk => (hp k hk).at_token) behind hV).bind ?_
  rintro a _ ⟨used, rfl, hD⟩
  exact hf a used hD

theorem peek {f : Token Span → Parser Span β} (hf : ∀ t, ContractAt i before t (f t) E V) :
    Contract i before (Parser.peek >>= f) E V :=
  of_at fun t => .peek (hf t)

theorem last {f : Span → Parser Span β} (hf : ∀ r, Contract i before (f (lastOf r before)) E V) :
    Contract i before (Parser.last >>= f) E V := by
  intro c hc
  obtain ⟨r, hr⟩ := hc.last_eq
  refine (hf r c hc).congr fun c' hlast _ => ?_
  change f c'.last c' = _
  rw [hlast, hr]

/-- Taking a token: either it is not the end, or it is complained about. -/
theorem take {f : Token Span → Parser Span β}
    (hf : ∀ t, (t.lexeme ≠ .endOfFile ∧ Contract i (before ++ [t]) (f t) E V) ∨
      ∃ complaint : Complaint Span, f t = Parser.fail complaint ∧ V before ∧
        (∀ next, complaint.blamed next = t) ∧ Points (before ++ [t]) complaint.range) :
    Contract i before (Parser.take >>= f) E V := by
  refine of_at fun t => ?_
  rcases hf t with ⟨ht, hf⟩ | ⟨complaint, hf, viable, blamed, points⟩
  · exact .take ht hf
  · refine .reject complaint viable points fun c hc => ⟨c.advance, ?_, blamed _⟩
    change f c.peek c.advance = _
    rw [hc, hf]
    rfl

theorem expect {f : Span → Parser Span β} {mark : Punctuator}
    {complain : Token Span → Complaint Span} (viable : V before)
    (complains : ∀ t, (∀ next, (complain t).blamed next = t) ∧ (complain t).range = t.range)
    (hf : ∀ r, Contract i (before ++ [⟨.punctuator mark, r⟩]) (f r) E V) :
    Contract i before (Parser.expect mark complain >>= f) E V := by
  have taken : Contract i before (Parser.expect mark complain)
      (fun used r => used = before ++ [⟨.punctuator mark, r⟩]) V := by
    refine take fun t => ?_
    by_cases ht : t.lexeme = .punctuator mark
    · obtain ⟨_, r⟩ := t
      subst ht
      refine .inl ⟨by simp, ?_⟩
      rw [if_pos rfl]
      exact pure rfl
    · obtain ⟨blamed, range⟩ := complains t
      refine .inr ⟨complain t, if_neg ht, viable, blamed, ?_⟩
      rw [range]
      exact .found before t
  refine taken.bind fun r used => ?_
  rintro rfl
  exact hf r

theorem name {f : Located Span String → Parser Span β} {context : Context} (viable : V before)
    (hf : ∀ t n, Names t.lexeme n → Contract i (before ++ [t]) (f ⟨t.range, n⟩) E V) :
    Contract i before (Parser.name context >>= f) E V := by
  have taken : Contract i before (Parser.name context)
      (fun used n => ∃ t, used = before ++ [t] ∧ Names t.lexeme n.value ∧ n.range = t.range) V := by
    refine take fun t => ?_
    cases hn : t.lexeme.asName? with
    | none =>
        refine .inr ⟨.expectedName context t, ?_, viable, fun _ => rfl, .found before t⟩
        simp only [Token.asName?, hn, Option.map_none]
    | some n =>
        have named := asName?_eq_some_iff.mp hn
        refine .inl ⟨named.ne_end, ?_⟩
        simp only [Token.asName?, hn, Option.map_some]
        exact pure ⟨t, rfl, named, rfl⟩
  refine taken.bind fun n used => ?_
  rintro ⟨t, rfl, named, range⟩
  obtain ⟨_, n⟩ := n
  subst range
  exact hf t n named

theorem sees {f : Bool → Parser Span β} {mark : Punctuator}
    (absent : ∀ t, t.lexeme ≠ .punctuator mark → ContractAt i before t (f false) E V)
    (present : ∀ r, ContractAt i before ⟨.punctuator mark, r⟩ (f true) E V) :
    Contract i before (Parser.sees mark >>= f) E V := by
  refine of_at fun t => ?_
  by_cases ht : t.lexeme = .punctuator mark
  · obtain ⟨_, r⟩ := t
    subst ht
    refine (present r).congr fun c hc => ?_
    change f (decide (c.peek.lexeme = _)) c = _
    rw [hc, decide_eq_true rfl]
  · refine (absent t ht).congr fun c hc => ?_
    change f (decide (c.peek.lexeme = _)) c = _
    rw [hc, decide_eq_false ht]

theorem accept {f : Bool → Parser Span β} {mark : Punctuator}
    (absent : ∀ t, t.lexeme ≠ .punctuator mark → ContractAt i before t (f false) E V)
    (present : ∀ r, Contract i (before ++ [⟨.punctuator mark, r⟩]) (f true) E V) :
    Contract i before (Parser.accept mark >>= f) E V := by
  refine of_at fun t => ?_
  by_cases ht : t.lexeme = .punctuator mark
  · obtain ⟨_, r⟩ := t
    subst ht
    refine (ContractAt.take (f := fun _ => f true) (by simp) (present r)).congr fun c hc => ?_
    change Parser.bind (Parser.accept mark) f c = f true c.advance
    rw [Parser.bind, Parser.accept, hc, if_pos rfl]
  · refine (absent t ht).congr fun c hc => ?_
    change Parser.bind (Parser.accept mark) f c = _
    rw [Parser.bind, Parser.accept, hc, if_neg ht]

end Contract

/-! ### Sequences and repetitions -/

instance {ρ : Type} : LawfulMonad (Parser ρ) := by
  refine LawfulMonad.mk' (Parser ρ) ?_ ?_ ?_
  · intro α p
    funext c
    change Parser.bind p Parser.pure c = p c
    unfold Parser.bind
    cases p c <;> rfl
  · intro α β a f
    rfl
  · intro α β γ p f g
    funext c
    change Parser.bind (Parser.bind p f) g c = Parser.bind p (fun a => Parser.bind (f a) g) c
    unfold Parser.bind
    cases p c <;> rfl

/-- A repetition that extends a value, without its bound. -/
theorem extend_eq_bind {ρ : Type} {step : α → Parser ρ (Option α)}
    (hstep : ∀ a, Consumes (step a)) (a : α) :
    extend step a = step a >>= fun
      | some longer => extend step longer
      | none => pure a := by
  funext c
  rw [extend_eq hstep]
  change _ = Parser.bind (step a) _ c
  unfold Parser.bind
  cases step a c with
  | ok found next => cases found <;> rfl
  | error complaint next => rfl

/-- A repetition that collects values, without its bound. -/
theorem collect_eq_bind {ρ : Type} {step : Parser ρ (Option α)} (hstep : Consumes step) :
    collect step = step >>= fun
      | some a => collect step >>= fun list => pure (a :: list)
      | none => pure [] := by
  funext c
  rw [collect_eq hstep]
  change _ = Parser.bind step _ c
  unfold Parser.bind
  cases step c with
  | ok found next =>
      cases found with
      | none => rfl
      | some a =>
          change _ = Parser.bind (collect step) (fun list => pure (a :: list)) next
          unfold Parser.bind
          dsimp only
          cases collect step next <;> rfl
  | error complaint next => rfl

/-- Items with commas between them, without a bound. -/
theorem separated_bind {ρ : Type} {close : Punctuator} {context : Context} {item : Parser ρ α}
    (hitem : Consumes (separatedStep close context item)) (f : List α → Parser ρ β) :
    separated close context item >>= f = sees close >>= fun closes =>
      if closes then f []
      else item >>= fun a => comma close context >>= fun _ =>
        separated close context item >>= fun list => f (a :: list) := by
  have equation := collect_eq_bind hitem
  change separated close context item = _ at equation
  refine (congrArg (· >>= f) equation).trans ?_
  change ((sees close >>= fun closes => if closes then pure none else
    item >>= fun a => comma close context >>= fun _ => pure (some a)) >>= _) >>= f = _
  rw [bind_assoc, bind_assoc]
  refine congrArg (sees close >>= ·) (funext fun closes => ?_)
  cases closes with
  | true => rfl
  | false =>
      simp only [Bool.false_eq_true, if_false, bind_assoc, pure_bind]
      rfl

/-- What a step that extends a value may find: a longer value that fits all tokens taken, or
nothing and no token. -/
def Extension (D : List (Token Span) → α → Prop) (used : List (Token Span)) :
    List (Token Span) → Option α → Prop
  | used', some longer => D used' longer
  | used', none => used' = used

/-- A repetition keeps what relates a value to all tokens taken so far. Whatever extends the
value takes a token, so the tokens in all bound the repetition. -/
theorem Contract.extend {step : α → Parser Span (Option α)} (hconsumes : ∀ a, Consumes (step a))
    (hstep : ∀ used a, D used a → Contract i used (step a) (Extension D used) V) {a : α}
    (ha : D before a) : Contract i before (Parser.extend step a) D V := by
  have longer {used : List (Token Span)} {a : α} (ha : D used a) :
      Contract i used (step a)
        (Extension (fun used' b => D used' b ∧ used.length < used'.length) used) V := by
    intro c hc
    refine (hstep used a ha c hc).mono (fun more next found hfound passes h => ?_) fun _ => id
    cases found with
    | none => exact h
    | some b =>
        have := hconsumes a c b next hfound
        have := passes.length_eq
        refine ⟨h, ?_⟩
        rw [List.length_append]
        omega
  have within : ∀ n used a, i + 1 - used.length ≤ n → D used a →
      Contract i used (Parser.extend step a) D V := by
    intro n
    induction n with
    | zero =>
        intro used a hn _ c hc
        have := hc.length_le
        omega
    | succ n ih =>
        intro used a hn ha
        rw [extend_eq_bind hconsumes]
        refine (longer ha).bind fun found used' h => ?_
        cases found with
        | none =>
            obtain rfl : used' = used := h
            exact pure ha
        | some b =>
            have := h.2
            exact ih used' b (by omega) h.1
  exact within _ before a (Nat.le_refl _) ha

/-- A repetition that collects values. What is found takes a token, so what is found behind it
is known by induction on the tokens in all. -/
theorem Contract.collect {step : Parser Span (Option α)} (consumes : Consumes step)
    {S : List (Token Span) → Option α → Prop} {L : List (Token Span) → List α → Prop}
    (hstep : ∀ k ≤ i, Contract k [] step S V) (nothing : ∀ used, S used none → L used [])
    (another : ∀ used a more list, S used (some a) → L more list → L (used ++ more) (a :: list))
    (viable : ∀ used a more, S used (some a) → V more → V (used ++ more)) :
    Contract i [] (Parser.collect step) L V := by
  induction i using Nat.strongRecOn with
  | ind i ih =>
      have again : ∀ k < i, Contract k [] (Parser.collect step) L V :=
        fun k hk => ih k hk fun j hj => hstep j (by omega)
      have found : Contract i [] step (fun used found => S used found ∧
          (found.isSome → used ≠ [])) V := by
        intro c hc
        refine (hstep i (Nat.le_refl _) c hc).mono (fun used next a ha passes h => ⟨h, ?_⟩)
          fun _ => id
        rintro present rfl
        obtain ⟨a, rfl⟩ := Option.isSome_iff_exists.mp present
        have := consumes c a next ha
        have := passes.length_eq
        simp only [List.length_nil] at this
        omega
      rw [collect_eq_bind consumes]
      refine found.bind fun a used h => ?_
      cases a with
      | none => exact pure (nothing used h.1)
      | some a =>
          refine .call again (h.2 rfl) (fun more => viable used a more h.1)
            fun list more hlist => ?_
          exact pure (another used a more list h.1 hlist)

end Parser

end Guion
