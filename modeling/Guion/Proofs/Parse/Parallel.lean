import Guion.Parse.Statement
import Guion.Proofs.Tree.Positions

/-!
# Parsers that go side by side

Two parsers go side by side if, on moved cursors, the second answers what the first
answers, moved. A motion changes where tokens stand. It may also change what stands at
the end of them, and then says how many tokens must be left for parsers not to see it.
The relation also counts tokens: a value costs at least so many of them, and nothing is
asked about cursors with more tokens left than a given bound.

The bound is what makes recursion work. A production calls itself behind a token,
so that it goes side by side with another on `i` tokens if what it calls does on
fewer than `i`. Three facts follow at once from one lemma for each production: the
positions never decide how tokens are parsed, neither does how deep the nesting may
go, provided it may go as deep as there are tokens, and neither does what follows.
-/

namespace Guion

variable {ρ σ : Type}

/-- A function on positions that agrees with what parsers do to them. -/
structure Extent.Respects [Extent ρ] [Extent σ] (f : ρ → σ) : Prop where
  through : ∀ a b, f (Extent.through a b) = Extent.through (f a) (f b)
  cover : ∀ a b, f (Extent.cover a b) = Extent.cover (f a) (f b)

theorem Extent.respects_id [Extent ρ] : Extent.Respects (id : ρ → ρ) :=
  ⟨fun _ _ => rfl, fun _ _ => rfl⟩

theorem Extent.respects_unit [Extent ρ] : Extent.Respects (fun _ : ρ => ()) :=
  ⟨fun _ _ => rfl, fun _ _ => rfl⟩

namespace Cursor

/-- The same place in the same tokens, at moved positions. -/
def map (f : ρ → σ) (c : Cursor ρ) : Cursor σ :=
  ⟨c.rest.map (Token.map f), f c.last, f c.finish⟩

@[simp] theorem length_map (f : ρ → σ) (c : Cursor ρ) :
    (c.map f).rest.length = c.rest.length :=
  List.length_map _

@[simp] theorem map_id (c : Cursor ρ) : c.map id = c := by
  simp [map]

@[simp] theorem peek_map (f : ρ → σ) (c : Cursor ρ) : (c.map f).peek = c.peek.map f := by
  cases h : c.rest <;> simp [peek, map, h, sentinel, Token.map]

@[simp] theorem peekSecond_map (f : ρ → σ) (c : Cursor ρ) :
    (c.map f).peekSecond = c.peekSecond.map f := by
  rcases h : c.rest with _ | ⟨_, _ | ⟨_, _⟩⟩ <;>
    simp [peekSecond, map, h, sentinel, Token.map]

@[simp] theorem advance_map (f : ρ → σ) (c : Cursor ρ) : (c.map f).advance = c.advance.map f := by
  have peeked : (c.map f).atEnd = c.atEnd := by simp [atEnd]
  simp only [advance, peeked, peek_map]
  cases c.atEnd <;> simp [map]

/-- What is seen past the last token is the end. -/
theorem peek_eq_end {c : Cursor ρ} (h : c.rest = []) : c.peek.lexeme = .endOfFile := by
  simp [peek, h, sentinel]

/-- Taking a token that is not the end leaves one token less. -/
theorem length_advance {c : Cursor ρ} (h : c.peek.lexeme ≠ .endOfFile) :
    c.advance.rest.length + 1 = c.rest.length := by
  have going : c.atEnd = false := by
    rw [atEnd, Bool.eq_false_iff, ne_eq, Lexeme.isEnd_iff]
    exact h
  cases hrest : c.rest with
  | nil => exact absurd (peek_eq_end hrest) h
  | cons token rest => simp [advance, going, hrest]

end Cursor

/-- A complaint with its positions moved. -/
def Complaint.map (f : ρ → σ) : Complaint ρ → Complaint σ
  | expectedLeftParen context found => .expectedLeftParen context (found.map f)
  | expectedRightParen context found => .expectedRightParen context (found.map f)
  | expectedLeftBrace context found => .expectedLeftBrace context (found.map f)
  | expectedRightBrace context found => .expectedRightBrace context (found.map f)
  | expectedRightBracket context found => .expectedRightBracket context (found.map f)
  | expectedColon context found => .expectedColon context (found.map f)
  | expectedComma context found => .expectedComma context (found.map f)
  | expectedSemicolon found => .expectedSemicolon (found.map f)
  | expectedName context found => .expectedName context (found.map f)
  | expectedHacer found => .expectedHacer (found.map f)
  | unknownStart found => .unknownStart (found.map f)
  | invalidTarget equals target => .invalidTarget (equals.map f) (f target)
  | danglingAlternate found => .danglingAlternate (found.map f)
  | missingType name => .missingType (name.map f)
  | constantWithoutValue name => .constantWithoutValue (name.map f)
  | invalidNumber found => .invalidNumber (found.map f)

@[simp] theorem Complaint.map_id (complaint : Complaint ρ) : complaint.map id = complaint := by
  cases complaint <;> rfl

/-- A reply with its positions moved. -/
def Reply.map {α β : Type} (f : ρ → σ) (g : α → β) : Reply ρ α → Reply σ β
  | ok a next => .ok (g a) (next.map f)
  | error complaint next => .error (complaint.map f) (next.map f)

@[simp] theorem Reply.map_id {α : Type} (reply : Reply ρ α) : reply.map id id = reply := by
  cases reply <;> simp [Reply.map]

/-! ### Motions -/

/-- A lexeme that does not go on with the condition before it. -/
def Parser.Separate (l : Lexeme) : Prop := l ∉ [.keyword .sino, .keyword .peroSi]

instance (l : Lexeme) : Decidable (Parser.Separate l) := inferInstanceAs (Decidable (_ ∉ _))

/-- A way to move cursors that changes positions by `f`. It is about the cursors that fit
it. While `least` tokens are left, nothing else is seen of it; with one token less, all
that is known is that no condition goes on there. -/
structure Motion (f : ρ → σ) where
  move : Cursor ρ → Cursor σ
  Fits : Cursor ρ → Prop
  least : Nat
  length_le : ∀ {c}, Fits c → c.rest.length ≤ (move c).rest.length
  fits_advance : ∀ {c}, Fits c → Fits c.advance
  last : ∀ {c}, Fits c → (move c).last = f c.last
  peek : ∀ {c}, Fits c → least ≤ c.rest.length → (move c).peek = c.peek.map f
  peekSecond : ∀ {c}, Fits c → least ≤ c.rest.length - 1 →
    (move c).peekSecond = c.peekSecond.map f
  advance : ∀ {c}, Fits c → least ≤ c.rest.length → (move c).advance = move c.advance
  edge : ∀ {c}, Fits c → c.rest.length + 1 = least →
    Parser.Separate c.peek.lexeme ∧ Parser.Separate (move c).peek.lexeme

/-- The motion that changes positions and nothing else. -/
def Motion.positions (f : ρ → σ) : Motion f where
  move := Cursor.map f
  Fits _ := True
  least := 0
  length_le _ := Nat.le_of_eq (Cursor.length_map f _).symm
  fits_advance _ := trivial
  last _ := rfl
  peek _ _ := Cursor.peek_map f _
  peekSecond _ _ := Cursor.peekSecond_map f _
  advance _ _ := Cursor.advance_map f _
  edge _ h := absurd h (Nat.succ_ne_zero _)

namespace Parser

variable {α β γ δ : Type} {f : ρ → σ} {M : Motion f} {g : α → β} {g' : γ → δ} {i n : Nat}
variable {d : α → Nat}

/-- A reply on a moved cursor is the reply, moved, as long as `n` tokens are left behind
it; and a value `a` costs at least `d a` tokens. A motion that changes more than positions
says nothing about complaints. -/
def Follows (M : Motion f) (n : Nat) (d : α → Nat) (g : α → β) (c : Cursor ρ)
    (reply' : Reply σ β) : Reply ρ α → Prop
  | .ok a next => M.Fits next ∧ next.rest.length + d a ≤ c.rest.length ∧
      (n ≤ next.rest.length → reply' = .ok (g a) (M.move next))
  | .error complaint next => M.least = 0 → reply' = .error (complaint.map f) (M.move next)

/-- On cursors with at most `i` tokens left, `q` answers on moved cursors what `p` answers,
moved, as long as it leaves `n` tokens. -/
def Along (M : Motion f) (n i : Nat) (d : α → Nat) (g : α → β) (p : Parser ρ α)
    (q : Parser σ β) : Prop :=
  ∀ c : Cursor ρ, M.Fits c → c.rest.length ≤ i → Follows M n d g c (q (M.move c)) (p c)

/-- The same about parsers that look at the token behind what they take: it must be one
that the motion does not change. -/
@[reducible] def Parallel (M : Motion f) (i : Nat) (d : α → Nat) (g : α → β) (p : Parser ρ α)
    (q : Parser σ β) : Prop :=
  Along M M.least i d g p q

/-- The same about parsers that know by the last token they take that they are done. -/
@[reducible] def Closing (M : Motion f) (i : Nat) (d : α → Nat) (g : α → β) (p : Parser ρ α)
    (q : Parser σ β) : Prop :=
  Along M (M.least - 1) i d g p q

/-- The same about the cursors that a given token is at. -/
def AlongAt (M : Motion f) (n i : Nat) (t : Token ρ) (d : α → Nat) (g : α → β) (p : Parser ρ α)
    (q : Parser σ β) : Prop :=
  ∀ c : Cursor ρ, M.Fits c → c.rest.length ≤ i → c.peek = t →
    Follows M n d g c (q (M.move c)) (p c)

/-- Going side by side at a given token. -/
@[reducible] def ParallelAt (M : Motion f) (i : Nat) (t : Token ρ) (d : α → Nat) (g : α → β)
    (p : Parser ρ α) (q : Parser σ β) : Prop :=
  AlongAt M M.least i t d g p q

theorem AlongAt.of_along {t : Token ρ} {p : Parser ρ α} {q : Parser σ β}
    (h : Along M n i d g p q) : AlongAt M n i t d g p q :=
  fun c fits hc _ => h c fits hc

theorem ParallelAt.of_parallel {t : Token ρ} {p : Parser ρ α} {q : Parser σ β}
    (h : Parallel M i d g p q) : ParallelAt M i t d g p q :=
  AlongAt.of_along h

/-- What the steps of a repetition cost: a token for each thing they find, and so many for
finding nothing. -/
def uses (k : Nat) : Option α → Nat
  | some _ => 1
  | none => k

/-- What the steps of a repetition cost if finding nothing is free. -/
@[reducible] def used : Option α → Nat := uses 0

namespace Follows

variable {c : Cursor ρ} {reply : Reply ρ α} {reply' reply'' : Reply σ β}

/-- A reply on a later cursor, with what was paid to get there. What is answered on the
moved cursor matters only if there is a value that could be paid for there, or if the
motion changes positions only. -/
theorem given {P : Prop} {c' : Cursor ρ} {e : α → Nat} (h : Follows M n e g c' reply' reply)
    (paid : ∀ a, c'.rest.length + d a ≤ c.rest.length + e a) (exact : M.least = 0 → P)
    (enough : ∀ a, n + e a ≤ c'.rest.length → P) (same : P → reply'' = reply') :
    Follows M n d g c reply'' reply := by
  cases reply with
  | ok a next =>
      obtain ⟨fits, cost, rest⟩ := h
      have := paid a
      exact ⟨fits, by omega, fun left => (same (enough a (by omega))).trans (rest left)⟩
  | error complaint next => exact fun none => (same (exact none)).trans (h none)

/-- The same where it matters only if `k` tokens are left. -/
theorem later {c' : Cursor ρ} {e : α → Nat} {k : Nat} (h : Follows M n e g c' reply' reply)
    (paid : ∀ a, c'.rest.length + d a ≤ c.rest.length + e a) (hk : k ≤ M.least)
    (enough : ∀ a, k ≤ n + e a) (same : k ≤ c'.rest.length → reply'' = reply') :
    Follows M n d g c reply'' reply :=
  h.given paid (fun exact => by omega) (fun a left => Nat.le_trans (enough a) left) same

/-- The same where as many tokens must be left as the motion asks for. -/
theorem onward {c' : Cursor ρ} {e : α → Nat} (h : Follows M M.least e g c' reply' reply)
    (paid : ∀ a, c'.rest.length + d a ≤ c.rest.length + e a)
    (same : M.least ≤ c'.rest.length → reply'' = reply') :
    Follows M M.least d g c reply'' reply :=
  h.later paid (Nat.le_refl _) (fun _ => Nat.le_add_right _ _) same

/-- One parser after another: the second goes on where the first stops. -/
theorem bind {e : γ → Nat} (e' : γ → Nat) {k : Nat} {p : Parser ρ α} {q : Parser σ β}
    {h : α → Parser ρ γ} {h' : β → Parser σ δ}
    (hp : Follows M k d g c (q (M.move c)) (p c)) (hk : k ≤ M.least)
    (enough : ∀ b, k ≤ n + e' b)
    (hh : ∀ a next, M.Fits next → next.rest.length + d a ≤ c.rest.length →
      Follows M n e' g' next (h' (g a) (M.move next)) (h a next) ∧ ∀ b, e b ≤ e' b + d a) :
    Follows M n e g' c ((q >>= h') (M.move c)) ((p >>= h) c) := by
  change Follows M n e g' c (Parser.bind q h' (M.move c)) (Parser.bind p h c)
  unfold Parser.bind
  cases hpc : p c with
  | error complaint next =>
      rw [hpc] at hp
      intro exact
      rw [hp exact]
  | ok a next =>
      rw [hpc] at hp
      obtain ⟨fits, cost, rest⟩ := hp
      obtain ⟨step, paid⟩ := hh a next fits cost
      refine step.later (fun b => ?_) hk enough fun left => ?_
      · have := paid b
        omega
      · rw [rest left]

end Follows

namespace Along

/-- Asking for fewer tokens, about fewer cursors, or only if more tokens are left keeps
parsers side by side. -/
theorem mono {e : α → Nat} {k m : Nat} {p : Parser ρ α} {q : Parser σ β}
    (h : Along M n i d g p q) (hk : k ≤ i) (he : ∀ a, e a ≤ d a) (hm : n ≤ m) :
    Along M m k e g p q := by
  intro c fits hc
  have side := h c fits (Nat.le_trans hc hk)
  cases hp : p c with
  | ok a next =>
      rw [hp] at side
      obtain ⟨fits, cost, rest⟩ := side
      have := he a
      exact ⟨fits, by omega, fun left => rest (by omega)⟩
  | error complaint next =>
      rw [hp] at side
      exact side

theorem fewer {k : Nat} {p : Parser ρ α} {q : Parser σ β} (h : Along M n i d g p q)
    (hk : k ≤ i) : Along M n k d g p q :=
  h.mono hk (fun _ => Nat.le_refl _) (Nat.le_refl _)

theorem pure {a : α} {b : β} (hb : b = g a) (hd : d a = 0) :
    Along M n i d g (Pure.pure a : Parser ρ α) (Pure.pure b : Parser σ β) := by
  intro c fits _
  subst hb
  exact ⟨fits, by omega, fun _ => rfl⟩

theorem fail {complaint : Complaint ρ} {complaint' : Complaint σ}
    (h : complaint' = complaint.map f) :
    Along M n i d g (Parser.fail complaint : Parser ρ α) (Parser.fail complaint') := by
  intro c _ _
  subst h
  exact fun _ => rfl

theorem last {e : γ → Nat} {h : ρ → Parser ρ γ} {h' : σ → Parser σ δ}
    (hh : ∀ r, Along M n i e g' (h r) (h' (f r))) :
    Along M n i e g' (Parser.last >>= h) (Parser.last >>= h') := by
  intro c fits hc
  change Follows M n e g' c (h' (M.move c).last (M.move c)) (h c.last c)
  rw [M.last fits]
  exact hh c.last c fits hc

/-- Collecting costs what it costs to find nothing more. The moved parser may be given a
larger bound. -/
theorem collect {k : Nat} {step : Parser ρ (Option α)} {step' : Parser σ (Option β)}
    (hn : n ≤ M.least) (hstep : Along M n i (uses k) (Option.map g) step step') :
    Along M n i (fun _ => k) (List.map g) (Parser.collect step) (Parser.collect step') := by
  have within : ∀ m m' c, M.Fits c → c.rest.length ≤ i → c.rest.length < m → c.rest.length < m' →
      Follows M n (fun _ => k) (List.map g) c (collectWithin step' m' (M.move c))
        (collectWithin step m c) := by
    intro m
    induction m with
    | zero => intro m' c _ _ hm; exact absurd hm (Nat.not_lt_zero _)
    | succ m ih =>
        intro m' c fits hc hm hm'
        cases m' with
        | zero => exact absurd hm' (Nat.not_lt_zero _)
        | succ m' =>
            have side := hstep c fits hc
            simp only [collectWithin]
            cases hs : step c with
            | error complaint next =>
                rw [hs] at side
                intro exact
                rw [side exact]
            | ok found next =>
                rw [hs] at side
                obtain ⟨fits, cost, rest⟩ := side
                cases found with
                | none => exact ⟨fits, cost, fun left => by rw [rest left]; rfl⟩
                | some a =>
                    simp only [uses] at cost
                    have more := ih m' next fits (by omega) (by omega) (by omega)
                    dsimp only
                    cases hr : collectWithin step m next with
                    | error complaint final =>
                        rw [hr] at more
                        intro exact
                        simp [rest (by omega), more exact]
                    | ok list final =>
                        rw [hr] at more
                        obtain ⟨fits, cost', rest'⟩ := more
                        dsimp only at cost'
                        refine ⟨fits, by dsimp only; omega, fun left => ?_⟩
                        simp [rest (by omega), rest' left]
  intro c fits hc
  have longer := M.length_le fits
  exact within _ _ c fits hc (Nat.lt_succ_self _) (by omega)

end Along

namespace Parallel

/-- A sequence whose first part costs something: the second part is asked about
shorter cursors only, and the first has paid for one token. -/
theorem first {e : γ → Nat} {p : Parser ρ α} {q : Parser σ β} {h : α → Parser ρ γ}
    {h' : β → Parser σ δ} (hp : Parallel M i (fun _ => 1) g p q)
    (hh : ∀ a, ∀ k < i, Parallel M k (fun b => e b - 1) g' (h a) (h' (g a))) :
    Parallel M i e g' (p >>= h) (q >>= h') := by
  intro c fits hc
  refine (hp c fits hc).bind (fun b => e b - 1) (Nat.le_refl _) (fun _ => Nat.le_add_right _ _)
    fun a next fits cost => ?_
  refine ⟨hh a next.rest.length (by omega) next fits (Nat.le_refl _), fun b => ?_⟩
  omega

/-- A sequence in which the cost of the first part does not matter. -/
theorem seq {e : γ → Nat} {p : Parser ρ α} {q : Parser σ β} {h : α → Parser ρ γ}
    {h' : β → Parser σ δ} (hp : Parallel M i d g p q)
    (hh : ∀ a, Parallel M i e g' (h a) (h' (g a))) :
    Parallel M i e g' (p >>= h) (q >>= h') := by
  intro c fits hc
  refine (hp c fits hc).bind e (Nat.le_refl _) (fun _ => Nat.le_add_right _ _)
    fun a next fits cost => ?_
  exact ⟨hh a next fits (by omega), fun b => Nat.le_add_right _ _⟩

/-! ### Tokens -/

/-- Once a token has been looked at, it is known to be at the cursor. -/
theorem peek {e : γ → Nat} {h : Token ρ → Parser ρ γ} {h' : Token σ → Parser σ δ}
    (hh : ∀ t, ParallelAt M i t e g' (h t) (h' (t.map f))) :
    Parallel M i e g' (Parser.peek >>= h) (Parser.peek >>= h') := by
  intro c fits hc
  refine (hh c.peek c fits hc rfl).onward (fun _ => Nat.le_refl _) fun left => ?_
  change h' (M.move c).peek (M.move c) = _
  rw [M.peek fits left]

theorem sees {e : γ → Nat} {mark : Punctuator} {h : Bool → Parser ρ γ} {h' : Bool → Parser σ δ}
    (hh : ∀ b, Parallel M i e g' (h b) (h' b)) :
    Parallel M i e g' (Parser.sees mark >>= h) (Parser.sees mark >>= h') := by
  intro c fits hc
  refine (hh _ c fits hc).onward (fun _ => Nat.le_refl _) fun left => ?_
  change h' (decide ((M.move c).peek.lexeme = .punctuator mark)) (M.move c) = _
  rw [M.peek fits left, Token.map_lexeme]

/-- A token that is not the end has been paid for; the end has not. -/
theorem take {e : γ → Nat} {h : Token ρ → Parser ρ γ} {h' : Token σ → Parser σ δ}
    (atEnd : ∀ r, Parallel M i e g' (h ⟨.endOfFile, r⟩) (h' ⟨.endOfFile, f r⟩))
    (token : ∀ t, ∀ k < i, Parallel M k (fun b => e b - 1) g' (h t) (h' (t.map f))) :
    Parallel M i e g' (Parser.take >>= h) (Parser.take >>= h') := by
  intro c fits hc
  have still : c.advance.rest.length ≤ c.rest.length := c.length_advance_le
  have taken (left : M.least ≤ c.advance.rest.length) :
      (Parser.take >>= h') (M.move c) = h' (c.peek.map f) (M.move c.advance) := by
    change h' (M.move c).peek (M.move c).advance = _
    rw [M.peek fits (by omega), M.advance fits (by omega)]
  by_cases hend : c.peek.lexeme = .endOfFile
  · have side := atEnd c.peek.range c.advance (M.fits_advance fits) (by omega)
    rw [← hend] at side
    exact side.onward (fun _ => by omega) taken
  · have shorter := Cursor.length_advance hend
    have side := token c.peek c.advance.rest.length (by omega) c.advance (M.fits_advance fits)
      (Nat.le_refl _)
    exact side.onward (fun _ => by omega) taken

/-- Taking a token where what follows has a cost of its own. -/
theorem takeAny {e : γ → Nat} {h : Token ρ → Parser ρ γ} {h' : Token σ → Parser σ δ}
    (hh : ∀ t, Parallel M i e g' (h t) (h' (t.map f))) :
    Parallel M i e g' (Parser.take >>= h) (Parser.take >>= h') :=
  take (fun r => hh ⟨.endOfFile, r⟩)
    (fun t _ hk => (hh t).mono (Nat.le_of_lt hk) (fun _ => Nat.sub_le _ _) (Nat.le_refl _))

theorem take_self : Parallel M i (fun _ => 0) (Token.map f) Parser.take Parser.take := by
  intro c fits _
  have still : c.advance.rest.length ≤ c.rest.length := c.length_advance_le
  refine ⟨M.fits_advance fits, still, fun left => ?_⟩
  change Reply.ok (M.move c).peek (M.move c).advance = _
  rw [M.peek fits (by omega), M.advance fits (by omega)]

theorem expect_self {mark : Punctuator} {complain : Token ρ → Complaint ρ}
    {complain' : Token σ → Complaint σ}
    (complains : ∀ t, complain' (t.map f) = (complain t).map f) :
    Parallel M i (fun _ => 1) f (Parser.expect mark complain) (Parser.expect mark complain') := by
  refine take (fun r => ?_) fun t k _ => ?_
  · exact .fail (complains ⟨.endOfFile, r⟩)
  · rw [Token.map_lexeme]
    split
    · exact .pure rfl rfl
    · exact .fail (complains t)

theorem expect {e : γ → Nat} {mark : Punctuator} {complain : Token ρ → Complaint ρ}
    {complain' : Token σ → Complaint σ} {h : ρ → Parser ρ γ} {h' : σ → Parser σ δ}
    (complains : ∀ t, complain' (t.map f) = (complain t).map f)
    (hh : ∀ r, ∀ k < i, Parallel M k (fun b => e b - 1) g' (h r) (h' (f r))) :
    Parallel M i e g' (Parser.expect mark complain >>= h)
      (Parser.expect mark complain' >>= h') :=
  first (expect_self complains) hh

theorem name_self {context : Context} :
    Parallel M i (fun _ => 1) (Located.map f) (Parser.name context) (Parser.name context) := by
  refine take (fun r => .fail rfl) fun t k _ => ?_
  rw [Token.asName?_map]
  cases t.asName? with
  | some n => exact .pure rfl rfl
  | none => exact .fail rfl

theorem name {e : γ → Nat} {context : Context} {h : Located ρ String → Parser ρ γ}
    {h' : Located σ String → Parser σ δ}
    (hh : ∀ n, ∀ k < i, Parallel M k (fun b => e b - 1) g' (h n) (h' (n.map f))) :
    Parallel M i e g' (Parser.name context >>= h) (Parser.name context >>= h') :=
  first name_self hh

theorem accept {e : γ → Nat} {mark : Punctuator} {h : Bool → Parser ρ γ}
    {h' : Bool → Parser σ δ} (absent : Parallel M i e g' (h false) (h' false))
    (present : ∀ k < i, Parallel M k (fun b => e b - 1) g' (h true) (h' true)) :
    Parallel M i e g' (Parser.accept mark >>= h) (Parser.accept mark >>= h') := by
  intro c fits hc
  change Follows M M.least e g' c (Parser.bind (Parser.accept mark) h' (M.move c))
    (Parser.bind (Parser.accept mark) h c)
  by_cases hmark : c.peek.lexeme = .punctuator mark
  · have shorter := Cursor.length_advance (c := c) (by simp [hmark])
    have side := present c.advance.rest.length (by omega) c.advance (M.fits_advance fits)
      (Nat.le_refl _)
    simp only [Parser.bind, Parser.accept, hmark, if_true]
    refine side.onward (fun _ => by omega) fun left => ?_
    simp only [M.peek fits (by omega), M.advance fits (by omega), Token.map_lexeme, hmark, if_true]
  · simp only [Parser.bind, Parser.accept, hmark, if_false]
    refine (absent c fits hc).onward (fun _ => Nat.le_refl _) fun left => ?_
    simp only [M.peek fits left, Token.map_lexeme, hmark, if_false]

/-- Extending a value that may cost nothing. The moved parser may be given a larger
bound. -/
theorem extend {step : α → Parser ρ (Option α)} {step' : β → Parser σ (Option β)}
    (hstep : ∀ a, Parallel M i used (Option.map g) (step a) (step' (g a))) (a : α) :
    Parallel M i (fun _ => 0) g (Parser.extend step a) (Parser.extend step' (g a)) := by
  have within : ∀ m m' a c, M.Fits c → c.rest.length ≤ i → c.rest.length < m →
      c.rest.length < m' → Follows M M.least (fun _ => 0) g c
        (extendWithin step' m' (g a) (M.move c)) (extendWithin step m a c) := by
    intro m
    induction m with
    | zero => intro m' a c _ _ hm; exact absurd hm (Nat.not_lt_zero _)
    | succ m ih =>
        intro m' a c fits hc hm hm'
        cases m' with
        | zero => exact absurd hm' (Nat.not_lt_zero _)
        | succ m' =>
            have side := hstep a c fits hc
            simp only [extendWithin]
            cases hs : step a c with
            | error complaint next =>
                rw [hs] at side
                intro exact
                rw [side exact]
            | ok found next =>
                rw [hs] at side
                obtain ⟨fits, cost, rest⟩ := side
                cases found with
                | none => exact ⟨fits, cost, fun left => by rw [rest left]; rfl⟩
                | some longer =>
                    simp only [used, uses] at cost
                    have more := ih m' longer next fits (by omega) (by omega) (by omega)
                    refine more.onward (fun _ => by omega) fun left => ?_
                    rw [rest left]
                    rfl
  intro c fits hc
  have longer := M.length_le fits
  exact within _ _ a c fits hc (Nat.lt_succ_self _) (by omega)

end Parallel

/-- Taking a token that has been looked at and is not the end. -/
theorem AlongAt.take {e : γ → Nat} {t : Token ρ} {h : Token ρ → Parser ρ γ}
    {h' : Token σ → Parser σ δ} (hn : M.least ≤ n + 1) (ht : t.lexeme ≠ .endOfFile)
    (hh : ∀ k < i, Along M n k (fun b => e b - 1) g' (h t) (h' (t.map f))) :
    AlongAt M n i t e g' (Parser.take >>= h) (Parser.take >>= h') := by
  rintro c fits hc rfl
  have shorter := Cursor.length_advance ht
  have side := hh c.advance.rest.length (by omega) c.advance (M.fits_advance fits) (Nat.le_refl _)
  refine side.later (k := M.least - 1) (fun _ => by omega) (Nat.sub_le _ _) (fun _ => by omega)
    fun left => ?_
  change h' (M.move c).peek (M.move c).advance = _
  rw [M.peek fits (by omega), M.advance fits (by omega)]

theorem ParallelAt.take {e : γ → Nat} {t : Token ρ} {h : Token ρ → Parser ρ γ}
    {h' : Token σ → Parser σ δ} (ht : t.lexeme ≠ .endOfFile)
    (hh : ∀ k < i, Parallel M k (fun b => e b - 1) g' (h t) (h' (t.map f))) :
    ParallelAt M i t e g' (Parser.take >>= h) (Parser.take >>= h') :=
  AlongAt.take (Nat.le_succ _) ht hh

/-! ### Parsers that end with a token of their own -/

private theorem expect_apply {mark : Punctuator} {complain : Token ρ → Complaint ρ}
    (c : Cursor ρ) :
    expect mark complain c = if c.peek.lexeme = .punctuator mark then .ok c.peek.range c.advance
      else .error (complain c.peek) c.advance := by
  change (if c.peek.lexeme = .punctuator mark then _ else _ : Parser ρ ρ) c.advance = _
  split
  · rfl
  · rfl

namespace Closing

/-- A parser that closes does not mind if more tokens are left. -/
theorem strict {p : Parser ρ α} {q : Parser σ β} (h : Closing M i d g p q) :
    Parallel M i d g p q :=
  h.mono (Nat.le_refl _) (fun _ => Nat.le_refl _) (Nat.sub_le _ _)

variable {p : Parser ρ α} {q : Parser σ β} {h : α → Parser ρ γ} {h' : β → Parser σ δ}

/-- What stands before a parser that closes may look at the token behind itself: that
token is taken. -/
theorem after (hp : Parallel M i d g p q)
    (hh : ∀ a, Closing M i (fun _ => n + 1) g' (h a) (h' (g a))) :
    Closing M i (fun _ => n + 1) g' (p >>= h) (q >>= h') := by
  intro c fits hc
  refine (hp c fits hc).bind (fun _ => n + 1) (Nat.le_refl _) (fun _ => by omega)
    fun a next fits cost => ?_
  exact ⟨hh a next fits (by omega), fun _ => Nat.le_add_right _ _⟩

/-- The same where what stands before has paid for a token. -/
theorem first (hp : Parallel M i (fun _ => 1) g p q)
    (hh : ∀ a, ∀ k < i, Closing M k (fun _ => n + 1) g' (h a) (h' (g a))) :
    Closing M i (fun _ => n + 2) g' (p >>= h) (q >>= h') := by
  intro c fits hc
  refine (hp c fits hc).bind (fun _ => n + 1) (Nat.le_refl _) (fun _ => by omega)
    fun a next fits cost => ?_
  exact ⟨hh a next.rest.length (by omega) next fits (Nat.le_refl _), fun _ => Nat.le_refl _⟩

/-- The same where that token need not be counted. -/
theorem behind (hp : Parallel M i (fun _ => 1) g p q)
    (hh : ∀ a, ∀ k < i, Closing M k (fun _ => n + 1) g' (h a) (h' (g a))) :
    Closing M i (fun _ => n + 1) g' (p >>= h) (q >>= h') :=
  (first hp hh).mono (Nat.le_refl _) (fun _ => Nat.le_succ _) (Nat.le_refl _)

/-- Looking at a token that is then taken. -/
theorem peek {h : Token ρ → Parser ρ γ} {h' : Token σ → Parser σ δ}
    (hh : ∀ t, AlongAt M (M.least - 1) i t (fun _ => n + 1) g' (h t) (h' (t.map f))) :
    Closing M i (fun _ => n + 1) g' (Parser.peek >>= h) (Parser.peek >>= h') := by
  intro c fits hc
  refine (hh c.peek c fits hc rfl).later (k := M.least) (fun _ => Nat.le_refl _) (Nat.le_refl _)
    (fun _ => by omega) fun left => ?_
  change h' (M.move c).peek (M.move c) = _
  rw [M.peek fits left]

/-- What follows a parser that closes must close too. -/
theorem seq (hp : Closing M i (fun _ => n) g p q)
    (hh : ∀ a, Closing M i (fun _ => 0) g' (h a) (h' (g a))) :
    Closing M i (fun _ => n) g' (p >>= h) (q >>= h') := by
  intro c fits hc
  refine (hp c fits hc).bind (fun _ => 0) (Nat.sub_le _ _) (fun _ => Nat.le_add_right _ _)
    fun a next fits cost => ?_
  exact ⟨hh a next fits (by omega), fun _ => by omega⟩

/-- A sign that is taken closes what stands before it. -/
theorem expect {mark : Punctuator} {complain : Token ρ → Complaint ρ}
    {complain' : Token σ → Complaint σ}
    (complains : ∀ t, complain' (t.map f) = (complain t).map f) :
    Closing M i (fun _ => 1) f (Parser.expect mark complain) (Parser.expect mark complain') := by
  intro c fits _
  rw [expect_apply, expect_apply]
  by_cases taken : c.peek.lexeme = .punctuator mark
  · rw [if_pos taken]
    have shorter := Cursor.length_advance (c := c) (by simp [taken])
    refine ⟨M.fits_advance fits, Nat.le_of_eq shorter, fun left => ?_⟩
    rw [M.peek fits (by omega), M.advance fits (by omega), Token.map_lexeme, if_pos taken]
    rfl
  · rw [if_neg taken]
    intro exact
    rw [M.peek fits (by omega), M.advance fits (by omega), Token.map_lexeme, if_neg taken,
      complains]

end Closing

/-! ### Moving positions only -/

/-- What a value costs does not depend on the motion. -/
theorem Along.cost {p : Parser ρ α} {q : Parser σ β} (h : Along M n i d g p q) {c next : Cursor ρ}
    {a : α} (fits : M.Fits c) (hc : c.rest.length ≤ i) (hp : p c = .ok a next) :
    next.rest.length + d a ≤ c.rest.length := by
  have side := h c fits hc
  rw [hp] at side
  exact side.2.1

/-- Where only positions are moved, every reply is moved. -/
theorem Parallel.reply {p : Parser ρ α} {q : Parser σ β}
    (h : Parallel (.positions f) i d g p q) {c : Cursor ρ} (hc : c.rest.length ≤ i) :
    q (c.map f) = (p c).map f g := by
  have side := h c trivial hc
  cases hp : p c with
  | ok a next =>
      rw [hp] at side
      exact side.2.2 (Nat.zero_le _)
  | error complaint next =>
      rw [hp] at side
      exact side rfl

end Parser

end Guion
