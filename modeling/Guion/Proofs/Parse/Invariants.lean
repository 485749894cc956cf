import Guion.Parse.Statement

/-!
# Invariants of parsing

A parser only ever moves a cursor by taking tokens. So what is true of a cursor and remains
true when a token is taken is true of the cursor that any parser leaves behind, whether it
gives a value or complains. Complaints are made in a few places, and all but one are made
whatever is at the cursor; the one about numbers is made only of a number that cannot be read.

There is one lemma for each way to make a parser and then one for each production. They need
not count tokens: what a bound does with a parser keeps the invariant as well.
-/

namespace Guion

variable {ρ α β : Type}

/-- Whether a complaint is that a number cannot be read. -/
def Complaint.isInvalidNumber : Complaint ρ → Bool
  | invalidNumber _ => true
  | _ => false

namespace Parser

/-- Something about cursors that taking a token keeps, and something about complaints that is
true of each that may be made at such a cursor. -/
structure Invariant (I : Cursor ρ → Prop) (J : Complaint ρ → Prop) : Prop where
  advance {c : Cursor ρ} : I c → I c.advance
  other {complaint : Complaint ρ} : complaint.isInvalidNumber = false → J complaint
  number {c : Cursor ρ} {literal : String} : I c → c.peek.lexeme = .number literal →
    Number.read? literal.toList = none → J (.invalidNumber c.peek)

/-- A reply with a cursor and a complaint that are as they should be. -/
def Upheld (I : Cursor ρ → Prop) (J : Complaint ρ → Prop) : Reply ρ α → Prop
  | .ok _ next => I next
  | .error complaint next => I next ∧ J complaint

/-- A parser that keeps an invariant. -/
def Upholds (I : Cursor ρ → Prop) (J : Complaint ρ → Prop) (p : Parser ρ α) : Prop :=
  ∀ c, I c → Upheld I J (p c)

variable {I : Cursor ρ → Prop} {J : Complaint ρ → Prop}

namespace Upholds

theorem pure (a : α) : Upholds I J (Pure.pure a : Parser ρ α) := fun _ hc => hc

theorem bind {p : Parser ρ α} {f : α → Parser ρ β} (hp : Upholds I J p)
    (hf : ∀ a, Upholds I J (f a)) : Upholds I J (p >>= f) := by
  intro c hc
  have first := hp c hc
  change Upheld I J (Parser.bind p f c)
  unfold Parser.bind
  cases hpc : p c with
  | ok a next =>
      rw [hpc] at first
      exact hf a next first
  | error complaint next =>
      rw [hpc] at first
      exact first

theorem ite {P : Prop} [Decidable P] {p q : Parser ρ α} (hp : Upholds I J p)
    (hq : Upholds I J q) : Upholds I J (if P then p else q) := by
  split
  · exact hp
  · exact hq

theorem peek : Upholds I J (Parser.peek : Parser ρ _) := fun _ hc => hc

theorem last : Upholds I J (Parser.last : Parser ρ _) := fun _ hc => hc

theorem sees (mark : Punctuator) : Upholds I J (Parser.sees mark : Parser ρ _) := fun _ hc => hc

theorem bounded {p : Nat → Parser ρ α} (hp : ∀ n, Upholds I J (p n)) :
    Upholds I J (Parser.bounded p) :=
  fun c hc => hp _ c hc

end Upholds

namespace Invariant

variable (h : Invariant I J)

include h

/-! ### Ways to make a parser -/

theorem fail {complaint : Complaint ρ} (other : complaint.isInvalidNumber = false) :
    Upholds I J (Parser.fail complaint : Parser ρ α) :=
  fun _ hc => ⟨hc, h.other other⟩

theorem stuck : Upholds I J (Parser.stuck : Parser ρ α) := fun _ hc => ⟨hc, h.other rfl⟩

theorem take : Upholds I J (Parser.take : Parser ρ _) := fun _ hc => h.advance hc

/-- What is done with a token that was taken may rely on where it was taken. -/
theorem take_at {f : Token ρ → Parser ρ β} (hf : ∀ c, I c → Upholds I J (f c.peek)) :
    Upholds I J (Parser.take >>= f) :=
  fun c hc => hf c hc c.advance (h.advance hc)

theorem accept (mark : Punctuator) : Upholds I J (Parser.accept mark : Parser ρ _) := by
  intro c hc
  unfold Parser.accept
  split
  · exact h.advance hc
  · exact hc

theorem expect (mark : Punctuator) {complain : Token ρ → Complaint ρ}
    (other : ∀ t, (complain t).isInvalidNumber = false) :
    Upholds I J (Parser.expect mark complain) :=
  h.take.bind fun t => .ite (.pure _) (h.fail (other t))

theorem name (context : Context) : Upholds I J (Parser.name context : Parser ρ _) := by
  refine h.take.bind fun t => ?_
  split
  · exact .pure _
  · exact h.fail rfl

theorem extend {step : α → Parser ρ (Option α)} (hstep : ∀ a, Upholds I J (step a)) (a : α) :
    Upholds I J (Parser.extend step a) := by
  refine .bounded fun n => ?_
  induction n generalizing a with
  | zero => exact h.stuck
  | succ n ih =>
      intro c hc
      have first := hstep a c hc
      unfold extendWithin
      cases hs : step a c with
      | ok found next =>
          rw [hs] at first
          cases found with
          | some longer => exact ih longer next first
          | none => exact first
      | error complaint next =>
          rw [hs] at first
          exact first

theorem collect {step : Parser ρ (Option α)} (hstep : Upholds I J step) :
    Upholds I J (Parser.collect step) := by
  refine .bounded fun n => ?_
  induction n with
  | zero => exact h.stuck
  | succ n ih =>
      intro c hc
      have first := hstep c hc
      unfold collectWithin
      cases hs : step c with
      | ok found next =>
          rw [hs] at first
          cases found with
          | some a =>
              have more := ih next first
              dsimp only
              cases hm : collectWithin step n next with
              | ok list final =>
                  rw [hm] at more
                  exact more
              | error complaint final =>
                  rw [hm] at more
                  exact more
          | none => exact first
      | error complaint next =>
          rw [hs] at first
          exact first

theorem comma (close : Punctuator) (context : Context) :
    Upholds I J (Parser.comma close context : Parser ρ _) :=
  .bind (.sees close) fun _ => .ite (.pure _)
    ((h.expect .comma fun _ => rfl).bind fun _ => .pure _)

theorem separated (close : Punctuator) (context : Context) {item : Parser ρ α}
    (hitem : Upholds I J item) : Upholds I J (Parser.separated close context item) := by
  refine h.collect (.bind (.sees close) fun _ => .ite (.pure _) ?_)
  exact hitem.bind fun _ => (h.comma close context).bind fun _ => .pure _

/-! ### Signatures -/

theorem parameters (before : Context) : Upholds I J (Parser.parameters before : Parser ρ _) := by
  have parameter : Upholds I J (Parser.parameter : Parser ρ _) :=
    (h.name _).bind fun _ => (h.expect _ fun _ => rfl).bind fun _ =>
      (h.name _).bind fun _ => .pure _
  refine (h.expect _ fun _ => rfl).bind fun _ => ?_
  refine (h.separated _ _ parameter).bind fun _ => ?_
  exact (h.expect _ fun _ => rfl).bind fun _ => .pure _

theorem returnType : Upholds I J (Parser.returnType : Parser ρ _) :=
  (h.expect _ fun _ => rfl).bind fun _ => h.name _

theorem ascription (context : Context) :
    Upholds I J (Parser.ascription context : Parser ρ _) :=
  (h.accept _).bind fun _ => .ite ((h.name _).bind fun _ => .pure _) (.pure _)

/-! ### Expressions -/

section Productions

variable [Extent ρ] {expression : Parser ρ (Expr ρ)} (he : Upholds I J expression)

section

include he

/-- A number is complained about only if it is at the cursor and cannot be read. -/
theorem primary : Upholds I J (Parser.primary expression) := by
  refine h.take_at fun c hc => ?_
  split
  · exact .pure _
  · next literal _ number =>
      split
      · exact .pure _
      · next unread => exact fun _ hnext => ⟨hnext, h.number hc number unread⟩
  · exact .pure _
  · exact he.bind fun _ => (h.expect _ fun _ => rfl).bind fun _ => .pure _
  · exact h.fail rfl

theorem chain : Upholds I J (Parser.chain expression) := by
  refine (h.primary he).bind fun base => h.extend (fun base => Upholds.peek.bind fun t => ?_) base
  split
  · refine h.take.bind fun _ => (h.separated _ _ he).bind fun _ => ?_
    exact (h.expect _ fun _ => rfl).bind fun _ => .pure _
  · exact h.take.bind fun _ => (h.name _).bind fun _ => .pure _
  · refine h.take.bind fun _ => he.bind fun _ => ?_
    exact (h.expect _ fun _ => rfl).bind fun _ => .pure _
  · exact .pure _

theorem object : Upholds I J (Parser.object expression) := by
  have property : Upholds I J (Parser.property expression) :=
    (h.name _).bind fun _ => (h.accept _).bind fun _ =>
      .ite (he.bind fun _ => .pure _) (.pure _)
  exact h.take.bind fun _ => (h.separated _ _ property).bind fun _ => h.take.bind fun _ => .pure _

omit he in
theorem binary {operand : Parser ρ (Expr ρ)} (ho : Upholds I J operand)
    (tiers : List (Lexeme → Option Operator)) : Upholds I J (Parser.binary operand tiers) := by
  induction tiers with
  | nil => exact ho
  | cons tier tighter ih =>
      refine ih.bind fun lhs => h.extend (fun lhs => Upholds.peek.bind fun t => ?_) lhs
      split
      · exact .pure _
      · exact h.take.bind fun _ => ih.bind fun _ => .pure _

variable {block : BlockKind → Context → Parser ρ (Block ρ)}
variable (hb : ∀ kind before, Upholds I J (block kind before))

include hb

omit he in
theorem functionLiteral : Upholds I J (Parser.functionLiteral block) :=
  h.take.bind fun _ => (h.parameters _).bind fun _ => (h.ascription _).bind fun _ =>
    (hb _ _).bind fun _ => Upholds.last.bind fun _ => .pure _

theorem unit : Upholds I J (Parser.unit expression block) := by
  refine Upholds.peek.bind fun t => ?_
  split
  · exact h.object he
  · exact h.functionLiteral hb
  · exact h.binary (h.chain he) _

theorem expressionStep : Upholds I J (Parser.expressionStep expression block) := by
  refine (h.unit he hb).bind fun target => (Upholds.sees _).bind fun _ => .ite ?_ (.pure _)
  exact h.take.bind fun _ => .ite (he.bind fun _ => .pure _) (h.fail rfl)

end

/-! ### Statements -/

omit [Extent ρ] in
theorem semicolon : Upholds I J (Parser.semicolon : Parser ρ _) :=
  (h.expect _ fun _ => rfl).bind fun _ => .pure _

theorem control (form : ρ → Stmt ρ) : Upholds I J (Parser.control form) :=
  h.take.bind fun _ => h.semicolon.bind fun _ => Upholds.last.bind fun _ => .pure _

section

include he

theorem declaration (kind : VariableKind) : Upholds I J (Parser.declaration expression kind) := by
  have initial (declared : Located ρ String) (type : Option (Located ρ String)) :
      Upholds I J (Parser.initial expression kind declared type) := by
    refine (h.accept _).bind fun _ => .ite (he.bind fun _ => .pure _) ?_
    split
    · exact h.fail rfl
    · exact h.fail rfl
    · exact .pure _
  refine h.take.bind fun _ => (h.name _).bind fun _ => (h.ascription _).bind fun _ => ?_
  exact (initial _ _).bind fun _ => h.semicolon.bind fun _ => Upholds.last.bind fun _ => .pure _

theorem giveBack : Upholds I J (Parser.giveBack expression) := by
  have result : Upholds I J (Parser.result expression) :=
    (Upholds.sees _).bind fun _ => .ite (.pure _) (he.bind fun _ => .pure _)
  exact h.take.bind fun _ => result.bind fun _ => h.semicolon.bind fun _ =>
    Upholds.last.bind fun _ => .pure _

theorem expressionStatement : Upholds I J (Parser.expressionStatement expression) :=
  Upholds.peek.bind fun _ => he.bind fun _ => h.semicolon.bind fun _ =>
    Upholds.last.bind fun _ => .pure _

end

variable {statement : Parser ρ (Stmt ρ)} (hs : Upholds I J statement)

include hs

theorem block (kind : BlockKind) (before : Context) :
    Upholds I J (Parser.block statement kind before) := by
  have step : Upholds I J (Parser.blockStep statement) := by
    refine Upholds.peek.bind fun t => ?_
    split
    · exact h.take.bind fun _ => .pure _
    · exact h.fail rfl
    · exact hs.bind fun _ => .pure _
  exact (h.expect _ fun _ => rfl).bind fun _ => (h.collect step).bind fun _ =>
    Upholds.last.bind fun _ => .pure _

theorem functionDeclaration : Upholds I J (Parser.functionDeclaration statement) :=
  h.take.bind fun _ => (h.name _).bind fun _ => (h.parameters _).bind fun _ =>
    h.returnType.bind fun _ => (h.block hs _ _).bind fun _ => Upholds.last.bind fun _ => .pure _

include he

theorem conditional : Upholds I J (Parser.conditional expression statement) := by
  refine .bounded fun n => ?_
  induction n with
  | zero => exact h.stuck
  | succ n ih =>
      have alternate : Upholds I J (Parser.alternate statement
          (conditionalWithin expression statement n)) := by
        refine Upholds.peek.bind fun t => ?_
        split
        · exact h.take.bind fun _ => (h.block hs _ _).bind fun _ => .pure _
        · exact Upholds.bind ih fun _ => .pure _
        · exact .pure _
      refine h.take.bind fun _ => (h.expect _ fun _ => rfl).bind fun _ => he.bind fun _ => ?_
      refine (h.expect _ fun _ => rfl).bind fun _ => (h.block hs _ _).bind fun _ => ?_
      exact alternate.bind fun _ => Upholds.last.bind fun _ => .pure _

theorem loop : Upholds I J (Parser.loop expression statement) := by
  have hacer : Upholds I J (Parser.hacer : Parser ρ _) :=
    h.take.bind fun _ => .ite (.pure _) (h.fail rfl)
  refine h.take.bind fun _ => (h.expect _ fun _ => rfl).bind fun _ => he.bind fun _ => ?_
  refine (h.expect _ fun _ => rfl).bind fun _ => hacer.bind fun _ => ?_
  exact (h.block hs _ _).bind fun _ => Upholds.last.bind fun _ => .pure _

theorem statementStep : Upholds I J (Parser.statementStep expression statement) := by
  intro c hc
  unfold Parser.statementStep
  split
  · exact h.declaration he _ c hc
  · exact h.declaration he _ c hc
  · split
    · exact h.functionDeclaration hs c hc
    · exact h.expressionStatement he c hc
  · exact h.giveBack he c hc
  · exact (h.conditional he hs).bind (fun _ => .pure _) c hc
  · exact ⟨hc, h.other rfl⟩
  · exact ⟨hc, h.other rfl⟩
  · exact h.loop he hs c hc
  · exact h.control _ c hc
  · exact h.control _ c hc
  · exact h.expressionStatement he c hc

end Productions

/-! ### Whole sources -/

variable [Extent ρ]

theorem within (n : Nat) : Upholds I J (expressionWithin n : Parser ρ _) ∧
    Upholds I J (statementWithin n : Parser ρ _) := by
  induction n with
  | zero => exact ⟨h.stuck, h.stuck⟩
  | succ n ih =>
      obtain ⟨he, hs⟩ := ih
      exact ⟨h.expressionStep he fun kind before => h.block hs kind before, h.statementStep he hs⟩

theorem expression : Upholds I J (Parser.expression : Parser ρ _) :=
  fun c hc => (h.within _).1 c hc

theorem statement : Upholds I J (Parser.statement : Parser ρ _) :=
  fun c hc => (h.within _).2 c hc

theorem program : Upholds I J (Parser.program : Parser ρ _) := by
  have step : Upholds I J (Parser.programStep : Parser ρ _) :=
    Upholds.peek.bind fun _ => .ite (.pure _) (h.statement.bind fun _ => .pure _)
  exact Upholds.peek.bind fun _ => (h.collect step).bind fun _ =>
    Upholds.peek.bind fun _ => .pure _

end Invariant

end Parser

end Guion
