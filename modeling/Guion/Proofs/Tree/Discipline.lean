import Guion.Proofs.Tree.Positions

/-!
# Disciplines

Running a tree only ever runs parts of it. A discipline is a demand on single nodes;
a tree obeys it if all of its nodes meet the demand, those inside functions included.
What a run comes across then meets the demand as well.
-/

namespace Guion

variable {ρ σ : Type}

/-- A demand on the nodes of trees. -/
structure Discipline (ρ : Type) where
  expr : Expr ρ → Prop
  stmt : Stmt ρ → Prop
  choice : Conditional ρ → Prop

/-- The discipline that demands nothing. -/
def Discipline.free : Discipline ρ := ⟨fun _ => True, fun _ => True, fun _ => True⟩

mutual

/-- All nodes of an expression meet the demand. -/
def Expr.Obeys (D : Discipline ρ) : Expr ρ → Prop
  | .assign r target source => D.expr (.assign r target source) ∧ target.Obeys D ∧ source.Obeys D
  | .binary r operator lhs rhs => D.expr (.binary r operator lhs rhs) ∧ lhs.Obeys D ∧ rhs.Obeys D
  | .function r definition => D.expr (.function r definition) ∧ definition.Obeys D
  | .object r properties => D.expr (.object r properties) ∧ Property.ObeyAll D properties
  | .call r callee arguments opening closing part =>
    D.expr (.call r callee arguments opening closing part) ∧ callee.Obeys D ∧
      Expr.ObeyAll D arguments
  | .member r base name part => D.expr (.member r base name part) ∧ base.Obeys D
  | .subscript r base key part => D.expr (.subscript r base key part) ∧ base.Obeys D ∧ key.Obeys D
  | .number r value => D.expr (.number r value)
  | .text r contents => D.expr (.text r contents)
  | .reference r name => D.expr (.reference r name)

/-- All nodes of several expressions meet the demand. -/
def Expr.ObeyAll (D : Discipline ρ) : List (Expr ρ) → Prop
  | [] => True
  | e :: rest => e.Obeys D ∧ Expr.ObeyAll D rest

/-- All nodes of an expression that may be missing meet the demand. -/
def Expr.ObeysOption (D : Discipline ρ) : Option (Expr ρ) → Prop
  | none => True
  | some e => e.Obeys D

/-- All nodes of a property meet the demand. -/
def Property.Obeys (D : Discipline ρ) : Property ρ → Prop
  | ⟨_, value⟩ => Expr.ObeysOption D value

/-- All nodes of several properties meet the demand. -/
def Property.ObeyAll (D : Discipline ρ) : List (Property ρ) → Prop
  | [] => True
  | p :: rest => p.Obeys D ∧ Property.ObeyAll D rest

/-- All nodes of a function meet the demand. -/
def Function.Obeys (D : Discipline ρ) : Function ρ → Prop
  | ⟨_, _, body, _⟩ => body.Obeys D

/-- All nodes of a block meet the demand. -/
def Block.Obeys (D : Discipline ρ) : Block ρ → Prop
  | ⟨_, _, statements⟩ => Stmt.ObeyAll D statements

/-- All nodes of a statement meet the demand. -/
def Stmt.Obeys (D : Discipline ρ) : Stmt ρ → Prop
  | .breakLoop r => D.stmt (.breakLoop r)
  | .continueLoop r => D.stmt (.continueLoop r)
  | .expression r value => D.stmt (.expression r value) ∧ value.Obeys D
  | .function r name definition => D.stmt (.function r name definition) ∧ definition.Obeys D
  | .conditional r choice => D.stmt (.conditional r choice) ∧ choice.Obeys D
  | .giveBack r keyword value => D.stmt (.giveBack r keyword value) ∧ Expr.ObeysOption D value
  | .declare r kind name type value =>
    D.stmt (.declare r kind name type value) ∧ Expr.ObeysOption D value
  | .loop r condition body => D.stmt (.loop r condition body) ∧ condition.Obeys D ∧ body.Obeys D

/-- All nodes of several statements meet the demand. -/
def Stmt.ObeyAll (D : Discipline ρ) : List (Stmt ρ) → Prop
  | [] => True
  | s :: rest => s.Obeys D ∧ Stmt.ObeyAll D rest

/-- All nodes of a condition and of what depends on it meet the demand. -/
def Conditional.Obeys (D : Discipline ρ) : Conditional ρ → Prop
  | ⟨range, condition, consequent, alternate⟩ =>
    D.choice ⟨range, condition, consequent, alternate⟩ ∧ condition.Obeys D ∧
      consequent.Obeys D ∧ alternate.Obeys D

/-- All nodes of what follows a condition meet the demand. -/
def Alternate.Obeys (D : Discipline ρ) : Alternate ρ → Prop
  | .nothing => True
  | .otherwise block => block.Obeys D
  | .elseIf choice => choice.Obeys D

end

/-- All nodes of a program meet the demand. -/
def Program.Obeys (D : Discipline ρ) (p : Program ρ) : Prop := Stmt.ObeyAll D p.statements

/-! ### Below the root -/

/-- All nodes of an expression but its root meet the demand. -/
def Expr.Inside (D : Discipline ρ) : Expr ρ → Prop
  | .assign _ target source => target.Obeys D ∧ source.Obeys D
  | .binary _ _ lhs rhs => lhs.Obeys D ∧ rhs.Obeys D
  | .function _ definition => definition.Obeys D
  | .object _ properties => Property.ObeyAll D properties
  | .call _ callee arguments _ _ _ => callee.Obeys D ∧ Expr.ObeyAll D arguments
  | .member _ base _ _ => base.Obeys D
  | .subscript _ base key _ => base.Obeys D ∧ key.Obeys D
  | .number .. | .text .. | .reference .. => True

/-- All nodes of a statement but its root meet the demand. -/
def Stmt.Inside (D : Discipline ρ) : Stmt ρ → Prop
  | .expression _ value => value.Obeys D
  | .function _ _ definition => definition.Obeys D
  | .conditional _ choice => choice.Obeys D
  | .giveBack _ _ value | .declare _ _ _ _ value => Expr.ObeysOption D value
  | .loop _ condition body => condition.Obeys D ∧ body.Obeys D
  | .breakLoop _ | .continueLoop _ => True

theorem Expr.Obeys.inside {D : Discipline ρ} {e : Expr ρ} (h : e.Obeys D) : e.Inside D := by
  cases e with
  | number | text | reference => trivial
  | _ => exact h.2

theorem Stmt.Obeys.inside {D : Discipline ρ} {s : Stmt ρ} (h : s.Obeys D) : s.Inside D := by
  cases s with
  | breakLoop | continueLoop => trivial
  | _ => exact h.2

/-- Whether a statement is a loop. -/
def Stmt.isLoop : Stmt ρ → Bool
  | .loop .. => true
  | _ => false

/-! ### The free discipline -/

mutual

theorem Expr.obeys_free : ∀ e : Expr ρ, e.Obeys .free
  | .assign _ target source => ⟨trivial, target.obeys_free, source.obeys_free⟩
  | .binary _ _ lhs rhs => ⟨trivial, lhs.obeys_free, rhs.obeys_free⟩
  | .function _ definition => ⟨trivial, definition.obeys_free⟩
  | .object _ properties => ⟨trivial, Property.obeyAll_free properties⟩
  | .call _ callee arguments _ _ _ => ⟨trivial, callee.obeys_free, Expr.obeyAll_free arguments⟩
  | .member _ base _ _ => ⟨trivial, base.obeys_free⟩
  | .subscript _ base key _ => ⟨trivial, base.obeys_free, key.obeys_free⟩
  | .number _ _ => trivial
  | .text _ _ => trivial
  | .reference _ _ => trivial

theorem Expr.obeyAll_free : ∀ list : List (Expr ρ), Expr.ObeyAll .free list
  | [] => trivial
  | e :: rest => ⟨e.obeys_free, Expr.obeyAll_free rest⟩

theorem Expr.obeysOption_free : ∀ value : Option (Expr ρ), Expr.ObeysOption .free value
  | none => trivial
  | some e => e.obeys_free

theorem Property.obeys_free : ∀ p : Property ρ, p.Obeys .free
  | ⟨_, value⟩ => Expr.obeysOption_free value

theorem Property.obeyAll_free : ∀ list : List (Property ρ), Property.ObeyAll .free list
  | [] => trivial
  | p :: rest => ⟨p.obeys_free, Property.obeyAll_free rest⟩

theorem Function.obeys_free : ∀ f : Function ρ, f.Obeys .free
  | ⟨_, _, body, _⟩ => body.obeys_free

theorem Block.obeys_free : ∀ b : Block ρ, b.Obeys .free
  | ⟨_, _, statements⟩ => Stmt.obeyAll_free statements

theorem Stmt.obeys_free : ∀ s : Stmt ρ, s.Obeys .free
  | .breakLoop _ => trivial
  | .continueLoop _ => trivial
  | .expression _ value => ⟨trivial, value.obeys_free⟩
  | .function _ _ definition => ⟨trivial, definition.obeys_free⟩
  | .conditional _ choice => ⟨trivial, choice.obeys_free⟩
  | .giveBack _ _ value => ⟨trivial, Expr.obeysOption_free value⟩
  | .declare _ _ _ _ value => ⟨trivial, Expr.obeysOption_free value⟩
  | .loop _ condition body => ⟨trivial, condition.obeys_free, body.obeys_free⟩

theorem Stmt.obeyAll_free : ∀ list : List (Stmt ρ), Stmt.ObeyAll .free list
  | [] => trivial
  | s :: rest => ⟨s.obeys_free, Stmt.obeyAll_free rest⟩

theorem Conditional.obeys_free : ∀ choice : Conditional ρ, choice.Obeys .free
  | ⟨_, condition, consequent, alternate⟩ =>
    ⟨trivial, condition.obeys_free, consequent.obeys_free, alternate.obeys_free⟩

theorem Alternate.obeys_free : ∀ a : Alternate ρ, a.Obeys .free
  | .nothing => trivial
  | .otherwise block => block.obeys_free
  | .elseIf choice => choice.obeys_free

end

/-! ### Weaker demands -/

/-- Nodes up to a size that meet one demand meet another. -/
structure Discipline.Implies (D E : Discipline ρ) (size : Nat) : Prop where
  expr : ∀ e : Expr ρ, sizeOf e ≤ size → D.expr e → E.expr e
  stmt : ∀ s : Stmt ρ, sizeOf s ≤ size → D.stmt s → E.stmt s
  choice : ∀ choice : Conditional ρ, D.choice choice → E.choice choice

section

variable {D E : Discipline ρ} {size : Nat} (h : D.Implies E size)

include h

-- Within the recursion each theorem passes the section's hypothesis on to the others.
set_option linter.unusedSectionVars false in
mutual

theorem Expr.Obeys.imp : ∀ e : Expr ρ, sizeOf e ≤ size → e.Obeys D → e.Obeys E
  | .assign _ target source, small, ho => by
      have whole := h.expr _ small ho.1
      simp only [Expr.assign.sizeOf_spec] at small
      exact ⟨whole, Expr.Obeys.imp target (by omega) ho.2.1,
        Expr.Obeys.imp source (by omega) ho.2.2⟩
  | .binary _ _ lhs rhs, small, ho => by
      have whole := h.expr _ small ho.1
      simp only [Expr.binary.sizeOf_spec] at small
      exact ⟨whole, Expr.Obeys.imp lhs (by omega) ho.2.1, Expr.Obeys.imp rhs (by omega) ho.2.2⟩
  | .function _ definition, small, ho => by
      have whole := h.expr _ small ho.1
      simp only [Expr.function.sizeOf_spec] at small
      exact ⟨whole, Function.Obeys.imp definition (by omega) ho.2⟩
  | .object _ properties, small, ho => by
      have whole := h.expr _ small ho.1
      simp only [Expr.object.sizeOf_spec] at small
      exact ⟨whole, Property.ObeyAll.imp properties (by omega) ho.2⟩
  | .call _ callee arguments _ _ _, small, ho => by
      have whole := h.expr _ small ho.1
      simp only [Expr.call.sizeOf_spec] at small
      exact ⟨whole, Expr.Obeys.imp callee (by omega) ho.2.1,
        Expr.ObeyAll.imp arguments (by omega) ho.2.2⟩
  | .member _ base _ _, small, ho => by
      have whole := h.expr _ small ho.1
      simp only [Expr.member.sizeOf_spec] at small
      exact ⟨whole, Expr.Obeys.imp base (by omega) ho.2⟩
  | .subscript _ base key _, small, ho => by
      have whole := h.expr _ small ho.1
      simp only [Expr.subscript.sizeOf_spec] at small
      exact ⟨whole, Expr.Obeys.imp base (by omega) ho.2.1, Expr.Obeys.imp key (by omega) ho.2.2⟩
  | .number r x, small, ho => h.expr (.number r x) small ho
  | .text r contents, small, ho => h.expr (.text r contents) small ho
  | .reference r name, small, ho => h.expr (.reference r name) small ho

theorem Expr.ObeyAll.imp : ∀ list : List (Expr ρ), sizeOf list ≤ size →
    Expr.ObeyAll D list → Expr.ObeyAll E list
  | [], _, _ => trivial
  | e :: rest, small, ho => by
      simp only [List.cons.sizeOf_spec] at small
      exact ⟨Expr.Obeys.imp e (by omega) ho.1, Expr.ObeyAll.imp rest (by omega) ho.2⟩

theorem Expr.ObeysOption.imp : ∀ value : Option (Expr ρ), sizeOf value ≤ size →
    Expr.ObeysOption D value → Expr.ObeysOption E value
  | none, _, _ => trivial
  | some e, small, ho => by
      simp only [Option.some.sizeOf_spec] at small
      exact Expr.Obeys.imp e (by omega) ho

theorem Property.Obeys.imp : ∀ p : Property ρ, sizeOf p ≤ size → p.Obeys D → p.Obeys E
  | ⟨_, value⟩, small, ho => by
      simp only [Property.mk.sizeOf_spec] at small
      exact Expr.ObeysOption.imp value (by omega) ho

theorem Property.ObeyAll.imp : ∀ list : List (Property ρ), sizeOf list ≤ size →
    Property.ObeyAll D list → Property.ObeyAll E list
  | [], _, _ => trivial
  | p :: rest, small, ho => by
      simp only [List.cons.sizeOf_spec] at small
      exact ⟨Property.Obeys.imp p (by omega) ho.1, Property.ObeyAll.imp rest (by omega) ho.2⟩

theorem Function.Obeys.imp : ∀ d : Function ρ, sizeOf d ≤ size → d.Obeys D → d.Obeys E
  | ⟨_, _, body, _⟩, small, ho => by
      simp only [Function.mk.sizeOf_spec] at small
      exact Block.Obeys.imp body (by omega) ho

theorem Block.Obeys.imp : ∀ b : Block ρ, sizeOf b ≤ size → b.Obeys D → b.Obeys E
  | ⟨_, _, statements⟩, small, ho => by
      simp only [Block.mk.sizeOf_spec] at small
      exact Stmt.ObeyAll.imp statements (by omega) ho

theorem Stmt.Obeys.imp : ∀ s : Stmt ρ, sizeOf s ≤ size → s.Obeys D → s.Obeys E
  | .breakLoop r, small, ho => h.stmt (.breakLoop r) small ho
  | .continueLoop r, small, ho => h.stmt (.continueLoop r) small ho
  | .expression _ value, small, ho => by
      have whole := h.stmt _ small ho.1
      simp only [Stmt.expression.sizeOf_spec] at small
      exact ⟨whole, Expr.Obeys.imp value (by omega) ho.2⟩
  | .function _ _ definition, small, ho => by
      have whole := h.stmt _ small ho.1
      simp only [Stmt.function.sizeOf_spec] at small
      exact ⟨whole, Function.Obeys.imp definition (by omega) ho.2⟩
  | .conditional _ choice, small, ho => by
      have whole := h.stmt _ small ho.1
      simp only [Stmt.conditional.sizeOf_spec] at small
      exact ⟨whole, Conditional.Obeys.imp choice (by omega) ho.2⟩
  | .giveBack _ _ value, small, ho => by
      have whole := h.stmt _ small ho.1
      simp only [Stmt.giveBack.sizeOf_spec] at small
      exact ⟨whole, Expr.ObeysOption.imp value (by omega) ho.2⟩
  | .declare _ _ _ _ value, small, ho => by
      have whole := h.stmt _ small ho.1
      simp only [Stmt.declare.sizeOf_spec] at small
      exact ⟨whole, Expr.ObeysOption.imp value (by omega) ho.2⟩
  | .loop _ condition body, small, ho => by
      have whole := h.stmt _ small ho.1
      simp only [Stmt.loop.sizeOf_spec] at small
      exact ⟨whole, Expr.Obeys.imp condition (by omega) ho.2.1,
        Block.Obeys.imp body (by omega) ho.2.2⟩

theorem Stmt.ObeyAll.imp : ∀ list : List (Stmt ρ), sizeOf list ≤ size →
    Stmt.ObeyAll D list → Stmt.ObeyAll E list
  | [], _, _ => trivial
  | s :: rest, small, ho => by
      simp only [List.cons.sizeOf_spec] at small
      exact ⟨Stmt.Obeys.imp s (by omega) ho.1, Stmt.ObeyAll.imp rest (by omega) ho.2⟩

theorem Conditional.Obeys.imp : ∀ choice : Conditional ρ, sizeOf choice ≤ size →
    choice.Obeys D → choice.Obeys E
  | ⟨_, condition, consequent, alternate⟩, small, ho => by
      simp only [Conditional.mk.sizeOf_spec] at small
      exact ⟨h.choice _ ho.1, Expr.Obeys.imp condition (by omega) ho.2.1,
        Block.Obeys.imp consequent (by omega) ho.2.2.1,
        Alternate.Obeys.imp alternate (by omega) ho.2.2.2⟩

theorem Alternate.Obeys.imp : ∀ a : Alternate ρ, sizeOf a ≤ size → a.Obeys D → a.Obeys E
  | .nothing, _, _ => trivial
  | .otherwise block, small, ho => by
      simp only [Alternate.otherwise.sizeOf_spec] at small
      exact Block.Obeys.imp block (by omega) ho
  | .elseIf choice, small, ho => by
      simp only [Alternate.elseIf.sizeOf_spec] at small
      exact Conditional.Obeys.imp choice (by omega) ho

end

end

/-! ### Moved positions -/

/-- A demand that a node meets whenever the node at moved positions meets another. -/
structure Discipline.Reflects (f : ρ → σ) (D : Discipline ρ) (E : Discipline σ) : Prop where
  expr : ∀ e : Expr ρ, E.expr (e.map f) → D.expr e
  stmt : ∀ s : Stmt ρ, E.stmt (s.map f) → D.stmt s
  choice : ∀ choice : Conditional ρ, E.choice (choice.map f) → D.choice choice

section

variable {f : ρ → σ} {D : Discipline ρ} {E : Discipline σ} (h : D.Reflects f E)

include h

-- Within the recursion each theorem passes the section's hypothesis on to the others.
set_option linter.unusedSectionVars false in
mutual

theorem Expr.Obeys.of_map : ∀ e : Expr ρ, (e.map f).Obeys E → e.Obeys D
  | .assign _ target source, ho =>
    ⟨h.expr _ ho.1, Expr.Obeys.of_map target ho.2.1, Expr.Obeys.of_map source ho.2.2⟩
  | .binary _ _ lhs rhs, ho =>
    ⟨h.expr _ ho.1, Expr.Obeys.of_map lhs ho.2.1, Expr.Obeys.of_map rhs ho.2.2⟩
  | .function _ definition, ho => ⟨h.expr _ ho.1, Function.Obeys.of_map definition ho.2⟩
  | .object _ properties, ho => ⟨h.expr _ ho.1, Property.ObeyAll.of_map properties ho.2⟩
  | .call _ callee arguments _ _ _, ho =>
    ⟨h.expr _ ho.1, Expr.Obeys.of_map callee ho.2.1, Expr.ObeyAll.of_map arguments ho.2.2⟩
  | .member _ base _ _, ho => ⟨h.expr _ ho.1, Expr.Obeys.of_map base ho.2⟩
  | .subscript _ base key _, ho =>
    ⟨h.expr _ ho.1, Expr.Obeys.of_map base ho.2.1, Expr.Obeys.of_map key ho.2.2⟩
  | .number r x, ho => h.expr (.number r x) ho
  | .text r contents, ho => h.expr (.text r contents) ho
  | .reference r name, ho => h.expr (.reference r name) ho

theorem Expr.ObeyAll.of_map : ∀ list : List (Expr ρ),
    Expr.ObeyAll E (Expr.mapAll f list) → Expr.ObeyAll D list
  | [], _ => trivial
  | e :: rest, ho => ⟨Expr.Obeys.of_map e ho.1, Expr.ObeyAll.of_map rest ho.2⟩

theorem Expr.ObeysOption.of_map : ∀ value : Option (Expr ρ),
    Expr.ObeysOption E (Expr.mapOption f value) → Expr.ObeysOption D value
  | none, _ => trivial
  | some e, ho => Expr.Obeys.of_map e ho

theorem Property.Obeys.of_map : ∀ p : Property ρ, (p.map f).Obeys E → p.Obeys D
  | ⟨_, value⟩, ho => Expr.ObeysOption.of_map value ho

theorem Property.ObeyAll.of_map : ∀ list : List (Property ρ),
    Property.ObeyAll E (Property.mapAll f list) → Property.ObeyAll D list
  | [], _ => trivial
  | p :: rest, ho => ⟨Property.Obeys.of_map p ho.1, Property.ObeyAll.of_map rest ho.2⟩

theorem Function.Obeys.of_map : ∀ d : Function ρ, (d.map f).Obeys E → d.Obeys D
  | ⟨_, _, body, _⟩, ho => Block.Obeys.of_map body ho

theorem Block.Obeys.of_map : ∀ b : Block ρ, (b.map f).Obeys E → b.Obeys D
  | ⟨_, _, statements⟩, ho => Stmt.ObeyAll.of_map statements ho

theorem Stmt.Obeys.of_map : ∀ s : Stmt ρ, (s.map f).Obeys E → s.Obeys D
  | .breakLoop r, ho => h.stmt (.breakLoop r) ho
  | .continueLoop r, ho => h.stmt (.continueLoop r) ho
  | .expression _ value, ho => ⟨h.stmt _ ho.1, Expr.Obeys.of_map value ho.2⟩
  | .function _ _ definition, ho => ⟨h.stmt _ ho.1, Function.Obeys.of_map definition ho.2⟩
  | .conditional _ choice, ho => ⟨h.stmt _ ho.1, Conditional.Obeys.of_map choice ho.2⟩
  | .giveBack _ _ value, ho => ⟨h.stmt _ ho.1, Expr.ObeysOption.of_map value ho.2⟩
  | .declare _ _ _ _ value, ho => ⟨h.stmt _ ho.1, Expr.ObeysOption.of_map value ho.2⟩
  | .loop _ condition body, ho =>
    ⟨h.stmt _ ho.1, Expr.Obeys.of_map condition ho.2.1, Block.Obeys.of_map body ho.2.2⟩

theorem Stmt.ObeyAll.of_map : ∀ list : List (Stmt ρ),
    Stmt.ObeyAll E (Stmt.mapAll f list) → Stmt.ObeyAll D list
  | [], _ => trivial
  | s :: rest, ho => ⟨Stmt.Obeys.of_map s ho.1, Stmt.ObeyAll.of_map rest ho.2⟩

theorem Conditional.Obeys.of_map : ∀ choice : Conditional ρ,
    (choice.map f).Obeys E → choice.Obeys D
  | ⟨_, condition, consequent, alternate⟩, ho =>
    ⟨h.choice _ ho.1, Expr.Obeys.of_map condition ho.2.1, Block.Obeys.of_map consequent ho.2.2.1,
      Alternate.Obeys.of_map alternate ho.2.2.2⟩

theorem Alternate.Obeys.of_map : ∀ a : Alternate ρ, (a.map f).Obeys E → a.Obeys D
  | .nothing, _ => trivial
  | .otherwise block, ho => Block.Obeys.of_map block ho
  | .elseIf choice, ho => Conditional.Obeys.of_map choice ho

end

end

end Guion
