import Guion.Proofs.Parse.Soundness
import Guion.Proofs.Parse.Unfolding
import Guion.Proofs.Tree.Discipline

/-!
# The trees that the parser makes

The parser makes no tree that the grammar does not derive. So what the rules of the grammar
say of single nodes is true of every node of every tree that is parsed, at every depth. Two
demands are of use where trees are run. A block says what it belongs to, and the blocks of
conditions and of loops are marked as what they are. What is assigned to can be assigned to,
and what is declared without a value is a variable and has a type.
-/

namespace Guion

variable {ρ : Type}

/-- Blocks of conditions and of loops are marked as such. -/
def Discipline.kinds : Discipline ρ where
  expr _ := True
  stmt
    | .loop _ _ body => body.kind = .loop
    | _ => True
  choice c := c.consequent.kind = .conditional ∧
    match c.alternate with
    | .otherwise b => b.kind = .conditional
    | _ => True

/-- Assignments are to names and properties, and only variables with a type are declared
without a value. -/
def Discipline.checked : Discipline ρ where
  expr
    | .assign _ target _ => target.isAssignable = true
    | _ => True
  stmt
    | .declare _ kind _ type value => value.isSome ∨ type.isSome ∧ kind.value = .var
    | _ => True
  choice _ := True

@[simp] theorem Block.kind_map {σ : Type} (f : ρ → σ) (b : Block ρ) : (b.map f).kind = b.kind := by
  cases b
  rfl

theorem Discipline.kinds_reflects {σ : Type} (f : ρ → σ) :
    (Discipline.kinds : Discipline ρ).Reflects f .kinds where
  expr _ h := h
  stmt s h := by
    cases s with
    | loop r test body => exact (Block.kind_map f body).symm.trans h
    | _ => trivial
  choice c h := by
    obtain ⟨r, test, consequent, alternate⟩ := c
    obtain ⟨hc, ha⟩ := h
    rw [Conditional.map, Block.kind_map] at hc
    refine ⟨hc, ?_⟩
    cases alternate with
    | otherwise b => exact (Block.kind_map f b).symm.trans ha
    | _ => trivial

theorem Discipline.checked_reflects {σ : Type} (f : ρ → σ) :
    (Discipline.checked : Discipline ρ).Reflects f .checked where
  expr e h := by
    cases e with
    | assign r target source => exact (Expr.isAssignable_map f target).symm.trans h
    | _ => trivial
  stmt s h := by
    cases s with
    | declare r kind name type value =>
        simpa [Discipline.checked, Stmt.map] using h
    | _ => trivial
  choice _ _ := trivial

/-- Whether a statement declares a variable or a constant. -/
def Stmt.isDeclaration : Stmt ρ → Bool
  | .declare .. => true
  | _ => false

/-- A demand that the nodes meet which the rules of the grammar make. -/
structure Discipline.Grammatical (D : Discipline Unit) : Prop where
  expr {e : Expr Unit} : (∀ range target source, e ≠ .assign range target source) → D.expr e
  assign {target source : Expr Unit} : target.isAssignable = true →
    D.expr (.assign () target source)
  stmt {s : Stmt Unit} : s.isDeclaration = false → s.isLoop = false → D.stmt s
  declare {kind : Located Unit VariableKind} {name : Located Unit String}
    {type : Option (Located Unit String)} (value : Expr Unit) :
    D.stmt (.declare () kind name type (some value))
  reserve {name type : Located Unit String} :
    D.stmt (.declare () ⟨(), .var⟩ name (some type) none)
  loop {test : Expr Unit} {body : Block Unit} : body.kind = .loop → D.stmt (.loop () test body)
  choice {choice : Conditional Unit} : choice.consequent.kind = .conditional →
    (∀ b, choice.alternate = .otherwise b → b.kind = .conditional) → D.choice choice

theorem Discipline.grammatical_kinds : (Discipline.kinds : Discipline Unit).Grammatical where
  expr _ := trivial
  assign _ := trivial
  stmt {s} _ other := by
    cases s with
    | loop => cases other
    | _ => trivial
  declare _ := trivial
  reserve := trivial
  loop h := h
  choice {choice} consequent alternate := by
    refine ⟨consequent, ?_⟩
    split
    · next b h => exact alternate b h
    · trivial

theorem Discipline.grammatical_checked : (Discipline.checked : Discipline Unit).Grammatical where
  expr {e} other := by
    cases e with
    | assign range target source => exact absurd rfl (other range target source)
    | _ => trivial
  assign h := h
  stmt {s} other _ := by
    cases s with
    | declare => cases other
    | _ => trivial
  declare _ := .inl rfl
  reserve := .inr ⟨rfl, rfl⟩
  loop _ := trivial
  choice _ _ := trivial

namespace Grammar

/-- The tree of a phrase meets a demand. -/
def Phrase.Obeys (D : Discipline Unit) : (g : Phrase) → g.Tree → Prop
  | .expression, e | .unit, e | .tier _, e | .chain, e | .primary, e => Expr.Obeys D e
  | .item .argument, e => Expr.Obeys D e
  | .item .property, p => Property.Obeys D p
  | .item .parameter, _ => True
  | .items .argument, list => Expr.ObeyAll D list
  | .items .property, list => Property.ObeyAll D list
  | .items .parameter, _ => True
  | .ascription, _ => True
  | .statement, s => Stmt.Obeys D s
  | .statements, list => Stmt.ObeyAll D list
  | .block kind, b => b.kind = kind ∧ b.Obeys D
  | .choice, c => Conditional.Obeys D c
  | .alternate, a => a.Obeys D ∧ ∀ b, a = .otherwise b → b.kind = .conditional
  | .program, p => p.Obeys D

/-- Whatever the grammar derives meets the demands that its rules meet. -/
theorem Derives.obeys {D : Discipline Unit} (hD : D.Grammatical) {g : Phrase}
    {ls : List Lexeme} {t : g.Tree} (h : Derives g ls t) : g.Obeys D t := by
  induction h with
  | unit _ ih => exact ih
  | assign _ assignable _ iht ihs => exact ⟨hD.assign assignable, iht, ihs⟩
  | object _ ih => exact ⟨hD.expr nofun, ih⟩
  | function _ _ _ _ _ ih => exact ⟨hD.expr nofun, ih.2⟩
  | operators _ ih => exact ih
  | tighter _ _ ih => exact ih
  | binary _ _ _ ihl ihr => exact ⟨hD.expr nofun, ihl, ihr⟩
  | operand _ ih => exact ih
  | call _ _ ih ihl => exact ⟨hD.expr nofun, ih, ihl⟩
  | member _ _ ih => exact ⟨hD.expr nofun, ih⟩
  | subscript _ _ ih ihk => exact ⟨hD.expr nofun, ih, ihk⟩
  | primary _ ih => exact ih
  | reference => exact hD.expr nofun
  | number => exact hD.expr nofun
  | text => exact hD.expr nofun
  | parenthesized _ ih => exact ih
  | @noItem what => cases what <;> trivial
  | @lastItem what _ _ _ ih =>
      cases what with
      | argument => exact ⟨ih, trivial⟩
      | property => exact ⟨ih, trivial⟩
      | parameter => trivial
  | @moreItems what _ _ _ _ _ _ ih ihl =>
      cases what with
      | argument => exact ⟨ih, ihl⟩
      | property => exact ⟨ih, ihl⟩
      | parameter => trivial
  | argument _ ih => exact ih
  | shorthand => trivial
  | property _ _ ih => exact ih
  | parameter => trivial
  | untyped => trivial
  | typed => trivial
  | declare _ _ _ _ _ ih => exact ⟨hD.declare _, ih⟩
  | reserve => exact ⟨hD.reserve, trivial⟩
  | declareFunction _ _ _ _ _ ih => exact ⟨hD.stmt rfl rfl, ih.2⟩
  | leave => exact ⟨hD.stmt rfl rfl, trivial⟩
  | giveBack _ ih => exact ⟨hD.stmt rfl rfl, ih⟩
  | conditional _ ih => exact ⟨hD.stmt rfl rfl, ih⟩
  | loop _ _ ih ihb => exact ⟨hD.loop ihb.1, ih, ihb.2⟩
  | breakLoop => exact hD.stmt rfl rfl
  | continueLoop => exact hD.stmt rfl rfl
  | expression _ ih => exact ⟨hD.stmt rfl rfl, ih⟩
  | choice _ _ _ ih ihb iha => exact ⟨hD.choice ihb.1 iha.2, ih, ihb.2, iha.1⟩
  | nothing => exact ⟨trivial, fun b h => by cases h⟩
  | otherwise _ ih => exact ⟨ih.2, fun b h => by cases h; exact ih.1⟩
  | elseIf _ ih => exact ⟨ih, fun b h => by cases h⟩
  | block _ _ ih => exact ⟨rfl, ih⟩
  | empty => trivial
  | statement _ _ ih ihl => exact ⟨ih, ihl⟩
  | program _ ih => exact ih

end Grammar

namespace Parser

open Grammar

/-- A parse of tokens at positions is a parse of the bare lexemes. -/
theorem Parallel.forget {α β : Type} {d : α → Nat} {g : α → β} {p : Parser ρ α} {q : Parser Unit β}
    (h : ∀ i, Parallel (.positions fun _ => ()) i d g p q) {c next : Cursor ρ} {a : α}
    (hp : p c = .ok a next) : ∃ ls next', q (Cursor.bare ls) = .ok (g a) next' := by
  have same := (h _).reply (Nat.le_refl c.rest.length)
  rw [hp, (c.map _).eq_bare] at same
  exact ⟨_, _, same⟩

section

variable [Extent ρ] {D : Discipline ρ} {E : Discipline Unit} {c next : Cursor ρ}
variable (hE : E.Grammatical) (hD : D.Reflects (fun _ => ()) E)

include hE hD

theorem obeys_of_expression {e : Expr ρ} (h : expression c = .ok e next) : e.Obeys D := by
  obtain ⟨ls, next', h⟩ := Parallel.forget (parallel_expression Extent.respects_unit) h
  obtain ⟨used, rest, -, -, derived⟩ := (accepts_within _).1 ls _ _ h
  exact Expr.Obeys.of_map hD e (derived.obeys hE)

theorem obeys_of_statement {s : Stmt ρ} (h : statement c = .ok s next) : s.Obeys D := by
  obtain ⟨ls, next', h⟩ := Parallel.forget
    (fun i => (closing_statement Extent.respects_unit i).strict) h
  obtain ⟨used, rest, -, -, derived⟩ := accepts_statement ls _ _ h
  exact Stmt.Obeys.of_map hD s (derived.obeys hE)

theorem obeys_of_program {p : Program ρ} (h : program c = .ok p next) : p.Obeys D := by
  obtain ⟨ls, next', h⟩ := Parallel.forget (parallel_program Extent.respects_unit) h
  obtain ⟨used, rest, -, -, derived⟩ := program_ok h
  refine Stmt.ObeyAll.of_map hD p.statements ?_
  rw [Stmt.mapAll_eq]
  exact derived.obeys hE

end

variable [Extent ρ] {c next : Cursor ρ}

theorem kinds_of_expression {e : Expr ρ} (h : expression c = .ok e next) : e.Obeys .kinds :=
  obeys_of_expression Discipline.grammatical_kinds (Discipline.kinds_reflects _) h

theorem kinds_of_statement {s : Stmt ρ} (h : statement c = .ok s next) : s.Obeys .kinds :=
  obeys_of_statement Discipline.grammatical_kinds (Discipline.kinds_reflects _) h

theorem kinds_of_program {p : Program ρ} (h : program c = .ok p next) : p.Obeys .kinds :=
  obeys_of_program Discipline.grammatical_kinds (Discipline.kinds_reflects _) h

end Parser

end Guion
