import Guion.Token.Basic
import Guion.Tree.Basic

/-!
# Moving the positions of a tree

A function on positions moves every position of a tree and keeps everything else.
Moving to `Unit` forgets where a tree stood; two trees that agree after that differ
in their positions only. Lists inside a tree are moved item by item, and the lemmas
say so at once, so that no later proof has to know how the recursion goes.
-/

namespace Guion

variable {ρ σ : Type}

namespace Located

variable {α : Type}

@[simp] theorem map_range (f : ρ → σ) (x : Located ρ α) : (x.map f).range = f x.range := rfl

@[simp] theorem map_value (f : ρ → σ) (x : Located ρ α) : (x.map f).value = x.value := rfl

@[simp] theorem map_mk (f : ρ → σ) (r : ρ) (a : α) :
    Located.map f ⟨r, a⟩ = (⟨f r, a⟩ : Located σ α) := rfl

@[simp] theorem map_id : (Located.map id : Located ρ α → Located ρ α) = id := rfl

end Located

namespace Token

@[simp] theorem map_lexeme (f : ρ → σ) (t : Token ρ) : (t.map f).lexeme = t.lexeme := rfl

@[simp] theorem map_range (f : ρ → σ) (t : Token ρ) : (t.map f).range = f t.range := rfl

@[simp] theorem map_id : (Token.map id : Token ρ → Token ρ) = id := rfl

@[simp] theorem asName?_map (f : ρ → σ) (t : Token ρ) :
    (t.map f).asName? = t.asName?.map (Located.map f) := by
  simp only [asName?, map_lexeme, map_range, Option.map_map]
  rfl

end Token

/-- A parameter with its positions moved. -/
def Parameter.map (f : ρ → σ) (p : Parameter ρ) : Parameter σ :=
  ⟨p.name.map f, p.type.map f⟩

@[simp] theorem Parameter.map_id : (Parameter.map id : Parameter ρ → Parameter ρ) = id := rfl

mutual

/-- An expression with its positions moved. -/
def Expr.map (f : ρ → σ) : Expr ρ → Expr σ
  | .assign r target source => .assign (f r) (target.map f) (source.map f)
  | .binary r operator lhs rhs => .binary (f r) (operator.map f) (lhs.map f) (rhs.map f)
  | .function r definition => .function (f r) (definition.map f)
  | .object r properties => .object (f r) (Property.mapAll f properties)
  | .call r callee arguments opening closing part =>
    .call (f r) (callee.map f) (Expr.mapAll f arguments) (f opening) (f closing) (f part)
  | .member r base name part => .member (f r) (base.map f) (name.map f) (f part)
  | .subscript r base key part => .subscript (f r) (base.map f) (key.map f) (f part)
  | .number r value => .number (f r) value
  | .text r contents => .text (f r) contents
  | .reference r name => .reference (f r) (name.map f)

/-- Several expressions with their positions moved. -/
def Expr.mapAll (f : ρ → σ) : List (Expr ρ) → List (Expr σ)
  | [] => []
  | e :: rest => e.map f :: Expr.mapAll f rest

/-- An expression that may be missing, with its positions moved. -/
def Expr.mapOption (f : ρ → σ) : Option (Expr ρ) → Option (Expr σ)
  | none => none
  | some e => some (e.map f)

/-- A property with its positions moved. -/
def Property.map (f : ρ → σ) : Property ρ → Property σ
  | ⟨key, value⟩ => ⟨key.map f, Expr.mapOption f value⟩

/-- Several properties with their positions moved. -/
def Property.mapAll (f : ρ → σ) : List (Property ρ) → List (Property σ)
  | [] => []
  | p :: rest => p.map f :: Property.mapAll f rest

/-- A function with its positions moved. -/
def Function.map (f : ρ → σ) : Function ρ → Function σ
  | ⟨parameters, returnType, body, range⟩ =>
    ⟨parameters.map (Parameter.map f), returnType.map (Located.map f), body.map f, f range⟩

/-- A block with its positions moved. -/
def Block.map (f : ρ → σ) : Block ρ → Block σ
  | ⟨kind, range, statements⟩ => ⟨kind, f range, Stmt.mapAll f statements⟩

/-- A statement with its positions moved. -/
def Stmt.map (f : ρ → σ) : Stmt ρ → Stmt σ
  | .breakLoop r => .breakLoop (f r)
  | .continueLoop r => .continueLoop (f r)
  | .expression r value => .expression (f r) (value.map f)
  | .function r name definition => .function (f r) (name.map f) (definition.map f)
  | .conditional r choice => .conditional (f r) (choice.map f)
  | .giveBack r keyword value => .giveBack (f r) (f keyword) (Expr.mapOption f value)
  | .declare r kind name type value =>
    .declare (f r) (kind.map f) (name.map f) (type.map (Located.map f)) (Expr.mapOption f value)
  | .loop r condition body => .loop (f r) (condition.map f) (body.map f)

/-- Several statements with their positions moved. -/
def Stmt.mapAll (f : ρ → σ) : List (Stmt ρ) → List (Stmt σ)
  | [] => []
  | s :: rest => s.map f :: Stmt.mapAll f rest

/-- A condition and what depends on it, with their positions moved. -/
def Conditional.map (f : ρ → σ) : Conditional ρ → Conditional σ
  | ⟨range, condition, consequent, alternate⟩ =>
    ⟨f range, condition.map f, consequent.map f, alternate.map f⟩

/-- What follows a condition, with its positions moved. -/
def Alternate.map (f : ρ → σ) : Alternate ρ → Alternate σ
  | .nothing => .nothing
  | .otherwise block => .otherwise (block.map f)
  | .elseIf choice => .elseIf (choice.map f)

end

/-- A program with its positions moved. -/
def Program.map (f : ρ → σ) (p : Program ρ) : Program σ :=
  ⟨f p.range, p.statements.map (Stmt.map f)⟩

/-! ### Lists inside a tree -/

@[simp] theorem Expr.mapAll_eq (f : ρ → σ) (list : List (Expr ρ)) :
    Expr.mapAll f list = list.map (Expr.map f) := by
  induction list with
  | nil => rfl
  | cons e rest ih => rw [Expr.mapAll, ih, List.map_cons]

@[simp] theorem Expr.mapOption_eq (f : ρ → σ) (value : Option (Expr ρ)) :
    Expr.mapOption f value = value.map (Expr.map f) := by
  cases value <;> rfl

@[simp] theorem Property.mapAll_eq (f : ρ → σ) (list : List (Property ρ)) :
    Property.mapAll f list = list.map (Property.map f) := by
  induction list with
  | nil => rfl
  | cons p rest ih => rw [Property.mapAll, ih, List.map_cons]

@[simp] theorem Stmt.mapAll_eq (f : ρ → σ) (list : List (Stmt ρ)) :
    Stmt.mapAll f list = list.map (Stmt.map f) := by
  induction list with
  | nil => rfl
  | cons s rest ih => rw [Stmt.mapAll, ih, List.map_cons]

/-! ### What does not depend on positions -/

@[simp] theorem Expr.range_map (f : ρ → σ) (e : Expr ρ) : (e.map f).range = f e.range := by
  cases e <;> rfl

@[simp] theorem Expr.map_withRange (f : ρ → σ) (r : ρ) (e : Expr ρ) :
    (e.withRange r).map f = (e.map f).withRange (f r) := by
  cases e <;> rfl

@[simp] theorem Expr.isAssignable_map (f : ρ → σ) (e : Expr ρ) :
    (e.map f).isAssignable = e.isAssignable := by
  cases e <;> rfl

@[simp] theorem Conditional.range_map (f : ρ → σ) (choice : Conditional ρ) :
    (choice.map f).range = f choice.range := by
  cases choice
  rfl

/-! ### Moving by the identity -/

mutual

theorem Expr.map_id_apply : ∀ e : Expr ρ, e.map id = e
  | .assign _ target source => by simp [Expr.map, target.map_id_apply, source.map_id_apply]
  | .binary _ _ lhs rhs => by simp [Expr.map, lhs.map_id_apply, rhs.map_id_apply]
  | .function _ definition => by simp [Expr.map, definition.map_id_apply]
  | .object _ properties => by
    have := Property.mapAll_id properties
    simp_all [Expr.map]
  | .call _ callee arguments _ _ _ => by
    have := Expr.mapAll_id arguments
    simp_all [Expr.map, callee.map_id_apply]
  | .member _ base _ _ => by simp [Expr.map, base.map_id_apply]
  | .subscript _ base key _ => by simp [Expr.map, base.map_id_apply, key.map_id_apply]
  | .number .. => rfl
  | .text .. => rfl
  | .reference .. => rfl

theorem Expr.mapAll_id : ∀ list : List (Expr ρ), Expr.mapAll id list = list
  | [] => rfl
  | e :: rest => by rw [Expr.mapAll, e.map_id_apply, Expr.mapAll_id rest]

theorem Expr.mapOption_id : ∀ value : Option (Expr ρ), Expr.mapOption id value = value
  | none => rfl
  | some e => by rw [Expr.mapOption, e.map_id_apply]

theorem Property.map_id_apply : ∀ p : Property ρ, p.map id = p
  | ⟨_, value⟩ => by rw [Property.map, Expr.mapOption_id value, Located.map_id]; rfl

theorem Property.mapAll_id : ∀ list : List (Property ρ), Property.mapAll id list = list
  | [] => rfl
  | p :: rest => by rw [Property.mapAll, p.map_id_apply, Property.mapAll_id rest]

theorem Function.map_id_apply : ∀ f : Function ρ, f.map id = f
  | ⟨_, _, body, _⟩ => by simp [Function.map, body.map_id_apply]

theorem Block.map_id_apply : ∀ b : Block ρ, b.map id = b
  | ⟨_, _, statements⟩ => by rw [Block.map, Stmt.mapAll_id statements]; rfl

theorem Stmt.map_id_apply : ∀ s : Stmt ρ, s.map id = s
  | .breakLoop _ => rfl
  | .continueLoop _ => rfl
  | .expression _ value => by simp [Stmt.map, value.map_id_apply]
  | .function _ _ definition => by simp [Stmt.map, definition.map_id_apply]
  | .conditional _ choice => by simp [Stmt.map, choice.map_id_apply]
  | .giveBack _ _ value => by
    have := Expr.mapOption_id value
    simp_all [Stmt.map]
  | .declare _ _ _ _ value => by
    have := Expr.mapOption_id value
    simp_all [Stmt.map]
  | .loop _ condition body => by simp [Stmt.map, condition.map_id_apply, body.map_id_apply]

theorem Stmt.mapAll_id : ∀ list : List (Stmt ρ), Stmt.mapAll id list = list
  | [] => rfl
  | s :: rest => by rw [Stmt.mapAll, s.map_id_apply, Stmt.mapAll_id rest]

theorem Conditional.map_id_apply : ∀ choice : Conditional ρ, choice.map id = choice
  | ⟨_, condition, consequent, alternate⟩ => by
    simp [Conditional.map, condition.map_id_apply, consequent.map_id_apply,
      alternate.map_id_apply]

theorem Alternate.map_id_apply : ∀ a : Alternate ρ, a.map id = a
  | .nothing => rfl
  | .otherwise block => by rw [Alternate.map, block.map_id_apply]
  | .elseIf choice => by rw [Alternate.map, choice.map_id_apply]

end

@[simp] theorem Expr.map_id : (Expr.map id : Expr ρ → Expr ρ) = id := funext Expr.map_id_apply

@[simp] theorem Stmt.map_id : (Stmt.map id : Stmt ρ → Stmt ρ) = id := funext Stmt.map_id_apply

@[simp] theorem Conditional.map_id : (Conditional.map id : Conditional ρ → Conditional ρ) = id :=
  funext Conditional.map_id_apply

@[simp] theorem Program.map_id_apply (p : Program ρ) : p.map id = p := by
  simp [Program.map]

/-! ### Moving twice -/

section

variable {τ : Type} (f : ρ → σ) (g : σ → τ)

theorem Located.map_map (x : Located ρ α) : (x.map f).map g = x.map (g ∘ f) := rfl

mutual

theorem Expr.map_map : ∀ e : Expr ρ, (e.map f).map g = e.map (g ∘ f)
  | .assign _ target source => by
    simp only [Expr.map, target.map_map, source.map_map, Function.comp]
  | .binary _ _ lhs rhs => by
    simp only [Expr.map, lhs.map_map, rhs.map_map, Located.map_map, Function.comp]
  | .function _ definition => by simp only [Expr.map, definition.map_map, Function.comp]
  | .object _ properties => by simp only [Expr.map, Property.mapAll_map properties, Function.comp]
  | .call _ callee arguments _ _ _ => by
    simp only [Expr.map, callee.map_map, Expr.mapAll_map arguments, Function.comp]
  | .member _ base _ _ => by simp only [Expr.map, base.map_map, Located.map_map, Function.comp]
  | .subscript _ base key _ => by simp only [Expr.map, base.map_map, key.map_map, Function.comp]
  | .number .. => rfl
  | .text .. => rfl
  | .reference .. => rfl

theorem Expr.mapAll_map : ∀ list : List (Expr ρ),
    Expr.mapAll g (Expr.mapAll f list) = Expr.mapAll (g ∘ f) list
  | [] => rfl
  | e :: rest => by simp only [Expr.mapAll, e.map_map, Expr.mapAll_map rest]

theorem Expr.mapOption_map : ∀ value : Option (Expr ρ),
    Expr.mapOption g (Expr.mapOption f value) = Expr.mapOption (g ∘ f) value
  | none => rfl
  | some e => by simp only [Expr.mapOption, e.map_map]

theorem Property.map_map : ∀ p : Property ρ, (p.map f).map g = p.map (g ∘ f)
  | ⟨_, value⟩ => by simp only [Property.map, Expr.mapOption_map value, Located.map_map]

theorem Property.mapAll_map : ∀ list : List (Property ρ),
    Property.mapAll g (Property.mapAll f list) = Property.mapAll (g ∘ f) list
  | [] => rfl
  | p :: rest => by simp only [Property.mapAll, p.map_map, Property.mapAll_map rest]

theorem Function.map_map : ∀ function : Function ρ, (function.map f).map g = function.map (g ∘ f)
  | ⟨parameters, returnType, body, _⟩ => by
    simp only [Function.map, body.map_map, List.map_map, Option.map_map]
    rfl

theorem Block.map_map : ∀ b : Block ρ, (b.map f).map g = b.map (g ∘ f)
  | ⟨_, _, statements⟩ => by simp only [Block.map, Stmt.mapAll_map statements, Function.comp]

theorem Stmt.map_map : ∀ s : Stmt ρ, (s.map f).map g = s.map (g ∘ f)
  | .breakLoop _ => rfl
  | .continueLoop _ => rfl
  | .expression _ value => by simp only [Stmt.map, value.map_map, Function.comp]
  | .function _ _ definition => by
    simp only [Stmt.map, definition.map_map, Located.map_map, Function.comp]
  | .conditional _ choice => by simp only [Stmt.map, choice.map_map, Function.comp]
  | .giveBack _ _ value => by simp only [Stmt.map, Expr.mapOption_map value, Function.comp]
  | .declare _ _ _ _ value => by
    simp only [Stmt.map, Expr.mapOption_map value, Located.map_map, Option.map_map]
    rfl
  | .loop _ condition body => by
    simp only [Stmt.map, condition.map_map, body.map_map, Function.comp]

theorem Stmt.mapAll_map : ∀ list : List (Stmt ρ),
    Stmt.mapAll g (Stmt.mapAll f list) = Stmt.mapAll (g ∘ f) list
  | [] => rfl
  | s :: rest => by simp only [Stmt.mapAll, s.map_map, Stmt.mapAll_map rest]

theorem Conditional.map_map : ∀ choice : Conditional ρ,
    (choice.map f).map g = choice.map (g ∘ f)
  | ⟨_, condition, consequent, alternate⟩ => by
    simp only [Conditional.map, condition.map_map, consequent.map_map, alternate.map_map,
      Function.comp]

theorem Alternate.map_map : ∀ a : Alternate ρ, (a.map f).map g = a.map (g ∘ f)
  | .nothing => rfl
  | .otherwise block => by simp only [Alternate.map, block.map_map]
  | .elseIf choice => by simp only [Alternate.map, choice.map_map]

end

theorem Program.map_map (p : Program ρ) : (p.map f).map g = p.map (g ∘ f) := by
  have each : Stmt.map g ∘ Stmt.map f = Stmt.map (g ∘ f) := funext (Stmt.map_map f g)
  simp only [Program.map, List.map_map, each, Function.comp]

end

end Guion
