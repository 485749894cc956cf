import Guion.Proofs.Tree.Positions

/-!
# Programs without sugar

Two forms of the language are short for others. `o.x` stands for `o["x"]`, on the left of an
assignment too, and `{x}` stands for `{x: x}`. Here they are written out everywhere in a tree,
function bodies included. The new expressions stand where the name stood, and nothing else
moves.
-/

namespace Guion

variable {ρ : Type}

mutual

/-- An expression with its sugar written out. -/
def Expr.desugar : Expr ρ → Expr ρ
  | .assign r target source => .assign r target.desugar source.desugar
  | .binary r operator lhs rhs => .binary r operator lhs.desugar rhs.desugar
  | .function r definition => .function r definition.desugar
  | .object r properties => .object r (Property.desugarAll properties)
  | .call r callee arguments opening closing part =>
    .call r callee.desugar (Expr.desugarAll arguments) opening closing part
  | .member r base name part => .subscript r base.desugar (.text name.range name.value) part
  | .subscript r base key part => .subscript r base.desugar key.desugar part
  | .number r value => .number r value
  | .text r contents => .text r contents
  | .reference r name => .reference r name

/-- Several expressions with their sugar written out. -/
def Expr.desugarAll : List (Expr ρ) → List (Expr ρ)
  | [] => []
  | e :: rest => e.desugar :: Expr.desugarAll rest

/-- An expression that may be missing, with its sugar written out. -/
def Expr.desugarOption : Option (Expr ρ) → Option (Expr ρ)
  | none => none
  | some e => some e.desugar

/-- A property with its sugar written out: where it has no value, its key is one. -/
def Property.desugar : Property ρ → Property ρ
  | ⟨key, none⟩ => ⟨key, some (.reference key.range key)⟩
  | ⟨key, some e⟩ => ⟨key, some e.desugar⟩

/-- Several properties with their sugar written out. -/
def Property.desugarAll : List (Property ρ) → List (Property ρ)
  | [] => []
  | p :: rest => p.desugar :: Property.desugarAll rest

/-- A function with its sugar written out. -/
def Function.desugar : Function ρ → Function ρ
  | ⟨parameters, returnType, body, range⟩ => ⟨parameters, returnType, body.desugar, range⟩

/-- A block with its sugar written out. -/
def Block.desugar : Block ρ → Block ρ
  | ⟨kind, range, statements⟩ => ⟨kind, range, Stmt.desugarAll statements⟩

/-- A statement with its sugar written out. -/
def Stmt.desugar : Stmt ρ → Stmt ρ
  | .breakLoop r => .breakLoop r
  | .continueLoop r => .continueLoop r
  | .expression r value => .expression r value.desugar
  | .function r name definition => .function r name definition.desugar
  | .conditional r choice => .conditional r choice.desugar
  | .giveBack r keyword value => .giveBack r keyword (Expr.desugarOption value)
  | .declare r kind name type value => .declare r kind name type (Expr.desugarOption value)
  | .loop r condition body => .loop r condition.desugar body.desugar

/-- Several statements with their sugar written out. -/
def Stmt.desugarAll : List (Stmt ρ) → List (Stmt ρ)
  | [] => []
  | s :: rest => s.desugar :: Stmt.desugarAll rest

/-- A condition and what depends on it, with their sugar written out. -/
def Conditional.desugar : Conditional ρ → Conditional ρ
  | ⟨range, condition, consequent, alternate⟩ =>
    ⟨range, condition.desugar, consequent.desugar, alternate.desugar⟩

/-- What follows a condition, with its sugar written out. -/
def Alternate.desugar : Alternate ρ → Alternate ρ
  | .nothing => .nothing
  | .otherwise block => .otherwise block.desugar
  | .elseIf choice => .elseIf choice.desugar

end

/-- A program with its sugar written out. -/
def Program.desugar (p : Program ρ) : Program ρ :=
  ⟨p.range, p.statements.map Stmt.desugar⟩

/-! ### Lists inside a tree -/

@[simp] theorem Expr.desugarAll_eq (list : List (Expr ρ)) :
    Expr.desugarAll list = list.map Expr.desugar := by
  induction list with
  | nil => rfl
  | cons e rest ih => rw [Expr.desugarAll, ih, List.map_cons]

@[simp] theorem Expr.desugarOption_eq (value : Option (Expr ρ)) :
    Expr.desugarOption value = value.map Expr.desugar := by
  cases value <;> rfl

@[simp] theorem Property.desugarAll_eq (list : List (Property ρ)) :
    Property.desugarAll list = list.map Property.desugar := by
  induction list with
  | nil => rfl
  | cons p rest ih => rw [Property.desugarAll, ih, List.map_cons]

@[simp] theorem Stmt.desugarAll_eq (list : List (Stmt ρ)) :
    Stmt.desugarAll list = list.map Stmt.desugar := by
  induction list with
  | nil => rfl
  | cons s rest ih => rw [Stmt.desugarAll, ih, List.map_cons]

/-! ### What stays -/

@[simp] theorem Expr.range_desugar (e : Expr ρ) : e.desugar.range = e.range := by
  cases e <;> rfl

@[simp] theorem Property.key_desugar (p : Property ρ) : p.desugar.key = p.key := by
  obtain ⟨key, value⟩ := p
  cases value <;> rfl

@[simp] theorem Block.kind_desugar (b : Block ρ) : b.desugar.kind = b.kind := by
  cases b
  rfl

@[simp] theorem Block.statements_desugar (b : Block ρ) :
    b.desugar.statements = b.statements.map Stmt.desugar := by
  obtain ⟨kind, range, statements⟩ := b
  exact Stmt.desugarAll_eq statements

end Guion
