import Guion.Number.Reader
import Guion.Token.Basic
import Guion.Tree.Basic

/-!
# The grammar of programs

Which lists of lexemes make up which trees, without a word about parsing. Trees
carry no positions here. The rules are those of an ordinary context-free grammar,
one constructor for each alternative; binary operators and the calls and accesses
behind an operand recurse to the left, so that a derivation shows how they
associate.
-/

namespace Guion

/-- The keyword that a declaration begins with. -/
def VariableKind.keyword : VariableKind → Keyword
  | var => .var
  | const => .const

/-- How tightly an operator binds: the loosest tier is 0. -/
def Operator.tier : Operator → Nat
  | .logical _ => 0
  | .comparison .equal | .comparison .notEqual => 1
  | .comparison _ => 2
  | .arithmetic .add | .arithmetic .subtract => 3
  | .arithmetic .multiply | .arithmetic .divide | .arithmetic .modulo => 4
  | .arithmetic .power => 5

/-- The lexeme that an operator is written with. -/
def Operator.lexeme : Operator → Lexeme
  | .logical .and => .keyword .y
  | .logical .or => .keyword .o
  | .comparison .equal => .punctuator .equal
  | .comparison .notEqual => .punctuator .notEqual
  | .comparison .less => .punctuator .less
  | .comparison .lessEqual => .punctuator .lessEqual
  | .comparison .greater => .punctuator .greater
  | .comparison .greaterEqual => .punctuator .greaterEqual
  | .arithmetic .add => .punctuator .plus
  | .arithmetic .subtract => .punctuator .minus
  | .arithmetic .multiply => .punctuator .star
  | .arithmetic .divide => .punctuator .slash
  | .arithmetic .modulo => .punctuator .percent
  | .arithmetic .power => .punctuator .caret

namespace Grammar

/-- The tier behind the tightest operators: operands without an operator. -/
def operandTier : Nat := 6

/-- Which name a lexeme spells. The logical operators are names too. -/
inductive Names : Lexeme → String → Prop
  | name (spelled : String) : Names (.name spelled) spelled
  | y : Names (.keyword .y) "y"
  | o : Names (.keyword .o) "o"

/-- What stands in lists with commas. -/
inductive Item where
  | argument
  | property
  | parameter

/-- The kinds of phrases. -/
inductive Phrase where
  | expression
  | unit
  | tier (level : Nat)
  | chain
  | primary
  | item (what : Item)
  | items (what : Item)
  | ascription
  | statement
  | statements
  | block (kind : BlockKind)
  | choice
  | alternate
  | program

/-- The trees of the items of a list. -/
@[reducible] def Item.Tree : Item → Type
  | .argument => Expr Unit
  | .property => Property Unit
  | .parameter => Parameter Unit

/-- The trees of a kind of phrase. -/
@[reducible] def Phrase.Tree : Phrase → Type
  | .expression | .unit | .tier _ | .chain | .primary => Expr Unit
  | .item what => what.Tree
  | .items what => List what.Tree
  | .ascription => Option (Located Unit String)
  | .statement => Stmt Unit
  | .statements => List (Stmt Unit)
  | .block _ => Block Unit
  | .choice => Conditional Unit
  | .alternate => Alternate Unit
  | .program => Program Unit

/-- `Derives g ls t`: the lexemes `ls` are a phrase of kind `g` whose tree is `t`. -/
inductive Derives : (g : Phrase) → List Lexeme → g.Tree → Prop
  -- Expressions
  | unit {ls e} : Derives .unit ls e → Derives .expression ls e
  | assign {ls rs} {target source : Expr Unit} : Derives .unit ls target →
      target.isAssignable = true → Derives .expression rs source →
      Derives .expression (ls ++ .punctuator .assign :: rs) (.assign () target source)
  | object {ls properties} : Derives (.items .property) ls properties →
      Derives .unit (.punctuator .leftBrace :: ls ++ [.punctuator .rightBrace])
        (.object () properties)
  | function {ls rs bs parameters type body} : Derives (.items .parameter) ls parameters →
      Derives .ascription rs type → Derives (.block .function) bs body →
      Derives .unit (.keyword .funcion :: .punctuator .leftParen :: ls ++
        .punctuator .rightParen :: rs ++ bs) (.function () ⟨parameters, type, body, ()⟩)
  | operators {ls e} : Derives (.tier 0) ls e → Derives .unit ls e
  | tighter {level ls e} : level < operandTier → Derives (.tier (level + 1)) ls e →
      Derives (.tier level) ls e
  | binary {ls rs lhs rhs} (op : Operator) : Derives (.tier op.tier) ls lhs →
      Derives (.tier (op.tier + 1)) rs rhs →
      Derives (.tier op.tier) (ls ++ op.lexeme :: rs) (.binary () ⟨(), op⟩ lhs rhs)
  | operand {ls e} : Derives .chain ls e → Derives (.tier operandTier) ls e
  | call {ls rs callee arguments} : Derives .chain ls callee →
      Derives (.items .argument) rs arguments →
      Derives .chain (ls ++ .punctuator .leftParen :: rs ++ [.punctuator .rightParen])
        (.call () callee arguments () () ())
  | member {ls l n base} : Derives .chain ls base → Names l n →
      Derives .chain (ls ++ [.punctuator .period, l]) (.member () base ⟨(), n⟩ ())
  | subscript {ls rs base key} : Derives .chain ls base → Derives .expression rs key →
      Derives .chain (ls ++ .punctuator .leftBracket :: rs ++ [.punctuator .rightBracket])
        (.subscript () base key ())
  | primary {ls e} : Derives .primary ls e → Derives .chain ls e
  | reference {l n} : Names l n → Derives .primary [l] (.reference () ⟨(), n⟩)
  | number {literal x} : Number.read? literal.toList = some x →
      Derives .primary [.number literal] (.number () x)
  | text (contents : String) : Derives .primary [.text contents] (.text () contents)
  | parenthesized {ls e} : Derives .expression ls e →
      Derives .primary (.punctuator .leftParen :: ls ++ [.punctuator .rightParen]) e
  -- Lists; a comma may stand behind the last item
  | noItem {what} : Derives (.items what) [] []
  | lastItem {what ls a} : Derives (.item what) ls a → Derives (.items what) ls [a]
  | moreItems {what ls rs a list} : Derives (.item what) ls a → Derives (.items what) rs list →
      Derives (.items what) (ls ++ .punctuator .comma :: rs) (a :: list)
  | argument {ls e} : Derives .expression ls e → Derives (.item .argument) ls e
  | shorthand {l n} : Names l n → Derives (.item .property) [l] ⟨⟨(), n⟩, none⟩
  | property {l n ls} {e : Expr Unit} : Names l n → Derives .expression ls e →
      Derives (.item .property) (l :: .punctuator .colon :: ls) ⟨⟨(), n⟩, some e⟩
  | parameter {l n l' type} : Names l n → Names l' type →
      Derives (.item .parameter) [l, .punctuator .colon, l'] ⟨⟨(), n⟩, ⟨(), type⟩⟩
  | untyped : Derives .ascription [] none
  | typed {l n} : Names l n → Derives .ascription [.punctuator .colon, l] (some ⟨(), n⟩)
  -- Statements
  | declare {l n rs ls type} {value : Expr Unit} (kind : VariableKind) : Names l n →
      Derives .ascription rs type → Derives .expression ls value →
      Derives .statement (.keyword kind.keyword :: l :: rs ++ .punctuator .assign :: ls ++
        [.punctuator .semicolon])
        (.declare () ⟨(), kind⟩ ⟨(), n⟩ type (some value))
  | reserve {l n l' type} : Names l n → Names l' type →
      Derives .statement [.keyword .var, l, .punctuator .colon, l', .punctuator .semicolon]
        (.declare () ⟨(), .var⟩ ⟨(), n⟩ (some ⟨(), type⟩) none)
  | declareFunction {l n ls parameters l' type bs body} : Names l n →
      Derives (.items .parameter) ls parameters → Names l' type →
      Derives (.block .function) bs body →
      Derives .statement (.keyword .funcion :: l :: .punctuator .leftParen :: ls ++
        .punctuator .rightParen :: .punctuator .colon :: l' :: bs)
        (.function () ⟨(), n⟩ ⟨parameters, some ⟨(), type⟩, body, ()⟩)
  | leave : Derives .statement [.keyword .devolver, .punctuator .semicolon]
      (.giveBack () () none)
  | giveBack {ls} {value : Expr Unit} : Derives .expression ls value →
      Derives .statement (.keyword .devolver :: ls ++ [.punctuator .semicolon])
        (.giveBack () () (some value))
  | conditional {ls choice} : Derives .choice ls choice →
      Derives .statement (.keyword .si :: ls) (.conditional () choice)
  | loop {ls condition bs body} : Derives .expression ls condition →
      Derives (.block .loop) bs body →
      Derives .statement (.keyword .mientras :: .punctuator .leftParen :: ls ++
        .punctuator .rightParen :: .keyword .hacer :: bs) (.loop () condition body)
  | breakLoop : Derives .statement [.keyword .romper, .punctuator .semicolon] (.breakLoop ())
  | continueLoop :
      Derives .statement [.keyword .continuar, .punctuator .semicolon] (.continueLoop ())
  | expression {ls value} : Derives .expression ls value →
      Derives .statement (ls ++ [.punctuator .semicolon]) (.expression () value)
  | choice {ls condition bs consequent rs alternate} : Derives .expression ls condition →
      Derives (.block .conditional) bs consequent → Derives .alternate rs alternate →
      Derives .choice (.punctuator .leftParen :: ls ++ .punctuator .rightParen :: bs ++ rs)
        ⟨(), condition, consequent, alternate⟩
  | nothing : Derives .alternate [] .nothing
  | otherwise {bs block} : Derives (.block .conditional) bs block →
      Derives .alternate (.keyword .sino :: bs) (.otherwise block)
  | elseIf {ls choice} : Derives .choice ls choice →
      Derives .alternate (.keyword .peroSi :: ls) (.elseIf choice)
  | block {ls list} (kind : BlockKind) : Derives .statements ls list →
      Derives (.block kind) (.punctuator .leftBrace :: ls ++ [.punctuator .rightBrace])
        ⟨kind, (), list⟩
  | empty : Derives .statements [] []
  | statement {ls s rs list} : Derives .statement ls s → Derives .statements rs list →
      Derives .statements (ls ++ rs) (s :: list)
  | program {ls list} : Derives .statements ls list → Derives .program ls ⟨(), list⟩

end Grammar

end Guion
