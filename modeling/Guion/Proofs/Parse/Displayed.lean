import Guion.Tree.Display
import Guion.Proofs.Number.ReadBack
import Guion.Proofs.Parse.Correctness
import Guion.Proofs.Token.Compact
import Guion.Proofs.Tree.Positions

/-!
# Expressions read back from their texts

The text of an expression stands for the expression: its lexemes derive it, and nothing in
the text makes the scanner read other lexemes. Binary expressions are shown in parentheses,
so they can stand anywhere; assignments and object literals are shown bare, so they can only
stand where a whole expression can.
-/

namespace Guion

variable {ρ : Type}

open Grammar

/-! ### Which expressions -/

/-- A name that a variable can have. The logical operators are such names too. -/
def IsVariable (spelled : String) : Prop :=
  isName spelled.toList ∧ ∀ word : Keyword, word.spelling = spelled → word.isLogical

instance (spelled : String) : Decidable (IsVariable spelled) :=
  decidable_of_iff
    (isName spelled.toList ∧ ∀ word ∈ Keyword.all, word.spelling = spelled → word.isLogical)
    (and_congr_right fun _ => forall_congr' fun word => forall_prop_of_true word.mem_all)

/-- Expressions without function literals and without texts that would need escapes. Assignments
and object literals stand only where a whole expression can: not as an operand, and not before
a call or an access. -/
inductive Expr.Plain : (whole : Bool) → Expr ρ → Prop
  | number {whole range x} : Number.IsFinite x → Plain whole (.number range x)
  | text {whole range contents} : (∀ c ∈ contents.toList, c ≠ '"' ∧ c ≠ '\\') →
      Plain whole (.text range contents)
  | reference {whole range name} : IsVariable name.value → Plain whole (.reference range name)
  | binary {whole range operator lhs rhs} : Plain false lhs → Plain false rhs →
      Plain whole (.binary range operator lhs rhs)
  | call {whole range callee arguments opening closing part} : Plain false callee →
      (∀ e ∈ arguments, Plain true e) →
      Plain whole (.call range callee arguments opening closing part)
  | member {whole range base name part} : Plain false base → IsVariable name.value →
      Plain whole (.member range base name part)
  | subscript {whole range base key part} : Plain false base → Plain true key →
      Plain whole (.subscript range base key part)
  | object {range properties} : (∀ p ∈ properties, IsVariable p.key.value) →
      (∀ p ∈ properties, ∀ e, p.value = some e → Plain true e) →
      Plain true (.object range properties)
  | assign {range target source} : target.isAssignable = true → Plain false target →
      Plain true source → Plain true (.assign range target source)

/-! ### What derives them -/

namespace Grammar

/-- A phrase of a tier is one of every looser tier. -/
theorem derives_looser {level tight : Nat} (le : level ≤ tight) (bound : tight ≤ operandTier)
    {ls : List Lexeme} {e : Expr Unit} (h : Derives (.tier tight) ls e) :
    Derives (.tier level) ls e := by
  induction le with
  | refl => exact h
  | step _ ih => exact ih (Nat.le_of_succ_le bound) (.tighter bound h)

section

variable {ls rs : List Lexeme} {e lhs rhs : Expr Unit}

theorem derives_tier {level : Nat} (le : level ≤ operandTier) (h : Derives .chain ls e) :
    Derives (.tier level) ls e :=
  derives_looser le (Nat.le_refl _) (.operand h)

theorem derives_unit (h : Derives .chain ls e) : Derives .unit ls e :=
  .operators (derives_tier (Nat.zero_le _) h)

/-- Operands on both sides of an operator, in parentheses. -/
theorem derives_binary (op : Operator) (hl : Derives .chain ls lhs) (hr : Derives .chain rs rhs) :
    Derives .chain (.punctuator .leftParen :: (ls ++ op.lexeme :: rs) ++ [.punctuator .rightParen])
      (.binary () ⟨(), op⟩ lhs rhs) := by
  have bound : op.tier + 1 ≤ operandTier := Parser.tier_lt op
  have joined := Derives.binary op (derives_tier (Nat.le_of_succ_le bound) hl)
    (derives_tier bound hr)
  have loose := derives_looser (Nat.zero_le _) (Nat.le_of_succ_le bound) joined
  exact .primary (.parenthesized (.unit (.operators loose)))

end

end Grammar

/-! ### What their texts write -/

/-- What may stand behind the text of an expression. -/
def EndsOperand (rest : List Char) : Prop :=
  (∀ c ∈ rest.head?, isNameChar c = false) ∧ EndsNumber rest

theorem endsOperand_nil : EndsOperand [] := ⟨nofun, nofun⟩

theorem endsOperand_cons {c : Char} {rest : List Char} (h : isNameChar c = false)
    (point : c = '.' → ∀ d ∈ rest.head?, d.isDigit = false) : EndsOperand (c :: rest) := by
  have digit : c.isDigit = false := by
    rw [isNameChar, Bool.or_eq_false_iff] at h
    exact h.2
  constructor
  · rintro _ ⟨⟩
    exact h
  · rintro _ ⟨⟩
    exact ⟨digit, point⟩

/-- Behind an expression there may be anything that neither a name nor a number begins or goes
on with. -/
theorem endsOperand_of_apart {c : Char} (h : isNameChar c = false ∧ c ≠ '.') (rest : List Char) :
    EndsOperand (c :: rest) :=
  endsOperand_cons h.1 fun point => absurd point h.2

/-- A text that writes some lexemes wherever an expression may stand. -/
def Shows (text : List Char) (ls : List Lexeme) : Prop :=
  ∀ previous rest, previous.any Char.isDigit = false → EndsOperand rest →
    Writes previous text ls rest

namespace Shows

variable {text inner : List Char} {ls rs : List Lexeme}

/-- A lexeme that nothing goes on with where an expression may end. -/
theorem of_spells {l : Lexeme} {word : List Char} (spells : Spells l word)
    (followed : ∀ rest, EndsOperand rest → l.Followed rest) : Shows word [l] := by
  intro previous rest apart ends
  have written : Writes previous (word ++ []) [l] rest :=
    .lexeme spells (followed rest ends) (fun _ _ => apart) .done
  rwa [List.append_nil] at written

/-- A text in brackets may stand right behind anything. -/
theorem enclosed (h : Shows inner rs) {opening closing : Punctuator} {o c : Char}
    (ho : opening.spelling.toList = [o]) (hc : closing.spelling.toList = [c])
    (alone : opening.Alone ∧ closing.Alone) (apart : o.isDigit = false)
    (ends : isNameChar c = false ∧ c ≠ '.') (previous : Option Char) (rest : List Char) :
    Writes previous (o :: (inner ++ [c])) (.punctuator opening :: (rs ++ [.punctuator closing]))
      rest :=
  .mark ho alone.1 ((h (some o) _ apart (endsOperand_of_apart ends rest)).append
    fun _ => .mark hc alone.2 .done)

theorem call (h : Shows text ls) (h' : Shows inner rs) :
    Shows (text ++ '(' :: (inner ++ [')']))
      (ls ++ .punctuator .leftParen :: (rs ++ [.punctuator .rightParen])) :=
  fun previous rest apart _ => (h previous _ apart (endsOperand_of_apart (by decide) _)).append
    fun _ => h'.enclosed rfl rfl (by decide) rfl (by decide) _ rest

theorem subscript (h : Shows text ls) (h' : Shows inner rs) :
    Shows (text ++ '[' :: (inner ++ [']']))
      (ls ++ .punctuator .leftBracket :: (rs ++ [.punctuator .rightBracket])) :=
  fun previous rest apart _ => (h previous _ apart (endsOperand_of_apart (by decide) _)).append
    fun _ => h'.enclosed rfl rfl (by decide) rfl (by decide) _ rest

/-- A name behind a point: no digit follows the point, so it belongs to no number before it. -/
theorem member (h : Shows text ls) {word : List Char} (named : isName word) {l : Lexeme}
    (h' : Shows word [l]) :
    Shows (text ++ '.' :: word) (ls ++ [.punctuator .period, l]) := by
  intro previous rest apart ends
  refine (h previous _ apart (endsOperand_cons rfl fun _ => ?_)).append fun _ => ?_
  · intro d hd
    cases word with
    | nil => cases named
    | cons c word =>
        cases hd
        have start : isNameStart d = true := ((Bool.and_eq_true _ _).mp named).1
        cases digit : d.isDigit with
        | false => rfl
        | true =>
            rw [isNameStart_of_isDigit digit] at start
            cases start
  · exact .mark rfl (by decide) (h' (some '.') rest rfl ends)

/-- Two texts around an operator between blanks. -/
theorem spaced (h : Shows text ls) {l : Lexeme} {word : List Char} (spells : Spells l word)
    (operator : ∀ literal, l ≠ .number literal) (h' : Shows inner rs) :
    Shows (text ++ ' ' :: (word ++ ' ' :: inner)) (ls ++ l :: rs) :=
  fun previous rest apart ends =>
    (h previous _ apart (endsOperand_of_apart (by decide) _)).append
      fun _ => .spaced spells operator (h' (some ' ') rest rfl ends)

/-- A text behind a sign and a blank. -/
theorem listed (h : Shows text ls) {mark : Punctuator} {c : Char}
    (spelled : mark.spelling.toList = [c]) (alone : mark.Alone)
    (ends : isNameChar c = false ∧ c ≠ '.') (h' : Shows inner rs) :
    Shows (text ++ c :: ' ' :: inner) (ls ++ .punctuator mark :: rs) :=
  fun previous rest apart ends' => (h previous _ apart (endsOperand_of_apart ends _)).append
    fun _ => .mark spelled alone (.blank (h' (some ' ') rest rfl ends'))

end Shows

/-! ### What a text shows and what it derives -/

theorem spells_operator (op : Operator) : Spells op.lexeme op.spelling.toList := by
  cases op with
  | arithmetic op => cases op <;> exact .punctuator _
  | comparison op => cases op <;> exact .punctuator _
  | logical op => cases op <;> exact .keyword _

theorem operator_ne_number (op : Operator) (literal : String) : op.lexeme ≠ .number literal := by
  cases op with
  | arithmetic op => cases op <;> nofun
  | comparison op => cases op <;> nofun
  | logical op => cases op <;> nofun

/-- A variable is written as a lexeme that names it. -/
theorem IsVariable.shown {spelled : String} (h : IsVariable spelled) :
    ∃ l, Names l spelled ∧ Shows spelled.toList [l] := by
  by_cases word : ∃ word : Keyword, word.spelling = spelled
  · obtain ⟨word, rfl⟩ := word
    refine ⟨.keyword word, ?_, .of_spells (.keyword word) fun _ ends => ends.1⟩
    have logical := h.2 word rfl
    cases word with
    | y => exact .y
    | o => exact .o
    | _ => cases logical
  · have other : ∀ word : Keyword, word.spelling ≠ spelled := fun w same => word ⟨w, same⟩
    exact ⟨.name spelled, .name spelled, .of_spells (.name h.1 other) fun _ ends => ends.1⟩

theorem expands_plain {contents : List Char} (h : ∀ c ∈ contents, c ≠ '"' ∧ c ≠ '\\') :
    Expands contents contents := by
  induction contents with
  | nil => exact .nil
  | cons c contents ih =>
      obtain ⟨⟨quote, backslash⟩, h⟩ := List.forall_mem_cons.mp h
      exact .char quote backslash (ih h)

/-- Items with commas between them. -/
theorem items_shown {α : Type} {what : Item} (tree : α → what.Tree) (text : α → String)
    {list : List α}
    (h : ∀ a ∈ list, ∃ ls, Derives (.item what) ls (tree a) ∧ Shows (text a).toList ls) :
    ∃ ls, Derives (.items what) ls (list.map tree) ∧
      Shows (", ".intercalate (list.map text)).toList ls := by
  induction list with
  | nil => exact ⟨[], .noItem, fun _ _ _ _ => .done⟩
  | cons a rest ih =>
      obtain ⟨⟨ls, derives, shows⟩, h⟩ := List.forall_mem_cons.mp h
      obtain ⟨rs, derivesMore, showsMore⟩ := ih h
      cases rest with
      | nil => exact ⟨ls, .lastItem derives, by simpa using shows⟩
      | cons b rest =>
          refine ⟨ls ++ .punctuator .comma :: rs, .moreItems derives derivesMore, ?_⟩
          have comma : Punctuator.comma.spelling.toList = [','] := rfl
          have joined := shows.listed comma (by decide) (by decide) showsMore
          simpa [String.intercalate_cons_cons] using joined

theorem Expr.displayAll_eq (list : List (Expr ρ)) :
    Expr.displayAll list = list.map Expr.display := by
  induction list with
  | nil => rfl
  | cons e rest ih => rw [displayAll, ih, List.map_cons]

theorem Expr.displayProperties_eq (list : List (Property ρ)) :
    Expr.displayProperties list = list.map Property.display := by
  induction list with
  | nil => rfl
  | cons p rest ih => rw [displayProperties, ih, List.map_cons]

/-! ### Expressions -/

/-- What derives an expression where it may stand. -/
def DerivesWhere : (whole : Bool) → List Lexeme → Expr Unit → Prop
  | true, ls, e => Derives .expression ls e
  | false, ls, e => Derives .chain ls e

theorem derivesWhere {whole : Bool} {ls : List Lexeme} {e : Expr Unit} (h : Derives .chain ls e) :
    DerivesWhere whole ls e := by
  cases whole with
  | true => exact .unit (derives_unit h)
  | false => exact h

/-- A property whose value, if it has one, is shown. -/
theorem Property.shown {p : Property ρ} (key : IsVariable p.key.value)
    (value : ∀ e, p.value = some e → ∃ ls, DerivesWhere true ls (e.map fun _ => ()) ∧
      Shows e.display.toList ls) :
    ∃ ls, Derives (.item .property) ls (p.map fun _ => ()) ∧ Shows p.display.toList ls := by
  obtain ⟨l, names, showsKey⟩ := key.shown
  obtain ⟨key, value'⟩ := p
  cases value' with
  | none => exact ⟨[l], .shorthand names, showsKey⟩
  | some e =>
      obtain ⟨ls, derives, shows⟩ := value e rfl
      refine ⟨l :: .punctuator .colon :: ls, .property names derives, ?_⟩
      have colon : Punctuator.colon.spelling.toList = [':'] := rfl
      have joined := showsKey.listed colon (by decide) (by decide) shows
      simpa [display, String.toList_append] using joined

/-- The arguments of a call. -/
theorem arguments_shown {list : List (Expr ρ)}
    (h : ∀ e ∈ list, ∃ ls, DerivesWhere true ls (e.map fun _ => ()) ∧ Shows e.display.toList ls) :
    ∃ ls, Derives (.items .argument) ls (Expr.mapAll (fun _ => ()) list) ∧
      Shows (", ".intercalate (Expr.displayAll list)).toList ls := by
  have item : ∀ e ∈ list, ∃ ls, Derives (.item .argument) ls (e.map fun _ => ()) ∧
      Shows e.display.toList ls := by
    intro e mem
    obtain ⟨ls, derives, shows⟩ := h e mem
    exact ⟨ls, .argument derives, shows⟩
  rw [Expr.mapAll_eq, Expr.displayAll_eq]
  exact items_shown _ _ item

/-- An object literal: its properties between blanks, or no blank at all. -/
theorem object_shown {range : ρ} {list : List (Property ρ)}
    (keys : ∀ p ∈ list, IsVariable p.key.value)
    (values : ∀ p ∈ list, ∀ e, p.value = some e → ∃ ls,
      DerivesWhere true ls (e.map fun _ => ()) ∧ Shows e.display.toList ls) :
    ∃ ls, Derives (.items .property) ls (Property.mapAll (fun _ => ()) list) ∧
      Shows (Expr.object range list).display.toList
        (.punctuator .leftBrace :: ls ++ [.punctuator .rightBrace]) := by
  rw [Property.mapAll_eq]
  cases list with
  | nil =>
      have empty : Shows [] [] := fun _ _ _ _ => .done
      have left : Punctuator.leftBrace.spelling.toList = ['\x7b'] := rfl
      have right : Punctuator.rightBrace.spelling.toList = ['\x7d'] := rfl
      have braces : (Expr.object range ([] : List (Property ρ))).display.toList =
          '\x7b' :: ([] ++ ['\x7d']) := by
        simp [Expr.display, Expr.displayProperties]
      refine ⟨[], .noItem, fun previous rest _ _ => ?_⟩
      rw [braces]
      exact empty.enclosed left right (by decide) rfl (by decide) previous rest
  | cons p rest =>
      have item : ∀ q ∈ p :: rest, ∃ ls, Derives (.item .property) ls (q.map fun _ => ()) ∧
          Shows q.display.toList ls :=
        fun q mem => Property.shown (keys q mem) (values q mem)
      obtain ⟨ls, derives, shows⟩ := items_shown _ _ item
      refine ⟨ls, derives, fun previous behind _ _ => ?_⟩
      have closing (previous : Option Char) :
          Writes previous [' ', '\x7d'] [.punctuator .rightBrace] behind :=
        .blank (.mark rfl (by decide) .done)
      have inside := (shows (some ' ') _ rfl (endsOperand_of_apart (by decide) _)).append closing
      have braces : Writes previous _ (.punctuator .leftBrace :: _) behind :=
        .mark (c := '\x7b') rfl (by decide) (.blank inside)
      have texts : Expr.displayProperties (p :: rest) =
          p.display :: Expr.displayProperties rest := rfl
      simpa [Expr.display, texts, Expr.displayProperties_eq, String.toList_append] using braces

/-- The text of an expression writes lexemes that derive it. -/
theorem Expr.Plain.shown {whole : Bool} {e : Expr ρ} (h : e.Plain whole) :
    ∃ ls, DerivesWhere whole ls (e.map fun _ => ()) ∧ Shows e.display.toList ls := by
  induction h with
  | number finite =>
      obtain ⟨numeral, reads⟩ := Number.display_reads .literal finite
      exact ⟨_, derivesWhere (.primary (.number reads)),
        .of_spells (.number numeral) fun _ ends => ends.2⟩
  | @text _ _ contents plain =>
      refine ⟨_, derivesWhere (.primary (.text contents)), ?_⟩
      have shows := Shows.of_spells (.text (expands_plain plain)) fun _ _ => trivial
      simpa [display, String.toList_append] using shows
  | reference variable_ =>
      obtain ⟨l, names, shows⟩ := variable_.shown
      exact ⟨[l], derivesWhere (.primary (.reference names)), shows⟩
  | @binary _ _ operator lhs rhs _ _ ihl ihr =>
      obtain ⟨ls, derives, shows⟩ := ihl
      obtain ⟨rs, derives', shows'⟩ := ihr
      refine ⟨_, derivesWhere (derives_binary operator.value derives derives'), ?_⟩
      have joined := shows.spaced (spells_operator operator.value) (operator_ne_number _) shows'
      have leftParen : Punctuator.leftParen.spelling.toList = ['('] := rfl
      have rightParen : Punctuator.rightParen.spelling.toList = [')'] := rfl
      have enclosed := joined.enclosed leftParen rightParen (by decide) rfl (by decide)
      intro previous rest _ _
      simpa [display, String.toList_append] using enclosed previous rest
  | @call _ _ callee arguments _ _ _ _ _ ihc iha =>
      obtain ⟨ls, derives, shows⟩ := ihc
      obtain ⟨rs, derives', shows'⟩ := arguments_shown iha
      refine ⟨_, derivesWhere (.call derives derives'), ?_⟩
      simpa [display, String.toList_append] using shows.call shows'
  | @member _ _ base name _ _ variable_ ih =>
      obtain ⟨ls, derives, shows⟩ := ih
      obtain ⟨l, names, showsName⟩ := variable_.shown
      refine ⟨_, derivesWhere (.member derives names), ?_⟩
      simpa [display, String.toList_append] using shows.member variable_.1 showsName
  | @subscript _ _ base key _ _ _ ihb ihk =>
      obtain ⟨ls, derives, shows⟩ := ihb
      obtain ⟨rs, derives', shows'⟩ := ihk
      refine ⟨_, derivesWhere (.subscript derives derives'), ?_⟩
      simpa [display, String.toList_append] using shows.subscript shows'
  | @object _ properties keys _ ih =>
      obtain ⟨ls, derives, shows⟩ := object_shown keys ih
      exact ⟨_, .unit (.object derives), shows⟩
  | @assign _ target source assignable _ _ iht ihs =>
      obtain ⟨ls, derives, shows⟩ := iht
      obtain ⟨rs, derives', shows'⟩ := ihs
      have assignable' : (target.map fun _ => ()).isAssignable = true := by
        rwa [isAssignable_map]
      refine ⟨_, .assign (derives_unit derives) assignable' derives', ?_⟩
      have assign : Spells (.punctuator .assign) ['='] := .punctuator .assign
      simpa [display, String.toList_append] using shows.spaced assign nofun shows'

/-- Lexemes that an expression is derived from are parsed as that expression, wherever they
stand, if nothing but the end comes behind them. -/
theorem Parser.expression_of_derives {σ : Type} [Extent σ] {tokens : List (Token σ)}
    {stop : Token σ} (hstop : stop.lexeme = .endOfFile) {e : Expr Unit}
    (h : Derives .expression (tokens.map Token.lexeme) e) :
    ∃ read next, Parser.expression (Cursor.ofTokens (tokens ++ [stop])) = .ok read next ∧
      next.atEnd = true ∧ read.map (fun _ => ()) = e := by
  have bare := reads_of_derives h [.endOfFile] (by decide)
  have reply := (parallel_expression (f := fun _ : σ => ()) Extent.respects_unit _).reply
    (Nat.le_refl (Cursor.ofTokens (tokens ++ [stop])).rest.length)
  rw [map_ofTokens, List.map_append, List.map_singleton, hstop, bare] at reply
  cases hread : Parser.expression (Cursor.ofTokens (tokens ++ [stop])) with
  | ok read next =>
      rw [hread] at reply
      obtain ⟨same, behind⟩ := Reply.ok.inj reply
      have ended : (next.map fun _ => ()).atEnd = true := by
        rw [← behind]
        rfl
      refine ⟨read, next, rfl, ?_, same.symm⟩
      rwa [Cursor.atEnd, Cursor.peek_map] at ended
  | error complaint next =>
      rw [hread] at reply
      cases reply

/-- Showing and reading gives an expression back, but for where its parts stand. -/
theorem expression_of_display (e : Expr ρ) (plain : e.Plain true) :
    ∃ tokens read next, tokenize e.display = .ok tokens ∧
      Parser.expression (Cursor.ofTokens tokens) = .ok read next ∧ next.atEnd = true ∧
      read.map (fun _ => ()) = e.map fun _ => () := by
  obtain ⟨ls, derives, shows⟩ := plain.shown
  have writes : Writes none e.display.toList ls [] := shows none [] rfl endsOperand_nil
  obtain ⟨tokens, stop, hread, rfl, hstop⟩ := writes.tokenize_eq
  obtain ⟨read, next, parsed⟩ := Parser.expression_of_derives hstop derives
  exact ⟨tokens ++ [stop], read, next, hread, parsed⟩

/-- `f(x).y[(-1 + 0.5)] = { k: "a", o }` is read as it was. -/
theorem expression_of_display_assign :
    let name (spelled : String) : Located Unit String := ⟨(), spelled⟩
    let key : Expr Unit := .binary () ⟨(), .arithmetic .add⟩ (.number () (-1)) (.number () 0.5)
    let target : Expr Unit := .subscript () (.member () (.call () (.reference () (name "f"))
      [.reference () (name "x")] () () ()) (name "y") ()) key ()
    let source : Expr Unit := .object () [⟨name "k", some (.text () "a")⟩, ⟨name "o", none⟩]
    let e : Expr Unit := .assign () target source
    e.Plain true ∧ ∃ tokens read next, tokenize e.display = .ok tokens ∧
      Parser.expression (Cursor.ofTokens tokens) = .ok read next ∧ next.atEnd = true ∧
      read.map (fun _ => ()) = e.map fun _ => () := by
  intro name key target source e
  have named : IsVariable "f" ∧ IsVariable "x" ∧ IsVariable "y" ∧ IsVariable "k" ∧
      IsVariable "o" := by decide
  obtain ⟨hf, hx, hy, hk, ho⟩ := named
  have plainKey : key.Plain true := .binary (.number (by decide)) (.number (by decide))
  have plainCall :
      (Expr.call () (.reference () (name "f")) [.reference () (name "x")] () () ()).Plain false :=
    .call (.reference hf) (List.forall_mem_singleton.mpr (.reference hx))
  have plainTarget : target.Plain false := .subscript (.member plainCall hy) plainKey
  have plainSource : source.Plain true := by
    refine .object (by simp [name, hk, ho]) fun p hp value hv => ?_
    simp only [List.mem_cons, List.not_mem_nil, or_false] at hp
    rcases hp with rfl | rfl
    · cases hv
      exact .text (by simp)
    · cases hv
  have plain : e.Plain true := .assign rfl plainTarget plainSource
  exact ⟨plain, expression_of_display e plain⟩

end Guion
