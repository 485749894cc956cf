import Mathlib.Data.Nat.Init
import Guion.Proofs.Parse.Lexemes

/-!
# What is parsed is derivable

Whatever a parser accepts, the lexemes it used derive the tree it gave. Each
production is sound if what it calls is; the bound on nesting then serves as the
induction variable for expressions and statements at once.
-/

namespace Guion.Parser

open Grammar

theorem lexeme_ne_end (op : Operator) : op.lexeme ≠ .endOfFile := by
  cases op with
  | arithmetic op => cases op <;> simp [Operator.lexeme]
  | comparison op => cases op <;> simp [Operator.lexeme]
  | logical op => cases op <;> simp [Operator.lexeme]

/-- Which lexemes the tables of tiers know, and as what. -/
theorem tier_eq_some_iff {k : Nat} (hk : k < tiers.length) {l : Lexeme} {op : Operator} :
    tiers[k] l = some op ↔ op.tier = k ∧ op.lexeme = l := by
  constructor
  · intro h
    match k, hk with
    | 0, _ | 1, _ | 2, _ | 3, _ | 4, _ | 5, _ =>
        cases l with
        | keyword word => cases word <;> cases h <;> exact ⟨rfl, rfl⟩
        | punctuator mark => cases mark <;> cases h <;> exact ⟨rfl, rfl⟩
        | _ => cases h
  · rintro ⟨rfl, rfl⟩
    cases op with
    | arithmetic op => cases op <;> rfl
    | comparison op => cases op <;> rfl
    | logical op => cases op <;> rfl

/-! ### Lists -/

theorem separatedStep_of_close {α : Type} {item : Parser Unit α} {close : Punctuator}
    {context : Context} {ls : List Lexeme} (h : ahead ls = .punctuator close) :
    separatedStep close context item (Cursor.bare ls) = .ok none (Cursor.bare ls) := by
  rw [separatedStep, bind_of_ok (sees_bare close ls)]
  simp [h]

theorem comma_ok {close : Punctuator} {context : Context} {ls : List Lexeme}
    {next : Cursor Unit} (h : comma close context (Cursor.bare ls) = .ok () next) :
    (∃ rest, ls = .punctuator .comma :: rest ∧ next = Cursor.bare rest) ∨
      (ahead ls = .punctuator close ∧ next = Cursor.bare ls) := by
  rw [comma, bind_of_ok (sees_bare close ls)] at h
  by_cases hclose : ahead ls = .punctuator close
  · right
    rw [decide_eq_true hclose] at h
    cases h
    exact ⟨hclose, rfl⟩
  · left
    rw [decide_eq_false hclose] at h
    have taken : Accepts (expect .comma (.expectedComma context) >>= Pure.pure)
        fun used _ => used = [.punctuator .comma] := Accepts.expect (Accepts.pure rfl)
    obtain ⟨used, rest, rfl, rfl, rfl⟩ := taken ls () next h
    exact ⟨rest, rfl, rfl⟩

section Lists

variable {what : Item} {item : Parser Unit what.Tree} {close : Punctuator} {context : Context}

/-- One step through a list: either the closing sign is ahead, or there is an item,
and behind it a comma or the closing sign. -/
theorem separatedStep_ok (hi : Accepts item (Derives (.item what))) {ls : List Lexeme}
    {found : Option what.Tree} {next : Cursor Unit}
    (h : separatedStep close context item (Cursor.bare ls) = .ok found next) :
    (found = none ∧ ahead ls = .punctuator close ∧ next = Cursor.bare ls) ∨
      ∃ a used rest, found = some a ∧ Derives (.item what) used a ∧ next = Cursor.bare rest ∧
        (ls = used ++ .punctuator .comma :: rest ∨
          ls = used ++ rest ∧ ahead rest = .punctuator close) := by
  by_cases hclose : ahead ls = .punctuator close
  · left
    rw [separatedStep_of_close hclose] at h
    cases h
    exact ⟨rfl, hclose, rfl⟩
  · right
    rw [separatedStep, bind_of_ok (sees_bare close ls), decide_eq_false hclose] at h
    obtain ⟨a, behind, ha, h⟩ := bind_eq_ok_iff.mp h
    obtain ⟨used, rest, rfl, rfl, hD⟩ := hi ls a behind ha
    obtain ⟨_, final, hcomma, h⟩ := bind_eq_ok_iff.mp h
    cases h
    rcases comma_ok hcomma with ⟨rest, rfl, rfl⟩ | ⟨hend, rfl⟩
    · exact ⟨a, used, rest, rfl, hD, rfl, .inl rfl⟩
    · exact ⟨a, used, rest, rfl, hD, rfl, .inr ⟨rfl, hend⟩⟩

/-- A list ends right before its closing sign. -/
theorem collectWithin_separated_ok (hi : Accepts item (Derives (.item what))) (n : Nat) :
    ∀ {ls : List Lexeme} {list : List what.Tree} {next : Cursor Unit},
      collectWithin (separatedStep close context item) n (Cursor.bare ls) = .ok list next →
      ∃ used rest, ls = used ++ .punctuator close :: rest ∧
        next = Cursor.bare (.punctuator close :: rest) ∧ Derives (.items what) used list := by
  induction n with
  | zero => intro ls list next h; cases h
  | succ n ih =>
      intro ls list final h
      rw [collectWithin] at h
      cases hs : separatedStep close context item (Cursor.bare ls) with
      | error complaint next => simp [hs] at h
      | ok found next =>
          simp only [hs] at h
          rcases separatedStep_ok hi hs with ⟨rfl, hclose, rfl⟩ | ⟨a, used, rest, rfl, ha, rfl, hls⟩
          · cases h
            obtain ⟨rest, rfl⟩ := exists_cons_of_ahead hclose (by simp)
            exact ⟨[], rest, rfl, rfl, .noItem⟩
          · cases hr : collectWithin (separatedStep close context item) n (Cursor.bare rest) with
            | error complaint next => simp [hr] at h
            | ok more next =>
                obtain ⟨rfl, rfl⟩ : a :: more = list ∧ next = final := by simpa [hr] using h
                rcases hls with rfl | ⟨rfl, hclose⟩
                · obtain ⟨others, rest, rfl, rfl, hmore⟩ := ih hr
                  exact ⟨used ++ .punctuator .comma :: others, rest, by simp, rfl,
                    .moreItems ha hmore⟩
                · -- without a comma, the next step sees the closing sign and stops
                  cases n with
                  | zero => cases hr
                  | succ n =>
                      rw [collectWithin, separatedStep_of_close hclose] at hr
                      cases hr
                      obtain ⟨rest, rfl⟩ := exists_cons_of_ahead hclose (by simp)
                      exact ⟨used, rest, rfl, rfl, .lastItem ha⟩

theorem Accepts.separated (what : Item) {item : Parser Unit what.Tree} {β : Type}
    {f : List what.Tree → Parser Unit β} {E : List Lexeme → β → Prop} (hi : Accepts item (Derives (.item what)))
    (hf : ∀ list used, Derives (.items what) used list →
      AcceptsAt (.punctuator close) (f list) fun more => E (used ++ more)) :
    Accepts (Parser.separated close context item >>= f) E := by
  intro ls b final h
  obtain ⟨list, next, hlist, h⟩ := bind_eq_ok_iff.mp h
  obtain ⟨used, rest, rfl, rfl, hD⟩ := collectWithin_separated_ok hi _ hlist
  obtain ⟨more, rest, heq, rfl, hE⟩ := hf list used hD _ b final rfl h
  exact ⟨used ++ more, rest, by rw [heq, List.append_assoc], rfl, hE⟩

end Lists

/-! ### Expressions -/

section Expressions

variable {expression : Parser Unit (Expr Unit)}
variable {block : BlockKind → Context → Parser Unit (Block Unit)}

@[simp] theorem withRange_unit (r : Unit) (e : Expr Unit) : e.withRange r = e := by
  cases e <;> rfl

theorem accepts_primary (he : Accepts expression (Derives .expression)) :
    Accepts (primary expression) (Derives .primary) := by
  refine Accepts.take Accepts.fail fun l _ => ?_
  cases l with
  | name spelled => exact Accepts.pure (.reference (.name spelled))
  | keyword word =>
      cases word with
      | y => exact Accepts.pure (.reference .y)
      | o => exact Accepts.pure (.reference .o)
      | _ => exact Accepts.fail
  | number literal =>
      cases hx : Number.read? literal.toList with
      | none =>
          simp only [Token.asName?, Lexeme.asName?, Option.map_none, hx]
          exact Accepts.fail
      | some x =>
          simp only [Token.asName?, Lexeme.asName?, Option.map_none, hx]
          exact Accepts.pure (.number hx)
  | text contents => exact Accepts.pure (.text contents)
  | punctuator mark =>
      cases mark with
      | leftParen =>
          refine Accepts.bind he fun inner used hinner => Accepts.expect (Accepts.pure ?_)
          rw [withRange_unit]
          exact .parenthesized hinner
      | _ => exact Accepts.fail
  | endOfFile => exact Accepts.fail

theorem accepts_postfixStep (he : Accepts expression (Derives .expression)) (base : Expr Unit) :
    Accepts (postfixStep expression base) (Extends (Derives .chain) base) := by
  have hargument : Accepts expression (Derives (.item .argument)) := by
    intro ls e next h
    obtain ⟨used, rest, hls, hnext, hD⟩ := he ls e next h
    exact ⟨used, rest, hls, hnext, .argument hD⟩
  have hnone : Accepts (Pure.pure none) (Extends (Derives .chain) base) := Accepts.pure rfl
  refine Accepts.peek fun l => ?_
  cases l with
  | punctuator mark =>
      cases mark with
      | leftParen =>
          refine AcceptsAt.take (by simp) (Accepts.separated .argument hargument
            fun arguments inside hargs =>
              Accepts.at_lexeme (Accepts.expect (Accepts.pure ?_)))
          intro used hused
          simpa using Derives.call hused hargs
      | period =>
          refine AcceptsAt.take (by simp) (Accepts.name fun l n hn => Accepts.pure ?_)
          intro used hused
          exact .member hused hn
      | leftBracket =>
          refine AcceptsAt.take (by simp) (Accepts.bind he fun key inside hkey =>
            Accepts.expect (Accepts.pure ?_))
          intro used hused
          simpa using Derives.subscript hused hkey
      | _ => exact hnone.at_lexeme
  | _ => exact hnone.at_lexeme

theorem accepts_chain (he : Accepts expression (Derives .expression)) :
    Accepts (chain expression) (Derives .chain) :=
  Accepts.bind (accepts_primary he) fun _ _ hbase =>
    Accepts.extend (accepts_postfixStep he) (.primary hbase)

theorem accepts_operatorStep {k : Nat} (hk : k < tiers.length) {operand : Parser Unit (Expr Unit)}
    (ho : Accepts operand (Derives (.tier (k + 1)))) (lhs : Expr Unit) :
    Accepts (operatorStep tiers[k] operand lhs) (Extends (Derives (.tier k)) lhs) := by
  refine Accepts.peek fun l => ?_
  cases hop : tiers[k] l with
  | none =>
      refine Accepts.at_lexeme (Accepts.pure ?_)
      rfl
  | some op =>
      obtain ⟨rfl, rfl⟩ := (tier_eq_some_iff hk).mp hop
      refine AcceptsAt.take (lexeme_ne_end op) (Accepts.bind ho fun rhs right hright =>
        Accepts.pure ?_)
      intro used hused
      simpa using Derives.binary op hused hright

/-- The tiers from one on derive the phrases of that tier: downwards from the
operands to the loosest operators. -/
theorem accepts_binary (he : Accepts expression (Derives .expression)) (k : Nat)
    (hk : k ≤ tiers.length) :
    Accepts (binary (chain expression) (tiers.drop k)) (Derives (.tier k)) := by
  induction hk using Nat.decreasingInduction with
  | self =>
      intro ls e next h
      obtain ⟨used, rest, hls, hnext, hD⟩ := accepts_chain he ls e next h
      exact ⟨used, rest, hls, hnext, .operand hD⟩
  | of_succ k hk ih =>
      rw [List.drop_eq_getElem_cons hk]
      refine Accepts.bind ih fun lhs used hlhs => ?_
      exact Accepts.extend (accepts_operatorStep hk ih) (.tighter hk hlhs)

theorem accepts_property (he : Accepts expression (Derives .expression)) :
    Accepts (property expression) (Derives (.item .property)) := by
  refine Accepts.name fun l n hn => Accepts.accept ?_ ?_
  · exact Accepts.pure (.shorthand hn)
  · refine Accepts.bind he fun value used hvalue => Accepts.pure ?_
    simpa using Derives.property hn hvalue

theorem accepts_object (he : Accepts expression (Derives .expression)) :
    AcceptsAt (.punctuator .leftBrace) (object expression) (Derives .unit) := by
  refine AcceptsAt.take (by simp) (Accepts.separated .property (accepts_property he)
    fun properties used hlist => AcceptsAt.take (by simp) (Accepts.pure ?_))
  simpa using Derives.object hlist

theorem accepts_parameter : Accepts parameter (Derives (.item .parameter)) :=
  Accepts.name fun _ _ hn => Accepts.expect (Accepts.name fun _ _ htype =>
    Accepts.pure (.parameter hn htype))

theorem accepts_parameters {before : Context} :
    Accepts (parameters before) fun used list =>
      ∃ inside, used = .punctuator .leftParen :: inside ++ [.punctuator .rightParen] ∧
        Derives (.items .parameter) inside list := by
  refine Accepts.expect (Accepts.separated .parameter accepts_parameter fun list inside hlist =>
    Accepts.at_lexeme (Accepts.expect (Accepts.pure ?_)))
  exact ⟨inside, rfl, hlist⟩

theorem accepts_ascription {context : Context} :
    Accepts (ascription context) (Derives .ascription) := by
  refine Accepts.accept (Accepts.pure .untyped) ?_
  exact Accepts.name fun l n hn => Accepts.pure (.typed hn)

theorem accepts_functionLiteral
    (hb : ∀ kind context, Accepts (block kind context) (Derives (.block kind))) :
    AcceptsAt (.keyword .funcion) (functionLiteral block) (Derives .unit) := by
  refine AcceptsAt.take (by simp) (Accepts.bind accepts_parameters fun list signature hlist =>
    Accepts.bind accepts_ascription fun type ascribed htype =>
    Accepts.bind (hb .function .signature) fun body inside hbody =>
    Accepts.last (Accepts.pure ?_))
  obtain ⟨inside, rfl, hlist⟩ := hlist
  simpa using Derives.function hlist htype hbody

theorem accepts_unit (he : Accepts expression (Derives .expression))
    (hb : ∀ kind context, Accepts (block kind context) (Derives (.block kind))) :
    Accepts (unit expression block) (Derives .unit) := by
  have operators : Accepts (binary (chain expression) tiers) (Derives .unit) := by
    intro ls e next h
    obtain ⟨used, rest, hls, hnext, hD⟩ := accepts_binary he 0 (Nat.zero_le _) ls e next h
    exact ⟨used, rest, hls, hnext, .operators hD⟩
  refine Accepts.peek fun l => ?_
  cases l with
  | punctuator mark =>
      cases mark with
      | leftBrace => exact accepts_object he
      | _ => exact operators.at_lexeme
  | keyword word =>
      cases word with
      | funcion => exact accepts_functionLiteral hb
      | _ => exact operators.at_lexeme
  | _ => exact operators.at_lexeme

theorem accepts_expressionStep (he : Accepts expression (Derives .expression))
    (hb : ∀ kind context, Accepts (block kind context) (Derives (.block kind))) :
    Accepts (expressionStep expression block) (Derives .expression) := by
  refine Accepts.bind (accepts_unit he hb) fun target used htarget => Accepts.sees ?_ ?_
  · exact Accepts.pure (by simpa using Derives.unit htarget)
  · refine AcceptsAt.take (by simp) ?_
    by_cases assignable : target.isAssignable
    · rw [if_pos assignable]
      refine Accepts.bind he fun source more hsource => Accepts.pure ?_
      simpa using Derives.assign htarget assignable hsource
    · rw [if_neg assignable]
      exact Accepts.fail

end Expressions

/-! ### Statements -/

section Statements

variable {expression : Parser Unit (Expr Unit)} {statement : Parser Unit (Stmt Unit)}

theorem accepts_blockStep (hs : Accepts statement (Derives .statement)) :
    Accepts (blockStep statement) (Collects fun used list => ∃ inside,
      used = inside ++ [.punctuator .rightBrace] ∧ Derives .statements inside list) := by
  have one : Accepts (do let s ← statement; return some s)
      (Collects fun used list => ∃ inside,
        used = inside ++ [.punctuator .rightBrace] ∧ Derives .statements inside list) := by
    refine Accepts.bind hs fun s used hstatement => Accepts.pure ?_
    rintro more list ⟨inside, rfl, hlist⟩
    refine ⟨used ++ inside, ?_, .statement hstatement hlist⟩
    simp
  refine Accepts.peek fun l => ?_
  cases l with
  | punctuator mark =>
      cases mark with
      | rightBrace =>
          refine AcceptsAt.take (by simp) (Accepts.pure ?_)
          exact ⟨[], rfl, .empty⟩
      | _ => exact one.at_lexeme
  | endOfFile => exact Accepts.at_lexeme Accepts.fail
  | _ => exact one.at_lexeme

theorem accepts_block (hs : Accepts statement (Derives .statement)) (kind : BlockKind)
    (before : Context) : Accepts (block statement kind before) (Derives (.block kind)) := by
  refine Accepts.expect (Accepts.bind (Accepts.collect (accepts_blockStep hs))
    fun list used hlist => Accepts.last (Accepts.pure ?_))
  obtain ⟨inside, rfl, hlist⟩ := hlist
  simpa using Derives.block kind hlist

theorem Accepts.semicolon {β : Type} {f : Unit → Parser Unit β} {E : List Lexeme → β → Prop}
    (hf : Accepts (f ()) fun more => E (.punctuator .semicolon :: more)) :
    Accepts (Parser.semicolon >>= f) E := by
  have taken : Accepts Parser.semicolon fun used _ => used = [.punctuator .semicolon] :=
    Accepts.expect (Accepts.pure rfl)
  refine Accepts.bind taken fun _ used hused => ?_
  subst hused
  exact hf

theorem accepts_declaration (he : Accepts expression (Derives .expression)) (kind : VariableKind) :
    AcceptsAt (.keyword kind.keyword) (declaration expression kind) (Derives .statement) := by
  refine AcceptsAt.take (by simp) (Accepts.name fun l n hn =>
    Accepts.bind accepts_ascription fun type ascribed htype => ?_)
  have hinitial : Accepts (initial expression kind ⟨(), n⟩ type) fun used value =>
      match value with
      | some value => ∃ inside, used = .punctuator .assign :: inside ∧
          Derives .expression inside value
      | none => used = [] ∧ kind = .var ∧ type.isSome := by
    refine Accepts.accept ?_ ?_
    · match kind, type with
      | .const, _ => exact Accepts.fail
      | .var, none => exact Accepts.fail
      | .var, some _ => exact Accepts.pure ⟨rfl, rfl, rfl⟩
    · exact Accepts.bind he fun value used hvalue => Accepts.pure ⟨used, by simp, hvalue⟩
  refine Accepts.bind hinitial fun value used hvalue =>
    Accepts.semicolon (Accepts.last (Accepts.pure ?_))
  cases value with
  | some value =>
      obtain ⟨inside, rfl, hvalue⟩ := hvalue
      simpa using Derives.declare kind hn htype hvalue
  | none =>
      obtain ⟨rfl, rfl, typed⟩ := hvalue
      cases htype with
      | untyped => cases typed
      | typed htype => exact .reserve hn htype

theorem accepts_functionDeclaration (hs : Accepts statement (Derives .statement)) :
    AcceptsAt (.keyword .funcion) (functionDeclaration statement) (Derives .statement) := by
  have hreturn : Accepts returnType fun used type => ∃ l, used = [.punctuator .colon, l] ∧
      Names l type.value := by
    refine Accepts.expect fun ls type next h => ?_
    obtain ⟨used, rest, hls, hnext, l, rfl, hn⟩ := Accepts.name_alone ls type next h
    exact ⟨[l], rest, hls, hnext, l, rfl, hn⟩
  refine AcceptsAt.take (by simp) (Accepts.name fun l n hn =>
    Accepts.bind accepts_parameters fun list signature hlist =>
    Accepts.bind hreturn fun type ascribed htype =>
    Accepts.bind (accepts_block hs .function .signature) fun body braces hbody =>
    Accepts.last (Accepts.pure ?_))
  obtain ⟨inside, rfl, hlist⟩ := hlist
  obtain ⟨l', rfl, htype⟩ := htype
  simpa using Derives.declareFunction hn hlist htype hbody

theorem accepts_giveBack (he : Accepts expression (Derives .expression)) :
    AcceptsAt (.keyword .devolver) (giveBack expression) (Derives .statement) := by
  have hresult : Accepts (result expression) fun used value =>
      match value with
      | some value => Derives .expression used value
      | none => used = [] := by
    refine Accepts.sees ?_ (Accepts.at_lexeme (Accepts.pure rfl))
    exact Accepts.bind he fun value used hvalue => Accepts.pure (by simpa using hvalue)
  refine AcceptsAt.take (by simp) (Accepts.bind hresult fun value used hvalue =>
    Accepts.semicolon (Accepts.last (Accepts.pure ?_)))
  cases value with
  | some value => simpa using Derives.giveBack hvalue
  | none =>
      subst hvalue
      exact .leave

theorem accepts_alternate (hs : Accepts statement (Derives .statement))
    {choice : Parser Unit (Conditional Unit)}
    (hc : AcceptsAt (.keyword .peroSi) choice fun used choice =>
      ∃ behind, used = .keyword .peroSi :: behind ∧ Derives .choice behind choice) :
    Accepts (alternate statement choice) (Derives .alternate) := by
  have nothing : Accepts (Pure.pure Alternate.nothing) (Derives .alternate) :=
    Accepts.pure .nothing
  refine Accepts.peek fun l => ?_
  cases l with
  | keyword word =>
      cases word with
      | sino =>
          refine AcceptsAt.take (by simp) (Accepts.bind (accepts_block hs _ _)
            fun b used hblock => Accepts.pure ?_)
          simpa using Derives.otherwise hblock
      | peroSi =>
          refine Accepts.bind_at hc fun another used hanother => Accepts.pure ?_
          obtain ⟨behind, rfl, hanother⟩ := hanother
          simpa using Derives.elseIf hanother
      | _ => exact nothing.at_lexeme
  | _ => exact nothing.at_lexeme

/-- A condition with its alternatives, behind whatever keyword it has. -/
theorem accepts_conditionalWithin (he : Accepts expression (Derives .expression))
    (hs : Accepts statement (Derives .statement)) (n : Nat) : ∀ word : Keyword,
    AcceptsAt (.keyword word) (conditionalWithin expression statement n) fun used choice =>
      ∃ behind, used = .keyword word :: behind ∧ Derives .choice behind choice := by
  induction n with
  | zero => intro word ls choice next _ h; cases h
  | succ n ih =>
      intro word
      refine AcceptsAt.take (by simp) (Accepts.expect (Accepts.bind he
        fun condition used hcondition => Accepts.expect (Accepts.bind (accepts_block hs _ _)
        fun consequent braces hconsequent => Accepts.bind (accepts_alternate hs (ih .peroSi))
        fun rest behind hrest => Accepts.last (Accepts.pure ⟨_, rfl, ?_⟩))))
      simpa using Derives.choice hcondition hconsequent hrest

theorem accepts_conditionalStatement (he : Accepts expression (Derives .expression))
    (hs : Accepts statement (Derives .statement)) :
    AcceptsAt (.keyword .si) (conditionalStatement expression statement)
      (Derives .statement) := by
  have hchoice : AcceptsAt (.keyword .si) (conditional expression statement)
      fun used choice => ∃ behind, used = .keyword .si :: behind ∧
        Derives .choice behind choice :=
    fun ls choice next hahead h => accepts_conditionalWithin he hs _ .si ls choice next hahead h
  refine Accepts.bind_at hchoice fun choice used hused => Accepts.pure ?_
  obtain ⟨behind, rfl, hbehind⟩ := hused
  simpa using Derives.conditional hbehind

theorem accepts_loop (he : Accepts expression (Derives .expression))
    (hs : Accepts statement (Derives .statement)) :
    AcceptsAt (.keyword .mientras) (loop expression statement) (Derives .statement) := by
  have hhacer : Accepts hacer fun used _ => used = [.keyword .hacer] := by
    refine Accepts.take Accepts.fail fun l _ => ?_
    by_cases hl : l = .keyword .hacer
    · subst hl
      rw [if_pos rfl]
      exact Accepts.pure rfl
    · rw [if_neg hl]
      exact Accepts.fail
  refine AcceptsAt.take (by simp) (Accepts.expect (Accepts.bind he
    fun condition used hcondition => Accepts.expect (Accepts.bind hhacer
    fun _ word hword => Accepts.bind (accepts_block hs _ _)
    fun body braces hbody => Accepts.last (Accepts.pure ?_))))
  subst hword
  simpa using Derives.loop hcondition hbody

theorem accepts_control {word : Keyword} {form : Unit → Stmt Unit}
    (h : Derives .statement [.keyword word, .punctuator .semicolon] (form ())) :
    AcceptsAt (.keyword word) (control form) (Derives .statement) :=
  AcceptsAt.take (by simp) (Accepts.semicolon (Accepts.last (Accepts.pure h)))

theorem accepts_expressionStatement (he : Accepts expression (Derives .expression)) :
    Accepts (expressionStatement expression) (Derives .statement) := by
  refine Accepts.peek fun l => Accepts.at_lexeme (Accepts.bind he fun value used hvalue =>
    Accepts.semicolon (Accepts.last (Accepts.pure ?_)))
  exact .expression hvalue

theorem accepts_statementStep (he : Accepts expression (Derives .expression))
    (hs : Accepts statement (Derives .statement)) :
    Accepts (statementStep expression statement) (Derives .statement) := by
  intro ls s next h
  unfold statementStep at h
  simp only [Cursor.peek_bare] at h
  split at h
  case h_1 hl => exact accepts_declaration he .var ls s next hl h
  case h_2 hl => exact accepts_declaration he .const ls s next hl h
  case h_3 hl =>
      split at h
      · exact accepts_functionDeclaration hs ls s next hl h
      · exact accepts_expressionStatement he ls s next h
  case h_4 hl => exact accepts_giveBack he ls s next hl h
  case h_5 hl => exact accepts_conditionalStatement he hs ls s next hl h
  case h_6 => cases h
  case h_7 => cases h
  case h_8 hl => exact accepts_loop he hs ls s next hl h
  case h_9 hl => exact accepts_control .breakLoop ls s next hl h
  case h_10 hl => exact accepts_control .continueLoop ls s next hl h
  case h_11 => exact accepts_expressionStatement he ls s next h

end Statements

/-! ### The knot -/

theorem accepts_within (n : Nat) :
    Accepts (expressionWithin n) (Derives .expression) ∧
      Accepts (statementWithin n) (Derives .statement) := by
  induction n with
  | zero =>
      constructor
      · intro ls e next h; cases h
      · intro ls s next h; cases h
  | succ n ih =>
      obtain ⟨he, hs⟩ := ih
      constructor
      · exact accepts_expressionStep he (accepts_block hs)
      · exact accepts_statementStep he hs

theorem accepts_statement : Accepts statement (Derives .statement) :=
  fun ls s next h => (accepts_within _).2 ls s next h

theorem accepts_programStep : Accepts programStep (Collects (Derives .statements)) := by
  refine Accepts.peek fun l => Accepts.at_lexeme ?_
  by_cases hl : l.isEnd
  · rw [if_pos hl]
    refine Accepts.pure ?_
    exact .empty
  · rw [if_neg hl]
    refine Accepts.bind accepts_statement fun s used hs => Accepts.pure ?_
    intro more list hlist
    simpa using Derives.statement hs hlist

/-- A repetition ends where its step finds nothing more. -/
theorem collectWithin_ends {α : Type} {step : Parser Unit (Option α)} (n : Nat) :
    ∀ {c next : Cursor Unit} {list : List α}, collectWithin step n c = .ok list next →
      ∃ c', step c' = .ok none next := by
  induction n with
  | zero => intro c next list h; cases h
  | succ n ih =>
      intro c final list h
      rw [collectWithin] at h
      cases hs : step c with
      | error complaint next => simp [hs] at h
      | ok found next =>
          simp only [hs] at h
          cases found with
          | none =>
              cases h
              exact ⟨c, hs⟩
          | some a =>
              cases hr : collectWithin step n next with
              | error complaint next => simp [hr] at h
              | ok more next =>
                  obtain ⟨-, rfl⟩ : a :: more = list ∧ next = final := by simpa [hr] using h
                  exact ih hr

theorem programStep_none {ls : List Lexeme} {next : Cursor Unit}
    (h : programStep (Cursor.bare ls) = .ok none next) :
    next = Cursor.bare ls ∧ ahead ls = .endOfFile := by
  rw [programStep, bind_of_ok (peek_bare ls)] at h
  by_cases hl : (ahead ls).isEnd
  · rw [if_pos hl] at h
    cases h
    exact ⟨rfl, Lexeme.isEnd_iff.mp hl⟩
  · rw [if_neg hl] at h
    obtain ⟨s, middle, -, h⟩ := bind_eq_ok_iff.mp h
    cases h

/-- A program is parsed up to the end of the input. -/
theorem program_ok {ls : List Lexeme} {p : Program Unit} {next : Cursor Unit}
    (h : program (Cursor.bare ls) = .ok p next) :
    ∃ used rest, ls = used ++ rest ∧ ahead rest = .endOfFile ∧ Derives .program used p := by
  rw [program, bind_of_ok (peek_bare ls)] at h
  obtain ⟨list, middle, hlist, h⟩ := bind_eq_ok_iff.mp h
  obtain ⟨c, hc⟩ := collectWithin_ends _ hlist
  rw [c.eq_bare] at hc
  obtain ⟨rfl, hend⟩ := programStep_none hc
  obtain ⟨used, rest, rfl, heq, hD⟩ := Accepts.collect accepts_programStep _ _ _ hlist
  rw [heq, bind_of_ok (peek_bare rest)] at h
  cases h
  refine ⟨used, rest, rfl, ?_, .program hD⟩
  have := congrArg Cursor.peek heq
  rw [Cursor.peek_bare, Cursor.peek_bare, hend] at this
  exact (congrArg Token.lexeme this).symm

end Guion.Parser

namespace Guion.Grammar

/-- No phrase reaches past the end of the input. -/
theorem Derives.no_end {g : Phrase} {ls : List Lexeme} {t : g.Tree} (h : Derives g ls t) :
    Lexeme.endOfFile ∉ ls := by
  induction h with
  | binary op => simp_all [(Parser.lexeme_ne_end op).symm]
  | member _ hn | reference hn | shorthand hn | property hn | typed hn | declare _ hn =>
      simp_all [hn.ne_end.symm]
  | parameter hn htype | reserve hn htype | declareFunction hn _ htype =>
      simp_all [hn.ne_end.symm, htype.ne_end.symm]
  | _ => simp_all

end Guion.Grammar
