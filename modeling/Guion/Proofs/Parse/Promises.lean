import Guion.Proofs.Parse.Contract
import Guion.Proofs.Parse.Seam
import Guion.Proofs.Token.Spelling

/-!
# Every production keeps its promise

One lemma for each production: the tree it gives covers the tokens it took, and if it
complains, the tokens it took could have gone on to be a phrase of its kind. What a
production calls is assumed to keep its promise on fewer tokens.
-/

namespace Guion

/-! ### Beginnings of phrases -/

namespace Grammar

/-- `Viable g used`: some lexemes that a source can hold go on with these tokens to a phrase
of kind `g`. -/
def Viable (g : Phrase) (used : List (Token Span)) : Prop :=
  ∃ more tree, (∀ l ∈ more, l.Valid) ∧ Derives g (used.map Token.lexeme ++ more) tree

/-- A name to go on with. -/
def filler : Lexeme := .name "a"

theorem names_filler : Names filler "a" := .name "a"

@[simp] theorem valid_filler : filler.Valid := by
  refine ⟨by decide, fun word => ?_⟩
  cases word <;> decide

@[simp] theorem valid_punctuator (mark : Punctuator) : (Lexeme.punctuator mark).Valid := trivial

@[simp] theorem valid_keyword (word : Keyword) : (Lexeme.keyword word).Valid := trivial

theorem derives_filler : Derives .expression [filler] (.reference () ⟨(), "a"⟩) :=
  .unit (.operators (.tighter (by decide) (.tighter (by decide) (.tighter (by decide)
    (.tighter (by decide) (.tighter (by decide) (.tighter (by decide)
      (.operand (.primary (.reference names_filler))))))))))

theorem derives_braces (kind : BlockKind) :
    Derives (.block kind) [.punctuator .leftBrace, .punctuator .rightBrace] ⟨kind, (), []⟩ :=
  .block kind .empty

/-- A whole phrase can go on with nothing. -/
theorem Covers.viable {g : Phrase} {ts : List (Token Span)} {t : g.TreeAt Span}
    (h : Covers g ts t) : Viable g ts :=
  ⟨[], _, by simp, by simpa using h.derives⟩

namespace Viable

variable {g g' : Phrase} {used : List (Token Span)}

/-- A beginning, with what goes on with it. -/
theorem intro (more : List Lexeme) {tree : g.Tree}
    (h : Derives g (used.map Token.lexeme ++ more) tree) (valid : ∀ l ∈ more, l.Valid) :
    Viable g used :=
  ⟨more, tree, valid, h⟩

/-- The beginning of a part of a phrase, if the phrase can go on behind that part. -/
theorem fill (h : Viable g used) (before : List (Token Span)) (behind : List Lexeme)
    (valid : ∀ l ∈ behind, l.Valid)
    (build : ∀ ls tree, Derives g ls tree →
      ∃ tree', Derives g' (before.map Token.lexeme ++ (ls ++ behind)) tree') :
    Viable g' (before ++ used) := by
  obtain ⟨more, tree, hmore, hD⟩ := h
  obtain ⟨tree', hD'⟩ := build _ tree hD
  refine ⟨more ++ behind, tree', List.forall_mem_append.mpr ⟨hmore, valid⟩, ?_⟩
  simpa using hD'

/-- The beginning of a phrase that is one of another kind too. -/
theorem imp (h : Viable g used)
    (build : ∀ ls tree, Derives g ls tree → ∃ tree', Derives g' ls tree') : Viable g' used := by
  obtain ⟨more, tree, hmore, hD⟩ := h
  obtain ⟨tree', hD'⟩ := build _ tree hD
  exact ⟨more, tree', hmore, hD'⟩

end Viable

end Grammar

namespace Parser

open Grammar

@[simp] theorem through_span (a b : Span) : Extent.through a b = a.through b := rfl

@[simp] theorem cover_span (a b : Span) : Extent.cover a b = a.cover b := rfl

/-- The beginning of a phrase whose first token is known. The keyword of a function is part of
the beginning: it is taken before anything is complained about. -/
def ViableAt (t : Token Span) (g : Phrase) (used : List (Token Span)) : Prop :=
  (t.lexeme = .keyword .funcion → used ≠ []) ∧ Viable g used

/-- What a parser of phrases promises. -/
def Keeps (g : Phrase) (i : Nat) (p : Parser Span (g.TreeAt Span)) : Prop :=
  Contract i [] p (Covers g) (Viable g)

variable {i : Nat} {before : List (Token Span)} {α β : Type} {E : List (Token Span) → β → Prop}
variable {V : List (Token Span) → Prop}

/-- A parser whose phrases are all of another kind too. -/
theorem Contract.imp {g g' : Phrase} {p : Parser Span α} {D D' : List (Token Span) → α → Prop}
    (h : Contract i before p D (Viable g)) (hD : ∀ used a, D used a → D' used a)
    (build : ∀ ls tree, Derives g ls tree → ∃ tree', Derives g' ls tree') :
    Contract i before p D' (Viable g') :=
  h.mono hD fun _ viable => viable.imp build

/-- A parser of phrases, whatever their first token. -/
theorem Keeps.of_at {g : Phrase} {p : Parser Span (g.TreeAt Span)}
    (h : ∀ t, ContractAt i [] t p (Covers g) (ViableAt t g)) : Keeps g i p :=
  Contract.of_at fun t => (h t).weaken fun _ viable => viable.2

/-! ### Lists -/

section Lists

/-- The comma behind an item, unless the list ends there. -/
theorem Contract.comma {close : Punctuator} {context : Context} {f : Unit → Parser Span β}
    (viable : V before) (closes : ∀ r, ContractAt i before ⟨.punctuator close, r⟩ (f ()) E V)
    (goes : ∀ r, Contract i (before ++ [⟨.punctuator .comma, r⟩]) (f ()) E V) :
    Contract i before (Parser.comma close context >>= f) E V := by
  rw [Parser.comma, bind_assoc]
  refine .sees (fun t _ => ?_) fun r => closes r
  simp only [Bool.false_eq_true, if_false, bind_assoc, pure_bind]
  exact Contract.at_token (.expect viable (fun _ => ⟨fun _ => rfl, rfl⟩) goes)

/-- Items with commas between them, up to the sign that closes the list. The induction is on
the tokens that may still follow; an item takes at least one of them. -/
theorem Contract.separated (what : Item) {item : Parser Span (what.TreeAt Span)}
    {close : Punctuator} {context : Context} {f : List (what.TreeAt Span) → Parser Span β}
    (consumes : Consumes (separatedStep close context item))
    (hitem : ∀ k < i, Keeps (.item what) k item) (behind : before ≠ [])
    (hV : ∀ inside, Viable (.items what) inside → V (before ++ inside))
    (hf : ∀ list inside r, Covers (.items what) inside list →
      ContractAt i (before ++ inside) ⟨.punctuator close, r⟩ (f list) E V) :
    Contract i before (Parser.separated close context item >>= f) E V := by
  have within : ∀ n before f, i + 1 - before.length ≤ n → before ≠ [] →
      (∀ inside, Viable (.items what) inside → V (before ++ inside)) →
      (∀ list inside r, Covers (.items what) inside list →
        ContractAt i (before ++ inside) ⟨.punctuator close, r⟩ (f list) E V) →
      Contract i before (Parser.separated close context item >>= f) E V := by
    intro n
    induction n with
    | zero =>
        intro before f hn _ _ _ c hc
        have := hc.length_le
        omega
    | succ n ih =>
        intro before f hn behind hV hf
        rw [separated_bind consumes]
        refine .sees (fun t _ => Contract.at_token ?_) fun r => ?_
        · rw [if_neg Bool.false_ne_true]
          refine .call hitem behind (fun used h => hV used (h.imp fun ls a h => ⟨_, .lastItem h⟩))
            fun a used hD => ?_
          have some := List.length_pos_iff.mpr hD.item_ne_nil
          refine .comma (hV used (Covers.lastItem hD).viable) (fun r => ?_) fun r => ?_
          · -- without a comma, the list ends here
            refine (hf [a] used r (.lastItem hD)).congr fun c hc => ?_
            rw [separated_bind consumes]
            change (if decide (c.peek.lexeme = _) then f [a] else _ : Parser Span β) c = _
            rw [hc, decide_eq_true rfl, if_pos rfl]
          · refine ih _ (fun list => f (a :: list)) ?_ (by simp) (fun inside h => ?_)
              fun list inside r h => ?_
            · simp only [List.length_append, List.length_singleton]
              omega
            · have more : Viable (.items what) (used ++ [⟨.punctuator .comma, r⟩] ++ inside) :=
                h.fill _ [] (by simp) fun ls list h =>
                  ⟨_, by simpa using Derives.moreItems hD.derives h⟩
              simpa using hV _ more
            · simpa using hf _ _ r (.moreItems hD h)
        · rw [if_pos rfl]
          simpa using hf [] [] r .noItem
  exact within _ before f (Nat.le_refl _) behind hV hf

end Lists

/-! ### Expressions -/

section Expressions

theorem keeps_primary (he : ∀ k < i, Keeps .expression k expression) :
    Keeps .primary i (primary expression) := by
  have viable : Viable .primary [] := .intro [filler] (Derives.reference names_filler) (by simp)
  refine .take fun t => ?_
  obtain ⟨l, r⟩ := t
  cases l with
  | name spelled => exact .inl ⟨by simp, .pure (.reference (.name spelled))⟩
  | keyword word =>
      cases word with
      | y => exact .inl ⟨by simp, .pure (Covers.reference (t := ⟨.keyword .y, r⟩) .y)⟩
      | o => exact .inl ⟨by simp, .pure (Covers.reference (t := ⟨.keyword .o, r⟩) .o)⟩
      | _ => exact .inr ⟨.unknownStart ⟨_, r⟩, rfl, viable, fun _ => rfl, .found [] _⟩
  | number literal =>
      cases hx : Number.read? literal.toList with
      | none =>
          refine .inr ⟨.invalidNumber ⟨_, r⟩, ?_, viable, fun _ => rfl, .found [] _⟩
          simp only [Token.asName?, Lexeme.asName?, Option.map_none, hx]
      | some x =>
          refine .inl ⟨by simp, ?_⟩
          simp only [Token.asName?, Lexeme.asName?, Option.map_none, hx]
          exact .pure (.number hx)
  | text contents => exact .inl ⟨by simp, .pure (.text contents)⟩
  | punctuator mark =>
      cases mark with
      | leftParen =>
          have inside {used : List (Token Span)} (h : Viable .expression used) :
              Viable .primary (⟨.punctuator .leftParen, r⟩ :: used) :=
            h.fill [⟨.punctuator .leftParen, r⟩] [.punctuator .rightParen] (by simp)
              fun ls e h => ⟨_, Derives.parenthesized h⟩
          refine .inl ⟨by simp, .call he (by simp) (fun used => inside) fun inner used h => ?_⟩
          refine .expect (inside h.viable) (fun _ => ⟨fun _ => rfl, rfl⟩) fun r' => .pure ?_
          exact .parenthesized h
      | _ => exact .inr ⟨.unknownStart ⟨_, r⟩, rfl, viable, fun _ => rfl, .found [] _⟩
  | endOfFile => exact .inr ⟨.unknownStart ⟨_, r⟩, rfl, viable, fun _ => rfl, .found [] _⟩

theorem keeps_argument {k : Nat} (h : Keeps .expression k expression) :
    Keeps (.item .argument) k expression :=
  Contract.imp h (fun _ _ => .argument) fun _ _ h => ⟨_, .argument h⟩

theorem contract_postfixStep (he : ∀ k < i, Keeps .expression k expression)
    {used : List (Token Span)} {base : Expr Span} (hbase : Covers .chain used base) :
    Contract i used (postfixStep expression base) (Extension (Covers .chain) used)
      (Viable .chain) := by
  refine .peek fun t => ?_
  obtain ⟨l, r⟩ := t
  have nothing : ContractAt i used ⟨l, r⟩ (pure none) (Extension (Covers .chain) used)
      (Viable .chain) := Contract.at_token (.pure rfl)
  cases l with
  | punctuator mark =>
      cases mark with
      | leftParen =>
          have inside (list : List (Token Span)) (h : Viable (.items .argument) list) :
              Viable .chain (used ++ [⟨.punctuator .leftParen, r⟩] ++ list) :=
            h.fill _ [.punctuator .rightParen] (by simp) fun ls tree h =>
              ⟨_, by simpa using Derives.call hbase.derives h⟩
          have consumes : Consumes
              (separatedStep .rightParen .argument (expression : Parser Span (Expr Span))) :=
            Parallel.consumes fun i =>
              parallel_separatedStep (parallel_expression Extent.respects_id i) _ _
          refine .take (by simp) (.separated .argument consumes
            (fun k hk => keeps_argument (he k hk)) (by simp) inside fun arguments list r' h => ?_)
          refine Contract.at_token (.expect (inside list h.viable) (fun _ => ⟨fun _ => rfl, rfl⟩)
            fun closing => .pure ?_)
          simpa [Extension] using Covers.call hbase h
      | period =>
          have viable : Viable .chain (used ++ [⟨.punctuator .period, r⟩]) :=
            .intro [filler] (by simpa using Derives.member hbase.derives names_filler) (by simp)
          refine .take (by simp) (.name viable fun t n named => .pure ?_)
          simpa [Extension] using Covers.member hbase named
      | leftBracket =>
          have inside (key : List (Token Span)) (h : Viable .expression key) :
              Viable .chain (used ++ [⟨.punctuator .leftBracket, r⟩] ++ key) :=
            h.fill _ [.punctuator .rightBracket] (by simp) fun ls tree h =>
              ⟨_, by simpa using Derives.subscript hbase.derives h⟩
          refine .take (by simp) (.call he (by simp) inside fun key list h => ?_)
          refine .expect (inside list h.viable) (fun _ => ⟨fun _ => rfl, rfl⟩) fun closing =>
            .pure ?_
          simpa [Extension] using Covers.subscript hbase h
      | _ => exact nothing
  | _ => exact nothing

theorem keeps_chain (he : ∀ k < i, Keeps .expression k expression) :
    Keeps .chain i (chain expression) := by
  have base : Keeps .chain i (primary expression) :=
    Contract.imp (keeps_primary he) (fun _ _ => .primary) fun _ _ h => ⟨_, .primary h⟩
  refine Contract.bind base fun e used h => ?_
  exact .extend consumes_postfixStep (fun used e => contract_postfixStep he) h

theorem contract_operatorStep {k : Nat} (hk : k < tiers.length)
    {operand : Parser Span (Expr Span)} (ho : ∀ j < i, Keeps (.tier (k + 1)) j operand)
    {used : List (Token Span)} {lhs : Expr Span} (hlhs : Covers (.tier k) used lhs) :
    Contract i used (operatorStep tiers[k] operand lhs) (Extension (Covers (.tier k)) used)
      (Viable (.tier k)) := by
  refine .peek fun t => ?_
  obtain ⟨l, r⟩ := t
  dsimp only
  cases hop : tiers[k] l with
  | none => exact Contract.at_token (.pure rfl)
  | some op =>
      obtain ⟨rfl, rfl⟩ := (tier_eq_some_iff hk).mp hop
      have inside (right : List (Token Span)) (h : Viable (.tier (op.tier + 1)) right) :
          Viable (.tier op.tier) (used ++ [⟨op.lexeme, r⟩] ++ right) :=
        h.fill _ [] (by simp) fun ls tree h => ⟨_, by simpa using Derives.binary op hlhs.derives h⟩
      refine .take (lexeme_ne_end op) (.call ho (by simp) inside fun rhs right h => .pure ?_)
      simpa [Extension] using Covers.binary op hlhs h

/-- The tiers from one on, downwards from the operands to the loosest operators. -/
theorem keeps_binary (he : ∀ k < i, Keeps .expression k expression) (k : Nat)
    (hk : k ≤ tiers.length) :
    ∀ j ≤ i, Keeps (.tier k) j (binary (chain expression) (tiers.drop k)) := by
  induction hk using Nat.decreasingInduction with
  | self =>
      intro j hj
      have operands := keeps_chain fun k hk => he k (Nat.lt_of_lt_of_le hk hj)
      exact Contract.imp operands (fun _ _ => .operand) fun _ _ h => ⟨_, .operand h⟩
  | of_succ k hk ih =>
      intro j hj
      rw [List.drop_eq_getElem_cons hk]
      have tighter : Keeps (.tier k) j (binary (chain expression) (tiers.drop (k + 1))) :=
        Contract.imp (ih j hj) (fun _ _ => .tighter hk) fun _ _ h => ⟨_, .tighter hk h⟩
      refine Contract.bind tighter fun lhs used h => ?_
      exact .extend (consumes_operatorStep _ _)
        (fun used lhs => contract_operatorStep hk fun l hl => ih l (by omega)) h

theorem keeps_property (he : ∀ k < i, Keeps .expression k expression) :
    Keeps (.item .property) i (property expression) := by
  refine .name (.intro [filler] (Derives.shorthand names_filler) (by simp)) fun t n named => ?_
  refine .accept (fun _ _ => Contract.at_token (.pure (.shorthand named))) fun r => ?_
  have inside (value : List (Token Span)) (h : Viable .expression value) :
      Viable (.item .property) ([] ++ [t] ++ [⟨.punctuator .colon, r⟩] ++ value) :=
    h.fill _ [] (by simp) fun ls tree h => ⟨_, by simpa using Derives.property named h⟩
  refine .call he (by simp) inside fun value used h => .pure ?_
  exact .property named h

theorem contractAt_object (he : ∀ k < i, Keeps .expression k expression) (r : Span) :
    ContractAt i [] ⟨.punctuator .leftBrace, r⟩ (object expression) (Covers .unit)
      (Viable .unit) := by
  have inside (list : List (Token Span)) (h : Viable (.items .property) list) :
      Viable .unit ([] ++ [⟨.punctuator .leftBrace, r⟩] ++ list) :=
    h.fill _ [.punctuator .rightBrace] (by simp) fun ls tree h => ⟨_, Derives.object h⟩
  have consumes : Consumes (separatedStep .rightBrace .property
      (property (expression : Parser Span (Expr Span)))) :=
    Parallel.consumes fun _ => parallel_separatedStep (parallel_property below_self) _ _
  refine .take (by simp) (.separated .property consumes (fun k hk => ?_) (by simp) inside
    fun properties list r' h => .take (by simp) (.pure ?_))
  · exact keeps_property fun j hj => he j (by omega)
  · exact .object h

theorem keeps_parameter : Keeps (.item .parameter) i parameter := by
  refine .name (.intro [filler, .punctuator .colon, filler]
    (Derives.parameter names_filler names_filler) (by simp)) fun t n named => ?_
  refine .expect (.intro [.punctuator .colon, filler] (Derives.parameter named names_filler)
    (by simp)) (fun _ => ⟨fun _ => rfl, rfl⟩) fun r => ?_
  refine .name (.intro [filler] (Derives.parameter named names_filler) (by simp))
    fun u type typed => .pure ?_
  exact .parameter named typed

/-- The parameters of a function in their parentheses. -/
theorem Contract.parameters {context : Context} {f : List (Parameter Span) → Parser Span β}
    (viable : V before)
    (hV : ∀ opening inside, Viable (.items .parameter) inside →
      V (before ++ ⟨.punctuator .leftParen, opening⟩ :: inside))
    (hf : ∀ list opening inside closing, Covers (.items .parameter) inside list →
      Contract i (before ++ (⟨.punctuator .leftParen, opening⟩ :: inside ++
        [⟨.punctuator .rightParen, closing⟩])) (f list) E V) :
    Contract i before (Parser.parameters context >>= f) E V := by
  have consumes : Consumes (separatedStep .rightParen .parameter
      (Parser.parameter : Parser Span (Parameter Span))) :=
    Parallel.consumes fun _ =>
      parallel_separatedStep (parallel_parameter (M := .positions id)) _ _
  simp only [Parser.parameters, bind_assoc, pure_bind]
  refine .expect viable (fun _ => ⟨fun _ => rfl, rfl⟩) fun opening => ?_
  refine .separated .parameter consumes (fun k _ => keeps_parameter) (by simp)
    (fun inside h => by simpa using hV opening inside h) fun list inside r h => ?_
  refine Contract.at_token (.expect (by simpa using hV opening inside h.viable)
    (fun _ => ⟨fun _ => rfl, rfl⟩) fun closing => ?_)
  simpa using hf list opening inside closing h

/-- A type behind a colon, or none. -/
theorem Contract.ascription {context : Context} {f : Option (Located Span String) → Parser Span β}
    (hV : ∀ used, Viable .ascription used → V (before ++ used))
    (hf : ∀ type used, Covers .ascription used type → Contract i (before ++ used) (f type) E V) :
    Contract i before (Parser.ascription context >>= f) E V := by
  rw [Parser.ascription, bind_assoc]
  refine .accept (fun t _ => ?_) fun r => ?_
  · simp only [Bool.false_eq_true, if_false, pure_bind]
    have untyped := hf none [] .untyped
    rw [List.append_nil] at untyped
    exact untyped.at_token
  · simp only [if_true, bind_assoc, pure_bind]
    refine .name (hV _ (.intro [filler] (Derives.typed names_filler) (by simp)))
      fun t n named => ?_
    simpa using hf _ _ (.typed named)

theorem contractAt_functionLiteral
    (hb : ∀ kind context, ∀ k < i, Keeps (.block kind) k (block statement kind context))
    (r : Span) :
    ContractAt i [] ⟨.keyword .funcion, r⟩ (functionLiteral (block statement)) (Covers .unit)
      (fun used => used ≠ [] ∧ Viable .unit used) := by
  have noItem : Derives (.items .parameter) [] [] := .noItem
  have parameters (opening : Span) (list : List (Token Span))
      (h : Viable (.items .parameter) list) : Viable .unit
        ([⟨.keyword .funcion, r⟩, ⟨.punctuator .leftParen, opening⟩] ++ list) :=
    h.fill _ [.punctuator .rightParen, .punctuator .leftBrace, .punctuator .rightBrace] (by simp)
      fun ls tree h => ⟨_, by simpa using Derives.function h .untyped (derives_braces .function)⟩
  refine .take (by simp) (.parameters ⟨by simp, ?_⟩ (fun opening list h => ⟨by simp, ?_⟩)
    fun list opening inside closing hlist => ?_)
  · exact .intro [.punctuator .leftParen, .punctuator .rightParen, .punctuator .leftBrace,
      .punctuator .rightBrace] (Derives.function noItem .untyped (derives_braces .function))
      (by simp)
  · exact parameters opening list h
  refine .ascription (fun used h => ⟨by simp, ?_⟩) fun type used htype => ?_
  · refine h.fill _ [.punctuator .leftBrace, .punctuator .rightBrace] (by simp) fun ls tree h => ?_
    exact ⟨_, by simpa using Derives.function hlist.derives h (derives_braces .function)⟩
  refine .call (hb .function .signature) (by simp) (fun braces h => ⟨by simp, ?_⟩)
    fun body braces hbody => .last fun before => .pure ?_
  · refine h.fill _ [] (by simp) fun ls tree h => ?_
    exact ⟨_, by simpa using Derives.function hlist.derives htype.derives h⟩
  · have last : Spans braces body.range := hbody.spanned
    simpa [last.through_lastOf] using Covers.function hlist htype hbody

theorem contractAt_unit (he : ∀ k < i, Keeps .expression k expression)
    (hb : ∀ kind context, ∀ k < i, Keeps (.block kind) k (block statement kind context))
    (t : Token Span) :
    ContractAt i [] t (unit expression (block statement)) (Covers .unit) (ViableAt t .unit) := by
  have operators : Keeps .unit i (binary (chain expression) tiers) :=
    Contract.imp (keeps_binary he 0 (Nat.zero_le _) i (Nat.le_refl _)) (fun _ _ => .operators)
      fun _ _ h => ⟨_, .operators h⟩
  have other (h : t.lexeme ≠ .keyword .funcion) :
      ContractAt i [] t (binary (chain expression) tiers) (Covers .unit) (ViableAt t .unit) :=
    (Contract.at_token operators).weaken fun _ viable => ⟨fun funcion => absurd funcion h, viable⟩
  obtain ⟨l, r⟩ := t
  refine .peek ?_
  cases l with
  | punctuator mark =>
      cases mark with
      | leftBrace =>
          exact (contractAt_object he r).weaken fun _ h => ⟨by simp, h⟩
      | _ => exact other (by simp)
  | keyword word =>
      cases word with
      | funcion =>
          exact (contractAt_functionLiteral hb r).weaken
            fun _ h => ⟨fun _ => h.1, h.2⟩
      | _ => exact other (by simp)
  | _ => exact other (by simp)

theorem contractAt_expressionStep (he : ∀ k < i, Keeps .expression k expression)
    (hb : ∀ kind context, ∀ k < i, Keeps (.block kind) k (block statement kind context))
    (t : Token Span) :
    ContractAt i [] t (expressionStep expression (block statement)) (Covers .expression)
      (ViableAt t .expression) := by
  have target : ContractAt i [] t (unit expression (block statement)) (Covers .unit)
      (ViableAt t .expression) :=
    (contractAt_unit he hb t).weaken
      fun _ h => ⟨h.1, h.2.imp fun _ _ h => ⟨_, .unit h⟩⟩
  refine target.bind fun target used htarget => ?_
  have some : used ≠ [] := Spans.ne_nil htarget.spanned
  have spans : Spans used target.range := htarget.spanned
  refine .sees (fun _ _ => Contract.at_token (.pure (.unit htarget))) fun r => ?_
  by_cases assignable : target.isAssignable
  · refine .take (by simp) ?_
    rw [if_pos assignable]
    refine .call he (by simp) (fun source h => ⟨by simp, ?_⟩) fun source value h => .pure ?_
    · have assignable' : (target.map fun _ => ()).isAssignable = true := by
        rw [Expr.isAssignable_map, assignable]
      exact h.fill _ [] (by simp) fun ls tree h =>
        ⟨_, by simpa using Derives.assign htarget.derives assignable' h⟩
    · simpa using Covers.assign htarget assignable h
  · refine .reject (.invalidTarget ⟨.punctuator .assign, r⟩ target.range)
      ⟨fun _ => some, (Covers.unit htarget).viable⟩ ⟨used, ?_, spans⟩ fun c hc => ?_
    · exact List.sublist_append_left used _
    · refine ⟨c.advance, ?_, rfl⟩
      change (if target.isAssignable then _ else fail (.invalidTarget c.peek target.range) :
        Parser Span (Expr Span)) c.advance = _
      rw [if_neg assignable, hc]
      rfl

end Expressions

/-! ### Statements -/

section Statements

/-- What a block holds next: a statement, or the brace that closes it. -/
def BlockPart : List (Token Span) → Option (Stmt Span) → Prop
  | used, some s => Covers .statement used s
  | used, none => ∃ r, used = [⟨.punctuator .rightBrace, r⟩]

theorem viable_statements {used : List (Token Span)} (h : Viable .statement used) :
    Viable .statements used :=
  h.imp fun _ _ h => ⟨_, by simpa using Derives.statement h .empty⟩

/-- Statements may begin behind a statement. -/
theorem viable_behind {used more : List (Token Span)} {s : Stmt Span}
    (hs : Covers .statement used s) (h : Viable .statements more) :
    Viable .statements (used ++ more) :=
  h.fill used [] (by simp) fun ls list h =>
    ⟨_, by simpa using Derives.statement hs.derives h⟩

theorem contract_blockStep (hs : Keeps .statement i statement) :
    Contract i [] (blockStep statement) BlockPart (Viable .statements) := by
  have one : Contract i [] (statement >>= fun s => pure (some s)) BlockPart
      (Viable .statements) := by
    have first : Contract i [] statement (Covers .statement) (Viable .statements) :=
      Contract.weaken hs fun _ => viable_statements
    exact first.bind fun s used h => .pure h
  refine .peek fun t => ?_
  obtain ⟨l, r⟩ := t
  cases l with
  | punctuator mark =>
      cases mark with
      | rightBrace => exact .take (by simp) (.pure ⟨r, rfl⟩)
      | _ => exact one.at_token
  | endOfFile =>
      refine .reject (.expectedRightBrace .block ⟨.endOfFile, r⟩) Covers.empty.viable
        (.found [] _) fun c _ => ⟨c, rfl, rfl⟩
  | _ => exact one.at_token

/-- The statements of a block, with the brace that closes it. -/
theorem contract_statements (hs : ∀ k ≤ i, Keeps .statement k statement) :
    Contract i [] (collect (blockStep statement)) (fun used list => ∃ inside r,
      used = inside ++ [⟨.punctuator .rightBrace, r⟩] ∧ Covers .statements inside list)
      (Viable .statements) := by
  refine .collect consumes_blockStep (fun k hk => contract_blockStep (hs k hk)) ?_ ?_ ?_
  · rintro used ⟨r, rfl⟩
    exact ⟨[], r, rfl, .empty⟩
  · rintro used s _ list hs ⟨inside, r, rfl, h⟩
    exact ⟨used ++ inside, r, by simp, .statement hs h⟩
  · intro used s more
    exact viable_behind

theorem keeps_block (hs : ∀ k < i, Keeps .statement k statement) (kind : BlockKind)
    (context : Context) : Keeps (.block kind) i (block statement kind context) := by
  refine .expect (.intro [.punctuator .leftBrace, .punctuator .rightBrace] (derives_braces kind)
    (by simp)) (fun _ => ⟨fun _ => rfl, rfl⟩) fun opening => ?_
  refine .call (fun k hk => contract_statements fun j hj => hs j (by omega)) (by simp)
    (fun inside h => ?_) fun list used h => .last fun before => .pure ?_
  · exact h.fill _ [.punctuator .rightBrace] (by simp) fun ls list h =>
      ⟨_, by simpa using Derives.block kind h⟩
  · obtain ⟨inside, r, rfl, h⟩ := h
    simpa using Covers.block kind h

/-- The semicolon that ends a statement. -/
theorem Contract.semicolon {f : Unit → Parser Span β} (viable : V before)
    (hf : ∀ r, Contract i (before ++ [⟨.punctuator .semicolon, r⟩]) (f ()) E V) :
    Contract i before (Parser.semicolon >>= f) E V := by
  simp only [Parser.semicolon, bind_assoc, pure_bind]
  exact .expect viable (fun _ => ⟨fun _ => rfl, rfl⟩) hf

theorem contractAt_declaration (he : ∀ k < i, Keeps .expression k expression)
    (kind : VariableKind) (keyword : Span) :
    ContractAt i [] ⟨.keyword kind.keyword, keyword⟩ (declaration expression kind)
      (Covers .statement) (Viable .statement) := by
  refine .take (by simp) (.name ?_ fun t n named => ?_)
  · exact .intro [filler, .punctuator .assign, filler, .punctuator .semicolon]
      (Derives.declare kind names_filler .untyped derives_filler) (by simp)
  have ascribed (used : List (Token Span)) (h : Viable .ascription used) :
      Viable .statement ([] ++ [⟨.keyword kind.keyword, keyword⟩] ++ [t] ++ used) :=
    h.fill _ [.punctuator .assign, filler, .punctuator .semicolon] (by simp) fun ls type h =>
      ⟨_, by simpa using Derives.declare kind named h derives_filler⟩
  refine .ascription ascribed fun type used htype => ?_
  have points (found : Token Span) :
      Points ([] ++ [⟨.keyword kind.keyword, keyword⟩] ++ [t] ++ used ++ [found]) t.range :=
    ⟨[t], by simp, .single t⟩
  rw [initial.eq_def, bind_assoc]
  refine .accept (fun found _ => ?_) fun equals => ?_
  · -- without a value there must be a type, and no constant
    simp only [Bool.false_eq_true, if_false]
    match kind, type, htype with
    | .const, _, htype =>
        exact .reject (.constantWithoutValue ⟨t.range, n⟩) (ascribed used htype.viable)
          (points found) fun c hc => ⟨c, rfl, hc⟩
    | .var, none, htype =>
        exact .reject (.missingType ⟨t.range, n⟩) (ascribed used htype.viable) (points found)
          fun c hc => ⟨c, rfl, hc⟩
    | .var, some _, .typed htype =>
        refine Contract.at_token (.semicolon ?_ fun final => .last fun before => .pure ?_)
        · exact .intro [.punctuator .semicolon] (Derives.reserve named htype) (by simp)
        · exact .reserve named htype
  · simp only [if_true, bind_assoc, pure_bind]
    have inside (value : List (Token Span)) (h : Viable .expression value) :
        Viable .statement ([] ++ [⟨.keyword kind.keyword, keyword⟩] ++ [t] ++ used ++
          [⟨.punctuator .assign, equals⟩] ++ value) :=
      h.fill _ [.punctuator .semicolon] (by simp) fun ls e h =>
        ⟨_, by simpa using Derives.declare kind named htype.derives h⟩
    refine .call he (by simp) inside fun value list h => ?_
    refine .semicolon (inside list h.viable) fun final => .last fun before => .pure ?_
    simpa using Covers.declare kind named htype h

theorem contractAt_functionDeclaration (hs : ∀ k < i, Keeps .statement k statement)
    (keyword : Span) :
    ContractAt i [] ⟨.keyword .funcion, keyword⟩ (functionDeclaration statement)
      (Covers .statement) (ViableAt ⟨.keyword .funcion, keyword⟩ .statement) := by
  have noItem : Derives (.items .parameter) [] [] := .noItem
  have braces := derives_braces .function
  refine .take (by simp) (.name ⟨by simp, ?_⟩ fun t n named => ?_)
  · exact .intro [filler, .punctuator .leftParen, .punctuator .rightParen, .punctuator .colon,
      filler, .punctuator .leftBrace, .punctuator .rightBrace]
      (Derives.declareFunction names_filler noItem names_filler braces) (by simp)
  refine .parameters ⟨by simp, ?_⟩ (fun opening inside h => ⟨by simp, ?_⟩)
    fun list opening inside closing hlist => ?_
  · exact .intro [.punctuator .leftParen, .punctuator .rightParen, .punctuator .colon, filler,
      .punctuator .leftBrace, .punctuator .rightBrace]
      (Derives.declareFunction named noItem names_filler braces) (by simp)
  · exact h.fill [⟨.keyword .funcion, keyword⟩, t, ⟨.punctuator .leftParen, opening⟩]
      [.punctuator .rightParen, .punctuator .colon, filler, .punctuator .leftBrace,
        .punctuator .rightBrace] (by simp) fun ls list h =>
      ⟨_, by simpa using Derives.declareFunction named h names_filler braces⟩
  simp only [returnType, bind_assoc]
  refine .expect ⟨by simp, ?_⟩ (fun _ => ⟨fun _ => rfl, rfl⟩) fun colon =>
    .name ⟨by simp, ?_⟩ fun u type typed => ?_
  · exact .intro [.punctuator .colon, filler, .punctuator .leftBrace, .punctuator .rightBrace]
      (by simpa using Derives.declareFunction named hlist.derives names_filler braces) (by simp)
  · exact .intro [filler, .punctuator .leftBrace, .punctuator .rightBrace]
      (by simpa using Derives.declareFunction named hlist.derives names_filler braces) (by simp)
  refine .call (fun k hk => keeps_block (fun j hj => hs j (by omega)) .function .signature)
    (by simp) (fun braces h => ⟨by simp, ?_⟩) fun body braces hbody => .last fun before => .pure ?_
  · exact h.fill _ [] (by simp) fun ls tree h =>
      ⟨_, by simpa using Derives.declareFunction named hlist.derives typed h⟩
  · have last : Spans braces body.range := hbody.spanned
    simpa [last.through_lastOf] using Covers.declareFunction named hlist typed hbody

theorem contractAt_giveBack (he : ∀ k < i, Keeps .expression k expression) (keyword : Span) :
    ContractAt i [] ⟨.keyword .devolver, keyword⟩ (giveBack expression) (Covers .statement)
      (Viable .statement) := by
  refine .take (by simp) ?_
  rw [result, bind_assoc]
  refine .sees (fun _ _ => Contract.at_token ?_) fun r => Contract.at_token ?_
  · simp only [Bool.false_eq_true, if_false, bind_assoc, pure_bind]
    have inside (value : List (Token Span)) (h : Viable .expression value) :
        Viable .statement ([] ++ [⟨.keyword .devolver, keyword⟩] ++ value) :=
      h.fill _ [.punctuator .semicolon] (by simp) fun ls e h =>
        ⟨_, by simpa using Derives.giveBack h⟩
    refine .call he (by simp) inside fun value list h => ?_
    refine .semicolon (inside list h.viable) fun final => .last fun before => .pure ?_
    simpa using Covers.giveBack h
  · refine .semicolon ?_ fun final => .last fun before => .pure ?_
    · exact .intro [.punctuator .semicolon] Derives.leave (by simp)
    · exact .leave

theorem contractAt_control {word : Keyword} {form : Span → Stmt Span} {tree : Stmt Unit}
    (derives : Derives .statement [.keyword word, .punctuator .semicolon] tree)
    (covers : ∀ keyword final, Covers .statement [⟨.keyword word, keyword⟩,
      ⟨.punctuator .semicolon, final⟩] (form (keyword.through final))) (keyword : Span) :
    ContractAt i [] ⟨.keyword word, keyword⟩ (control form) (Covers .statement)
      (Viable .statement) := by
  refine .take (by simp) (.semicolon ?_ fun final => .last fun before => .pure ?_)
  · exact .intro [.punctuator .semicolon] derives (by simp)
  · exact covers keyword final

theorem contractAt_loop (he : ∀ k < i, Keeps .expression k expression)
    (hs : ∀ k < i, Keeps .statement k statement) (keyword : Span) :
    ContractAt i [] ⟨.keyword .mientras, keyword⟩ (loop expression statement)
      (Covers .statement) (Viable .statement) := by
  have braces := derives_braces .loop
  refine .take (by simp) (.expect ?_ (fun _ => ⟨fun _ => rfl, rfl⟩) fun opening => ?_)
  · exact .intro [.punctuator .leftParen, filler, .punctuator .rightParen, .keyword .hacer,
      .punctuator .leftBrace, .punctuator .rightBrace] (Derives.loop derives_filler braces)
      (by simp)
  have inside (condition : List (Token Span)) (h : Viable .expression condition) :
      Viable .statement ([] ++ [⟨.keyword .mientras, keyword⟩] ++
        [⟨.punctuator .leftParen, opening⟩] ++ condition) :=
    h.fill _ [.punctuator .rightParen, .keyword .hacer, .punctuator .leftBrace,
      .punctuator .rightBrace] (by simp) fun ls e h => ⟨_, by simpa using Derives.loop h braces⟩
  refine .call he (by simp) inside fun condition used hcondition => ?_
  refine .expect (inside used hcondition.viable) (fun _ => ⟨fun _ => rfl, rfl⟩) fun closing => ?_
  have body (list : List (Token Span)) (word : Span) (h : Viable (.block .loop) list) :
      Viable .statement ([] ++ [⟨.keyword .mientras, keyword⟩] ++
        [⟨.punctuator .leftParen, opening⟩] ++ used ++ [⟨.punctuator .rightParen, closing⟩] ++
        [⟨.keyword .hacer, word⟩] ++ list) :=
    h.fill _ [] (by simp) fun ls b h => ⟨_, by simpa using Derives.loop hcondition.derives h⟩
  rw [hacer, bind_assoc]
  refine .take fun t => ?_
  by_cases ht : t.lexeme = .keyword .hacer
  · obtain ⟨_, word⟩ := t
    subst ht
    refine .inl ⟨by simp, ?_⟩
    simp only [if_true, pure_bind]
    refine .call (fun k hk => keeps_block (fun j hj => hs j (by omega)) .loop .hacer) (by simp)
      (fun list => body list word) fun b list hbody => .last fun before => .pure ?_
    have last : Spans list b.range := hbody.spanned
    simpa [last.through_lastOf] using Covers.loop hcondition hbody
  · refine .inr ⟨.expectedHacer t, ?_, ?_, fun _ => rfl, .found _ t⟩
    · rw [if_neg ht]
      rfl
    · exact .intro [.keyword .hacer, .punctuator .leftBrace, .punctuator .rightBrace]
        (by simpa using Derives.loop hcondition.derives braces) (by simp)

/-- A condition with its keyword, which its range begins with. -/
def ChoiceBehind (keyword : Token Span) (used : List (Token Span)) (choice : Conditional Span) :
    Prop :=
  ∃ ts, used = keyword :: ts ∧ Covers .choice ts choice ∧ Spans used choice.range

/-- The beginning of a condition with its keyword. -/
def ViableBehind (keyword : Token Span) (used : List (Token Span)) : Prop :=
  ∃ ts, used = keyword :: ts ∧ Viable .choice ts

theorem ViableBehind.fill {g : Phrase} {keyword : Token Span} {used : List (Token Span)}
    (h : ViableBehind keyword used)
    (build : ∀ ls choice, Derives .choice ls choice →
      ∃ tree, Derives g (keyword.lexeme :: ls) tree) : Viable g used := by
  obtain ⟨ts, rfl, h⟩ := h
  refine h.fill [keyword] [] (by simp) fun ls choice h => ?_
  obtain ⟨tree, h⟩ := build ls choice h
  exact ⟨tree, by simpa using h⟩

theorem keeps_alternate (hs : ∀ k < i, Keeps .statement k statement)
    (hc : ∀ r, ContractAt i [] ⟨.keyword .peroSi, r⟩ (conditional expression statement)
      (ChoiceBehind ⟨.keyword .peroSi, r⟩) (ViableBehind ⟨.keyword .peroSi, r⟩)) :
    Keeps .alternate i (alternate statement (conditional expression statement)) := by
  refine .peek fun t => ?_
  obtain ⟨l, r⟩ := t
  have nothing : ContractAt i [] ⟨l, r⟩ (pure .nothing) (Covers .alternate) (Viable .alternate) :=
    Contract.at_token (.pure .nothing)
  cases l with
  | keyword word =>
      cases word with
      | sino =>
          refine .take (by simp) (.call (fun k hk => keeps_block (fun j hj => hs j (by omega))
            .conditional .sino) (by simp) (fun braces h => ?_) fun b braces hb => .pure ?_)
          · exact h.fill [⟨.keyword .sino, r⟩] [] (by simp) fun ls b h =>
              ⟨_, by simpa using Derives.otherwise h⟩
          · exact .otherwise hb
      | peroSi =>
          have another : ContractAt i [] ⟨.keyword .peroSi, r⟩ (conditional expression statement)
              (ChoiceBehind ⟨.keyword .peroSi, r⟩) (Viable .alternate) :=
            (hc r).weaken fun _ h => h.fill fun _ _ h => ⟨_, .elseIf h⟩
          refine another.bind fun choice used => ?_
          rintro ⟨ts, rfl, h, spans⟩
          exact .pure (.elseIf h spans)
      | _ => exact nothing
  | _ => exact nothing

/-- A condition with every alternative that follows, behind whatever keyword it has. -/
theorem contractAt_conditional (he : ∀ k < i, Keeps .expression k expression)
    (hs : ∀ k < i, Keeps .statement k statement) (word : Keyword) (r : Span) :
    ContractAt i [] ⟨.keyword word, r⟩ (conditional expression statement)
      (ChoiceBehind ⟨.keyword word, r⟩) (ViableBehind ⟨.keyword word, r⟩) := by
  induction i using Nat.strongRecOn generalizing word r with
  | ind i ih =>
      have braces := derives_braces .conditional
      refine ContractAt.congr ?_ fun c _ => conditional_eq c
      refine .take (by simp) (.expect ⟨[], rfl, ?_⟩ (fun _ => ⟨fun _ => rfl, rfl⟩)
        fun opening => ?_)
      · exact .intro [.punctuator .leftParen, filler, .punctuator .rightParen,
          .punctuator .leftBrace, .punctuator .rightBrace]
          (Derives.choice derives_filler braces .nothing) (by simp)
      have condition {used : List (Token Span)} (h : Viable .expression used) :
          Viable .choice (⟨.punctuator .leftParen, opening⟩ :: used) :=
        h.fill [⟨.punctuator .leftParen, opening⟩] [.punctuator .rightParen,
          .punctuator .leftBrace, .punctuator .rightBrace] (by simp) fun ls e h =>
          ⟨_, by simpa using Derives.choice h braces .nothing⟩
      refine .call he (by simp) (fun used h => ⟨_, rfl, condition h⟩) fun e used hcondition => ?_
      refine .expect ⟨_, rfl, condition hcondition.viable⟩ (fun _ => ⟨fun _ => rfl, rfl⟩)
        fun closing => ?_
      refine .call (fun k hk => keeps_block (fun j hj => hs j (by omega)) .conditional .condition)
        (by simp) (fun list h => ⟨_, rfl, ?_⟩) fun b list hblock => ?_
      · exact h.fill (⟨.punctuator .leftParen, opening⟩ :: used ++
          [⟨.punctuator .rightParen, closing⟩]) [] (by simp) fun ls b h =>
          ⟨_, by simpa using Derives.choice hcondition.derives h .nothing⟩
      refine .call (fun k hk => keeps_alternate (fun j hj => hs j (by omega)) fun r =>
          ih k hk (fun j hj => he j (by omega)) (fun j hj => hs j (by omega)) .peroSi r)
        (by simp) (fun rest h => ⟨_, rfl, ?_⟩) fun alternate rest hrest =>
          .last fun before => .pure ⟨_, rfl, ?_, ?_⟩
      · exact h.fill (⟨.punctuator .leftParen, opening⟩ :: used ++
          [⟨.punctuator .rightParen, closing⟩] ++ list) [] (by simp) fun ls alternate h =>
          ⟨_, by simpa using Derives.choice hcondition.derives hblock.derives h⟩
      · simpa using Covers.choice hcondition hblock hrest
      · simp [Spans]

theorem contractAt_conditionalStatement (he : ∀ k < i, Keeps .expression k expression)
    (hs : ∀ k < i, Keeps .statement k statement) (r : Span) :
    ContractAt i [] ⟨.keyword .si, r⟩ (conditionalStatement expression statement)
      (Covers .statement) (Viable .statement) := by
  have choice : ContractAt i [] ⟨.keyword .si, r⟩ (conditional expression statement)
      (ChoiceBehind ⟨.keyword .si, r⟩) (Viable .statement) :=
    (contractAt_conditional he hs .si r).weaken
      fun _ h => h.fill fun _ _ h => ⟨_, .conditional h⟩
  refine choice.bind fun choice used => ?_
  rintro ⟨ts, rfl, h, spans⟩
  exact .pure (.conditional h spans)

/-- What is taken begins with the token at the cursor. -/
theorem ContractAt.head {t : Token Span} {p : Parser Span α} {D : List (Token Span) → α → Prop}
    (h : ContractAt i [] t p D V) (some : ∀ used a, D used a → used ≠ []) :
    ContractAt i [] t p (fun used a => ∃ ts, used = t :: ts ∧ D used a) V := by
  rintro c hc rfl
  refine (h c hc rfl).mono (fun used next a _ passes hD => ?_) fun _ => id
  obtain ⟨u, ts, rfl⟩ := List.exists_cons_of_ne_nil (some used a hD)
  have first : c.peek = u := congrArg Cursor.peek passes.eq_lead
  exact ⟨ts, by rw [first]; rfl, hD⟩

theorem contractAt_expressionStatement {t : Token Span}
    (he : ContractAt i [] t expression (Covers .expression) (ViableAt t .expression)) :
    ContractAt i [] t (expressionStatement expression) (Covers .statement)
      (ViableAt t .statement) := by
  have inside {used : List (Token Span)} (h : Viable .expression used) : Viable .statement used :=
    h.fill [] [.punctuator .semicolon] (by simp) fun ls e h => ⟨_, .expression h⟩
  have value : ContractAt i [] t expression (Covers .expression) (ViableAt t .statement) :=
    he.weaken fun used h => ⟨h.1, inside h.2⟩
  refine .peek ((value.head fun _ _ h => h.ne_nil).bind fun e used => ?_)
  rintro ⟨ts, rfl, h⟩
  refine .semicolon ⟨by simp, inside h.viable⟩ fun final => .last fun before => .pure ?_
  simpa using Covers.expression h

theorem contractAt_statementStep (he : ∀ k ≤ i, ∀ t, ContractAt k [] t expression
      (Covers .expression) (ViableAt t .expression))
    (hs : ∀ k < i, Keeps .statement k statement) (t : Token Span) :
    ContractAt i [] t (statementStep expression statement) (Covers .statement)
      (Viable .statement) := by
  have below : ∀ k < i, Keeps .expression k expression := fun k hk =>
    .of_at (he k (by omega))
  have simple := contractAt_expressionStatement (he i (Nat.le_refl _) t)
  have weaker {p : Parser Span (Stmt Span)}
      (h : ContractAt i [] t p (Covers .statement) (ViableAt t .statement)) :
      ContractAt i [] t p (Covers .statement) (Viable .statement) :=
    h.weaken fun _ h => h.2
  obtain ⟨l, r⟩ := t
  have turn {p : Parser Span (Stmt Span)}
      (h : ContractAt i [] ⟨l, r⟩ p (Covers .statement) (Viable .statement))
      (same : ∀ c : Cursor Span, c.peek.lexeme = l → statementStep expression statement c = p c) :
      ContractAt i [] ⟨l, r⟩ (statementStep expression statement) (Covers .statement)
        (Viable .statement) :=
    h.congr fun c hc => same c (by rw [hc])
  have dangling (same : ∀ c : Cursor Span, c.peek.lexeme = l →
      statementStep expression statement c = .error (.danglingAlternate c.peek) c) :
      ContractAt i [] ⟨l, r⟩ (statementStep expression statement) (Covers .statement)
        (Viable .statement) := by
    refine .reject (.danglingAlternate ⟨l, r⟩) ?_ (.found [] _) fun c hc => ⟨c, ?_, rfl⟩
    · exact .intro [filler, .punctuator .semicolon] (Derives.expression derives_filler) (by simp)
    · rw [same c (by rw [hc]), hc]
  cases l with
  | keyword word =>
      cases word with
      | var =>
          exact turn (contractAt_declaration below .var r) fun c hl => by
            simp only [statementStep, hl]
      | const =>
          exact turn (contractAt_declaration below .const r) fun c hl => by
            simp only [statementStep, hl]
      | funcion =>
          -- a second token is looked at, and both ways to go on take the first
          intro c hc ht
          refine Meets.mono (V := ViableAt ⟨.keyword .funcion, r⟩ .statement) ?_
            (fun _ _ _ _ _ => id) fun _ h => h.2
          have some (used : List (Token Span)) (s : Stmt Span) (h : Covers .statement used s) :
              used ≠ [] := Spans.ne_nil h.spanned
          by_cases named : c.peekSecond.asName?.isSome
          · refine (contractAt_functionDeclaration hs r c hc ht).congr_second some
              (fun _ h => h.1 rfl) fun c' hpeek hsecond => ?_
            simp only [statementStep, hpeek, ht, hsecond, named, if_true]
          · refine (simple c hc ht).congr_second some (fun _ h => h.1 rfl)
              fun c' hpeek hsecond => ?_
            simp only [statementStep, hpeek, ht, hsecond, named, Bool.false_eq_true, if_false]
      | devolver =>
          exact turn (contractAt_giveBack below r) fun c hl => by simp only [statementStep, hl]
      | si =>
          exact turn (contractAt_conditionalStatement below hs r) fun c hl => by
            simp only [statementStep, hl]
      | peroSi | sino => exact dangling fun c hl => by simp only [statementStep, hl]
      | mientras =>
          exact turn (contractAt_loop below hs r) fun c hl => by simp only [statementStep, hl]
      | romper =>
          exact turn (contractAt_control .breakLoop (fun _ _ => .breakLoop) r) fun c hl => by
            simp only [statementStep, hl]
      | continuar =>
          exact turn (contractAt_control .continueLoop (fun _ _ => .continueLoop) r) fun c hl => by
            simp only [statementStep, hl]
      | hacer | y | o => exact turn (weaker simple) fun c hl => by simp only [statementStep, hl]
  | _ => exact turn (weaker simple) fun c hl => by simp only [statementStep, hl]

/-- Expressions and statements keep their promises, by induction on the tokens in all:
whatever is nested in a phrase stands behind one of its tokens, but for the expression that a
statement begins with. -/
theorem keeps_within (i : Nat) :
    (∀ t, ContractAt i [] t expression (Covers .expression) (ViableAt t .expression)) ∧
      Keeps .statement i statement := by
  induction i using Nat.strongRecOn with
  | ind i ih =>
      have below : ∀ k < i, Keeps .expression k expression := fun k hk =>
        .of_at (ih k hk).1
      have expressions (t : Token Span) : ContractAt i [] t expression (Covers .expression)
          (ViableAt t .expression) := by
        refine (contractAt_expressionStep below (fun kind context k hk => ?_) t).congr
          fun c _ => expression_eq c
        exact keeps_block (fun j hj => (ih j (by omega)).2) kind context
      refine ⟨expressions, Contract.of_at fun t => ?_⟩
      refine (contractAt_statementStep (fun k hk t => ?_) (fun k hk => (ih k hk).2) t).congr
        fun c _ => statement_eq c
      rcases Nat.lt_or_eq_of_le hk with hk | rfl
      · exact (ih k hk).1 t
      · exact expressions t

/-- What a program holds next: a statement, or nothing at its end. -/
def ProgramPart : List (Token Span) → Option (Stmt Span) → Prop
  | used, some s => Covers .statement used s
  | used, none => used = []

/-- The statements of a program up to its end. -/
theorem contract_program (i : Nat) :
    Contract i [] (collect programStep) (Covers .statements) (Viable .statements) := by
  refine .collect (S := ProgramPart) consumes_programStep (fun k _ => .peek fun t => ?_) ?_ ?_ ?_
  · split
    · exact Contract.at_token (.pure rfl)
    · refine Contract.at_token (.bind (?_ : Contract k [] statement (Covers .statement) _)
        fun s used h => .pure h)
      exact Contract.weaken (keeps_within k).2 fun _ => viable_statements
  · rintro used rfl
    exact .empty
  · intro used s more list
    exact .statement
  · intro used s more
    exact viable_behind

end Statements

end Parser

end Guion
