import Guion.Proofs.Token.Scan

/-!
# How lexemes are spelled

Which lexemes a source can hold, and which texts spell them. All but texts have a single
spelling; a text is written between quotes, and any of its characters may be escaped.
A lexeme is read where its spelling stands, provided that what follows does not go on
with it, and what is read is always a spelling.
-/

namespace Guion

/-! ### Names, numbers and texts -/

/-- A name begins with a letter or an underscore, and may go on with digits too. -/
def isName : List Char → Bool
  | [] => false
  | c :: rest => isNameStart c && rest.all isNameChar

/-- Digits, at least one of them. -/
def isDigits (text : List Char) : Bool := !text.isEmpty && text.all Char.isDigit

/-- A number without a sign: digits, and maybe a point with more digits behind it. -/
inductive Decimal : List Char → Prop
  | whole {digits} : isDigits digits → Decimal digits
  | fraction {digits more} : isDigits digits → isDigits more → Decimal (digits ++ '.' :: more)

/-- A number, maybe behind a minus sign. -/
inductive Numeral : List Char → Prop
  | unsigned {text} : Decimal text → Numeral text
  | negative {text} : Decimal text → Numeral ('-' :: text)

/-- `Escape c d`: behind a backslash, `c` stands for `d`. Six letters stand for control
characters, and every other character stands for itself. -/
inductive Escape : Char → Char → Prop
  | newline : Escape 'n' '\x0a'
  | carriageReturn : Escape 'r' '\x0d'
  | tab : Escape 't' '\x09'
  | backspace : Escape 'b' '\x08'
  | formFeed : Escape 'f' '\x0c'
  | verticalTab : Escape 'v' '\x0b'
  | itself {c} : c ∉ ['n', 'r', 't', 'b', 'f', 'v'] → Escape c c

/-- The scanner reads each escape as what it stands for. -/
theorem escape_iff {c d : Char} : Escape c d ↔ unescape c = d := by
  constructor
  · intro stands
    cases stands with
    | itself other =>
        unfold unescape
        split <;> simp_all
    | _ => rfl
  · rintro rfl
    unfold unescape
    split
    · exact .newline
    · exact .carriageReturn
    · exact .tab
    · exact .backspace
    · exact .formFeed
    · exact .verticalTab
    · exact .itself (by simp_all)

/-- `Expands raw contents`: between quotes, `raw` writes `contents`. Quotes and backslashes
are always escaped, every other character may be. -/
inductive Expands : List Char → List Char → Prop
  | nil : Expands [] []
  | char {c raw contents} : c ≠ '"' → c ≠ '\\' → Expands raw contents →
      Expands (c :: raw) (c :: contents)
  | escape {c d raw contents} : Escape c d → Expands raw contents →
      Expands ('\\' :: c :: raw) (d :: contents)

/-- A character between quotes, with a backslash where there must be one. -/
def escape (c : Char) : List Char := if c = '"' ∨ c = '\\' then ['\\', c] else [c]

theorem expands_escape (contents : List Char) : Expands (contents.flatMap escape) contents := by
  induction contents with
  | nil => exact .nil
  | cons c contents ih =>
      rw [List.flatMap_cons, escape]
      split
      · rename_i special
        rcases special with rfl | rfl
        · exact .escape (.itself (by decide)) ih
        · exact .escape (.itself (by decide)) ih
      · rename_i plain
        rw [not_or] at plain
        exact .char plain.1 plain.2 ih

/-! ### Lexemes -/

namespace Lexeme

/-- Whether a source can hold a lexeme. -/
def Valid : Lexeme → Prop
  | keyword _ | text _ | punctuator _ => True
  | name spelled => isName spelled.toList ∧ ∀ word : Keyword, word.spelling ≠ spelled
  | number literal => Numeral literal.toList
  | endOfFile => False

/-- How a lexeme is written into a source. -/
def written : Lexeme → List Char
  | keyword word => word.spelling.toList
  | name spelled => spelled.toList
  | number literal => literal.toList
  | text contents => '"' :: (contents.toList.flatMap escape ++ ['"'])
  | punctuator mark => mark.spelling.toList
  | endOfFile => []

end Lexeme

/-- `Spells l word`: a source can hold the lexeme, written like this. -/
inductive Spells : Lexeme → List Char → Prop
  | keyword (word : Keyword) : Spells (.keyword word) word.spelling.toList
  | name {spelled : String} : isName spelled.toList → (∀ word : Keyword, word.spelling ≠ spelled) →
      Spells (.name spelled) spelled.toList
  | number {literal : String} : Numeral literal.toList → Spells (.number literal) literal.toList
  | text {raw : List Char} {contents : String} : Expands raw contents.toList →
      Spells (.text contents) ('"' :: (raw ++ ['"']))
  | punctuator (mark : Punctuator) : Spells (.punctuator mark) mark.spelling.toList

theorem Lexeme.Valid.spells {l : Lexeme} (h : l.Valid) : Spells l l.written := by
  cases l with
  | keyword word => exact .keyword word
  | name spelled => exact .name h.1 h.2
  | number literal => exact .number h
  | text contents => exact .text (expands_escape contents.toList)
  | punctuator mark => exact .punctuator mark
  | endOfFile => exact h.elim

theorem Spells.ne_end {l : Lexeme} {word : List Char} (h : Spells l word) : l ≠ .endOfFile := by
  cases h <;> simp

/-! ### A spelling is read -/

/-- What may stand right behind a number: no digit, and no point with a digit behind it. -/
def EndsNumber (rest : List Char) : Prop :=
  ∀ c ∈ rest.head?, c.isDigit = false ∧ (c = '.' → ∀ d ∈ rest.tail.head?, d.isDigit = false)

/-- What may stand right behind a lexeme: nothing that would make it longer, or make it begin
a comment. -/
def Lexeme.Followed : Lexeme → List Char → Prop
  | .keyword _, rest | .name _, rest => ∀ c ∈ rest.head?, isNameChar c = false
  | .number _, rest => EndsNumber rest
  | .punctuator mark, rest => ∀ c ∈ rest.head?, (mark = .minus → c.isDigit = false) ∧
      (mark.withEquals? ≠ none → c ≠ '=') ∧ (mark = .slash → c ≠ '/' ∧ c ≠ '*')
  | .text _, _ | .endOfFile, _ => True

/-- A blank goes on with no lexeme. -/
theorem Lexeme.followed_of_blank (l : Lexeme) {rest : List Char}
    (h : ∀ c ∈ rest.head?, isLayoutBlank c) : l.Followed rest := by
  have blank {p : Char → Prop} (hp : p ' ' ∧ p '\t' ∧ p '\n' ∧ p '\r') : ∀ c ∈ rest.head?, p c := by
    intro c hc
    have := h c hc
    simp only [isLayoutBlank, Bool.or_eq_true, beq_iff_eq] at this
    rcases this with ((rfl | rfl) | rfl) | rfl
    · exact hp.1
    · exact hp.2.1
    · exact hp.2.2.1
    · exact hp.2.2.2
  cases l with
  | keyword | name => exact blank (by decide)
  | number => exact blank (by simp)
  | text | endOfFile => trivial
  | punctuator mark => exact blank (by simp)

theorem takeWhile_append_of_stop {p : Char → Bool} {word : List Char} (inside : ∀ c ∈ word, p c)
    (rest : List Char) (stop : ∀ c ∈ rest.head?, p c = false) :
    (word ++ rest).takeWhile p = word ∧ (word ++ rest).dropWhile p = rest := by
  rw [List.takeWhile_append_of_pos inside, List.dropWhile_append_of_pos inside]
  cases rest with
  | nil => simp
  | cons c rest => simp [stop c rfl]

theorem readContents_of_expands {raw contents : List Char} (h : Expands raw contents)
    (rest : List Char) :
    readContents (raw ++ '"' :: rest) = some (contents, raw ++ ['"'], rest) := by
  induction h with
  | nil => rfl
  | char _ backslash _ ih => simp [readContents, backslash, ih]
  | escape stands _ ih => simp [readContents, ih, escape_iff.mp stands]

theorem isDigits_iff {text : List Char} :
    isDigits text ↔ text ≠ [] ∧ ∀ c ∈ text, c.isDigit := by
  simp [isDigits]

theorem splitDigits_of_decimal {text rest : List Char} (h : Decimal text)
    (stop : EndsNumber rest) : splitDigits (text ++ rest) = (text, rest) := by
  have noDigit : ∀ c ∈ rest.head?, c.isDigit = false := fun c hc => (stop c hc).1
  cases h with
  | whole digits =>
      obtain ⟨-, digits⟩ := isDigits_iff.mp digits
      obtain ⟨taken, left⟩ := takeWhile_append_of_stop digits rest noDigit
      rw [splitDigits, taken, left]
      split
      · next d more =>
        rw [(stop '.' rfl).2 rfl d rfl]
        simp
      · rfl
  | @fraction digits more hdigits hmore =>
      obtain ⟨-, hdigits⟩ := isDigits_iff.mp hdigits
      obtain ⟨hne, hmore⟩ := isDigits_iff.mp hmore
      obtain ⟨d, more, rfl⟩ := List.exists_cons_of_ne_nil hne
      obtain ⟨hd, hmore'⟩ := List.forall_mem_cons.mp hmore
      obtain ⟨taken, left⟩ :=
        takeWhile_append_of_stop hdigits ('.' :: d :: (more ++ rest)) (by simp)
      obtain ⟨takenMore, leftMore⟩ := takeWhile_append_of_stop hmore' rest noDigit
      rw [splitDigits, List.append_assoc, List.cons_append, List.cons_append, taken, left]
      simp [hd, takenMore, leftMore]

theorem isNameStart_of_isDigit {c : Char} (h : c.isDigit) : isNameStart c = false := by
  obtain ⟨low, high⟩ := Char.isDigit_iff_toNat.mp h
  have digits : ∀ n ≤ '9'.toNat, '0'.toNat ≤ n → isNameStart (Char.ofNat n) = false := by decide
  have start := digits c.toNat high low
  rwa [Char.ofNat_toNat] at start

theorem isName_spelling (word : Keyword) : isName word.spelling.toList := by
  cases word <;> decide

theorem ofSpelling?_eq_none_iff {spelled : String} :
    Keyword.ofSpelling? spelled = none ↔ ∀ word : Keyword, word.spelling ≠ spelled := by
  simp [Keyword.ofSpelling?, List.find?_eq_none, Keyword.mem_all]

theorem forall_isNameChar {word : List Char} (named : isName word) : ∀ c ∈ word, isNameChar c := by
  cases word with
  | nil => cases named
  | cons c word =>
      obtain ⟨start, inside⟩ := (Bool.and_eq_true _ _).mp named
      exact List.forall_mem_cons.mpr ⟨by simp [isNameChar, start], by simpa using inside⟩

/-- What a name on its own is read as: a keyword, if it is spelled like one. -/
def Lexeme.ofName (spelled : String) : Lexeme :=
  match Keyword.ofSpelling? spelled with
  | some word => .keyword word
  | none => .name spelled

/-- Where a name begins, a name is read. -/
theorem readLexeme_of_isName {word rest : List Char} (named : isName word)
    (stop : ∀ c ∈ rest.head?, isNameChar c = false) (previous : Option Char) :
    readLexeme previous (word ++ rest) =
      ⟨.ok (Lexeme.ofName (String.ofList word)), word, rest⟩ := by
  obtain ⟨taken, left⟩ := takeWhile_append_of_stop (forall_isNameChar named) rest stop
  cases word with
  | nil => cases named
  | cons c word =>
      have start : isNameStart c := ((Bool.and_eq_true _ _).mp named).1
      have apart {d : Char} (hd : isNameStart d = false) : c ≠ d := by
        rintro rfl
        rw [start] at hd
        cases hd
      have noDigit : ¬c.isDigit := by
        intro digit
        rw [isNameStart_of_isDigit digit] at start
        cases start
      rw [List.cons_append] at taken left ⊢
      rw [readLexeme, if_neg (apart (by decide)), if_neg noDigit,
        if_neg (by simp [apart (d := '-') (by decide)]), if_pos start]
      simp only [readName, taken, left]
      rfl

theorem Decimal.first {text : List Char} (h : Decimal text) :
    ∃ c more, text = c :: more ∧ c.isDigit := by
  have digits {ds : List Char} (h : isDigits ds) : ∃ c more, ds = c :: more ∧ c.isDigit := by
    obtain ⟨hne, hall⟩ := isDigits_iff.mp h
    obtain ⟨c, more, rfl⟩ := List.exists_cons_of_ne_nil hne
    exact ⟨c, more, rfl, hall c (by simp)⟩
  cases h with
  | whole h => exact digits h
  | fraction h _ =>
      obtain ⟨c, more, rfl, hc⟩ := digits h
      exact ⟨c, _, rfl, hc⟩

/-- How spellings begin: with no blank, and with no slash unless that is all. -/
theorem Spells.first {l : Lexeme} {word : List Char} (h : Spells l word) :
    ∃ c tail, word = c :: tail ∧ isLayoutBlank c = false ∧
      (c = '/' → l = .punctuator .slash ∧ tail = []) := by
  have apart {p : Char → Bool} (hp : [' ', '\t', '\n', '\r', '/'].any p = false) {c : Char}
      (hc : p c) (tail : List Char) :
      ∃ d rest, c :: tail = d :: rest ∧ isLayoutBlank d = false ∧
        (d = '/' → l = .punctuator .slash ∧ rest = []) := by
    have ne (d : Char) (hd : d ∈ [' ', '\t', '\n', '\r', '/']) : c ≠ d := by
      rintro rfl
      exact List.any_eq_false.mp hp c hd hc
    refine ⟨c, tail, rfl, ?_, fun slash => absurd slash (ne '/' (by decide))⟩
    simp [isLayoutBlank, ne]
  cases h with
  | keyword word => cases word <;> exact ⟨_, _, rfl, rfl, by decide⟩
  | @name spelled named _ =>
      generalize spelled.toList = word at named
      cases word with
      | nil => cases named
      | cons c tail =>
          have start : isNameStart c := ((Bool.and_eq_true _ _).mp named).1
          exact apart rfl start tail
  | @number literal numeral =>
      generalize literal.toList = word at numeral
      cases numeral with
      | unsigned decimal =>
          obtain ⟨c, more, rfl, digit⟩ := decimal.first
          exact apart rfl digit more
      | negative => exact ⟨_, _, rfl, rfl, by simp⟩
  | text => exact ⟨_, _, rfl, rfl, by simp⟩
  | punctuator mark => cases mark <;> exact ⟨_, _, rfl, rfl, by decide⟩

/-- Where a number begins, a number is read. -/
theorem readLexeme_of_numeral {text rest : List Char} (h : Numeral text)
    (stop : EndsNumber rest) {previous : Option Char}
    (hprevious : previous.any Char.isDigit = false) :
    readLexeme previous (text ++ rest) = ⟨.ok (.number (String.ofList text)), text, rest⟩ := by
  cases h with
  | unsigned decimal =>
      have split := splitDigits_of_decimal decimal stop
      obtain ⟨c, more, rfl, digit⟩ := decimal.first
      have quote : c ≠ '"' := by
        rintro rfl
        cases digit
      rw [List.cons_append] at split ⊢
      rw [readLexeme, if_neg quote, if_pos digit]
      simp [readNumber, split]
  | @negative text decimal =>
      have split := splitDigits_of_decimal decimal stop
      have signs : signsNumber previous (text ++ rest) := by
        obtain ⟨c, more, rfl, digit⟩ := decimal.first
        simp [signsNumber, hprevious, digit]
      rw [List.cons_append, readLexeme, if_neg (by decide), if_neg (by decide),
        if_pos (by simp [signs])]
      simp only [readNumber, split]
      rfl

/-- A character that signs begin with begins nothing else, but for the sign of a number. -/
theorem readLexeme_eq_readMark {c : Char} {mark : Punctuator} (h : Punctuator.ofChar? c = some mark)
    {rest : List Char} (sign : mark = .minus → ∀ d ∈ rest.head?, d.isDigit = false)
    (previous : Option Char) : readLexeme previous (c :: rest) = readMark c rest := by
  have apart : c ≠ '"' ∧ ¬c.isDigit ∧ ¬isNameStart c := by
    unfold Punctuator.ofChar? at h
    split at h <;> first | decide | cases h
  have unsigned : ¬(c = '-' && signsNumber previous rest) := by
    simp only [Bool.and_eq_true, decide_eq_true_eq, signsNumber, not_and]
    rintro rfl -
    cases h
    cases hd : rest.head? with
    | none => simp
    | some d => simp [sign rfl d hd]
  rw [readLexeme, if_neg apart.1, if_neg apart.2.1, if_neg unsigned, if_neg apart.2.2]

/-- A sign is read where it stands, if no equals sign makes it longer and no digit turns it
into the sign of a number. -/
theorem readLexeme_of_mark (mark : Punctuator) {rest : List Char}
    (stop : ∀ c ∈ rest.head?, (mark = .minus → c.isDigit = false) ∧
      (mark.withEquals? ≠ none → c ≠ '='))
    (previous : Option Char) :
    readLexeme previous (mark.spelling.toList ++ rest) =
      ⟨.ok (.punctuator mark), mark.spelling.toList, rest⟩ := by
  have short {c : Char} (h : Punctuator.ofChar? c = some mark) :
      readLexeme previous (mark.spelling.toList ++ rest) =
        ⟨.ok (.punctuator mark), mark.spelling.toList, rest⟩ := by
    rw [Punctuator.spelling_of_ofChar? h, List.singleton_append,
      readLexeme_eq_readMark h fun minus d hd => (stop d hd).1 minus]
    simp only [readMark, h]
    split
    · next hlonger => exact absurd rfl ((stop '=' rfl).2 (by simp [hlonger]))
    · rfl
  have long {c : Char} {shorter : Punctuator} (h : Punctuator.ofChar? c = some shorter)
      (hmark : shorter.withEquals? = some mark) :
      readLexeme previous (mark.spelling.toList ++ rest) =
        ⟨.ok (.punctuator mark), mark.spelling.toList, rest⟩ := by
    have spelled : mark.spelling.toList = [c, '='] := by
      rw [Punctuator.spelling_of_withEquals? hmark, String.toList_append,
        Punctuator.spelling_of_ofChar? h]
      rfl
    rw [spelled, List.cons_append, List.singleton_append, readLexeme_eq_readMark h (by simp)]
    simp only [readMark, h, hmark]
  cases mark with
  | equal => exact long (c := '=') rfl rfl
  | greaterEqual => exact long (c := '>') rfl rfl
  | lessEqual => exact long (c := '<') rfl rfl
  | notEqual => rfl
  | colon => exact short (c := ':') rfl
  | comma => exact short (c := ',') rfl
  | leftParen => exact short (c := '(') rfl
  | rightParen => exact short (c := ')') rfl
  | leftBrace => exact short (c := '\x7b') rfl
  | rightBrace => exact short (c := '\x7d') rfl
  | leftBracket => exact short (c := '[') rfl
  | rightBracket => exact short (c := ']') rfl
  | semicolon => exact short (c := ';') rfl
  | period => exact short (c := '.') rfl
  | assign => exact short (c := '=') rfl
  | greater => exact short (c := '>') rfl
  | less => exact short (c := '<') rfl
  | plus => exact short (c := '+') rfl
  | minus => exact short (c := '-') rfl
  | star => exact short (c := '*') rfl
  | slash => exact short (c := '/') rfl
  | percent => exact short (c := '%') rfl
  | caret => exact short (c := '^') rfl

/-- A spelling is read as its lexeme, if what stands before and behind it lets it. -/
theorem readLexeme_of_spells {l : Lexeme} {word rest : List Char} (h : Spells l word)
    (followed : l.Followed rest) {previous : Option Char}
    (apart : ∀ literal, l = .number literal → previous.any Char.isDigit = false) :
    readLexeme previous (word ++ rest) = ⟨.ok l, word, rest⟩ := by
  cases h with
  | keyword word =>
      rw [readLexeme_of_isName (isName_spelling word) followed previous, String.ofList_toList,
        Lexeme.ofName, Keyword.ofSpelling?_spelling]
  | name named other =>
      rw [readLexeme_of_isName named followed previous, String.ofList_toList, Lexeme.ofName,
        ofSpelling?_eq_none_iff.mpr other]
  | number numeral =>
      rw [readLexeme_of_numeral numeral followed (apart _ rfl), String.ofList_toList]
  | @text raw contents expands =>
      have read := readContents_of_expands expands rest
      simp [readLexeme, readText, read]
  | punctuator mark =>
      exact readLexeme_of_mark mark (fun c hc => ⟨(followed c hc).1, (followed c hc).2.1⟩) previous

/-! ### What is read is a spelling -/

theorem expands_of_readContents {text contents taken rest : List Char}
    (h : readContents text = some (contents, taken, rest)) :
    ∃ raw, taken = raw ++ ['"'] ∧ Expands raw contents := by
  fun_induction readContents text generalizing contents taken with
  | case1 => cases h
  | case2 rest =>
      cases h
      exact ⟨[], rfl, .nil⟩
  | case3 => cases h
  | case4 c rest ih =>
      obtain ⟨⟨contents', taken', left⟩, hread, heq⟩ := Option.map_eq_some_iff.1 h
      cases heq
      obtain ⟨raw, rfl, expands⟩ := ih hread
      exact ⟨'\\' :: c :: raw, rfl, .escape (escape_iff.mpr rfl) expands⟩
  | case5 c rest quote last escape ih =>
      obtain ⟨⟨contents', taken', left⟩, hread, heq⟩ := Option.map_eq_some_iff.1 h
      cases heq
      obtain ⟨raw, rfl, expands⟩ := ih hread
      refine ⟨c :: raw, rfl, .char quote ?_ expands⟩
      rintro rfl
      cases rest with
      | nil => exact last rfl rfl
      | cons d rest => exact escape d rest rfl rfl

theorem isDigits_takeWhile {c : Char} (rest : List Char) (h : c.isDigit) :
    isDigits ((c :: rest).takeWhile Char.isDigit) := by
  refine isDigits_iff.mpr ⟨by simp [h], fun d hd => ?_⟩
  exact List.all_eq_true.mp List.all_takeWhile d hd

theorem decimal_splitDigits {c : Char} (rest : List Char) (h : c.isDigit) :
    Decimal (splitDigits (c :: rest)).1 := by
  have digits := isDigits_takeWhile rest h
  unfold splitDigits
  split
  · split
    · next digit => exact .fraction digits (isDigits_takeWhile _ digit)
    · exact .whole digits
  · exact .whole digits

theorem spells_readMark {c : Char} {rest : List Char} {l : Lexeme}
    (h : (readMark c rest).result = .ok l) : Spells l (readMark c rest).taken := by
  unfold readMark at h ⊢
  split at h
  · next mark hmark =>
    have spelled := Punctuator.spelling_of_ofChar? hmark
    split at h
    · next longer left hlonger =>
      have longerSpelled : longer.spelling.toList = [c, '='] := by
        rw [Punctuator.spelling_of_withEquals? hlonger, String.toList_append, spelled]
        rfl
      cases h
      exact longerSpelled ▸ .punctuator longer
    · cases h
      exact spelled ▸ .punctuator mark
  · split at h
    · next bang =>
      subst bang
      split at h
      · cases h
        exact .punctuator .notEqual
      · cases h
    · cases h

theorem spells_ofName {word : List Char} (named : isName word) :
    Spells (Lexeme.ofName (String.ofList word)) word := by
  unfold Lexeme.ofName
  split
  · next keyword hkeyword =>
    have spelled := Keyword.spelling_of_ofSpelling? hkeyword
    have chars : keyword.spelling.toList = word := by rw [spelled, String.toList_ofList]
    exact chars ▸ .keyword keyword
  · next hnone =>
    have chars : (String.ofList word).toList = word := String.toList_ofList
    have name := Spells.name (chars.symm ▸ named) (ofSpelling?_eq_none_iff.mp hnone)
    rwa [chars] at name

theorem spells_numeral {text : List Char} (h : Numeral text) :
    Spells (.number (String.ofList text)) text := by
  have chars : (String.ofList text).toList = text := String.toList_ofList
  have numeral : Numeral (String.ofList text).toList := by rwa [chars]
  have number := Spells.number numeral
  rwa [chars] at number

theorem spells_readText {rest : List Char} {l : Lexeme} (h : (readText rest).result = .ok l) :
    Spells l (readText rest).taken := by
  unfold readText at h ⊢
  split at h
  · next contents taken left hread =>
    cases h
    obtain ⟨raw, rfl, expands⟩ := expands_of_readContents hread
    exact .text (by rwa [String.toList_ofList])
  · cases h

theorem spells_readName {c : Char} {rest : List Char} {l : Lexeme} (start : isNameStart c)
    (h : (readName (c :: rest)).result = .ok l) : Spells l (readName (c :: rest)).taken := by
  cases h
  refine spells_ofName ?_
  simp [isName, isNameChar, start]

/-- Whatever is read is spelled by the characters that were taken for it. -/
theorem spells_readLexeme {previous : Option Char} {text : List Char} {l : Lexeme}
    (h : (readLexeme previous text).result = .ok l) (going : l ≠ .endOfFile) :
    Spells l (readLexeme previous text).taken := by
  cases text with
  | nil =>
      cases h
      exact absurd rfl going
  | cons c rest =>
      rw [readLexeme] at h ⊢
      by_cases quote : c = '"'
      · rw [if_pos quote] at h ⊢
        exact spells_readText h
      rw [if_neg quote] at h ⊢
      by_cases digit : c.isDigit
      · rw [if_pos digit] at h ⊢
        cases h
        exact spells_numeral (.unsigned (decimal_splitDigits rest digit))
      rw [if_neg digit] at h ⊢
      by_cases sign : c = '-' && signsNumber previous rest
      · rw [if_pos sign] at h ⊢
        cases h
        simp only [Bool.and_eq_true, decide_eq_true_eq, signsNumber] at sign
        obtain ⟨rfl, -, digit⟩ := sign
        cases rest with
        | nil => cases digit
        | cons d more => exact spells_numeral (.negative (decimal_splitDigits more digit))
      rw [if_neg sign] at h ⊢
      by_cases start : isNameStart c
      · rw [if_pos start] at h ⊢
        exact spells_readName start h
      · rw [if_neg start] at h ⊢
        exact spells_readMark h

end Guion
