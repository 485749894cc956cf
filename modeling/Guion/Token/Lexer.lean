import Guion.Text.Letter
import Guion.Token.Basic
import Guion.Token.Layout

/-!
# Reading tokens

A scanner stands somewhere in a text. One step skips layout and reads a single
lexeme; the step always moves over a piece of the text, so places are never
counted separately from the characters that were read. A step may fail and the
scanner can still be asked for more: an illegal character stays where it is, an
exclamation mark on its own is left behind, and a text that is never closed
swallows the rest of the input.
-/

namespace Guion

/-- Why no token could be read. -/
inductive LexCause where
  | unterminatedText
  | illegalCharacter (c : Char)
  deriving DecidableEq, Repr

/-- The wording of a failure. -/
def LexCause.message : LexCause → String
  | .unterminatedText => "Se deben cerrar los textos con las comillas dobles (\"texto\")"
  | .illegalCharacter c => "El carácter `" ++ String.singleton c ++ "` no es válido"

/-- A failure at the place where the token would have begun. -/
structure LexError where
  place : Location
  cause : LexCause
  deriving DecidableEq, Repr

/-- Whether a name can begin with a character. -/
def isNameStart (c : Char) : Bool :=
  Text.isLetter c || c == '_'

/-- Whether a name can go on with a character. -/
def isNameChar (c : Char) : Bool :=
  isNameStart c || c.isDigit

/-- What reading at the head of a text came to, and how it divides the text. -/
structure Reading where
  result : Except LexCause Lexeme
  taken : List Char
  rest : List Char

/-- The character that an escape stands for. -/
def unescape : Char → Char
  | 'n' => '\n'
  | 'r' => '\r'
  | 't' => '\t'
  | 'b' => '\x08'
  | 'f' => '\x0c'
  | 'v' => '\x0b'
  | c => c

/-- Reads the inside of a text up to and including its closing quote: the
contents, the characters read, and the rest. -/
def readContents : List Char → Option (List Char × List Char × List Char)
  | [] => none
  | '"' :: rest => some ([], ['"'], rest)
  | ['\\'] => none
  | '\\' :: c :: rest =>
    (readContents rest).map fun (contents, taken, left) =>
      (unescape c :: contents, '\\' :: c :: taken, left)
  | c :: rest =>
    (readContents rest).map fun (contents, taken, left) =>
      (c :: contents, c :: taken, left)

/-- Reads a text whose opening quote stands before `rest`. -/
def readText (rest : List Char) : Reading :=
  match readContents rest with
  | some (contents, taken, left) => ⟨.ok (.text (String.ofList contents)), '"' :: taken, left⟩
  | none => ⟨.error .unterminatedText, '"' :: rest, []⟩

/-- Divides a text behind the digits of a number. A point belongs to the number
only if a digit follows it. -/
def splitDigits (text : List Char) : List Char × List Char :=
  match text.dropWhile Char.isDigit with
  | '.' :: d :: rest =>
    if d.isDigit then
      (text.takeWhile Char.isDigit ++ '.' :: (d :: rest).takeWhile Char.isDigit,
        rest.dropWhile Char.isDigit)
    else
      (text.takeWhile Char.isDigit, '.' :: d :: rest)
  | rest => (text.takeWhile Char.isDigit, rest)

/-- Reads a number, behind the minus sign if there is one. -/
def readNumber (sign text : List Char) : Reading :=
  let (digits, rest) := splitDigits text
  ⟨.ok (.number (String.ofList (sign ++ digits))), sign ++ digits, rest⟩

/-- Reads a name or a keyword. -/
def readName (text : List Char) : Reading :=
  let taken := text.takeWhile isNameChar
  let word := String.ofList taken
  let lexeme := match Keyword.ofSpelling? word with
    | some keyword => Lexeme.keyword keyword
    | none => Lexeme.name word
  ⟨.ok lexeme, taken, text.dropWhile isNameChar⟩

/-- Reads a sign, the longer form if there is one. -/
def readMark (c : Char) (rest : List Char) : Reading :=
  match Punctuator.ofChar? c with
  | some mark =>
    match mark.withEquals?, rest with
    | some longer, '=' :: left => ⟨.ok (.punctuator longer), [c, '='], left⟩
    | _, _ => ⟨.ok (.punctuator mark), [c], rest⟩
  | none =>
    if c = '!' then
      match rest with
      | '=' :: left => ⟨.ok (.punctuator .notEqual), [c, '='], left⟩
      | _ => ⟨.error (.illegalCharacter c), [c], rest⟩
    else
      ⟨.error (.illegalCharacter c), [], c :: rest⟩

/-- Whether a minus sign before `rest` begins a number. It does not directly
behind a digit, so that `1-2` is a difference. -/
def signsNumber (previous : Option Char) (rest : List Char) : Bool :=
  !previous.any Char.isDigit && rest.head?.any Char.isDigit

/-- Reads one lexeme at the head of a text that has no layout there. -/
def readLexeme (previous : Option Char) : List Char → Reading
  | [] => ⟨.ok .endOfFile, [], []⟩
  | c :: rest =>
    if c = '"' then readText rest
    else if c.isDigit then readNumber [] (c :: rest)
    else if c = '-' && signsNumber previous rest then readNumber [c] rest
    else if isNameStart c then readName (c :: rest)
    else readMark c rest

/-- Where reading has got to: what is left, its place, and the character read
last, layout included. -/
structure Scanner where
  rest : List Char
  place : Location
  previous : Option Char
  deriving Repr

namespace Scanner

/-- A scanner at the start of a text. -/
def ofText (text : List Char) : Scanner := ⟨text, Location.origin, none⟩

/-- The scanner behind a piece of its text. -/
def move (s : Scanner) (taken rest : List Char) : Scanner :=
  ⟨rest, s.place.after taken, taken.getLast?.or s.previous⟩

/-- The scanner behind the layout. -/
def skipLayout (s : Scanner) : Scanner :=
  let (layout, rest) := splitLayout .between s.rest
  s.move layout rest

/-- Reads one token. -/
def next (s : Scanner) : Except LexError (Token Span) × Scanner :=
  let s := s.skipLayout
  let reading := readLexeme s.previous s.rest
  let behind := s.move reading.taken reading.rest
  match reading.result with
  | .ok lexeme => (.ok ⟨lexeme, ⟨s.place, behind.place⟩⟩, behind)
  | .error cause => (.error ⟨s.place, cause⟩, behind)

end Scanner

theorem length_of_readContents {text contents taken rest : List Char}
    (h : readContents text = some (contents, taken, rest)) : rest.length < text.length := by
  fun_induction readContents text generalizing contents taken with
  | case1 => cases h
  | case2 rest => cases h; simp
  | case3 => cases h
  | case4 c rest ih =>
    obtain ⟨⟨contents', taken', left⟩, hread, heq⟩ := Option.map_eq_some_iff.1 h
    cases heq
    have := ih hread
    simp only [List.length_cons]
    omega
  | case5 c rest _ _ _ ih =>
    obtain ⟨⟨contents', taken', left⟩, hread, heq⟩ := Option.map_eq_some_iff.1 h
    cases heq
    have := ih hread
    simp only [List.length_cons]
    omega

theorem length_dropWhile_le {α : Type} (p : α → Bool) (l : List α) :
    (l.dropWhile p).length ≤ l.length :=
  (List.dropWhile_suffix p).length_le

theorem length_splitDigits_le (text : List Char) :
    (splitDigits text).2.length ≤ text.length := by
  have hdrop := length_dropWhile_le Char.isDigit text
  unfold splitDigits
  split
  · rename_i d rest heq
    rw [heq] at hdrop
    have hrest := length_dropWhile_le Char.isDigit rest
    split
    · simp only [List.length_cons] at hdrop ⊢
      omega
    · exact hdrop
  · exact hdrop

theorem length_splitDigits_cons {c : Char} (rest : List Char) (h : c.isDigit) :
    (splitDigits (c :: rest)).2.length ≤ rest.length := by
  have hdrop := length_dropWhile_le Char.isDigit rest
  have hcons : (c :: rest).dropWhile Char.isDigit = rest.dropWhile Char.isDigit := by
    simp [h]
  unfold splitDigits
  rw [hcons]
  split
  · rename_i d left heq
    rw [heq] at hdrop
    have hleft := length_dropWhile_le Char.isDigit left
    split
    · simp only [List.length_cons] at hdrop ⊢
      omega
    · exact hdrop
  · exact hdrop

theorem length_readMark {c : Char} {rest : List Char} {lexeme : Lexeme}
    (h : (readMark c rest).result = .ok lexeme) :
    (readMark c rest).rest.length < (c :: rest).length := by
  unfold readMark at h ⊢
  split
  · split <;> (simp only [List.length_cons]; omega)
  · split
    · split <;> (simp only [List.length_cons]; omega)
    · simp_all

/-- A lexeme that is not the end of the input is made of something. -/
theorem length_readLexeme {previous : Option Char} {text : List Char} {lexeme : Lexeme}
    (h : (readLexeme previous text).result = .ok lexeme) (hend : lexeme ≠ .endOfFile) :
    (readLexeme previous text).rest.length < text.length := by
  cases text with
  | nil => simp [readLexeme] at h; exact absurd h.symm hend
  | cons c rest =>
    simp only [readLexeme] at h ⊢
    split
    · rename_i hquote
      simp only [hquote, ↓reduceIte, readText] at h ⊢
      split
      · rename_i hread
        have := length_of_readContents hread
        simp only [List.length_cons]
        omega
      · simp
    split
    · rename_i hdigit
      have := length_splitDigits_cons rest hdigit
      simp only [readNumber, List.length_cons]
      omega
    split
    · have := length_splitDigits_le rest
      simp only [readNumber, List.length_cons]
      omega
    split
    · rename_i hname
      have hchar : isNameChar c = true := by simp [isNameChar, hname]
      have := length_dropWhile_le isNameChar rest
      simp only [readName, List.dropWhile_cons, hchar, ↓reduceIte, List.length_cons]
      omega
    · simp_all only [↓reduceIte, Bool.not_eq_true]
      exact length_readMark h

/-- Reading a token that is not the end of the input uses some of the text. -/
theorem Scanner.length_next {s behind : Scanner} {t : Token Span}
    (h : s.next = (.ok t, behind)) (hend : t.lexeme ≠ .endOfFile) :
    behind.rest.length < s.rest.length := by
  have hskip : s.skipLayout.rest.length ≤ s.rest.length :=
    length_splitLayout_le .between s.rest
  unfold Scanner.next at h
  dsimp only at h
  split at h
  · rename_i lexeme hread
    cases h
    have := length_readLexeme hread hend
    simp only [Scanner.move]
    omega
  · cases h

/-- Every token up to the end of the input, or the first failure. -/
def Scanner.tokens (s : Scanner) : Except LexError (List (Token Span)) :=
  match _read : s.next with
  | (.error e, _) => .error e
  | (.ok t, behind) =>
    if _more : t.lexeme = .endOfFile then
      .ok [t]
    else
      behind.tokens.map (t :: ·)
termination_by s.rest.length
decreasing_by exact length_next _read _more

/-- The tokens of a source text. The last one marks the end of the input. -/
def tokenize (source : String) : Except LexError (List (Token Span)) :=
  (Scanner.ofText source.toList).tokens

end Guion
