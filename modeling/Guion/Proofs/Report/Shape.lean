import Guion.Proofs.Report.Caret

/-!
# The shape of a report

Between its header and its trailer a report shows the line it is about and the two next to
it, as far as they exist, and one row with the caret: below the line, or last if there is
no such line. All of these rows begin with a column for the line number. A line that is
too long is shown through a window, with dots where something is left out.
-/

namespace Guion

namespace Report

variable (r : Report)

/-! ## What there is to show -/

/-- The line of the source with a number, if there is one. -/
def sourceLine? (number : Nat) : Option (List Char) :=
  if number = 0 then none else (Text.lines r.source.toList)[number - 1]?

/-- A line with its number, unless it does not exist. -/
def numbered (number : Nat) : List (Nat × List Char) :=
  (r.sourceLine? number).toList.map (number, ·)

/-- The lines shown above the caret: the one the report is about, and the one before it
unless that is blank. -/
def linesAbove : List (Nat × List Char) :=
  (r.numbered (r.line - 1)).filter (fun (_, text) => ! text.all Text.isBlank) ++
    r.numbered r.line

/-- The line shown below the caret. -/
def linesBelow : List (Nat × List Char) := r.numbered (r.line + 1)

/-- A number, or nothing, at the right of a column, and a bar behind it. -/
def margin (width : Nat) (number : Option Nat) : List Char :=
  let digits := (number.map toString).getD "" |>.toList
  List.replicate (width - digits.length) ' ' ++ digits ++ " | ".toList

/-- `Excerpt start text shown`: what is shown of a line through a window that begins at
`start`, with dots for what is left out on either side. A line of at most 100 characters is
shown in full. -/
def Excerpt (start : Nat) (text shown : List Char) : Prop :=
  ∃ left middle right, text = left ++ middle ++ right ∧
    shown = (if left = [] then [] else "...".toList) ++ middle
      ++ (if right = [] then [] else "...".toList) ∧
    (text.length ≤ 100 → middle = text) ∧
    (100 < text.length → left = text.take start ∧ middle = (text.drop start).take 100)

/-! ## The lines shown -/

theorem numbered_succ (index : Nat) :
    r.numbered (index + 1) =
      (((Text.lines r.source.toList).zipIdx 1).map fun (text, n) => (n, text))[index]?.toList := by
  rw [numbered, sourceLine?, if_neg (Nat.succ_ne_zero index), Nat.add_sub_cancel,
    List.getElem?_map, List.getElem?_zipIdx]
  cases (Text.lines r.source.toList)[index]? with
  | none => rfl
  | some text => simp [Nat.add_comm]

/-- The context of a report is the line that it is about with its two neighbours. -/
theorem context_eq (hl : 1 ≤ r.line) :
    r.context = r.numbered (r.line - 1) ++ r.numbered r.line ++ r.numbered (r.line + 1) := by
  obtain ⟨index, hindex⟩ : ∃ index, r.line = index + 1 := ⟨r.line - 1, by omega⟩
  unfold context
  cases index with
  | zero =>
    have hfirst : r.numbered 0 = [] := rfl
    simp only [hindex, hfirst, numbered_succ]
    simp [List.take_add_one]
  | succ index =>
    simp only [hindex, Nat.add_sub_cancel, numbered_succ]
    simp [List.take_add_one, Nat.add_assoc]

theorem mem_numbered {r : Report} {number n : Nat} {text : List Char}
    (h : (n, text) ∈ r.numbered number) : n = number ∧ r.sourceLine? number = some text := by
  obtain ⟨text', htext, heq⟩ := List.mem_map.1 h
  cases heq
  exact ⟨rfl, Option.mem_toList.1 htext⟩

/-- Behind a line that does not exist there is none. -/
theorem linesBelow_eq_nil (hl : 1 ≤ r.line) (h : r.sourceLine? r.line = none) :
    r.linesBelow = [] := by
  have hbelow : r.sourceLine? (r.line + 1) = none := by
    unfold sourceLine? at h ⊢
    rw [if_neg (by omega)] at h ⊢
    rw [List.getElem?_eq_none_iff] at h ⊢
    omega
  rw [linesBelow, numbered, hbelow]
  rfl

/-- A line of the source, with the column for its number. -/
def lineRow (p : Nat × List Char) : Row :=
  r.gutter (some p.1) ++ [⟨.plain, r.shown p.2⟩]

theorem lineRows_line (text : List Char) :
    r.lineRows r.line text = [r.lineRow (r.line, text), r.indicator] := by
  simp [lineRows, lineRow]

theorem lineRows_below {number : Nat} (text : List Char) (h : r.line < number) :
    r.lineRows number text = [r.lineRow (number, text)] := by
  simp [lineRows, lineRow, Nat.not_lt_of_lt h, Nat.ne_of_gt h]

theorem lineRows_before {number : Nat} (text : List Char) (h : number < r.line) :
    r.lineRows number text =
      if text.all Text.isBlank then [] else [r.lineRow (number, text)] := by
  unfold lineRows
  cases text.all Text.isBlank with
  | true => simp [h]
  | false => simp [lineRow, Nat.ne_of_lt h]

theorem flatMap_before (hl : 1 ≤ r.line) :
    (r.numbered (r.line - 1)).flatMap (fun (number, text) => r.lineRows number text) =
      ((r.numbered (r.line - 1)).filter fun (_, text) => ! text.all Text.isBlank).map
        r.lineRow := by
  unfold numbered
  cases r.sourceLine? (r.line - 1) with
  | none => rfl
  | some text =>
    have hrows := lineRows_before r text (show r.line - 1 < r.line by omega)
    simp only [Option.toList_some, List.map_singleton, List.flatMap_singleton, hrows]
    cases hblank : text.all Text.isBlank with
    | true => simp [hblank]
    | false => simp [hblank]

theorem flatMap_below :
    r.linesBelow.flatMap (fun (number, text) => r.lineRows number text) =
      r.linesBelow.map r.lineRow := by
  unfold linesBelow numbered
  cases r.sourceLine? (r.line + 1) with
  | none => rfl
  | some text =>
    have hrows := lineRows_below r text (Nat.lt_succ_self r.line)
    simp only [Option.toList_some, List.map_singleton, List.flatMap_singleton, hrows]

theorem all_numbered_ne {number : Nat} (h : number ≠ r.line) :
    (r.numbered number).all fun (n, _) => decide (n ≠ r.line) := by
  rw [List.all_eq_true]
  intro p hp
  exact decide_eq_true ((mem_numbered hp).1 ▸ h)

/-- The caret comes last exactly if the line that it belongs to does not exist. -/
theorem all_context_ne (hl : 1 ≤ r.line) :
    (r.context.all fun (n, _) => decide (n ≠ r.line)) = (r.sourceLine? r.line).isNone := by
  have hbefore : r.line - 1 ≠ r.line := by omega
  rw [context_eq r hl, List.all_append, List.all_append, all_numbered_ne r hbefore,
    all_numbered_ne r (Nat.succ_ne_self _), Bool.true_and, Bool.and_true, numbered]
  cases r.sourceLine? r.line <;> simp

/-- Between header and trailer stand the lines, with the row of the caret among them. -/
theorem body_eq (hl : 1 ≤ r.line) :
    r.body = r.linesAbove.map r.lineRow ++ r.indicator :: r.linesBelow.map r.lineRow := by
  have hbelow : (r.numbered (r.line + 1)).flatMap
      (fun (number, text) => r.lineRows number text) = r.linesBelow.map r.lineRow :=
    flatMap_below r
  unfold body
  rw [all_context_ne r hl, context_eq r hl, List.flatMap_append, List.flatMap_append,
    flatMap_before r hl, hbelow, linesAbove, List.map_append]
  cases hline : r.sourceLine? r.line with
  | none =>
    -- no line, so none below it either, and the caret is the one at the end
    simp [numbered, hline, linesBelow_eq_nil r hl hline]
  | some text =>
    simp [numbered, hline, lineRows_line]

/-! ## What stands in the rows -/

theorem chars_gutter (number : Option Nat) :
    Row.chars (r.gutter number) = margin r.numberWidth number := by
  simp only [gutter, Row.chars_eq, margin, List.flatMap_cons, List.flatMap_nil,
    String.toList_append, String.toList_ofList, List.append_nil, String.length_toList]

/-- The number of a line that is shown leaves room for the bar only. -/
theorem length_margin (hl : 1 ≤ r.line) {number : Option Nat}
    (h : ∀ n ∈ number, ∃ p ∈ r.linesAbove ++ r.linesBelow, p.1 = n) :
    (margin r.numberWidth number).length = r.numberWidth + 3 := by
  rw [← chars_gutter]
  refine length_chars_gutter number fun n hn => ?_
  obtain ⟨⟨m, text⟩, hp, rfl⟩ := h n hn
  have shown : (m, text) ∈ r.context := by
    rw [context_eq r hl]
    rw [linesAbove, linesBelow, List.mem_append, List.mem_append] at hp
    obtain (hp | hp) | hp := hp
    · simp [(List.mem_filter.1 hp).1]
    · simp [hp]
    · simp [hp]
  exact length_toString_le_numberWidth shown

theorem hidden_of_long {text : List Char} (h : 100 < text.length) :
    r.hidden text = r.range.start.column - 51 := by
  have hlong : ¬ text.length ≤ maxWidth := Nat.not_le_of_lt h
  rw [hidden, if_neg hlong, windowStart, indent, maxWidth]
  omega

theorem hidden_of_short {text : List Char} (h : text.length ≤ 100) : r.hidden text = 0 :=
  if_pos h

/-- What is shown of a line is an excerpt of it. -/
theorem excerpt_shown (text : List Char) :
    Excerpt (r.range.start.column - 51) text (r.shown text).toList := by
  have hleft : text.take (r.hidden text) = [] ↔ ¬ 0 < r.hidden text := by
    rw [List.take_eq_nil_iff]
    obtain hlong | hshort := Nat.lt_or_ge 100 text.length
    · have hne : text ≠ [] := List.ne_nil_of_length_pos (by omega)
      simp [hne]
    · simp [hidden_of_short r hshort]
  have hright : text.drop (r.hidden text + 100) = [] ↔ ¬ r.hidden text + 100 < text.length := by
    rw [List.drop_eq_nil_iff, Nat.not_lt]
  refine ⟨text.take (r.hidden text), (text.drop (r.hidden text)).take 100,
    text.drop (r.hidden text + 100), ?split, ?shown, fun hshort => ?_, fun hlong => ?_⟩
  case split =>
    rw [List.append_assoc, ← List.drop_drop, List.take_append_drop, List.take_append_drop]
  case shown =>
    rw [shown_toList, lead, trail, ite_cond_congr (propext hleft), ite_not,
      ite_cond_congr (propext hright), ite_not]
    rfl
  · rw [hidden_of_short r hshort, List.drop_zero, List.take_of_length_le hshort]
  · rw [hidden_of_long r hlong]
    exact ⟨rfl, rfl⟩

/-- What stands in the row of the caret behind the column for the numbers. -/
def pointer : List Char :=
  List.replicate r.caretOffset ' ' ++ '^' :: List.replicate r.tildes '~' ++
    ((r.hint.map (" pista: " ++ ·)).getD "").toList

theorem chars_indicator : r.indicator.chars = margin r.numberWidth none ++ r.pointer := by
  unfold indicator pointer
  rw [Row.chars_append, Row.chars_append, chars_gutter]
  cases r.hint with
  | none => simp [Row.chars_eq]
  | some hint => simp [Row.chars_eq]

theorem chars_lineRow (p : Nat × List Char) :
    Row.chars (r.lineRow p) = margin r.numberWidth (some p.1) ++ (r.shown p.2).toList := by
  rw [lineRow, Row.chars_append, chars_gutter]
  simp [Row.chars_eq]

theorem chars_header : r.header.map Row.chars =
    [(r.category.description ++ ": " ++ r.message).toList, []] := by
  simp [header, Row.chars_eq]

theorem chars_trailer : r.trailer.map Row.chars =
    [[], ("En " ++ r.path ++ ":" ++ toString r.range.start.line ++ ":"
      ++ toString r.range.start.column).toList] := by
  simp [trailer, Row.chars_eq]

/-- Read at its line feeds, a rendering without colour consists of the header and a blank line;
the lines above the caret, the row with the caret and the line below it; and a blank line and
the trailer. What stands before the lines and the caret has one width, and each line is shown
as an excerpt of it. Where the line that the report is about does not exist, nothing follows
the caret. -/
theorem rendered_rows (hl : 1 ≤ r.line) (hmessage : '\n' ∉ r.message.toList)
    (hhint : ∀ hint ∈ r.hint, '\n' ∉ hint.toList) (hpath : '\n' ∉ r.path.toList) :
    ∃ (width spaces tildes : Nat) (excerpt : List Char → List Char),
      (r.render false).toList.splitOn '\n' =
        [(r.category.description ++ ": " ++ r.message).toList, []]
        ++ (r.linesAbove.map fun (n, text) => margin width (some n) ++ excerpt text)
        ++ [margin width none ++ List.replicate spaces ' ' ++ '^' :: List.replicate tildes '~'
          ++ ((r.hint.map (" pista: " ++ ·)).getD "").toList]
        ++ (r.linesBelow.map fun (n, text) => margin width (some n) ++ excerpt text)
        ++ [[], ("En " ++ r.path ++ ":" ++ toString r.range.start.line ++ ":"
          ++ toString r.range.start.column).toList, []] ∧
      (∀ text, Excerpt (r.range.start.column - 51) text (excerpt text)) ∧
      (margin width none).length = width + 3 ∧
      (∀ p ∈ r.linesAbove ++ r.linesBelow, (margin width (some p.1)).length = width + 3) ∧
      (r.sourceLine? r.line = none → r.linesBelow = []) := by
  refine ⟨r.numberWidth, r.caretOffset, r.tildes, fun text => (r.shown text).toList, ?rows,
    r.excerpt_shown, r.length_margin hl (by simp), fun p hp => r.length_margin hl ?_,
    r.linesBelow_eq_nil hl⟩
  case rows =>
    rw [render, splitOn_join (unbroken_of_mem_rows hmessage hhint hpath), rows, body_eq r hl]
    have hlines (lines : List (Nat × List Char)) : (lines.map r.lineRow).map Row.chars =
        lines.map fun (n, text) => margin r.numberWidth (some n) ++ (r.shown text).toList := by
      rw [List.map_map]
      exact List.map_congr_left fun p _ => r.chars_lineRow p
    simp only [List.map_append, List.map_cons, hlines, chars_indicator, chars_header,
      chars_trailer, pointer]
    simp
  · rintro n ⟨⟩
    exact ⟨p, hp, rfl⟩

/-- A blank line is not shown before the line of a report, and the rows are numbered as
they are in the source. -/
theorem rendered_rows_afterBlank :
    let r : Report := ⟨.type, "m", some "h", ⟨⟨2, 2, 1⟩, ⟨3, 2, 2⟩⟩, "p", " \nx = 2;\ny"⟩
    ∃ (width spaces tildes : Nat) (excerpt : List Char → List Char),
      (r.render false).toList.splitOn '\n' =
        ["Error de tipo: m".toList, [], margin width (some 2) ++ excerpt "x = 2;".toList,
          margin width none ++ List.replicate spaces ' ' ++ '^' :: List.replicate tildes '~'
            ++ " pista: h".toList,
          margin width (some 3) ++ excerpt "y".toList, [], "En p:2:1".toList, []] ∧
      Excerpt 0 "x = 2;".toList (excerpt "x = 2;".toList) := by
  intro r
  have habove : r.linesAbove = [(2, "x = 2;".toList)] := by decide +kernel
  have hbelow : r.linesBelow = [(3, "y".toList)] := by decide +kernel
  obtain ⟨width, spaces, tildes, excerpt, hrows, hexcerpt, -⟩ := rendered_rows r (by decide)
    (by decide +kernel) (by rintro _ ⟨⟩; decide +kernel) (by decide +kernel)
  refine ⟨width, spaces, tildes, excerpt, ?_, hexcerpt _⟩
  rw [hrows, habove, hbelow]
  have hheader : (r.category.description ++ ": " ++ r.message).toList =
      "Error de tipo: m".toList := by decide +kernel
  have htrailer : ("En " ++ r.path ++ ":" ++ toString r.range.start.line ++ ":"
      ++ toString r.range.start.column).toList = "En p:2:1".toList := by decide +kernel
  have hhint : ((r.hint.map (" pista: " ++ ·)).getD "").toList = " pista: h".toList := by
    decide +kernel
  rw [hheader, htrailer, hhint]
  rfl

end Report

end Guion
