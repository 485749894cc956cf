import Guion.Report.Basic
import Mathlib.Data.List.Basic

/-!
# Where the caret stands

A report shows the line it is about, and below it a row with a caret. The window of
a long line and the place of the caret are computed apart from each other. Here a
rendering is taken apart at its line feeds: the row of the line is what stands
before the first character of the range and what stands from there on, and the
caret of the next row is compared with that place.

The two agree on every line that is shown through a window. On a line that is shown
in full the caret is still placed as if there were a window, so it is off as soon as
the column is far enough to the right for a window to hide something.
-/

namespace Guion

/-! ## Rows of text without line feeds -/

/-- The characters of a row without colour. -/
def Row.chars (row : Row) : List Char := (Row.render false row).toList

/-- Without colour a row is the texts of its pieces. -/
theorem Row.chars_eq (row : Row) : row.chars = row.flatMap (·.text.toList) := by
  simp only [Row.chars, Row.render, String.toList_join, List.flatMap_map]
  rfl

@[simp] theorem Row.chars_append (row row' : Row) :
    Row.chars (row ++ row') = row.chars ++ row'.chars := by
  simp [Row.chars_eq]

/-- A row that stays on one line. -/
def Row.Unbroken (row : Row) : Prop := ∀ piece ∈ row, '\n' ∉ piece.text.toList

theorem Row.Unbroken.notMem_chars {row : Row} (h : row.Unbroken) : '\n' ∉ row.chars := by
  rw [Row.chars_eq, List.mem_flatMap]
  rintro ⟨piece, hpiece, hmem⟩
  exact h piece hpiece hmem

/-- A piece without control characters. -/
def Piece.Printable (piece : Piece) : Prop := ∀ c ∈ piece.text.toList, ' ' ≤ c

theorem Piece.printable_of_all {piece : Piece} (h : piece.text.toList.all (' ' ≤ ·)) :
    piece.Printable :=
  fun c hc => of_decide_eq_true (List.all_eq_true.mp h c hc)

theorem Text.newline_notMem_of_mem_linesFrom {line : List Char} :
    ∀ {read text : List Char}, '\n' ∉ read → line ∈ Text.linesFrom read text → '\n' ∉ line
  | read, [], hread, h => by
    rw [Text.linesFrom] at h
    split at h
    · cases h
    · rw [List.mem_singleton.1 h]
      simpa using hread
  | read, c :: rest, hread, h => by
    rw [Text.linesFrom.eq_def] at h
    split at h
    case h_1 hnil => cases hnil
    case h_2 rest' hcons =>
      cases hcons
      obtain rfl | h := List.mem_cons.1 h
      · unfold Text.dropReturn
        split
        · exact fun hmem => hread (List.mem_reverse.1 ((List.dropLast_sublist _).subset hmem))
        · simpa using hread
      · exact newline_notMem_of_mem_linesFrom (List.not_mem_nil) h
    case h_3 c' rest' hne hcons =>
      cases hcons
      refine newline_notMem_of_mem_linesFrom (fun hmem => ?_) h
      obtain rfl | hmem := List.mem_cons.1 hmem
      · exact hne rfl
      · exact hread hmem

/-- Lines hold no line feed. -/
theorem Text.newline_notMem_of_mem_lines {line text : List Char} (h : line ∈ Text.lines text) :
    '\n' ∉ line :=
  newline_notMem_of_mem_linesFrom List.not_mem_nil h

theorem le_of_mem_toDigits {n : Nat} {c : Char} (h : c ∈ Nat.toDigits 10 n) : ' ' ≤ c := by
  have hdigit := Nat.isDigit_of_mem_toDigits (by decide) (by decide) h
  rw [Char.isDigit, Bool.and_eq_true, decide_eq_true_eq] at hdigit
  exact Nat.le_trans (by decide) hdigit.1

theorem le_of_mem_replicate {n : Nat} {c x : Char} (hc : ' ' ≤ c)
    (h : x ∈ List.replicate n c) : ' ' ≤ x := by
  rwa [List.eq_of_mem_replicate h]

@[simp] theorem newline_notMem_toDigits (n : Nat) : '\n' ∉ Nat.toDigits 10 n := fun h =>
  absurd (le_of_mem_toDigits h) (by decide)

theorem length_toString_le {m n : Nat} (h : m ≤ n) :
    (toString m).length ≤ (toString n).length := by
  simp only [Nat.toString_eq_repr]
  have hn : n < 10 ^ n.repr.length :=
    (Nat.length_repr_le_iff Nat.length_repr_pos).1 (Nat.le_refl _)
  exact (Nat.length_repr_le_iff Nat.length_repr_pos).2 (Nat.lt_of_le_of_lt h hn)

namespace Report

variable (r : Report)

/-! ## The lines shown -/

/-- The lines shown are the lines of the source, by number. -/
theorem context_getElem? (i : Nat) :
    r.context[i]? = if i < r.line + 2 - max (r.line - 1) 1 then
      (Text.lines r.source.toList)[max (r.line - 1) 1 - 1 + i]?.map
        fun text => (max (r.line - 1) 1 + i, text)
      else none := by
  unfold context
  have hfirst : 1 + (max (r.line - 1) 1 - 1 + i) = max (r.line - 1) 1 + i := by omega
  simp only [List.getElem?_take, List.getElem?_drop, List.getElem?_map, List.getElem?_zipIdx,
    Option.map_map, Function.comp_def, hfirst]

theorem mem_lines_of_mem_context {n : Nat} {text : List Char} (h : (n, text) ∈ r.context) :
    text ∈ Text.lines r.source.toList := by
  obtain ⟨i, hi⟩ := List.getElem?_of_mem h
  rw [context_getElem?] at hi
  split at hi
  · obtain ⟨_, hline, heq⟩ := Option.map_eq_some_iff.1 hi
    cases heq
    exact List.mem_of_getElem? hline
  · cases hi

variable {r} {text : List Char}

/-- A line that exists is among the lines shown. -/
theorem context_of_line (hl : 1 ≤ r.line)
    (hline : (Text.lines r.source.toList)[r.line - 1]? = some text) :
    r.context[r.line - max (r.line - 1) 1]? = some (r.line, text) := by
  have hindex : max (r.line - 1) 1 - 1 + (r.line - max (r.line - 1) 1) = r.line - 1 := by omega
  have hnumber : max (r.line - 1) 1 + (r.line - max (r.line - 1) 1) = r.line := by omega
  rw [context_getElem?, if_pos (by omega), hindex, hline, Option.map_some, hnumber]

/-- The numbers of the lines shown fit into the column of numbers. -/
theorem length_toString_le_numberWidth {n : Nat} (h : (n, text) ∈ r.context) :
    (toString n).length ≤ r.numberWidth := by
  obtain ⟨i, hi⟩ := List.getElem?_of_mem h
  have hlt := (List.getElem?_eq_some_iff.1 hi).1
  obtain ⟨⟨last, text'⟩, hlast⟩ : ∃ p, r.context.getLast? = some p := by
    cases hlast : r.context.getLast? with
    | none => simp [List.getLast?_eq_none_iff.1 hlast] at hlt
    | some p => exact ⟨p, rfl⟩
  -- the numbers ascend, so the last one is the largest
  have hle : n ≤ last := by
    have hend := List.getLast?_eq_getElem? ▸ hlast
    rw [context_getElem?] at hi hend
    split at hi
    · split at hend
      · obtain ⟨_, _, heq⟩ := Option.map_eq_some_iff.1 hi
        obtain ⟨_, _, hend⟩ := Option.map_eq_some_iff.1 hend
        cases heq
        cases hend
        omega
      · cases hend
    · cases hi
  simpa [numberWidth, hlast] using length_toString_le hle

/-! ## The row of the line and the one below it -/

variable (r text) in
/-- How many characters of a line are hidden on the left where it is shown. -/
def hidden : Nat := if text.length ≤ maxWidth then 0 else r.windowStart

variable (r text) in
/-- What stands for the characters hidden on the left. -/
def lead : List Char := if 0 < r.hidden text then dots.toList else []

variable (r text) in
/-- What stands for the characters hidden on the right. -/
def trail : List Char := if r.hidden text + maxWidth < text.length then dots.toList else []

variable (r text) in
/-- The row of the line up to the first character of the range. -/
def before : List Char :=
  Row.chars (r.gutter (some r.line)) ++ r.lead text ++ (text.take r.indent).drop (r.hidden text)

variable (r text) in
/-- The row of the line from the first character of the range on. -/
def behind : List Char :=
  (text.drop r.indent).take (maxWidth - (r.indent - r.hidden text)) ++ r.trail text

theorem shown_toList :
    (r.shown text).toList = r.lead text ++ (text.drop (r.hidden text)).take maxWidth
      ++ r.trail text := by
  unfold shown lead trail hidden
  split
  case isTrue h => simp [List.take_of_length_le h, Nat.not_lt.2 h]
  case isFalse h => split <;> split <;> simp

theorem hidden_le_indent : r.hidden text ≤ r.indent := by
  unfold hidden windowStart
  split <;> omega

theorem indent_sub_hidden_le (hc : r.indent ≤ text.length) :
    r.indent - r.hidden text ≤ maxWidth := by
  unfold hidden windowStart
  split <;> simp only [maxWidth] at * <;> omega

/-- What is shown of a line, divided at the first character of the range. -/
theorem window_eq (hc : r.indent ≤ text.length) :
    (text.drop (r.hidden text)).take maxWidth = (text.take r.indent).drop (r.hidden text)
      ++ (text.drop r.indent).take (maxWidth - (r.indent - r.hidden text)) := by
  have hlength : ((text.take r.indent).drop (r.hidden text)).length = r.indent - r.hidden text := by
    simp [Nat.min_eq_left hc]
  have hdrop : text.drop (r.hidden text) =
      (text.take r.indent).drop (r.hidden text) ++ text.drop r.indent := by
    have hle : r.hidden text ≤ (text.take r.indent).length := by
      simpa [Nat.min_eq_left hc] using hidden_le_indent
    rw [← List.drop_append_of_le_length hle, List.take_append_drop]
  rw [hdrop, List.take_append, hlength, List.take_of_length_le]
  rw [hlength]
  exact indent_sub_hidden_le hc

/-- The row of the line is what stands before the first character of the range and
what stands from there on. -/
theorem before_append_behind (hc : r.indent ≤ text.length) :
    r.before text ++ r.behind text =
      Row.chars (r.gutter (some r.line) ++ [⟨.plain, r.shown text⟩]) := by
  have hshown : Row.chars [⟨.plain, r.shown text⟩] = (r.shown text).toList := by
    simp [Row.chars_eq]
  rw [Row.chars_append, hshown, shown_toList, window_eq hc]
  simp [before, behind]

/-- From the first character of the range on, the row shows that character. -/
theorem behind_head? (hc : r.indent < text.length) :
    (r.behind text).head? = text[r.indent]? := by
  have hroom : 0 < maxWidth - (r.indent - r.hidden text) := by
    unfold hidden windowStart
    split <;> simp only [maxWidth] at * <;> omega
  rw [behind, List.drop_eq_getElem_cons hc, List.getElem?_eq_getElem hc,
    List.take_cons hroom]
  rfl

/-- Where the range starts behind the last character, the row ends there. -/
theorem behind_eq_nil (hc : r.indent = text.length) : r.behind text = [] := by
  have htrail : ¬ r.hidden text + maxWidth < text.length := by
    unfold hidden windowStart
    split <;> simp only [maxWidth] at * <;> omega
  simp [behind, trail, hc, htrail]

/-- What stands before the lines has one width. -/
theorem length_chars_gutter (number : Option Nat)
    (h : ∀ n ∈ number, (toString n).length ≤ r.numberWidth) :
    (Row.chars (r.gutter number)).length = r.numberWidth + 3 := by
  have hpad : ((number.map toString).getD "").length ≤ r.numberWidth := by
    cases number with
    | none => simp
    | some n => simpa using h n rfl
  simp only [gutter, Row.chars_eq, List.flatMap_cons, List.flatMap_nil, String.toList_append,
    String.toList_ofList, List.length_append, List.length_replicate, String.length_toList,
    List.append_nil, Nat.sub_add_cancel hpad]
  rfl

theorem caret_notMem_gutter : '^' ∉ Row.chars (r.gutter none) := by
  simp [gutter, Row.chars_eq]

/-- The place of the caret in its row. -/
theorem indicator_idxOf_caret :
    '^' ∈ r.indicator.chars ∧
      r.indicator.chars.idxOf '^' = r.numberWidth + 3 + r.caretOffset := by
  obtain ⟨rest, hrest⟩ : ∃ rest, r.indicator.chars =
      Row.chars (r.gutter none) ++ (List.replicate r.caretOffset ' ' ++ '^' :: rest) :=
    ⟨_, by simp [indicator, Row.chars_eq]; rfl⟩
  have hspaces : '^' ∉ List.replicate r.caretOffset ' ' := by simp
  refine ⟨by simp [hrest], ?_⟩
  rw [hrest, List.idxOf_append, if_neg caret_notMem_gutter, List.idxOf_append, if_neg hspaces,
    List.idxOf_cons_self, length_chars_gutter none (by simp), List.length_replicate]
  omega

/-- The place of the first character of the range in the row of the line. -/
theorem length_before (hl : 1 ≤ r.line)
    (hline : (Text.lines r.source.toList)[r.line - 1]? = some text)
    (hc : r.indent ≤ text.length) :
    (r.before text).length = r.numberWidth + 3
      + ((r.lead text).length + (r.indent - r.hidden text)) := by
  have hwidth : (toString r.line).length ≤ r.numberWidth :=
    length_toString_le_numberWidth (List.mem_of_getElem? (context_of_line hl hline))
  have hgutter := length_chars_gutter (some r.line) (by simpa using hwidth)
  simp [before, hgutter, Nat.min_eq_left hc, Nat.add_assoc]

/-- The caret is displaced on a line shown in full whose column is beyond the first
half of a window, but for the column where the dots, counted although there are none,
make up for what is taken away although nothing is hidden. -/
theorem caretOffset_eq_iff (hc : 1 ≤ r.range.start.column) :
    r.caretOffset = (r.lead text).length + (r.indent - r.hidden text) ↔
      maxWidth < text.length ∨ r.range.start.column ≤ maxWidth / 2 + 1
        ∨ r.range.start.column = maxWidth / 2 + 1 + dots.length := by
  have hdots : dots.length = 3 := rfl
  have hdots' : dots.toList.length = 3 := rfl
  simp only [caretOffset, lead, hidden, windowStart, indent, maxWidth, hdots]
  by_cases hshort : text.length ≤ 100
  · simp only [hshort, if_true, Nat.lt_irrefl, if_false, List.length_nil]
    split <;> omega
  · simp only [hshort, if_false]
    split <;> simp only [hdots', List.length_nil] <;> omega

/-! ## The rows of a rendering -/

section Pieces

variable {P : Piece → Prop} (fixed : ∀ piece : Piece, piece.Printable → P piece)
include fixed

theorem forall_gutter (number : Option Nat) : ∀ piece ∈ r.gutter number, P piece := by
  intro piece hpiece
  obtain rfl | rfl : piece = _ ∨ piece = _ := by simpa only [gutter, List.mem_cons,
    List.not_mem_nil, or_false] using hpiece
  · refine fixed _ fun c hc => ?_
    rw [String.toList_append, String.toList_ofList, List.mem_append] at hc
    obtain hspace | hdigit := hc
    · exact le_of_mem_replicate (by decide) hspace
    · cases number with
      | none => cases hdigit
      | some n => exact le_of_mem_toDigits (by simpa using hdigit)
  · exact fixed _ (Piece.printable_of_all (by decide))

theorem forall_indicator (hint : ∀ hint ∈ r.hint, P ⟨.boldRed, "pista: " ++ hint⟩) :
    ∀ piece ∈ r.indicator, P piece := by
  intro piece hpiece
  obtain (hpiece | hpiece) | hpiece : (piece ∈ r.gutter none ∨ _) ∨ _ := by
    simpa only [indicator, List.mem_append] using hpiece
  · exact forall_gutter fixed none piece hpiece
  · simp only [List.mem_cons, List.not_mem_nil, or_false] at hpiece
    obtain rfl | rfl | rfl := hpiece
    · exact fixed _ fun c hc => le_of_mem_replicate (by decide) (String.toList_ofList ▸ hc)
    · exact fixed _ (Piece.printable_of_all (by decide))
    · exact fixed _ fun c hc => le_of_mem_replicate (by decide) (String.toList_ofList ▸ hc)
  · split at hpiece
    · next text hsome =>
      simp only [List.mem_cons, List.not_mem_nil, or_false] at hpiece
      obtain rfl | rfl := hpiece
      · exact fixed _ (Piece.printable_of_all (by decide))
      · exact hint text (by simp [hsome])
    · cases hpiece

theorem forall_lineRows (hint : ∀ hint ∈ r.hint, P ⟨.boldRed, "pista: " ++ hint⟩)
    {number : Nat} (shown : P ⟨.plain, r.shown text⟩) :
    ∀ row ∈ r.lineRows number text, ∀ piece ∈ row, P piece := by
  intro row hrow
  unfold lineRows at hrow
  split at hrow
  · cases hrow
  · obtain rfl | hrow := List.mem_cons.1 hrow
    · intro piece hpiece
      obtain hpiece | hpiece := List.mem_append.1 hpiece
      · exact forall_gutter fixed _ piece hpiece
      · obtain rfl := List.mem_singleton.1 hpiece
        exact shown
    · split at hrow
      · obtain rfl := List.mem_singleton.1 hrow
        exact forall_indicator fixed hint
      · cases hrow

/-- What holds of printable pieces holds of all pieces of a report if it holds of those
that come from outside: the message, the hint, the path and the lines of the source. -/
theorem forall_piece (message : P ⟨.bold, r.message⟩)
    (hint : ∀ hint ∈ r.hint, P ⟨.boldRed, "pista: " ++ hint⟩)
    (path : P ⟨.plain, "En " ++ r.path ++ ":" ++ toString r.range.start.line ++ ":"
      ++ toString r.range.start.column⟩)
    (shown : ∀ text ∈ Text.lines r.source.toList, P ⟨.plain, r.shown text⟩) :
    ∀ row ∈ r.rows, ∀ piece ∈ row, P piece := by
  simp only [rows, body, List.forall_mem_append]
  refine ⟨⟨?header, ?lines, ?caret⟩, ?trailer⟩
  case header =>
    have hcategory : P ⟨.boldRed, r.category.description⟩ := by
      refine fixed _ (Piece.printable_of_all ?_)
      cases r.category <;> decide
    have hcolon : P ⟨.plain, ": "⟩ := fixed _ (Piece.printable_of_all (by decide))
    simp [header, hcategory, hcolon, message]
  case lines =>
    intro row hrow
    obtain ⟨⟨number, text⟩, hmem, hrow⟩ := List.mem_flatMap.1 hrow
    exact forall_lineRows fixed hint (shown text (mem_lines_of_mem_context r hmem)) row hrow
  case caret =>
    split
    · simpa using forall_indicator fixed hint
    · simp
  case trailer =>
    simpa [trailer] using path

end Pieces

/-- A line is shown with its own characters and dots. -/
theorem mem_of_mem_shown {c : Char} (h : c ∈ (r.shown text).toList) :
    c ∈ text ∨ c ∈ dots.toList := by
  have hdots (condition : Prop) [Decidable condition]
      (h : c ∈ if condition then dots.toList else []) : c ∈ dots.toList := by
    split at h
    · exact h
    · cases h
  rw [shown_toList, List.mem_append, List.mem_append] at h
  obtain (hlead | hwindow) | htrail := h
  · exact .inr (hdots _ hlead)
  · exact .inl (List.mem_of_mem_drop (List.mem_of_mem_take hwindow))
  · exact .inr (hdots _ htrail)

/-- Every row of a report stays on its line. -/
theorem unbroken_of_mem_rows (hmessage : '\n' ∉ r.message.toList)
    (hhint : ∀ hint ∈ r.hint, '\n' ∉ hint.toList) (hpath : '\n' ∉ r.path.toList) :
    ∀ row ∈ r.rows, row.Unbroken := by
  refine forall_piece (fun piece hpiece hmem => absurd (hpiece _ hmem) (by decide)) hmessage
    (fun hint hsome => ?hint) ?path fun line hline hmem => ?shown
  case hint => simpa using hhint hint hsome
  case path => simp [hpath]
  case shown =>
    obtain hmem | hmem := mem_of_mem_shown hmem
    · exact Text.newline_notMem_of_mem_lines hline hmem
    · revert hmem
      decide

/-- Unbroken rows are read off a text where it is divided at its line feeds. -/
theorem splitOn_join {rows : List Row} (h : ∀ row ∈ rows, row.Unbroken) :
    (String.join (rows.map fun row => Row.render false row ++ "\n")).toList.splitOn '\n' =
      rows.map Row.chars ++ [[]] := by
  induction rows with
  | nil => rfl
  | cons row rows ih =>
    rw [List.forall_mem_cons] at h
    have hjoin : (String.join ((row :: rows).map fun row => Row.render false row ++ "\n")).toList =
        row.chars ++ '\n' ::
          (String.join (rows.map fun row => Row.render false row ++ "\n")).toList := by
      simp [String.toList_join, Row.chars]
    rw [hjoin, List.splitOn_append_cons_self_of_not_mem h.1.notMem_chars, ih h.2]
    rfl

/-- The row of the line and the one with the caret are next to each other. -/
theorem rows_eq (hl : 1 ≤ r.line)
    (hline : (Text.lines r.source.toList)[r.line - 1]? = some text) :
    ∃ above below, r.rows =
      above ++ (r.gutter (some r.line) ++ [⟨.plain, r.shown text⟩]) :: r.indicator :: below := by
  obtain ⟨hlt, hget⟩ := List.getElem?_eq_some_iff.1 (context_of_line hl hline)
  have hcontext := List.take_append_drop (r.line - max (r.line - 1) 1) r.context
  rw [List.drop_eq_getElem_cons hlt, hget] at hcontext
  have hrows : r.lineRows r.line text =
      [r.gutter (some r.line) ++ [⟨.plain, r.shown text⟩], r.indicator] := by
    simp [lineRows]
  unfold rows body
  rw [← hcontext, List.flatMap_append, List.flatMap_cons]
  dsimp only
  rw [hrows]
  simp only [List.append_assoc, List.cons_append, List.nil_append]
  exact ⟨r.header ++ _, _, (List.append_assoc _ _ _).symm⟩

/-- The caret stands under the first character of the range if the line is shown through a
window, and on a line shown in full up to the column where a window would begin to hide
something (and at one column behind it).

The rendering, read at its line feeds, has a row with what `before` and `behind` show
of the line, and right below it the row with the caret. The first character of the
range is the first one of `behind`, or the row ends there if the range starts behind
the last character of the line. -/
theorem caret_under_start_iff (hl : 1 ≤ r.line)
    (hline : (Text.lines r.source.toList)[r.line - 1]? = some text)
    (hc : 1 ≤ r.range.start.column) (hc' : r.range.start.column ≤ text.length + 1)
    (hmessage : '\n' ∉ r.message.toList) (hhint : ∀ hint ∈ r.hint, '\n' ∉ hint.toList)
    (hpath : '\n' ∉ r.path.toList) :
    (∃ above below, (r.render false).toList.splitOn '\n' =
      above ++ (r.before text ++ r.behind text) :: r.indicator.chars :: below) ∧
    (r.behind text).head? = text[r.range.start.column - 1]? ∧
    '^' ∈ r.indicator.chars ∧
    (r.indicator.chars.idxOf '^' = (r.before text).length ↔
      100 < text.length ∨ r.range.start.column ≤ 51 ∨ r.range.start.column = 54) := by
  have hindent : r.indent ≤ text.length := by
    unfold indent
    omega
  obtain ⟨hmem, hidx⟩ := r.indicator_idxOf_caret
  refine ⟨?rows, ?char, hmem, ?place⟩
  case rows =>
    obtain ⟨above, below, hrows⟩ := rows_eq hl hline
    refine ⟨above.map Row.chars, below.map Row.chars ++ [[]], ?_⟩
    rw [render, splitOn_join (unbroken_of_mem_rows hmessage hhint hpath), hrows,
      before_append_behind hindent]
    simp
  case char =>
    obtain hlt | heq := Nat.lt_or_eq_of_le hindent
    · exact behind_head? hlt
    · rw [behind_eq_nil heq]
      simp [indent] at heq
      simp [heq]
  case place =>
    rw [hidx, length_before hl hline hindent, Nat.add_left_cancel_iff]
    exact caretOffset_eq_iff hc

/-- The caret of a reassigned constant stands under its name. -/
theorem caret_under_start_iff_reassignment :
    let r : Report := ⟨.type, "No se puede reasignar la constante `x`", none,
      ⟨⟨13, 2, 1⟩, ⟨14, 2, 2⟩⟩, "prueba.par", "const x = 1;\nx = 2;\nimprimir(x);"⟩
    (∃ above below, (r.render false).toList.splitOn '\n' =
      above ++ (r.before "x = 2;".toList ++ r.behind "x = 2;".toList)
        :: r.indicator.chars :: below) ∧
    r.indicator.chars.idxOf '^' = (r.before "x = 2;".toList).length := by
  intro r
  have hline : (Text.lines r.source.toList)[r.line - 1]? = some "x = 2;".toList := by
    decide +kernel
  obtain ⟨hrows, -, -, hplace⟩ := caret_under_start_iff (by decide) hline (by decide)
    (by decide) (by decide +kernel) (by rintro _ ⟨⟩) (by decide +kernel)
  exact ⟨hrows, hplace.2 (.inr (.inl (by decide)))⟩

/-- A line of sixty letters is shown in full, and the caret for its last letter stands
six places left of it. -/
theorem caret_displaced_on_full_line :
    let text := List.replicate 60 'a'
    let r : Report := ⟨.internal, "x", none, ⟨⟨59, 1, 60⟩, ⟨60, 1, 61⟩⟩, "prueba.par",
      String.ofList text⟩
    (r.render false).toList.splitOn '\n' =
      ["Error interno: x".toList, [], "1 | ".toList ++ text,
        "  | ".toList ++ List.replicate 53 ' ' ++ ['^'], [], "En prueba.par:1:60".toList, []] ∧
    r.before text ++ r.behind text = "1 | ".toList ++ text ∧
    (r.before text).length = 63 ∧ r.indicator.chars.idxOf '^' = 57 := by
  decide +kernel

end Report

end Guion
