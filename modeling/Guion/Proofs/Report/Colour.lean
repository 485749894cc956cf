import Guion.Proofs.Report.Caret

/-!
# Colour

With colour a painted piece of a row stands between a sequence that opens its paint and
the one that ends it. A terminal takes the sequences out of what it reads and shows the
rest: this is what is written without colour. A paint is always ended before another one
is opened, and if nothing that is painted holds a line feed, it is ended on its line.
-/

namespace Guion

/-! ## What a terminal reads -/

/-- A character to show, or a sequence that changes the paint. -/
inductive Mark where
  | char (c : Char)
  | sequence (codes : List Char)
  deriving DecidableEq

/-- The codes of a sequence are numbers with semicolons between them. -/
def Mark.isCode (c : Char) : Bool := c.isDigit || c = ';'

/-- The codes of the sequence that a text begins with, and the text behind it. -/
def Mark.split? : List Char → Option (List Char × List Char)
  | '\x1b' :: '[' :: text =>
    match text.dropWhile isCode with
    | 'm' :: rest => some (text.takeWhile isCode, rest)
    | _ => none
  | _ => none

theorem Mark.eq_of_split? {text codes rest : List Char}
    (h : split? text = some (codes, rest)) : text = '\x1b' :: '[' :: codes ++ 'm' :: rest := by
  unfold split? at h
  split at h
  · rename_i inner
    split at h
    · rename_i hdrop
      cases h
      rw [← hdrop, List.cons_append, List.cons_append, List.takeWhile_append_dropWhile]
    · cases h
  · cases h

theorem Mark.length_lt_of_split? {text codes rest : List Char}
    (h : split? text = some (codes, rest)) : rest.length < text.length := by
  rw [eq_of_split? h]
  simp only [List.cons_append, List.length_cons, List.length_append]
  omega

/-- What a terminal reads in a text. -/
def marks (text : List Char) : List Mark :=
  match text with
  | [] => []
  | c :: behind =>
    match _ : Mark.split? (c :: behind) with
    | some (codes, rest) => .sequence codes :: marks rest
    | none => .char c :: marks behind
termination_by text.length
decreasing_by
  · exact Mark.length_lt_of_split? ‹_›
  · exact Nat.lt_succ_self _

/-- The character that is shown, if there is one. -/
def Mark.shown? : Mark → Option Char
  | .char c => some c
  | .sequence _ => none

/-- A text without the sequences in it. -/
def withoutSequences (text : List Char) : List Char := (marks text).filterMap Mark.shown?

theorem marks_nil : marks [] = [] := by
  rw [marks]

theorem marks_cons_of_ne {c : Char} (h : c ≠ '\x1b') (rest : List Char) :
    marks (c :: rest) = .char c :: marks rest := by
  have hnone : Mark.split? (c :: rest) = none := by
    unfold Mark.split?
    split
    · next heq => exact absurd (List.cons.inj heq).1 h
    · rfl
  rw [marks]
  split
  · next hsome =>
    rw [hnone] at hsome
    cases hsome
  · rfl

/-- Text without the escape character is read as it is. -/
theorem marks_append {text : List Char} (h : '\x1b' ∉ text) (rest : List Char) :
    marks (text ++ rest) = text.map .char ++ marks rest := by
  induction text with
  | nil => rfl
  | cons c text ih =>
    rw [List.mem_cons, not_or] at h
    rw [List.cons_append, marks_cons_of_ne (Ne.symm h.1), ih h.2]
    rfl

/-- A sequence is read as such, whatever follows it. -/
theorem marks_sequence {codes : List Char} (h : ∀ c ∈ codes, Mark.isCode c) (rest : List Char) :
    marks ('\x1b' :: '[' :: codes ++ 'm' :: rest) = .sequence codes :: marks rest := by
  have hstop : Mark.isCode 'm' = false := by decide
  have hsplit : Mark.split? ('\x1b' :: '[' :: codes ++ 'm' :: rest) = some (codes, rest) := by
    simp [Mark.split?, List.dropWhile_append_of_pos h, List.takeWhile_append_of_pos h, hstop]
  rw [List.cons_append, marks]
  split
  · next hsome =>
    rw [← List.cons_append, hsplit] at hsome
    cases hsome
    rfl
  · next hnone =>
    rw [← List.cons_append, hsplit] at hnone
    cases hnone

/-! ## Painted pieces -/

/-- What is read of a piece with colour. -/
def Piece.marks (piece : Piece) : List Mark :=
  match piece.paint.codes? with
  | none => piece.text.toList.map .char
  | some codes => .sequence codes.toList :: piece.text.toList.map .char ++ [.sequence ['0']]

/-- A piece that cannot be taken for a sequence. -/
def Piece.Clean (piece : Piece) : Prop := '\x1b' ∉ piece.text.toList

/-- Without a reset in it, a text needs no paint to be opened again. -/
theorem Paint.reopen_of_clean {opening text : List Char} (h : '\x1b' ∉ text) :
    Paint.reopen opening text = text := by
  induction text with
  | nil => rfl
  | cons c text ih =>
    rw [List.mem_cons, not_or] at h
    unfold Paint.reopen
    split
    · next heq => exact absurd (List.cons.inj heq).1.symm h.1
    · next heq =>
      cases heq
      rw [ih h.2]
    · next heq => cases heq

theorem Paint.isCode_of_codes? {paint : Paint} {codes : String} (h : paint.codes? = some codes) :
    codes ≠ "0" ∧ ∀ c ∈ codes.toList, Mark.isCode c := by
  have valid : codes ≠ "0" ∧ codes.toList.all Mark.isCode := by
    cases paint <;> cases h <;> decide
  exact ⟨valid.1, List.all_eq_true.mp valid.2⟩

/-- A painted piece is its text between the two sequences. -/
theorem Piece.render_painted {piece : Piece} {codes : String} (clean : piece.Clean)
    (h : piece.paint.codes? = some codes) :
    (piece.render true).toList =
      '\x1b' :: '[' :: codes.toList ++ 'm' :: (piece.text.toList ++ "\x1b[0m".toList) := by
  have hrender : piece.render true = Paint.opening codes ++
      String.ofList (Paint.reopen (Paint.opening codes).toList piece.text.toList) ++
        Paint.reset := by
    simp only [render, h]
  rw [hrender]
  simp [Paint.opening, Paint.reset, Paint.reopen_of_clean clean]

theorem marks_piece {piece : Piece} (clean : piece.Clean) (rest : List Char) :
    marks ((piece.render true).toList ++ rest) = piece.marks ++ marks rest := by
  unfold Piece.marks
  cases h : piece.paint.codes? with
  | none =>
    have plain : piece.render true = piece.text := by simp only [Piece.render, h]
    rw [plain, marks_append clean]
  | some codes =>
    have zero : ∀ c ∈ ['0'], Mark.isCode c := List.forall_mem_singleton.mpr (by decide)
    have hreset (rest : List Char) : marks ("\x1b[0m".toList ++ rest) =
        .sequence ['0'] :: marks rest := marks_sequence zero rest
    have hcodes := (Paint.isCode_of_codes? h).2
    have hsplit : (piece.render true).toList ++ rest = '\x1b' :: '[' :: codes.toList ++
        'm' :: (piece.text.toList ++ ("\x1b[0m".toList ++ rest)) := by
      rw [Piece.render_painted clean h]
      simp
    rw [hsplit, marks_sequence hcodes, marks_append clean, hreset]
    simp

theorem marks_row {row : Row} (clean : ∀ piece ∈ row, piece.Clean) (rest : List Char) :
    marks ((Row.render true row).toList ++ rest) = row.flatMap Piece.marks ++ marks rest := by
  induction row with
  | nil => rfl
  | cons piece row ih =>
    rw [List.forall_mem_cons] at clean
    have hcons : (Row.render true (piece :: row)).toList =
        (piece.render true).toList ++ (Row.render true row).toList := by
      simp [Row.render, String.toList_join]
    rw [hcons, List.append_assoc, marks_piece clean.1, ih clean.2, List.flatMap_cons,
      List.append_assoc]

/-- What is read of some rows, each on a line of its own. -/
def rowMarks (rows : List Row) : List Mark :=
  rows.flatMap fun row => row.flatMap Piece.marks ++ [.char '\n']

theorem rowMarks_cons (row : Row) (rows : List Row) :
    rowMarks (row :: rows) = row.flatMap Piece.marks ++ .char '\n' :: rowMarks rows := by
  simp [rowMarks]

theorem marks_rows {rows : List Row} (clean : ∀ row ∈ rows, ∀ piece ∈ row, piece.Clean) :
    marks (String.join (rows.map fun row => Row.render true row ++ "\n")).toList =
      rowMarks rows := by
  induction rows with
  | nil => exact marks_nil
  | cons row rows ih =>
    rw [List.forall_mem_cons] at clean
    have hcons : (String.join ((row :: rows).map fun row => Row.render true row ++ "\n")).toList =
        (Row.render true row).toList ++
          '\n' :: (String.join (rows.map fun row => Row.render true row ++ "\n")).toList := by
      simp [String.toList_join]
    rw [hcons, marks_row clean.1, marks_cons_of_ne (by decide), ih clean.2, rowMarks_cons]

/-! ## Without the sequences -/

theorem filterMap_shown?_chars (text : List Char) :
    (text.map Mark.char).filterMap Mark.shown? = text := by
  rw [List.filterMap_map]
  exact List.filterMap_some

theorem Piece.filterMap_marks (piece : Piece) :
    piece.marks.filterMap Mark.shown? = piece.text.toList := by
  unfold marks
  cases piece.paint.codes? with
  | none => exact filterMap_shown?_chars _
  | some codes =>
    rw [List.filterMap_append, List.filterMap_cons_none rfl, filterMap_shown?_chars]
    exact List.append_nil _

/-- Taking the sequences out of rows leaves what is written without colour. -/
theorem filterMap_rowMarks (rows : List Row) :
    (rowMarks rows).filterMap Mark.shown? =
      (String.join (rows.map fun row => Row.render false row ++ "\n")).toList := by
  induction rows with
  | nil => rfl
  | cons row rows ih =>
    have hrow : (row.flatMap Piece.marks).filterMap Mark.shown? = row.chars := by
      rw [Row.chars_eq]
      induction row with
      | nil => rfl
      | cons piece row ih =>
        rw [List.flatMap_cons, List.filterMap_append, Piece.filterMap_marks, ih,
          List.flatMap_cons]
    have hfeed : Mark.shown? (.char '\n') = some '\n' := rfl
    rw [rowMarks_cons, List.filterMap_append, hrow, List.filterMap_cons_some hfeed, ih]
    simp [String.toList_join, Row.chars]

/-! ## Paints are ended -/

/-- Behind every sequence that opens a paint come characters with the given property, and
then the sequence that ends it. -/
def Ended (P : List Char → Prop) (list : List Mark) : Prop :=
  ∀ codes rest, .sequence codes :: rest <:+ list → codes ≠ ['0'] →
    ∃ painted behind, rest = painted.map .char ++ .sequence ['0'] :: behind ∧ P painted

namespace Ended

variable {P : List Char → Prop} {list : List Mark}

theorem nil : Ended P [] := by
  intro codes rest hsuffix
  cases List.suffix_nil.1 hsuffix

theorem char (h : Ended P list) (c : Char) : Ended P (.char c :: list) := by
  intro codes rest hsuffix
  obtain heq | hsuffix := List.suffix_cons_iff.1 hsuffix
  · cases heq
  · exact h codes rest hsuffix

theorem chars (h : Ended P list) (text : List Char) : Ended P (text.map .char ++ list) := by
  induction text with
  | nil => exact h
  | cons c text ih => exact ih.char c

theorem sequence (h : Ended P list) {codes : List Char} (ended : codes ≠ ['0'] →
    ∃ painted behind, list = painted.map .char ++ .sequence ['0'] :: behind ∧ P painted) :
    Ended P (.sequence codes :: list) := by
  intro codes' rest hsuffix
  obtain heq | hsuffix := List.suffix_cons_iff.1 hsuffix
  · cases heq
    exact ended
  · exact h codes' rest hsuffix

theorem piece (h : Ended P list) {piece : Piece}
    (painted : piece.paint.codes? ≠ none → P piece.text.toList) :
    Ended P (piece.marks ++ list) := by
  unfold Piece.marks
  cases hcodes : piece.paint.codes? with
  | none => exact h.chars _
  | some codes =>
    have reset : Ended P (.sequence ['0'] :: list) := h.sequence fun hne => absurd rfl hne
    have inside : P piece.text.toList := painted (by simp [hcodes])
    simp only [List.cons_append, List.append_assoc, List.nil_append]
    exact (reset.chars _).sequence fun _ => ⟨_, list, rfl, inside⟩

theorem row (h : Ended P list) {row : Row}
    (painted : ∀ piece ∈ row, piece.paint.codes? ≠ none → P piece.text.toList) :
    Ended P (row.flatMap Piece.marks ++ list) := by
  induction row with
  | nil => exact h
  | cons piece row ih =>
    rw [List.forall_mem_cons] at painted
    rw [List.flatMap_cons, List.append_assoc]
    exact (ih painted.2).piece painted.1

theorem rows {rows : List Row}
    (painted : ∀ row ∈ rows, ∀ piece ∈ row, piece.paint.codes? ≠ none → P piece.text.toList) :
    Ended P (rowMarks rows) := by
  induction rows with
  | nil => exact nil
  | cons row rows ih =>
    rw [List.forall_mem_cons] at painted
    rw [rowMarks_cons]
    exact ((ih painted.2).char '\n').row painted.1

end Ended

/-! ## Reports -/

theorem Text.mem_of_mem_linesFrom {line : List Char} {c : Char} (hc : c ∈ line) :
    ∀ {read text : List Char}, line ∈ linesFrom read text → c ∈ read ∨ c ∈ text
  | read, [], h => by
    rw [linesFrom] at h
    split at h
    · cases h
    · rw [List.mem_singleton.1 h] at hc
      exact .inl (List.mem_reverse.1 hc)
  | read, first :: rest, h => by
    rw [linesFrom.eq_def] at h
    split at h
    case h_1 hnil => cases hnil
    case h_2 rest' hcons =>
      cases hcons
      obtain rfl | h := List.mem_cons.1 h
      · refine .inl (List.mem_reverse.1 ?_)
        unfold dropReturn at hc
        split at hc
        · exact (List.dropLast_sublist _).subset hc
        · exact hc
      · obtain hread | hrest := mem_of_mem_linesFrom hc h
        · cases hread
        · exact .inr (List.mem_cons_of_mem _ hrest)
    case h_3 c' rest' _ hcons =>
      cases hcons
      obtain hread | hrest := mem_of_mem_linesFrom hc h
      · obtain rfl | hread := List.mem_cons.1 hread
        · exact .inr List.mem_cons_self
        · exact .inl hread
      · exact .inr (List.mem_cons_of_mem _ hrest)

/-- Lines hold no other characters than their text. -/
theorem Text.mem_of_mem_lines {line text : List Char} {c : Char} (h : line ∈ lines text)
    (hc : c ∈ line) : c ∈ text :=
  (mem_of_mem_linesFrom hc h).resolve_left List.not_mem_nil

namespace Report

variable {r : Report}

/-- Texts without the escape character make clean pieces. -/
theorem clean_of_mem_rows (hsource : '\x1b' ∉ r.source.toList)
    (hmessage : '\x1b' ∉ r.message.toList) (hhint : ∀ hint ∈ r.hint, '\x1b' ∉ hint.toList)
    (hpath : '\x1b' ∉ r.path.toList) : ∀ row ∈ r.rows, ∀ piece ∈ row, piece.Clean := by
  have hdigits (n : Nat) : '\x1b' ∉ Nat.toDigits 10 n := fun h =>
    absurd (le_of_mem_toDigits h) (by decide)
  refine forall_piece (fun piece hpiece hmem => absurd (hpiece _ hmem) (by decide)) hmessage
    (fun hint hsome => ?hint) ?path fun line hline hmem => ?shown
  case hint => simpa [Piece.Clean] using hhint hint hsome
  case path => simp [Piece.Clean, hpath, hdigits]
  case shown =>
    obtain hmem | hmem := mem_of_mem_shown hmem
    · exact hsource (Text.mem_of_mem_lines hline hmem)
    · revert hmem
      decide

/-- Of what is painted, only the message and the hint can hold a line feed. -/
theorem unbroken_of_painted (hmessage : '\n' ∉ r.message.toList)
    (hhint : ∀ hint ∈ r.hint, '\n' ∉ hint.toList) :
    ∀ row ∈ r.rows, ∀ piece ∈ row, piece.paint.codes? ≠ none → '\n' ∉ piece.text.toList := by
  refine forall_piece (fun piece hpiece _ hmem => absurd (hpiece _ hmem) (by decide))
    (fun _ => hmessage) (fun hint hsome _ => ?hint) (fun plain => absurd rfl plain)
    fun line _ plain => absurd rfl plain
  case hint => simpa using hhint hint hsome

/-- If no text of a report holds the escape character, taking the sequences out of its coloured
rendering leaves the rendering without colour. In the coloured rendering every sequence that
opens a paint is ended before another sequence comes, and on its line if neither message nor
hint holds a line feed. -/
theorem colour_is_only_colour (hsource : '\x1b' ∉ r.source.toList)
    (hmessage : '\x1b' ∉ r.message.toList) (hhint : ∀ hint ∈ r.hint, '\x1b' ∉ hint.toList)
    (hpath : '\x1b' ∉ r.path.toList) :
    withoutSequences (r.render true).toList = (r.render false).toList ∧
    ∀ codes rest, .sequence codes :: rest <:+ marks (r.render true).toList → codes ≠ ['0'] →
      ∃ (painted : List Char) (behind : List Mark),
        rest = painted.map .char ++ .sequence ['0'] :: behind ∧
        ('\n' ∉ r.message.toList → (∀ hint ∈ r.hint, '\n' ∉ hint.toList) → '\n' ∉ painted) := by
  have hmarks : marks (r.render true).toList = rowMarks r.rows :=
    marks_rows (clean_of_mem_rows hsource hmessage hhint hpath)
  constructor
  · rw [withoutSequences, hmarks, filterMap_rowMarks, render]
  · rw [hmarks]
    refine Ended.rows (P := fun painted => '\n' ∉ r.message.toList →
      (∀ hint ∈ r.hint, '\n' ∉ hint.toList) → '\n' ∉ painted) ?_
    intro row hrow piece hpiece painted hmessage hhint
    exact unbroken_of_painted hmessage hhint row hrow piece hpiece painted

/-- A report with a hint, and no tildes behind its caret. -/
theorem colour_is_only_colour_hinted :
    let r : Report := ⟨.reference, "No se puede resolver la variable `y`",
      some "declara `y` con `var` o `const` antes de usarla", ⟨⟨0, 1, 1⟩, ⟨1, 1, 2⟩⟩,
      "prueba.par", "y;"⟩
    '\x1b' ∉ r.source.toList ∧
      withoutSequences (r.render true).toList = (r.render false).toList := by
  intro r
  have hsource : '\x1b' ∉ r.source.toList := by decide +kernel
  refine ⟨hsource, (colour_is_only_colour hsource ?_ ?_ ?_).1⟩
  · decide +kernel
  · rintro _ ⟨⟩
    decide +kernel
  · decide +kernel

end Report

end Guion
