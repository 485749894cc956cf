import Guion.Run.Display
import Mathlib.Data.Finset.Card
import Mathlib.Data.List.Forall2
import Mathlib.Logic.Relation

/-!
# Objects that contain themselves

The text of an object is made of the texts of what its fields hold. So a value has no
text exactly if one comes from it, from field to field, to an object that contains
itself. That the search stops after more steps than there are objects makes no
difference: by then it has come by some object twice.
-/

namespace Guion

variable {ρ : Type} {m : Machine ρ} {v w : Value}

/-- A field of an object holds a value. -/
def Machine.Holds (m : Machine ρ) (v w : Value) : Prop :=
  ∃ id fields key, v = .object id ∧ m.objects[id]? = some fields ∧ (key, w) ∈ fields

/-- A value contains itself, in a field or in fields of fields. -/
def Machine.Cyclic (m : Machine ρ) (v : Value) : Prop := Relation.TransGen m.Holds v v

/-- To show a value is to show an object that contains itself: the value is one or leads
to one. -/
def Machine.ShowsCyclic (m : Machine ρ) (v : Value) : Prop :=
  ∃ w, Relation.ReflTransGen m.Holds v w ∧ m.Cyclic w

/-- What holds something is one of the objects. -/
theorem Machine.Holds.object (h : m.Holds v w) : ∃ id < m.objects.size, v = .object id := by
  obtain ⟨id, fields, key, rfl, found, -⟩ := h
  obtain ⟨lt, -⟩ := Array.getElem?_eq_some_iff.mp found
  exact ⟨id, lt, rfl⟩

/-- A list has no results exactly if something in it has none. -/
theorem mapM_eq_none_iff {α β : Type} {f : α → Option β} {list : List α} :
    list.mapM f = none ↔ ∃ a ∈ list, f a = none := by
  induction list with
  | nil => simp
  | cons a rest ih =>
      rw [List.mapM_cons, List.exists_mem_cons_iff, ← ih]
      cases f a with
      | none => simp
      | some b =>
          cases rest.mapM f with
          | none => simp
          | some results => simp

/-- A list has results exactly if everything in it has one, and then they are these. -/
theorem mapM_eq_some_iff {α β : Type} {f : α → Option β} {list : List α} {results : List β} :
    list.mapM f = some results ↔ List.Forall₂ (fun a b => f a = some b) list results := by
  induction list generalizing results with
  | nil => simp [eq_comm]
  | cons a rest ih =>
      rw [List.mapM_cons, List.forall₂_cons_left_iff]
      simp only [← ih]
      cases f a with
      | none => simp
      | some b =>
          cases rest.mapM f with
          | none => simp
          | some more => simp [eq_comm]

/-- With something between them, all texts but the first have it in front of them. -/
theorem intercalate_cons (between first : String) (rest : List String) :
    between.intercalate (first :: rest) = first ++ String.join (rest.map (between ++ ·)) := by
  induction rest generalizing first with
  | nil => simp
  | cons second rest ih =>
      rw [String.intercalate_cons_cons, ih, List.map_cons, String.join_cons, String.append_assoc,
        String.append_assoc]

/-! ### The text of an object -/

/-- The text of a value inside an object, given how to show it elsewhere. -/
def Value.inside (shown : Value → Option String) : Value → Option String
  | .text s => some ("\"" ++ s ++ "\"")
  | other => shown other

/-- Inside an object a value has no text exactly if it has none elsewhere. -/
theorem Value.inside_eq_none_iff {shown : Value → Option String}
    (texts : ∀ s, shown (.text s) ≠ none) {v : Value} : v.inside shown = none ↔ shown v = none := by
  cases v with
  | text s => exact iff_of_false (Option.some_ne_none _) (texts s)
  | _ => exact Iff.rfl

/-- How a value stands inside an object: a text between quotes, and anything else as it is shown
elsewhere. -/
inductive Value.Within (shown : Value → Option String) : Value → String → Prop
  | text (s : String) : Within shown (.text s) ("\"" ++ s ++ "\"")
  | other {v : Value} {text : String} : (∀ s, v ≠ .text s) → shown v = some text →
      Within shown v text

theorem Value.inside_eq_some_iff {shown : Value → Option String} {v : Value} {text : String} :
    v.inside shown = some text ↔ v.Within shown text := by
  constructor
  · intro found
    cases v with
    | text s =>
        cases found
        exact .text s
    | _ => exact .other nofun found
  · rintro (_ | ⟨other, found⟩)
    · rfl
    · cases v with
      | text s => exact absurd rfl (other s)
      | _ => exact found

theorem Value.inside_congr {shown shown' : Value → Option String} {v : Value}
    (same : shown v = shown' v) : v.inside shown = v.inside shown' := by
  cases v with
  | text s => rfl
  | _ => exact same

namespace Fields

/-- The text of a field, given how to show what it holds. -/
def entryText (shown : Value → Option String) (entry : String × Value) : Option String :=
  (entry.2.inside shown).map (entry.1 ++ ": " ++ ·)

/-- The texts of fields in braces, with commas between them. -/
def inBraces : List String → String
  | [] => "\x7b\x7d"
  | texts => "\x7b " ++ ", ".intercalate texts ++ " \x7d"

/-- The text of some fields, given how to show what they hold. -/
def display (shown : Value → Option String) (fields : Fields) : Option String :=
  (fields.mapM (entryText shown)).map inBraces

theorem display_eq_none_iff {shown : Value → Option String} {fields : Fields} :
    fields.display shown = none ↔ ∃ entry ∈ fields, entry.2.inside shown = none := by
  rw [display, Option.map_eq_none_iff, mapM_eq_none_iff]
  refine exists_congr fun entry => and_congr_right fun _ => ?_
  exact Option.map_eq_none_iff

/-- A text shows fields: in braces and with commas between them, each key in turn with a colon
and its value behind it. -/
inductive Shown (shown : Value → Option String) : Fields → String → Prop
  | none : Shown shown [] "\x7b\x7d"
  | some {fields : Fields} {entries : List String} : fields ≠ [] →
      List.Forall₂ (fun field entry => ∃ inner, field.2.Within shown inner ∧
        entry = field.1 ++ ": " ++ inner) fields entries →
      Shown shown fields ("\x7b " ++ ", ".intercalate entries ++ " \x7d")

theorem entryText_eq_some_iff {shown : Value → Option String} {field : String × Value}
    {entry : String} : entryText shown field = .some entry ↔
      ∃ inner, field.2.Within shown inner ∧ entry = field.1 ++ ": " ++ inner := by
  rw [entryText, Option.map_eq_some_iff]
  exact exists_congr fun inner => and_congr Value.inside_eq_some_iff eq_comm

/-- The text of fields is the text that shows them. -/
theorem display_eq_some_iff {shown : Value → Option String} {fields : Fields} {text : String} :
    fields.display shown = .some text ↔ fields.Shown shown text := by
  rw [display, Option.map_eq_some_iff]
  simp only [mapM_eq_some_iff, entryText_eq_some_iff]
  constructor
  · rintro ⟨entries, each, rfl⟩
    cases each with
    | nil => exact .none
    | cons first rest => exact .some (List.cons_ne_nil _ _) (.cons first rest)
  · rintro (_ | ⟨filled, each⟩)
    · exact ⟨[], .nil, rfl⟩
    · refine ⟨_, each, ?_⟩
      cases each with
      | nil => exact absurd rfl filled
      | cons first rest => rfl

/-- Fields with the same keys and with the same texts behind them have the same text. -/
theorem display_congr {shown shown' : Value → Option String} {fields fields' : Fields}
    (same : List.Forall₂ (fun entry entry' => entry.1 = entry'.1 ∧
      entry.2.inside shown = entry'.2.inside shown') fields fields') :
    fields.display shown = fields'.display shown' := by
  apply congrArg (Option.map inBraces)
  induction same with
  | nil => rfl
  | cons first _ ih =>
      rw [List.mapM_cons, List.mapM_cons, ih]
      simp only [entryText, first.1, first.2]

/-! What is written piece by piece is that text, if it is the whole of it. -/

variable (inside : Value → Rendered)

theorem whole?_renderField (key : String) (v : Value) :
    (renderField inside key v).whole? = entryText (fun v => (inside v).whole?) (key, v) := by
  cases v <;> simp [renderField, entryText, Value.inside]

theorem whole?_renderMore (fields : Fields) :
    (renderMore inside fields).whole? =
      (fields.mapM (entryText fun v => (inside v).whole?)).map fun texts =>
        String.join (texts.map (", " ++ ·)) := by
  induction fields with
  | nil => rfl
  | cons entry rest ih =>
      obtain ⟨key, v⟩ := entry
      rw [renderMore, List.mapM_cons]
      simp only [Rendered.whole?_append, Rendered.whole?_piece, whole?_renderField, ih]
      cases entryText (fun v => (inside v).whole?) (key, v) with
      | none => rfl
      | some text =>
          cases rest.mapM (entryText fun v => (inside v).whole?) with
          | none => rfl
          | some texts => simp [String.join_cons, String.append_assoc]

theorem whole?_render (fields : Fields) :
    (fields.render inside).whole? = fields.display fun v => (inside v).whole? := by
  cases fields with
  | nil => rfl
  | cons entry rest =>
      obtain ⟨key, v⟩ := entry
      rw [render, display, List.mapM_cons]
      simp only [Rendered.whole?_append, Rendered.whole?_piece, whole?_renderField,
        whole?_renderMore]
      cases entryText (fun v => (inside v).whole?) (key, v) with
      | none => rfl
      | some text =>
          cases rest.mapM (entryText fun v => (inside v).whole?) with
          | none => rfl
          | some texts => simp [inBraces, intercalate_cons, String.append_assoc]

end Fields

/-- The text of an object within some steps is that of its fields within one step less. -/
theorem displayWithin_object (objects : Array Fields) (closures : Array (Closure ρ)) (n id : Nat) :
    (Value.object id).displayWithin objects closures (n + 1) =
      Fields.display (·.displayWithin objects closures n) (objects[id]?.getD []) := by
  rw [Value.displayWithin, Value.render, Fields.whole?_render]
  rfl

/-! ### Steps inward -/

/-- An object has no text within some steps exactly if a field has none within one step
less. -/
theorem displayWithin_object_eq_none_iff {objects : Array Fields} {closures : Array (Closure ρ)}
    {n id : Nat} :
    (Value.object id).displayWithin objects closures (n + 1) = none ↔
      ∃ entry ∈ objects[id]?.getD [], entry.2.displayWithin objects closures n = none := by
  rw [displayWithin_object, Fields.display_eq_none_iff]
  refine exists_congr fun entry => and_congr_right fun _ => ?_
  exact Value.inside_eq_none_iff fun s => by simp [Value.displayWithin, Value.render]

/-- A value has no text within some steps exactly if it holds one that has none within
one step less. -/
theorem displayWithin_eq_none_iff {n : Nat} :
    v.displayWithin m.objects m.closures (n + 1) = none ↔
      ∃ w, m.Holds v w ∧ w.displayWithin m.objects m.closures n = none := by
  constructor
  · intro missing
    cases v with
    | object id =>
        obtain ⟨⟨key, w⟩, mem, hw⟩ := displayWithin_object_eq_none_iff.mp missing
        cases found : m.objects[id]? with
        | none =>
            rw [found] at mem
            cases mem
        | some fields =>
            rw [found] at mem
            exact ⟨w, ⟨id, fields, key, rfl, found, mem⟩, hw⟩
    | boolean b => cases b <;> cases missing
    | _ => cases missing
  · rintro ⟨w, ⟨id, fields, key, rfl, found, mem⟩, missing⟩
    apply displayWithin_object_eq_none_iff.mpr
    rw [found]
    exact ⟨(key, w), mem, missing⟩

/-- A value without a text within some steps begins a chain of that length. -/
theorem exists_chain {n : Nat} (h : v.displayWithin m.objects m.closures n = none) :
    ∃ chain : Nat → Value, chain 0 = v ∧ ∀ i < n, m.Holds (chain i) (chain (i + 1)) := by
  induction n generalizing v with
  | zero => exact ⟨fun _ => v, rfl, nofun⟩
  | succ n ih =>
      obtain ⟨w, holds, missing⟩ := displayWithin_eq_none_iff.mp h
      obtain ⟨chain, rfl, links⟩ := ih missing
      refine ⟨fun i => i.casesOn v chain, rfl, fun i lt => ?_⟩
      cases i with
      | zero => exact holds
      | succ i => exact links i (by omega)

/-- A chain leads from each of its values to the later ones. -/
theorem chain_path {chain : Nat → Value} {n i j : Nat}
    (links : ∀ i < n, m.Holds (chain i) (chain (i + 1))) (le : i ≤ j) (hj : j ≤ n) :
    Relation.ReflTransGen m.Holds (chain i) (chain j) := by
  induction j, le using Nat.le_induction with
  | base => exact .refl
  | succ j le ih => exact (ih (by omega)).tail (links j (by omega))

/-- A chain that is longer than there are objects comes by one of them twice. -/
theorem exists_repeated {chain : Nat → Value}
    (links : ∀ i < m.objects.size + 1, m.Holds (chain i) (chain (i + 1))) :
    ∃ i j, i < j ∧ j < m.objects.size + 1 ∧ chain i = chain j := by
  have numbered : ∀ i < m.objects.size + 1, ∃ id < m.objects.size, chain i = .object id :=
    fun i lt => (links i lt).object
  choose! number inRange isObject using numbered
  have maps : ∀ i ∈ Finset.range (m.objects.size + 1), number i ∈ Finset.range m.objects.size := by
    simpa using inRange
  obtain ⟨i, hi, j, hj, ne, same⟩ := Finset.exists_ne_map_eq_of_card_lt_of_maps_to
    (by simp) maps
  rw [Finset.mem_range] at hi hj
  have equal : chain i = chain j := by rw [isObject i hi, isObject j hj, same]
  rcases Nat.lt_or_gt_of_ne ne with lt | gt
  · exact ⟨i, j, lt, hj, equal⟩
  · exact ⟨j, i, gt, hi, equal.symm⟩

/-- What is in a cycle has no text within any number of steps. -/
theorem Machine.Cyclic.displayWithin (cyclic : m.Cyclic v) (n : Nat) :
    v.displayWithin m.objects m.closures n = none := by
  induction n generalizing v with
  | zero =>
      obtain ⟨w, holds, -⟩ := Relation.TransGen.head'_iff.mp cyclic
      obtain ⟨id, -, rfl⟩ := holds.object
      rfl
  | succ n ih =>
      obtain ⟨w, holds, back⟩ := Relation.TransGen.head'_iff.mp cyclic
      exact displayWithin_eq_none_iff.mpr ⟨w, holds, ih (Relation.TransGen.tail' back holds)⟩

/-- What leads to a value in a cycle has no text within any number of steps. -/
theorem Machine.ShowsCyclic.displayWithin (shows : m.ShowsCyclic v) (n : Nat) :
    v.displayWithin m.objects m.closures n = none := by
  obtain ⟨w, path, cyclic⟩ := shows
  induction path using Relation.ReflTransGen.head_induction_on generalizing n with
  | refl => exact cyclic.displayWithin n
  | head holds _ ih =>
      cases n with
      | zero =>
          obtain ⟨id, -, rfl⟩ := holds.object
          rfl
      | succ n => exact displayWithin_eq_none_iff.mpr ⟨_, holds, ih n⟩

/-- A value has no text exactly if to show it is to show an object that contains
itself. -/
theorem display?_eq_none_iff : m.display? v = none ↔ m.ShowsCyclic v := by
  constructor
  · intro missing
    obtain ⟨chain, rfl, links⟩ := exists_chain missing
    obtain ⟨i, j, lt, hj, same⟩ := exists_repeated links
    have back := Relation.TransGen.head' (links i (by omega))
      (chain_path links (show i + 1 ≤ j by omega) (by omega))
    rw [← same] at back
    exact ⟨chain i, chain_path links (Nat.zero_le i) (by omega), back⟩
  · intro shows
    exact shows.displayWithin _

end Guion
