import Guion.Proofs.Run.Resemblance
import Guion.Proofs.Run.Storing

/-!
# Objects as maps

An object is made by a literal and changed by assignments to its properties, and both put
values under keys in the same way. So its keys ascend at every moment of a session, and what
is read under a key is what was put there last. Objects that every key was left with the same
value in cannot be told apart by their properties, however they were filled.

Nor can they be told apart by their texts, and there it is enough that what they hold is
alike: the same text or number, or objects of which the same is true, inside and out.
-/

namespace Guion

variable {ρ : Type} {m m' : Machine ρ}

/-! ### Keys at every moment -/

/-- The keys of every object ascend. -/
def Machine.Canonical (m : Machine ρ) : Prop :=
  ∀ (id : Nat) (fields : Fields), m.objects[id]? = some fields → fields.Ascending

namespace Machine.Canonical

variable (h : m.Canonical)

include h

theorem pushObject {fields : Fields} (ascending : fields.Ascending) :
    Machine.Canonical { m with objects := m.objects.push fields } := by
  intro id found hfound
  rw [Array.getElem?_push] at hfound
  split at hfound
  · cases hfound
    exact ascending
  · exact h id found hfound

theorem stored (object : Nat) (key : String) (v : Value) :
    (m.stored object key v).Canonical := by
  intro id fields found
  rw [Machine.stored, Array.getElem?_modify] at found
  split at found
  · obtain ⟨old, hold, rfl⟩ := Option.map_eq_some_iff.mp found
    exact (h id old hold).insert key v
  · exact h id fields found

end Machine.Canonical

/-- Runs keep the keys of every object ascending. -/
theorem Machine.canonical_invariant : Invariant (ρ := ρ) .free Machine.Canonical where
  closures {_ c} _ _ := c.body.obeys_free
  newFunction _ hm := hm
  newObject ascending hm := hm.pushObject ascending
  change {m m'} change _ _ size hm := by
    obtain spares | ⟨object, key, v, rfl⟩ := change.spares_or_stored
    · intro id fields found
      rw [spares.objects_eq size] at found
      exact hm id fields found
    · exact hm.stored object key v
  block _ hm := hm
  call _ _ hm := hm
  leave _ hm _ := hm

theorem Machine.canonical_initial (limit : Option Nat) :
    (Machine.initial limit : Machine ρ).Canonical := by
  intro id fields found
  simp [Machine.initial] at found

theorem Task.canonical_of_mem_later {α : Type} (bound : Nat) (t : Task ρ α) (hm : m.Canonical)
    {n : Machine ρ} (mem : n ∈ (t.watch bound m).path.later) : n.Canonical :=
  t.invariant Machine.canonical_invariant t.obeys_free hm (List.mem_cons_of_mem m mem)

/-- At every moment of a session the keys of every object ascend. -/
theorem History.canonical {limit : Option Nat} {past : List (Machine ρ)} (h : History limit past m)
    {n : Machine ρ} (mem : n ∈ past) : n.Canonical := by
  induction h generalizing n with
  | start =>
      rw [List.mem_singleton.mp mem]
      exact Machine.canonical_initial limit
  | run bound t before _ ih =>
      obtain mem | mem := List.mem_append.mp mem
      · exact ih mem
      · exact t.canonical_of_mem_later bound (ih before.stable.last) mem

/-! ### What an object is filled with -/

/-- The fields of an object are what some writes leave. -/
def Machine.FilledBy (m : Machine ρ) (object : Nat) (writes : List (String × Value)) : Prop :=
  m.objects[object]? = some (Fields.written [] writes)

/-- An assignment to a property is one more write. -/
theorem Machine.FilledBy.stored {object : Nat} {writes : List (String × Value)}
    (h : m.FilledBy object writes) (key : String) (v : Value) :
    (m.stored object key v).FilledBy object (writes ++ [(key, v)]) := by
  rw [FilledBy, Machine.stored, Array.getElem?_modify, if_pos rfl, h, Fields.written_append]
  rfl

namespace Path

/-- What the changes of a path put under keys of an object, in this order. -/
inductive Puts (object : Nat) :
    {a b : Machine ρ} → Path a b → List (String × Value) → Prop
  | stay (m : Machine ρ) : Puts object (.stay m) []
  | put {a c : Machine ρ} {key : String} {v : Value} {writes : List (String × Value)}
      (change : Change a (a.stored object key v)) {rest : Path (a.stored object key v) c} :
      Puts object rest writes → Puts object (.step change rest) ((key, v) :: writes)
  | keep {a b c : Machine ρ} {writes : List (String × Value)} (change : Change a b)
      {rest : Path b c} : b.objects[object]? = a.objects[object]? →
      Puts object rest writes → Puts object (.step change rest) writes

variable {a b : Machine ρ} {object : Nat}

/-- All that a path does to an object is to put values under its keys. -/
theorem exists_puts (path : Path a b) (made : object < a.objects.size) :
    ∃ writes, path.Puts object writes := by
  induction path with
  | stay m => exact ⟨[], .stay m⟩
  | @step a b c change rest ih =>
      have found := Array.getElem?_eq_getElem made
      obtain spares | ⟨other, key, v, rfl⟩ := change.spares_or_stored
      · have kept := spares object _ found
        obtain ⟨writes, puts⟩ := ih (Array.getElem?_eq_some_iff.mp kept).1
        exact ⟨writes, .keep change (kept.trans found.symm) puts⟩
      · obtain ⟨writes, puts⟩ := ih (by simpa [Machine.stored] using made)
        by_cases same : other = object
        · subst same
          exact ⟨(key, v) :: writes, .put change puts⟩
        · refine ⟨writes, .keep change ?_ puts⟩
          rw [Machine.stored, Array.getElem?_modify, if_neg same]

/-- An object has been filled by what filled it before a path and what the path put there. -/
theorem Puts.filledBy {path : Path a b} {writes : List (String × Value)}
    (puts : path.Puts object writes) {before : List (String × Value)}
    (h : a.FilledBy object before) : b.FilledBy object (before ++ writes) := by
  induction puts generalizing before with
  | stay m => rwa [List.append_nil]
  | put change _ ih =>
      rw [List.append_cons]
      exact ih (h.stored _ _)
  | keep change kept _ ih => exact ih (kept.trans h)

end Path

/-! ### Writing and reading properties -/

theorem Rules.computedKey_of_text {expression : Expr ρ → Exec ρ Value} {key : Expr ρ} {k : String}
    (ran : expression key m = .ok (.text k) m') :
    Rules.computedKey expression key m = .ok k m' :=
  Exec.bind_of_ok ran _

theorem Rules.store_of_ok {expression : Expr ρ → Exec ρ Value} {base : Expr ρ}
    {key : Exec ρ String} {object : Nat} {k : String} {last : Machine ρ}
    (hbase : expression base m = .ok (.object object) m') (hkey : key m' = .ok k last)
    (v : Value) : Rules.store expression base key v m = .ok () (last.stored object k v) :=
  (Exec.bind_of_ok hbase _).trans (Exec.bind_of_ok hkey _)

/-- An assignment to a property computes the value, the object and the key, and then puts the
value there. It succeeds if these can be computed. -/
theorem assign_property_ok_iff {bound : Nat} {range : ρ} {target source : Expr ρ} {v : Value}
    (property : target.isProperty = true) :
    (Task.expression (.assign range target source)).run (bound + 1) m = .ok v m' ↔
      ∃ first middle object key, (Task.expression source).run bound m = .ok v first ∧
        target.Locates bound first object key middle ∧ m' = middle.stored object key v := by
  constructor
  · exact assign_property_ok property
  · rintro ⟨first, middle, object, key, hsource, located, rfl⟩
    have assigned : (Rules.assignTo (Rules.expression bound) v target : Exec ρ Unit) first =
        .ok () (middle.stored object key v) := by
      cases located with
      | member base => exact Rules.store_of_ok base rfl v
      | subscript base inner =>
          exact Rules.store_of_ok base (Rules.computedKey_of_text inner) v
    exact (Exec.bind_of_ok hsource _).trans (Exec.bind_of_ok assigned _)

/-- Where the part of an expression stands that gives the key of a property. -/
def Expr.part : Expr ρ → ρ
  | .member _ _ _ part | .subscript _ _ _ part => part
  | other => other.range

/-- Reading a property, once object and key have been computed. -/
theorem Expr.Locates.run_eq {bound : Nat} {target : Expr ρ} {object : Nat} {key : String}
    {last : Machine ρ} (h : target.Locates bound m object key last) :
    (Task.expression target).run (bound + 1) m =
      (Rules.readProperty target.part object key : Exec ρ Value) last := by
  cases h with
  | member base => exact Exec.bind_of_ok base _
  | subscript base inner =>
      exact (Exec.bind_of_ok base _).trans
        (Exec.bind_of_ok (Rules.computedKey_of_text inner) _)

theorem Machine.FilledBy.readProperty {object : Nat} {writes : List (String × Value)}
    (h : m.FilledBy object writes) (range : ρ) (key : String) :
    (Rules.readProperty range object key : Exec ρ Value) m =
      (lastWritten writes key).elim (.error ⟨range, .missingProperty key⟩ m) (.ok · m) := by
  have found : (m.objects[object]?.getD []).get? key = lastWritten writes key := by
    rw [h, Option.getD_some, Fields.get?_written_nil]
  have read : (Effects.field? object key : Exec ρ (Option Value)) m =
      .ok (lastWritten writes key) m := congrArg (Outcome.ok · m) found
  refine (Exec.bind_of_ok read _).trans ?_
  cases lastWritten writes key with
  | some v => rfl
  | none => rfl

/-! ### Objects as maps -/

/-- A literal fills a new object with what its properties write. It succeeds if their values
can be computed. -/
theorem object_literal_ok_iff {bound : Nat} {range : ρ} {list : List (Property ρ)} {v : Value} :
    (Task.expression (.object range list)).run (bound + 1) m = .ok v m' ↔
      ∃ writes last, Property.Writes (Exec.expression bound) m list writes last ∧
        v = .object last.objects.size ∧
        m' = { last with objects := last.objects.push (Fields.written [] writes) } ∧
        m'.FilledBy last.objects.size writes := by
  constructor
  · intro h
    obtain ⟨writes, last, computed, rfl, rfl⟩ := Rules.literal_eq_ok_iff.mp h
    exact ⟨writes, last, computed, rfl, rfl, Array.getElem?_push_size⟩
  · rintro ⟨writes, last, computed, rfl, rfl, -⟩
    exact Rules.literal_eq_ok_iff.mpr ⟨writes, last, computed, rfl, rfl⟩

/-- Objects are maps, each kept in one way. At every moment of a session the keys of every
object ascend. A literal fills a new object with what its properties write, an assignment to
a property puts a value under a key, and nothing else happens to an object on the way from
one machine to another. What is read under a key is what was written there last, so that a
write replaces the value of its key and of no other; and objects that writes leave with the
same values are read alike and have the same text: in braces, each key once and in their
order, with the text of its value. They have the same text even if the values are only alike,
inside and out. -/
theorem objects_are_canonical {ρ : Type} :
    (∀ {α : Type} {limit : Option Nat} {past : List (Machine ρ)} {m : Machine ρ},
      History limit past m → ∀ (bound : Nat) (t : Task ρ α),
        (t.watch bound m).outcome = t.run bound m ∧
        ∀ n ∈ past ++ (t.watch bound m).path.later, ∀ (object : Nat) (fields : Fields),
          n.objects[object]? = some fields →
          fields.Ascending ∧ (fields.map Prod.fst).Nodup ∧
          (fields.map fun entry => entry.1.toList.map Char.toNat).Pairwise (· < ·) ∧
          n.FilledBy object fields) ∧
    (∀ {bound : Nat} {range : ρ} {list : List (Property ρ)} {v : Value} {m m' : Machine ρ},
      (Task.expression (.object range list)).run (bound + 1) m = .ok v m' ↔
      ∃ writes last, Property.Writes (Exec.expression bound) m list writes last ∧
        v = .object last.objects.size ∧
        m' = { last with objects := last.objects.push (Fields.written [] writes) } ∧
        m'.FilledBy last.objects.size writes) ∧
    (∀ {bound : Nat} {range : ρ} {target source : Expr ρ} {v : Value} {m m' : Machine ρ},
      target.isProperty = true →
      ((Task.expression (.assign range target source)).run (bound + 1) m = .ok v m' ↔
        ∃ first middle object key, (Task.expression source).run bound m = .ok v first ∧
          target.Locates bound first object key middle ∧ m' = middle.stored object key v)) ∧
    (∀ {m : Machine ρ} {object : Nat} {writes : List (String × Value)},
      m.FilledBy object writes → ∀ (key : String) (v : Value),
        (m.stored object key v).FilledBy object (writes ++ [(key, v)])) ∧
    (∀ {m m' : Machine ρ} (path : Path m m') {object : Nat}, object < m.objects.size →
      ∃ writes, path.Puts object writes ∧ ∀ before, m.FilledBy object before →
        m'.FilledBy object (before ++ writes)) ∧
    (∀ (writes : List (String × Value)) (key : String) (v : Value) (k : String),
      lastWritten (writes ++ [(key, v)]) k = if k = key then some v else lastWritten writes k) ∧
    (∀ {m : Machine ρ} {object : Nat} {writes : List (String × Value)},
      m.FilledBy object writes →
      (∀ {bound : Nat} {first : Machine ρ} {target : Expr ρ} {key : String},
        target.Locates bound first object key m →
        (Task.expression target).run (bound + 1) first =
          (lastWritten writes key).elim (.error ⟨target.part, .missingProperty key⟩ m)
            (.ok · m)) ∧
      ∃ fields : Fields, fields.Ascending ∧ (fields.map Prod.fst).Nodup ∧
        (∀ key, fields.get? key = lastWritten writes key) ∧
        m.display? (.object object) = fields.display m.display? ∧
        ∀ text, m.display? (.object object) = some text ↔ fields.Shown m.display? text) ∧
    (∀ {writes writes' : List (String × Value)},
      (∀ key, lastWritten writes key = lastWritten writes' key) →
      ∀ {m : Machine ρ} {object object' : Nat}, m.FilledBy object writes →
        m.FilledBy object' writes' →
        (∀ range key, (Rules.readProperty range object key : Exec ρ Value) m =
          (Rules.readProperty range object' key : Exec ρ Value) m) ∧
        m.display? (.object object) = m.display? (.object object')) ∧
    ∀ {m m' : Machine ρ} {corresponds : Nat → Nat → Prop},
      (∀ i j, corresponds i j → ∃ writes writes', m.FilledBy i writes ∧ m'.FilledBy j writes' ∧
        ∀ key, Option.Rel (Value.Alike m m' corresponds) (lastWritten writes key)
          (lastWritten writes' key)) →
      ∀ i j, corresponds i j → m.display? (.object i) = m'.display? (.object j) := by
  refine ⟨?_, object_literal_ok_iff, assign_property_ok_iff, Machine.FilledBy.stored, ?_,
    lastWritten_concat, ?_, ?_, ?_⟩
  · intro α limit past m h bound t
    refine ⟨t.outcome_watch bound m, fun n mem object fields found => ?_⟩
    have canonical : n.Canonical := by
      obtain mem | mem := List.mem_append.mp mem
      · exact h.canonical mem
      · exact t.canonical_of_mem_later bound (h.canonical h.stable.last) mem
    have ascending := canonical object fields found
    refine ⟨ascending, ascending.nodup_keys, ascending.codePoints, ?_⟩
    rw [Machine.FilledBy, ascending.written_self, found]
  · intro m m' path object made
    obtain ⟨writes, puts⟩ := path.exists_puts made
    exact ⟨writes, puts, fun _ => puts.filledBy⟩
  · intro m object writes filled
    refine ⟨fun located => located.run_eq.trans (filled.readProperty _ _), ?_⟩
    have ascending := Fields.Ascending.written .nil writes
    have text := display?_object filled
    refine ⟨_, ascending, ascending.nodup_keys, Fields.get?_written_nil writes, text,
      fun shown => ?_⟩
    rw [text, Fields.display_eq_some_iff]
  · intro writes writes' same m object object' filled filled'
    have equal := Fields.Ascending.written_eq .nil same
    refine ⟨fun range key => ?_, ?_⟩
    · rw [filled.readProperty, filled'.readProperty, same]
    · rw [display?_object filled, display?_object filled', equal]
  · intro m m' corresponds h i j related
    have resembles : m.Resembles m' corresponds := by
      intro i j related
      obtain ⟨writes, writes', filled, filled', alike⟩ := h i j related
      refine ⟨_, _, filled, filled', .written .nil writes, .written .nil writes', fun key => ?_⟩
      rw [Fields.get?_written_nil, Fields.get?_written_nil]
      exact alike key
    exact resembles.display? (.object related)

/-- Two objects with the same properties. One is filled by a literal that writes a key twice,
the other by a literal and an assignment, and the objects in them are filled in different
orders. -/
def twins : Program Unit :=
  let x := ⟨⟨(), "x"⟩, some (.text () "v")⟩
  let y := ⟨⟨(), "y"⟩, some (.text () "u")⟩
  ⟨(), [.expression () (.object () [⟨⟨(), "b"⟩, some (.text () "1")⟩,
      ⟨⟨(), "a"⟩, some (.object () [y, x])⟩, ⟨⟨(), "b"⟩, some (.text () "2")⟩]),
    .declare () ⟨(), .const⟩ ⟨(), "q"⟩ none
      (some (.object () [⟨⟨(), "a"⟩, some (.object () [x, y])⟩])),
    .expression () (.assign () (.member () (.reference () ⟨(), "q"⟩) ⟨(), "b"⟩ ()) (.text () "2"))]⟩

theorem objects_are_canonical_twins :
    ∃ m : Machine Unit, (Task.program twins).run 6 (Machine.initial none) = .ok (.text "2") m ∧
      (∀ (object : Nat) (fields : Fields), m.objects[object]? = some fields →
        fields.Ascending) ∧
      m.FilledBy 1 [("b", .text "1"), ("a", .object 0), ("b", .text "2")] ∧
      m.FilledBy 3 [("a", .object 2), ("b", .text "2")] ∧
      (Task.expression (.member () (.reference () ⟨(), "q"⟩) ⟨(), "b"⟩ ())).run 2 m =
        .ok (.text "2") m ∧
      m.display? (.object 1) = some "\x7b a: \x7b x: \"v\", y: \"u\" \x7d, b: \"2\" \x7d" ∧
      m.display? (.object 1) = m.display? (.object 3) := by
  obtain ⟨moments, -, -, -, -, -, read, -, nested⟩ := objects_are_canonical (ρ := Unit)
  obtain ⟨m, ran, first, second, inner, inner', base, shown⟩ : ∃ m : Machine Unit,
      (Task.program twins).run 6 (Machine.initial none) = .ok (.text "2") m ∧
      m.FilledBy 1 [("b", .text "1"), ("a", .object 0), ("b", .text "2")] ∧
      m.FilledBy 3 [("a", .object 2), ("b", .text "2")] ∧
      m.FilledBy 0 [("y", .text "u"), ("x", .text "v")] ∧
      m.FilledBy 2 [("x", .text "v"), ("y", .text "u")] ∧
      (Task.expression (.reference () ⟨(), "q"⟩)).run 1 m = .ok (.object 3) m ∧
      m.display? (.object 1) = some "\x7b a: \x7b x: \"v\", y: \"u\" \x7d, b: \"2\" \x7d" :=
    ⟨_, rfl, rfl, rfl, rfl, rfl, rfl, rfl⟩
  have begun : History none [Machine.initial none] (Machine.initial none : Machine Unit) := .start
  have session := begun.run 6 (.program twins) (congrArg Outcome.machine? ran)
  refine ⟨m, ran, fun object fields found => ?_, first, second, (read second).1 (.member base),
    shown, ?_⟩
  · exact ((moments session 0 (.program twins)).2 m
      (List.mem_append_left _ session.stable.last) object fields found).1
  · refine @nested m m (fun i j => i = 1 ∧ j = 3 ∨ i = 0 ∧ j = 2) ?_ 1 3 (.inl ⟨rfl, rfl⟩)
    rintro _ _ (⟨rfl, rfl⟩ | ⟨rfl, rfl⟩)
    · refine ⟨_, _, first, second, fun key => ?_⟩
      simp only [lastWritten, List.reverse_cons, List.reverse_nil, List.nil_append,
        List.cons_append, List.lookup_cons, List.lookup_nil]
      cases key == "b" with
      | true => exact .some (.plain rfl)
      | false =>
          cases key == "a" with
          | true => exact .some (.object (.inr ⟨rfl, rfl⟩))
          | false => exact .none
    · refine ⟨_, _, inner, inner', fun key => ?_⟩
      simp only [lastWritten, List.reverse_cons, List.reverse_nil, List.nil_append,
        List.cons_append, List.lookup_cons, List.lookup_nil]
      cases isX : key == "x" with
      | true =>
          obtain rfl := beq_iff_eq.mp isX
          exact .some (.plain rfl)
      | false =>
          cases key == "y" with
          | true => exact .some (.plain rfl)
          | false => exact .none

end Guion
