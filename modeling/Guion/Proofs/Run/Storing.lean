import Guion.Proofs.Run.Sparing

/-!
# Cycles come from assignments to properties

Up to the first assignment to a property, in a session of any number of runs, objects hold
only what was made before them, so that every value has a text and every built-in function
comes to an end. An assignment to a property does one thing to the objects, after what it
assigns and what it assigns to have been computed: it puts the value under a key. If that
closes a cycle, the value is the object or leads to it.
-/

namespace Guion

variable {ρ α β : Type} {m m' : Machine ρ}

/-! ### Machines to which objects were only added -/

/-- From one machine to another the objects that were there have kept their fields, and what is
new was made of what there was by then. -/
structure Machine.Grows (m m' : Machine ρ) : Prop where
  spares : m.Spares m'
  made : ∀ N, m.Made N → m'.Made N

namespace Machine.Grows

variable {m m' m'' : Machine ρ} {v w : Value}

theorem trans (h : m.Grows m') (h' : m'.Grows m'') : m.Grows m'' :=
  ⟨h.spares.trans h'.spares, fun N made => h'.made N (h.made N made)⟩

theorem ordered (h : m.Grows m') (made : ∀ N, m.Made N) : m'.Ordered :=
  ordered_of_made fun N => h.made N (made N)

/-- An old object holds old ones, as it did before, and a new one holds older ones. -/
theorem holds (h : m.Grows m') (closed : m.Closed) (step : m'.Holds v w) :
    v.rank ≤ m.objects.size ∧ m.Holds v w ∧ w.rank ≤ m.objects.size ∨
      m.objects.size < v.rank ∧ w.rank < v.rank := by
  obtain ⟨id, fields, key, rfl, found, mem⟩ := step
  by_cases old : id < m.objects.size
  · have before := Array.getElem?_eq_getElem old
    rw [h.spares id _ before] at found
    cases found
    have inside := (closed _ (Nat.le_refl _)).fields before _ mem
    refine .inl ⟨old, ⟨id, _, key, rfl, before, mem⟩, ?_⟩
    cases w with
    | object other => exact inside
    | _ => exact Nat.zero_le _
  · have inside := h.made id (.of_le (Nat.le_of_not_lt old)) _ found _ mem
    refine .inr ⟨Nat.lt_succ_of_le (Nat.le_of_not_lt old), ?_⟩
    cases w with
    | object other => exact Nat.succ_lt_succ inside
    | _ => exact Nat.succ_pos id

/-- So does everything that they lead to. -/
theorem leads (h : m.Grows m') (closed : m.Closed) (path : Relation.TransGen m'.Holds v w) :
    Relation.TransGen m.Holds v w ∧ w.rank ≤ m.objects.size ∨
      m.objects.size < v.rank ∧ w.rank < v.rank := by
  induction path with
  | single step =>
      obtain ⟨-, step, old⟩ | new := h.holds closed step
      · exact .inl ⟨.single step, old⟩
      · exact .inr new
  | tail _ step ih =>
      obtain ⟨path, old⟩ | ⟨new, older⟩ := ih
      · obtain ⟨-, step, old'⟩ | ⟨new, -⟩ := h.holds closed step
        · exact .inl ⟨path.tail step, old'⟩
        · exact absurd old (Nat.not_le.mpr new)
      · obtain ⟨-, -, old⟩ | ⟨-, older'⟩ := h.holds closed step
        · exact .inr ⟨new, Nat.lt_of_le_of_lt old new⟩
        · exact .inr ⟨new, Nat.lt_trans older' older⟩

/-- Where objects are only added, no cycle comes about. -/
theorem not_cyclic (h : m.Grows m') (closed : m.Closed) (acyclic : ∀ v, ¬ m.Cyclic v) (v : Value) :
    ¬ m'.Cyclic v := by
  intro cyclic
  obtain ⟨before, -⟩ | ⟨-, less⟩ := h.leads closed cyclic
  · exact acyclic v before
  · exact Nat.lt_irrefl _ less

end Machine.Grows

/-! ### Runs without a store -/

/-- Up to the first store of a run, objects are only added. -/
theorem Task.grows (bound : Nat) (t : Task ρ α) {m n : Machine ρ} (hm : m.Closed)
    (calm : (t.watch bound m).path.Calm n) : m.Grows n :=
  ⟨calm.spares, fun N made => (t.ages bound hm N).made made calm⟩

/-- A run that computes no assignment to a property that ends with a value only adds objects. -/
theorem Task.grows_of_visits {bound : Nat} {t : Task ρ α} (hm : m.Closed)
    (none : ∀ visit ∈ t.visits bound m, ¬ visit.Puts)
    (ends : (t.run bound m).machine? = some m') : m.Grows m' := by
  rw [← t.outcome_watch] at ends
  rw [← Run.last_eq ends]
  exact t.grows bound hm (Task.spares_of_visits none).calm_last

/-- The machines that any number of runs lead to, each of which ended, with a result or with
a fault, and computed no assignment to a property that ended with a value. -/
inductive Storeless (limit : Option Nat) : Machine ρ → Prop
  | start : Storeless limit (Machine.initial limit)
  | run {m m' : Machine ρ} {α : Type} (bound : Nat) (t : Task ρ α) : Storeless limit m →
      (t.run bound m).machine? = some m' → (∀ visit ∈ t.visits bound m, ¬ visit.Puts) →
      Storeless limit m'

theorem Storeless.made {limit : Option Nat} (h : Storeless limit m) :
    m.Closed ∧ ∀ N, m.Made N := by
  induction h with
  | start => exact ⟨Machine.closed_initial limit, fun N => .of_le (Nat.zero_le N)⟩
  | run bound t _ ends none ih =>
      obtain ⟨closed, made⟩ := ih
      have grows := t.grows_of_visits closed none ends
      exact ⟨t.closed_of_run closed ends, fun N => grows.made N (made N)⟩

/-- In a session without a store the objects are in the order of their making, and they are
so in one more run up to its first store. -/
theorem Storeless.ordered {limit : Option Nat} (h : Storeless limit m) (bound : Nat)
    (t : Task ρ α) {n : Machine ρ} (calm : (t.watch bound m).path.Calm n) : n.Ordered := by
  obtain ⟨closed, made⟩ := h.made
  exact (t.grows bound closed calm).ordered made

/-! ### Built-in functions where every value has a text -/

/-- A computation that ends where every value has a text, and leaves it so. -/
def Exec.Answers (x : Exec ρ α) : Prop :=
  ∀ m : Machine ρ, (∀ v, (m.display? v).isSome = true) →
    ∃ m', (x m).machine? = some m' ∧ ∀ v, (m'.display? v).isSome = true

theorem Exec.Answers.bind {x : Exec ρ α} {k : α → Exec ρ β} (hx : x.Answers)
    (hk : ∀ a, (k a).Answers) : (x >>= k).Answers := by
  intro m hm
  obtain ⟨m', ends, shows⟩ := hx m hm
  change ∃ m'', (Exec.bind x k m).machine? = some m'' ∧ _
  unfold Exec.bind
  cases hout : x m with
  | ok a next =>
      rw [hout] at ends
      cases ends
      exact hk a _ shows
  | error fault next =>
      rw [hout] at ends
      exact ⟨m', ends, shows⟩
  | unfinished =>
      rw [hout] at ends
      cases ends

theorem Exec.Answers.write (range : ρ) (text : String) : (Exec.write range text).Answers := by
  intro m hm
  rw [Exec.write_eq]
  split <;> exact ⟨_, rfl, hm⟩

theorem Exec.Answers.speaks : Speaks id .all fun α _ (x _ : Exec ρ α) => x.Answers where
  pure _ := fun m hm => ⟨m, rfl, hm⟩
  bind hx hk := hx.bind fun a => hk a (Demand.holds_all _ a)
  fail _ _ _ := fun m hm => ⟨m, rfl, hm⟩
  display {v} _ := by
    intro m hm
    obtain ⟨text, shown⟩ := Option.isSome_iff_exists.mp (hm v)
    simp only [Effects.display, shown]
    exact ⟨m, rfl, hm⟩
  write := write
  print range v _ := by
    intro m hm
    obtain ⟨text, shown⟩ := Option.isSome_iff_exists.mp (hm v)
    simp only [Effects.print, Exec.print_of_some range shown]
    exact write range text m hm

/-- Every built-in function comes to an end where every value has a text. -/
theorem Builtin.apply_ends (hm : ∀ v, (m.display? v).isSome = true) (range : ρ) (b : Builtin)
    (values : List Value) : ((b.apply range values : Exec ρ Value) m).machine?.isSome = true := by
  obtain ⟨m', ends, -⟩ :=
    Exec.Answers.speaks.builtin range b (fun v _ => Realm.hasValue_all v) m hm
  rw [ends]
  rfl

/-! ### Assignments to properties -/

/-- From a machine on, what comes before a property is computed: the object and the key of the
property, and the machine by then. -/
inductive Expr.Locates (bound : Nat) (m : Machine ρ) :
    Expr ρ → Nat → String → Machine ρ → Prop
  | member {range part : ρ} {base : Expr ρ} {name : Located ρ String} {object : Nat}
      {last : Machine ρ} : (Task.expression base).run bound m = .ok (.object object) last →
      Locates bound m (.member range base name part) object name.value last
  | subscript {range part : ρ} {base key : Expr ρ} {object : Nat} {text : String}
      {middle last : Machine ρ} :
      (Task.expression base).run bound m = .ok (.object object) middle →
      (Task.expression key).run bound middle = .ok (.text text) last →
      Locates bound m (.subscript range base key part) object text last

/-- A write access that succeeds is a store, once object and key have been computed. -/
theorem Rules.store_ok {expression : Expr ρ → Exec ρ Value} {base : Expr ρ}
    {key : Exec ρ String} {v : Value}
    (h : Rules.store expression base key v m = .ok () m') :
    ∃ object k middle last, expression base m = .ok (.object object) middle ∧
      key middle = .ok k last ∧ m' = last.stored object k v := by
  obtain ⟨found, middle, hbase, h⟩ := Exec.bind_eq_ok_iff.mp h
  obtain ⟨k, last, hkey, h⟩ := Exec.bind_eq_ok_iff.mp h
  obtain ⟨object, after, hobject, h⟩ := Exec.bind_eq_ok_iff.mp h
  cases found with
  | object id =>
      cases hobject
      cases h
      exact ⟨_, k, middle, last, hbase, hkey, rfl⟩
  | _ => cases hobject

theorem Rules.computedKey_ok {expression : Expr ρ → Exec ρ Value} {key : Expr ρ} {k : String}
    (h : Rules.computedKey expression key m = .ok k m') : expression key m = .ok (.text k) m' := by
  obtain ⟨found, middle, hkey, h⟩ := Exec.bind_eq_ok_iff.mp h
  cases found with
  | text s =>
      cases h
      exact hkey
  | _ => cases h

/-- An assignment to a property that succeeds computes the value, the object and the key, and
then puts the value there. -/
theorem assign_property_ok {bound : Nat} {range : ρ} {target source : Expr ρ} {v : Value}
    (property : target.isProperty = true)
    (h : (Task.expression (.assign range target source)).run (bound + 1) m = .ok v m') :
    ∃ first middle object key, (Task.expression source).run bound m = .ok v first ∧
      target.Locates bound first object key middle ∧ m' = middle.stored object key v := by
  obtain ⟨w, first, hsource, h⟩ := Exec.bind_eq_ok_iff.mp h
  obtain ⟨_, last, htarget, h⟩ := Exec.bind_eq_ok_iff.mp h
  cases h
  cases target with
  | member range base name part =>
      obtain ⟨object, k, middle, last, hbase, hkey, rfl⟩ := Rules.store_ok htarget
      cases hkey
      exact ⟨first, _, object, _, hsource, .member hbase, rfl⟩
  | subscript range base key part =>
      obtain ⟨object, k, middle, last, hbase, hkey, rfl⟩ := Rules.store_ok htarget
      exact ⟨first, last, object, k, hsource, .subscript hbase (Rules.computedKey_ok hkey), rfl⟩
  | _ => cases property

/-- An expression that computes no assignment to a property only adds objects. -/
theorem Visiting.grows {bound : Nat} {e : Expr ρ} {v : Value} (closed : m.Closed)
    (run : (Task.expression e).run bound m = .ok v m')
    (none : ∀ visit ∈ (expression bound e).log m, ¬ visit.Puts) :
    m.Grows m' ∧ m'.Closed ∧ (expression bound e).exec m = .ok v m' := by
  have ends : ((Task.expression e).run bound m).machine? = some m' := by
    rw [run]
    rfl
  exact ⟨Task.grows_of_visits (t := .expression e) closed none ends,
    Task.closed_of_run closed ends, (Task.exec_visiting bound (.expression e) m).trans run⟩

/-- What comes before the store only adds objects, if it is not a store itself. -/
theorem assign_property_visits {bound : Nat} {range : ρ} {target source : Expr ρ} {v : Value}
    {first middle : Machine ρ} {object : Nat} {key : String}
    (hsource : (Task.expression source).run bound m = .ok v first)
    (located : target.Locates bound first object key middle) :
    ∃ inside, (Task.expression (.assign range target source)).visits (bound + 1) m =
        inside ++ [⟨bound, .assign range target source, m⟩] ∧
      (m.Closed → (∀ visit ∈ inside, ¬ visit.Puts) → m.Grows middle) := by
  refine ⟨_, rfl, fun closed none => ?_⟩
  let inside (e : Expr ρ) : Logged (Visit ρ) ρ Value := Visiting.expression bound e
  obtain ⟨before, closed, ran⟩ := Visiting.grows closed hsource
    (Logged.forall_log_first (x := inside source) none)
  have accessed : ∀ visit ∈ (Rules.assignTo inside v target).log first, ¬ visit.Puts :=
    Logged.forall_log_first (Logged.forall_log_second (x := inside source) ran none)
  cases located with
  | @member _ _ base _ _ _ hbase =>
      have none : ∀ visit ∈ (inside base).log first, ¬ visit.Puts :=
        Logged.forall_log_first accessed
      exact before.trans (Visiting.grows closed hbase none).1
  | @subscript _ _ base key _ _ found _ hbase hkey =>
      have none : ∀ visit ∈ (inside base).log first, ¬ visit.Puts :=
        Logged.forall_log_first accessed
      obtain ⟨between, closed, ran⟩ := Visiting.grows closed hbase none
      have none : ∀ visit ∈ (Rules.computedKey inside key).log found, ¬ visit.Puts :=
        Logged.forall_log_first (Logged.forall_log_second (x := inside base) ran accessed)
      have none : ∀ visit ∈ (inside key).log found, ¬ visit.Puts := Logged.forall_log_first none
      exact (before.trans between).trans (Visiting.grows closed hkey none).1

/-! ### Where cycles come from -/

/-- Only assignments to properties make objects contain themselves. A run that computes none
that ends with a value leaves the fields of the objects alone. At every moment of a session up
to the first store, and so at every moment of one that computes no such assignment, the objects
in fields are older than what they are in, so that nothing holds itself, every value has a text
and every built-in function ends. At every moment of any session, an assignment to a property
computes the value, the object and the key and then is a store. What it computes before makes no
cycle unless it is a store itself, and this store closes one only with a value that is the object
or leads to it. -/
theorem only_stores_make_cycles {ρ : Type} :
    (∀ {α : Type} {bound : Nat} {t : Task ρ α} {m : Machine ρ},
      (∀ visit ∈ t.visits bound m, ¬ visit.Puts) → (t.watch bound m).path.Spares) ∧
    (∀ {α : Type} {limit : Option Nat} {m : Machine ρ}, Storeless limit m →
      ∀ (bound : Nat) (t : Task ρ α), (t.watch bound m).outcome = t.run bound m ∧
        ((∀ visit ∈ t.visits bound m, ¬ visit.Puts) →
          ∀ n ∈ (t.watch bound m).moments, (t.watch bound m).path.Calm n) ∧
        ∀ n, (t.watch bound m).path.Calm n → n.Ordered ∧
          (WellFounded fun inner outer => n.Holds outer inner) ∧
          (∀ v, (n.display? v).isSome = true) ∧
          ∀ (range : ρ) (b : Builtin) (values : List Value),
            ((b.apply range values : Exec ρ Value) n).machine?.isSome = true) ∧
    ∀ {α : Type} {limit : Option Nat} {past : List (Machine ρ)} {m : Machine ρ},
      History limit past m → ∀ (steps : Nat) (t : Task ρ α),
      ∀ n ∈ past ++ (t.watch steps m).path.later,
      ∀ {n' : Machine ρ} {bound : Nat} {range : ρ} {target source : Expr ρ} {v : Value},
      target.isProperty = true →
      (Task.expression (.assign range target source)).run (bound + 1) n = .ok v n' →
      ∃ first middle object key inside, (Task.expression source).run bound n = .ok v first ∧
        target.Locates bound first object key middle ∧ n' = middle.stored object key v ∧
        (Task.expression (.assign range target source)).visits (bound + 1) n =
          inside ++ [⟨bound, .assign range target source, n⟩] ∧
        ((∀ visit ∈ inside, ¬ visit.Puts) → (∀ w, ¬ n.Cyclic w) → ∀ w, ¬ middle.Cyclic w) ∧
        ((∀ w, ¬ middle.Cyclic w) → ∀ w, n'.Cyclic w →
          v = .object object ∨ Relation.TransGen middle.Holds v (.object object)) := by
  refine ⟨Task.spares_of_visits, ?_, ?_⟩
  · intro α limit m h bound t
    refine ⟨t.outcome_watch bound m, fun none => (Task.spares_of_visits none).calm,
      fun n calm => ?_⟩
    have ordered := h.ordered bound t calm
    have shows := ordered.display?_isSome
    exact ⟨ordered, ordered.wellFounded, shows, Builtin.apply_ends shows⟩
  · intro α limit past m h steps t n mem n' bound range target source v property run
    have closed := h.closed steps t n mem
    obtain ⟨first, middle, object, key, hsource, located, rfl⟩ := assign_property_ok property run
    obtain ⟨inside, visits, grows⟩ := assign_property_visits hsource located
    refine ⟨first, middle, object, key, inside, hsource, located, rfl, visits, ?_, ?_⟩
    · exact fun none => (grows closed none).not_cyclic closed
    · exact fun acyclic w => Machine.leads_of_stored_cyclic acyclic

/-- An object in a field of another one. -/
def nested : Program Unit :=
  ⟨(), [.declare () ⟨(), .const⟩ ⟨(), "o"⟩ none
    (some (.object () [⟨⟨(), "a"⟩, some (.object () [])⟩]))]⟩

/-- The outer object takes the place of the inner one. -/
def selfStore : Expr Unit :=
  .assign () (.member () (.reference () ⟨(), "o"⟩) ⟨(), "a"⟩ ()) (.reference () ⟨(), "o"⟩)

theorem only_stores_make_cycles_nested :
    ∃ m m' middle : Machine Unit, ∃ object key,
      (Task.program nested).run 4 (Machine.initial none) = .ok .null m ∧ m.Ordered ∧
      (∀ visit ∈ (Task.program nested).visits 4 (Machine.initial none), ¬ visit.Puts) ∧
      (Task.expression selfStore).run 2 m = .ok (.object 1) m' ∧
      m' = middle.stored object key (.object 1) ∧ (∀ w, ¬ middle.Cyclic w) ∧
      m'.Cyclic (.object 1) ∧ (Value.object 1 = .object object ∨
        Relation.TransGen middle.Holds (.object 1) (.object object)) := by
  have noStore : ∀ visit ∈ (Task.program nested).visits 4 (Machine.initial none),
      ¬ visit.Puts := by
    have literals : (Task.program nested).visits 4 (Machine.initial none) =
        [⟨_, .object () _, _⟩, ⟨_, .object () _, _⟩] := rfl
    rw [literals]
    refine List.forall_mem_cons.mpr ⟨?_, List.forall_mem_singleton.mpr ?_⟩
    · rintro ⟨⟨⟩⟩
    · rintro ⟨⟨⟩⟩
  let run := (Task.program nested).watch 4 (Machine.initial none)
  obtain ⟨-, sessions, stores⟩ := only_stores_make_cycles (ρ := Unit)
  obtain ⟨-, calm, ordered⟩ := sessions .start 4 (.program nested)
  have ordered := (ordered _ (calm noStore _ run.path.last_mem)).1
  let after := run.last.stored 1 "a" (.object 1)
  have ran : (Task.expression selfStore).run 2 run.last = .ok (.object 1) after := rfl
  obtain ⟨first, middle, object, key, inside, -, -, same, visits, calm, leads⟩ :=
    stores (.run 4 (.program nested) .start rfl) 0 (.program nested) run.last
      (List.mem_append_left _ run.path.last_mem) rfl ran
  have references : ∀ visit ∈ inside, ¬ visit.Puts := by
    have both : (Task.expression selfStore).visits 2 run.last = [⟨0, .reference () _, _⟩,
        ⟨0, .reference () _, _⟩] ++ [⟨1, selfStore, run.last⟩] := rfl
    rw [List.append_cancel_right (visits.symm.trans both)]
    refine List.forall_mem_cons.mpr ⟨?_, List.forall_mem_singleton.mpr ?_⟩
    · rintro ⟨⟨⟩⟩
    · rintro ⟨⟨⟩⟩
  have acyclic := calm references ordered.not_cyclic
  have cyclic : after.Cyclic (.object 1) := .single ⟨1, _, "a", rfl, rfl, List.mem_cons_self⟩
  exact ⟨_, _, middle, object, key, rfl, ordered, noStore, ran, same, acyclic, cyclic,
    leads acyclic _ cyclic⟩

/-- Two objects with no fields. -/
def twoObjects : Program Unit :=
  ⟨(), [.declare () ⟨(), .const⟩ ⟨(), "a"⟩ none (some (.object () [])),
    .declare () ⟨(), .const⟩ ⟨(), "b"⟩ none (some (.object () []))]⟩

/-- What is assigned to a property of the first object is what an assignment puts into the
second, which is that object itself. -/
def storeInside : Expr Unit :=
  .assign () (.member () (.reference () ⟨(), "a"⟩) ⟨(), "x"⟩ ())
    (.assign () (.member () (.reference () ⟨(), "b"⟩) ⟨(), "y"⟩ ()) (.reference () ⟨(), "b"⟩))

/-- An assignment to a property may be what is assigned to another one. Before the outer one no
object contains itself, and after it one does. Yet the value is not the object that it is put
into, and does not lead to it, neither before nor after. -/
theorem store_inside_makes_cycle :
    ∃ m m' first middle : Machine Unit,
      (Task.program twoObjects).run 3 (Machine.initial none) = .ok .null m ∧
      (∀ w, ¬ m.Cyclic w) ∧
      (Task.expression storeInside).run 4 m = .ok (.object 1) m' ∧
      (Expr.member () (.reference () ⟨(), "a"⟩) ⟨(), "x"⟩ ()).Locates 3 first 0 "x" middle ∧
      m' = middle.stored 0 "x" (.object 1) ∧ m'.Cyclic (.object 1) ∧
      Value.object 1 ≠ .object 0 ∧
      ¬ Relation.TransGen m.Holds (.object 1) (.object 0) ∧
      ¬ Relation.TransGen m'.Holds (.object 1) (.object 0) := by
  obtain ⟨m, made, objects, m', stores, middle, located, same, objects'⟩ : ∃ m : Machine Unit,
      (Task.program twoObjects).run 3 (Machine.initial none) = .ok .null m ∧
      m.objects = #[[], []] ∧
      ∃ m', (Task.expression storeInside).run 4 m = .ok (.object 1) m' ∧
      ∃ middle, (Expr.member () (.reference () ⟨(), "a"⟩) ⟨(), "x"⟩ ()).Locates 3 middle 0 "x"
        middle ∧ m' = middle.stored 0 "x" (.object 1) ∧
      m'.objects = #[[("x", .object 1)], [("y", .object 1)]] :=
    ⟨_, rfl, rfl, _, rfl, _, .member rfl, rfl, rfl⟩
  have empty (v w : Value) : ¬ m.Holds v w := by
    rintro ⟨id, fields, key, -, found, mem⟩
    rw [objects] at found
    obtain rfl : fields = [] := by simpa using Array.mem_of_getElem? found
    cases mem
  have apart (v w : Value) (path : Relation.TransGen m.Holds v w) : False := by
    obtain ⟨_, step, -⟩ := Relation.TransGen.head'_iff.mp path
    exact empty _ _ step
  have holds (w : Value) : m'.Holds (.object 1) w → w = .object 1 := by
    rintro ⟨_, fields, key, ⟨⟩, found, mem⟩
    rw [objects'] at found
    cases found
    cases List.mem_singleton.mp mem
    rfl
  have leads (w : Value) (path : Relation.TransGen m'.Holds (.object 1) w) : w = .object 1 := by
    induction path with
    | single step => exact holds _ step
    | tail _ step ih =>
        subst ih
        exact holds _ step
  have loop : m'.Holds (.object 1) (.object 1) :=
    ⟨1, _, "y", rfl, by rw [objects']; rfl, List.mem_cons_self⟩
  refine ⟨m, m', middle, middle, made, fun w => apart w w, stores, located, same, .single loop,
    nofun, apart _ _, fun path => ?_⟩
  cases leads _ path

end Guion
