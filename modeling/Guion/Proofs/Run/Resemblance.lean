import Guion.Proofs.Run.Containment
import Guion.Proofs.Run.Fields

/-!
# What the text of an object shows

Once a value has a text within some number of steps inward, it has the same text within any
more. So the text of an object can be told without counting steps: it shows each field once,
in the order of the keys, with the text of what the field holds.

Two objects have the same text if alike values are found in them under each key. Objects are
alike if the same is true of them; which objects of two machines correspond is given by a
relation, so that objects may be shared on one side and not on the other, and may contain
themselves.
-/

namespace Guion

variable {ρ : Type} {m m' : Machine ρ}

/-! ### Steps inward -/

theorem Value.inside_mono {v : Value} {shown more : Value → Option String} {text : String}
    (h : ∀ text, shown v = some text → more v = some text)
    (found : v.inside shown = some text) : v.inside more = some text := by
  cases v with
  | text s => exact found
  | _ => exact h text found

/-- Fields keep their text where what they hold keeps its own. -/
theorem Fields.display_mono {shown more : Value → Option String} {fields : Fields}
    (h : ∀ entry ∈ fields, ∀ text, shown entry.2 = some text → more entry.2 = some text)
    {text : String} (found : fields.display shown = some text) :
    fields.display more = some text := by
  rw [← found]
  refine display_congr (List.forall₂_same.mpr fun entry mem => ⟨rfl, ?_⟩)
  cases inside : entry.2.inside shown with
  | none =>
      have missing := display_eq_none_iff.mpr ⟨entry, mem, inside⟩
      rw [found] at missing
      cases missing
  | some text => exact Value.inside_mono (h entry mem) inside

section

variable {objects : Array Fields} {closures : Array (Closure ρ)} {v : Value} {text : String}

theorem displayWithin_succ {n : Nat} (found : v.displayWithin objects closures n = some text) :
    v.displayWithin objects closures (n + 1) = some text := by
  induction n generalizing v text with
  | zero =>
      cases v with
      | object id => cases found
      | boolean b => cases b <;> exact found
      | _ => exact found
  | succ n ih =>
      cases v with
      | object id =>
          rw [displayWithin_object] at found ⊢
          exact Fields.display_mono (fun _ _ _ => ih) found
      | boolean b => cases b <;> exact found
      | _ => exact found

/-- A text that is found within some steps is found within more. -/
theorem displayWithin_mono {n n' : Nat} (le : n ≤ n')
    (found : v.displayWithin objects closures n = some text) :
    v.displayWithin objects closures n' = some text := by
  induction n', le using Nat.le_induction with
  | base => exact found
  | succ n' _ ih => exact displayWithin_succ ih

end

/-- Values that have the same text within any number of steps have the same text. -/
theorem display?_eq_of_within {v w : Value}
    (same : ∀ n,
      v.displayWithin m.objects m.closures n = w.displayWithin m'.objects m'.closures n) :
    m.display? v = m'.display? w := by
  cases shown : m.display? v with
  | none =>
      have missing := (display?_eq_none_iff.mp shown).displayWithin
      exact ((same _).symm.trans (missing _)).symm
  | some text =>
      cases shown' : m'.display? w with
      | none =>
          have missing := (display?_eq_none_iff.mp shown').displayWithin
          exact (shown.symm.trans (same _)).trans (missing _)
      | some text' =>
          let n := max (m.objects.size + 1) (m'.objects.size + 1)
          have first := displayWithin_mono (Nat.le_max_left _ _ : _ ≤ n) shown
          have second := displayWithin_mono (Nat.le_max_right _ _ : _ ≤ n) shown'
          rw [← first, ← second, same]

/-- The text of an object shows its fields one after the other. -/
theorem display?_object {id : Nat} {fields : Fields} (found : m.objects[id]? = some fields) :
    m.display? (.object id) = fields.display m.display? := by
  have step := displayWithin_object m.objects m.closures m.objects.size id
  rw [found, Option.getD_some] at step
  change m.display? (.object id) = _ at step
  cases shown : m.display? (.object id) with
  | some text =>
      rw [shown] at step
      exact (Fields.display_mono (fun _ _ _ => displayWithin_succ) step.symm).symm
  | none =>
      -- what shows a cycle is in it or holds something that shows it
      obtain ⟨w, path, cyclic⟩ := display?_eq_none_iff.mp shown
      have inner : ∃ v, m.Holds (.object id) v ∧ m.ShowsCyclic v := by
        obtain rfl | ⟨v, holds, path⟩ := Relation.ReflTransGen.cases_head path
        · obtain ⟨v, holds, path⟩ := Relation.TransGen.head'_iff.mp cyclic
          exact ⟨v, holds, _, path, cyclic⟩
        · exact ⟨v, holds, w, path, cyclic⟩
      obtain ⟨v, ⟨_, entries, key, ⟨⟩, hentries, mem⟩, shows⟩ := inner
      obtain rfl := Option.some.inj (found.symm.trans hentries)
      have missing := display?_eq_none_iff.mpr shows
      refine (Fields.display_eq_none_iff.mpr ⟨_, mem, ?_⟩).symm
      exact (Value.inside_eq_none_iff fun _ => Option.some_ne_none _).mpr missing

/-! ### Objects that resemble each other -/

/-- A value that refers to no object and to no function that was made. -/
def Value.isPlain : Value → Bool
  | .object _ | .function _ => false
  | _ => true

/-- Two values of two machines show the same, if objects that correspond do. -/
inductive Value.Alike (m m' : Machine ρ) (corresponds : Nat → Nat → Prop) : Value → Value → Prop
  | plain {v : Value} : v.isPlain = true → Alike m m' corresponds v v
  | object {i j : Nat} : corresponds i j → Alike m m' corresponds (.object i) (.object j)
  | function {i j : Nat} :
      m.closures[i]?.map Closure.display = m'.closures[j]?.map Closure.display →
      Alike m m' corresponds (.function i) (.function j)

/-- A plain value has the same text everywhere. -/
theorem Value.displayWithin_plain {v : Value} (plain : v.isPlain = true) (n : Nat) :
    v.displayWithin m.objects m.closures n = v.displayWithin m'.objects m'.closures n := by
  cases n <;> cases v with
    | object | function => cases plain
    | boolean b => cases b <;> rfl
    | _ => rfl

theorem Value.Alike.inside_eq {corresponds : Nat → Nat → Prop} {v w : Value}
    {shown shown' : Value → Option String} (h : v.Alike m m' corresponds w)
    (same : shown v = shown' w) : v.inside shown = w.inside shown' := by
  cases h with
  | plain => exact Value.inside_congr same
  | object => exact same
  | function => exact same

/-- Objects correspond only if alike values are found in them under each key. -/
def Machine.Resembles (m m' : Machine ρ) (corresponds : Nat → Nat → Prop) : Prop :=
  ∀ i j, corresponds i j → ∃ fields fields' : Fields,
    m.objects[i]? = some fields ∧ m'.objects[j]? = some fields' ∧
    fields.Ascending ∧ fields'.Ascending ∧
    ∀ key, Option.Rel (Value.Alike m m' corresponds) (fields.get? key) (fields'.get? key)

namespace Machine.Resembles

variable {corresponds : Nat → Nat → Prop} (h : m.Resembles m' corresponds) {v w : Value}

include h

theorem displayWithin (alike : v.Alike m m' corresponds w) (n : Nat) :
    v.displayWithin m.objects m.closures n = w.displayWithin m'.objects m'.closures n := by
  induction n generalizing v w with
  | zero =>
      cases alike with
      | plain isPlain => exact Value.displayWithin_plain isPlain 0
      | object => rfl
      | function same => simp only [Value.displayWithin, Value.render, same]
  | succ n ih =>
      cases alike with
      | plain isPlain => exact Value.displayWithin_plain isPlain _
      | object related =>
          obtain ⟨fields, fields', found, found', ascending, ascending', inner⟩ := h _ _ related
          rw [displayWithin_object, displayWithin_object, found, found']
          have pairs := ascending.forall₂_of_get? ascending' inner
          exact Fields.display_congr (pairs.imp fun _ _ pair =>
            ⟨pair.1, pair.2.inside_eq (ih pair.2)⟩)
      | function same => simp only [Value.displayWithin, Value.render, same]

/-- Alike values have the same text, whatever objects it goes through. -/
theorem display? (alike : v.Alike m m' corresponds w) : m.display? v = m'.display? w :=
  display?_eq_of_within (h.displayWithin alike)

end Machine.Resembles

end Guion
