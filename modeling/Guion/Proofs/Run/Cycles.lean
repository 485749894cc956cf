import Guion.Proofs.Run.Containment
import Guion.Proofs.Run.Fields

/-!
# How objects come to contain themselves

As long as the objects in the fields of an object were made before it, no object contains
itself and every value has a text. Only where a value is put under a key of an object that
is there already can this order be left, and then a cycle goes through that object: the
value is the object or leads back to it.
-/

namespace Guion

variable {ρ : Type} {m : Machine ρ}

/-! ### Objects in the order of their making -/

/-- The objects in the fields of an object were made before it. -/
def Machine.Ordered (m : Machine ρ) : Prop :=
  ∀ id fields, m.objects[id]? = some fields → ∀ key other, (key, Value.object other) ∈ fields →
    other < id

/-- A number for every value, larger for objects that were made later. -/
def Value.rank : Value → Nat
  | .object id => id + 1
  | _ => 0

namespace Machine.Ordered

variable (h : m.Ordered) {v w : Value}

include h

theorem rank_lt (holds : m.Holds v w) : w.rank < v.rank := by
  obtain ⟨id, fields, key, rfl, found, mem⟩ := holds
  cases w with
  | object other => exact Nat.succ_lt_succ (h id fields found key other mem)
  | _ => exact Nat.succ_pos id

theorem wellFounded : WellFounded fun w v => m.Holds v w :=
  Subrelation.wf (fun {_ _} holds => h.rank_lt holds) (InvImage.wf Value.rank Nat.lt_wfRel.wf)

theorem rank_lt_of_transGen (path : Relation.TransGen m.Holds v w) : w.rank < v.rank := by
  induction path with
  | single holds => exact h.rank_lt holds
  | tail _ holds ih => exact Nat.lt_trans (h.rank_lt holds) ih

theorem not_cyclic (v : Value) : ¬ m.Cyclic v := fun cyclic =>
  Nat.lt_irrefl _ (h.rank_lt_of_transGen cyclic)

theorem display?_isSome (v : Value) : (m.display? v).isSome = true := by
  apply Option.isSome_iff_ne_none.mpr
  intro missing
  obtain ⟨w, -, cyclic⟩ := display?_eq_none_iff.mp missing
  exact h.not_cyclic w cyclic

end Machine.Ordered

/-! ### Stores -/

/-- The machine after a value was put under a key of an object. -/
def Machine.stored (m : Machine ρ) (object : Nat) (key : String) (v : Value) : Machine ρ :=
  { m with objects := m.objects.modify object (·.insert key v) }

section

variable {object : Nat} {key : String} {v a b w : Value}

/-- What is held after a store was held before, or it is what was stored. -/
theorem Machine.Holds.of_stored (h : (m.stored object key v).Holds a b) :
    m.Holds a b ∨ a = .object object ∧ b = v := by
  obtain ⟨id, fields, k, rfl, found, mem⟩ := h
  rw [stored, Array.getElem?_modify] at found
  by_cases here : object = id
  · subst here
    rw [if_pos rfl, Option.map_eq_some_iff] at found
    obtain ⟨old, found, rfl⟩ := found
    obtain mem | same := Fields.mem_of_mem_insert mem
    · exact .inl ⟨object, old, k, rfl, found, mem⟩
    · exact .inr ⟨rfl, congrArg Prod.snd same⟩
  · rw [if_neg here] at found
    exact .inl ⟨id, fields, k, rfl, found, mem⟩

/-- A path after a store was there before, or it goes through what was stored. -/
theorem Machine.path_of_stored (path : Relation.TransGen (m.stored object key v).Holds a b) :
    Relation.TransGen m.Holds a b ∨ Relation.ReflTransGen m.Holds v b ∧
      Relation.ReflTransGen m.Holds a (.object object) := by
  induction path with
  | single holds =>
      obtain holds | ⟨rfl, rfl⟩ := holds.of_stored
      · exact .inl (.single holds)
      · exact .inr ⟨.refl, .refl⟩
  | tail _ holds ih =>
      obtain holds | ⟨rfl, rfl⟩ := holds.of_stored
      · exact ih.imp (·.tail holds) fun ⟨inner, outer⟩ => ⟨inner.tail holds, outer⟩
      · obtain before | ⟨-, outer⟩ := ih
        · exact .inr ⟨.refl, before.to_reflTransGen⟩
        · exact .inr ⟨.refl, outer⟩

/-- A store makes a cycle only where the value is the object or leads to it. -/
theorem Machine.leads_of_stored_cyclic (acyclic : ∀ w, ¬ m.Cyclic w)
    (cyclic : (m.stored object key v).Cyclic w) :
    v = .object object ∨ Relation.TransGen m.Holds v (.object object) := by
  obtain before | ⟨inner, outer⟩ := path_of_stored cyclic
  · exact absurd before (acyclic w)
  · obtain same | path := Relation.reflTransGen_iff_eq_or_transGen.mp (inner.trans outer)
    · exact .inl same.symm
    · exact .inr path

end

end Guion
