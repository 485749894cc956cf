import Guion.Run.Value
import Mathlib.Data.List.Forall2
import Mathlib.Data.List.Induction

/-!
# Fields as maps

The fields of an object are a map that is kept in one way only. Their keys ascend, so they
are known from what is found under each key, and what is found there is what was put there
last. In which order other keys were written, and what stood under a key before, leaves no
trace.
-/

namespace Guion

namespace Fields

variable {fields fields' : Fields} {key : String} {v : Value}

/-- The keys ascend in the order of strings, which goes by code points. No key stands there
twice. -/
def Ascending (fields : Fields) : Prop :=
  fields.Pairwise fun entry later => entry.1 < later.1

/-! ### Reading -/

theorem get?_cons (k : String) (v : Value) (fields : Fields) (key : String) :
    Fields.get? ((k, v) :: fields) key = if key = k then some v else fields.get? key := by
  rw [get?, List.lookup_cons]
  by_cases same : key = k
  · rw [if_pos same, beq_iff_eq.mpr same]
  · rw [if_neg same, beq_eq_false_iff_ne.mpr same]
    rfl

/-- Nothing is found under a key that comes before all others. -/
theorem get?_eq_none_of_lt (before : ∀ entry ∈ fields, key < entry.1) :
    fields.get? key = none := by
  apply List.lookup_eq_none_iff.mpr
  intro entry mem
  apply bne_iff_ne.mpr
  intro same
  have less := before entry mem
  rw [same] at less
  exact String.lt_irrefl _ less

namespace Ascending

/-- In ascending fields nothing is found before the first key. -/
theorem get?_before {k : String} (h : Ascending ((k, v) :: fields)) (before : key < k) :
    Fields.get? ((k, v) :: fields) key = none := by
  apply get?_eq_none_of_lt
  intro entry mem
  obtain rfl | mem := List.mem_cons.mp mem
  · exact before
  · exact String.lt_trans before (List.rel_of_pairwise_cons h mem)

/-- In ascending fields the first key is not found again. -/
theorem get?_first {k : String} (h : Ascending ((k, v) :: fields)) : fields.get? k = none :=
  get?_eq_none_of_lt fun _ mem => List.rel_of_pairwise_cons h mem

variable (h : fields.Ascending)

include h

/-- Keys that ascend do so by their code points, compared one after the other. -/
theorem codePoints :
    (fields.map fun entry => entry.1.toList.map Char.toNat).Pairwise (· < ·) := by
  apply List.pairwise_map.mpr
  refine List.Pairwise.imp (fun {entry later} less => ?_) h
  exact List.map_lt (fun _ _ before => UInt32.lt_iff_toNat_lt.mp before) less

theorem nodup_keys : (fields.map Prod.fst).Nodup := by
  apply List.pairwise_map.mpr
  refine List.Pairwise.imp (fun {entry later} less same => ?_) h
  rw [same] at less
  exact String.lt_irrefl _ less

/-- Ascending fields in which alike values are found under each key are alike field by
field. -/
theorem forall₂_of_get? {R : Value → Value → Prop} (h' : fields'.Ascending)
    (alike : ∀ key, Option.Rel R (fields.get? key) (fields'.get? key)) :
    List.Forall₂ (fun entry entry' => entry.1 = entry'.1 ∧ R entry.2 entry'.2) fields fields' := by
  induction fields generalizing fields' with
  | nil =>
      cases fields' with
      | nil => exact .nil
      | cons entry rest =>
          have found := alike entry.1
          rw [get?_cons, if_pos rfl] at found
          cases found
  | cons entry rest ih =>
      obtain ⟨k, v⟩ := entry
      cases fields' with
      | nil =>
          have found := alike k
          rw [get?_cons, if_pos rfl] at found
          cases found
      | cons entry' rest' =>
          obtain ⟨k', v'⟩ := entry'
          have notAfter : ¬ k' < k := by
            intro before
            have found := alike k'
            rw [h.get?_before before, get?_cons, if_pos rfl] at found
            cases found
          have notBefore : ¬ k < k' := by
            intro before
            have found := alike k
            rw [h'.get?_before before, get?_cons, if_pos rfl] at found
            cases found
          obtain rfl := String.le_antisymm notAfter notBefore
          have first := alike k
          rw [get?_cons, get?_cons, if_pos rfl, if_pos rfl] at first
          have more : ∀ key, Option.Rel R (Fields.get? rest key) (Fields.get? rest' key) := by
            intro key
            by_cases same : key = k
            · rw [same, h.get?_first, h'.get?_first]
              exact .none
            · have found := alike key
              rwa [get?_cons, get?_cons, if_neg same, if_neg same] at found
          cases first with
          | some values =>
              exact .cons ⟨rfl, values⟩
                (ih (List.Pairwise.of_cons h) (List.Pairwise.of_cons h') more)

/-- Ascending fields are known from what is found under each key. -/
theorem ext (h' : fields'.Ascending)
    (same : ∀ key, fields.get? key = fields'.get? key) : fields = fields' := by
  have alike (key : String) : Option.Rel (· = ·) (fields.get? key) (fields'.get? key) := by
    rw [same]
    cases fields'.get? key with
    | none => exact .none
    | some v => exact .some rfl
  have all : List.Forall₂ (· = ·) fields fields' :=
    (h.forall₂_of_get? h' alike).imp fun _ _ equal => Prod.ext equal.1 equal.2
  rwa [List.forall₂_eq_eq_eq] at all

end Ascending

/-! ### Writing -/

/-- An entry after a write was there before, or it is what was written. -/
theorem mem_of_mem_insert {entry : String × Value} (h : entry ∈ fields.insert key v) :
    entry ∈ fields ∨ entry = (key, v) := by
  induction fields with
  | nil => exact .inr (List.mem_singleton.mp h)
  | cons first rest ih =>
      obtain ⟨k, old⟩ := first
      rw [Fields.insert] at h
      split at h
      · exact (List.mem_cons.mp h).symm
      · split at h
        · obtain rfl | mem := List.mem_cons.mp h
          · exact .inr rfl
          · exact .inl (List.mem_cons_of_mem _ mem)
        · obtain rfl | mem := List.mem_cons.mp h
          · exact .inl List.mem_cons_self
          · exact (ih mem).imp_left (List.mem_cons_of_mem _)

/-- A write settles what is found under its key, and under no other. -/
theorem get?_insert (fields : Fields) (key : String) (v : Value) (k : String) :
    (fields.insert key v).get? k = if k = key then some v else fields.get? k := by
  induction fields with
  | nil => exact get?_cons key v [] k
  | cons first rest ih =>
      obtain ⟨own, old⟩ := first
      rw [Fields.insert]
      split
      · exact get?_cons key v _ k
      · split
        · next same =>
          subst same
          rw [get?_cons, get?_cons]
          split <;> rfl
        · next other =>
          rw [get?_cons, get?_cons, ih]
          by_cases here : k = own
          · subst here
            rw [if_pos rfl, if_pos rfl, if_neg (Ne.symm other)]
          · rw [if_neg here, if_neg here]

/-- A write keeps the keys ascending. -/
theorem Ascending.insert (h : fields.Ascending) (key : String) (v : Value) :
    (fields.insert key v).Ascending := by
  induction fields with
  | nil => exact List.pairwise_singleton _ _
  | cons first rest ih =>
      obtain ⟨k, old⟩ := first
      obtain ⟨after, more⟩ := List.pairwise_cons.mp h
      rw [Fields.insert]
      split
      · next before =>
        refine List.pairwise_cons.mpr ⟨List.forall_mem_cons.mpr ⟨before, ?_⟩, h⟩
        exact fun entry mem => String.lt_trans before (after entry mem)
      · next notBefore =>
        split
        · next same =>
          subst same
          exact List.pairwise_cons.mpr ⟨after, more⟩
        · next other =>
          have less : k < key := by
            apply Decidable.byContradiction
            intro notAfter
            exact other (String.le_antisymm notAfter notBefore)
          refine List.pairwise_cons.mpr ⟨fun entry mem => ?_, ih more⟩
          obtain old | rfl := mem_of_mem_insert mem
          · exact after entry old
          · exact less

/-- Values put under keys, one after the other. -/
def written (fields : Fields) (writes : List (String × Value)) : Fields :=
  writes.foldl (fun fields write => fields.insert write.1 write.2) fields

theorem written_append (fields : Fields) (first second : List (String × Value)) :
    fields.written (first ++ second) = (fields.written first).written second :=
  List.foldl_append

theorem Ascending.written (h : fields.Ascending) (writes : List (String × Value)) :
    (fields.written writes).Ascending := by
  induction writes generalizing fields with
  | nil => exact h
  | cons write more ih => exact ih (h.insert write.1 write.2)

end Fields

/-- The value that a key is left with by some writes, if one of them is to it. -/
def lastWritten (writes : List (String × Value)) (key : String) : Option Value :=
  List.lookup key writes.reverse

/-- A later write replaces the values that its key was left with, and no other. -/
theorem lastWritten_concat (writes : List (String × Value)) (key : String) (v : Value)
    (k : String) :
    lastWritten (writes ++ [(key, v)]) k = if k = key then some v else lastWritten writes k := by
  rw [lastWritten, List.reverse_concat]
  exact Fields.get?_cons key v writes.reverse k

namespace Fields

/-- What is found under a key is what was written there last. -/
theorem get?_written (fields : Fields) (writes : List (String × Value)) (key : String) :
    (fields.written writes).get? key = (lastWritten writes key).or (fields.get? key) := by
  induction writes using List.reverseRecOn with
  | nil => rfl
  | append_singleton writes write ih =>
      rw [written_append, lastWritten_concat]
      change Fields.get? ((fields.written writes).insert write.1 write.2) key = _
      rw [get?_insert, ih]
      split <;> rfl

theorem get?_written_nil (writes : List (String × Value)) (key : String) :
    Fields.get? (written [] writes) key = lastWritten writes key := by
  rw [get?_written]
  exact Option.or_none

/-- Ascending fields are what is left by writing them one after the other. -/
theorem Ascending.written_self {fields : Fields} (h : fields.Ascending) :
    Fields.written [] fields = fields := by
  apply (Ascending.written .nil fields).ext h
  intro key
  rw [get?_written_nil]
  induction fields with
  | nil => rfl
  | cons first rest ih =>
      obtain ⟨k, v⟩ := first
      rw [lastWritten, List.reverse_cons, List.lookup_append]
      change (lastWritten rest key).or (Fields.get? [(k, v)] key) = _
      rw [ih (List.Pairwise.of_cons h), get?_cons, get?_cons]
      by_cases here : key = k
      · rw [if_pos here, if_pos here, here, h.get?_first, Option.none_or]
      · rw [if_neg here, if_neg here]
        exact Option.or_none

/-- Writes that leave every key with the same value make the same fields. -/
theorem Ascending.written_eq {fields : Fields} (h : fields.Ascending)
    {writes writes' : List (String × Value)}
    (same : ∀ key, lastWritten writes key = lastWritten writes' key) :
    fields.written writes = fields.written writes' := by
  apply (h.written writes).ext (h.written writes')
  intro key
  rw [get?_written, get?_written, same]

end Fields

end Guion
