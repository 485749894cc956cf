import Guion.Proofs.Run.Resemblance
import Guion.Run.Effects

/-!
# Printing

A value is printed piece by piece. If it has a text, printing it is printing the text. If it
has none, what is written of it grows with every step inward, so that it fills a limited
output, and with an unlimited one the printing does not end.
-/

namespace Guion

variable {ρ : Type} {m : Machine ρ} {v : Value}

/-! ### Texts that are given up -/

/-- A text that is not whole has so many bytes at least. -/
def Rendered.Reaches (n : Nat) (r : Rendered) : Prop := r.whole = false → n ≤ r.text.utf8ByteSize

namespace Rendered.Reaches

variable {n : Nat} {a b : Rendered}

theorem piece (text : String) : (Rendered.piece text).Reaches n := nofun

theorem append (ha : a.Reaches n) (hb : b.Reaches n) : (a ++ b).Reaches n := by
  obtain ⟨text, whole⟩ := a
  cases whole with
  | false => exact ha
  | true =>
      intro given
      change n ≤ (text ++ b.text).utf8ByteSize
      rw [String.utf8ByteSize_append]
      exact Nat.le_add_left_of_le (hb given)

/-- A piece in front adds its bytes. -/
theorem piece_append (text : String) (hb : b.Reaches n) :
    (Rendered.piece text ++ b).Reaches (text.utf8ByteSize + n) := by
  intro given
  change text.utf8ByteSize + n ≤ (text ++ b.text).utf8ByteSize
  rw [String.utf8ByteSize_append]
  exact Nat.add_le_add_left (hb given) _

theorem mono {k : Nat} (le : k ≤ n) (ha : a.Reaches n) : a.Reaches k :=
  fun given => le.trans (ha given)

end Rendered.Reaches

section

variable {inside inside' : Value → Rendered} {n : Nat}

theorem Fields.renderField_reaches (h : ∀ v, (inside v).Reaches n) (key : String) (v : Value) :
    (renderField inside key v).Reaches n := by
  refine .append (.piece _) ?_
  cases v with
  | text s => exact .piece _
  | _ => exact h _

theorem Fields.renderMore_reaches (h : ∀ v, (inside v).Reaches n) (fields : Fields) :
    (renderMore inside fields).Reaches n := by
  induction fields with
  | nil => exact .piece _
  | cons entry rest ih =>
      exact .append (.piece _) (.append (renderField_reaches h entry.1 entry.2) ih)

/-- The brace in front of the fields is a byte more at least. -/
theorem Fields.render_reaches (h : ∀ v, (inside v).Reaches n) (fields : Fields) :
    (fields.render inside).Reaches (n + 1) := by
  cases fields with
  | nil => exact .piece _
  | cons entry rest =>
      have behind : (renderField inside entry.1 entry.2 ++
          (renderMore inside rest ++ Rendered.piece " \x7d")).Reaches n :=
        .append (renderField_reaches h _ _) (.append (renderMore_reaches h rest) (.piece _))
      have brace : "\x7b ".utf8ByteSize = 2 := by decide
      exact (behind.piece_append "\x7b ").mono (by omega)

/-- Fields are rendered alike if what they hold is. -/
theorem Fields.render_congr {fields : Fields}
    (same : ∀ entry ∈ fields, inside entry.2 = inside' entry.2) :
    fields.render inside = fields.render inside' := by
  have field {key : String} {v : Value} (mem : (key, v) ∈ fields) :
      renderField inside key v = renderField inside' key v := by
    have equal : inside v = inside' v := same _ mem
    cases v <;> simp [renderField, equal]
  have more (rest : Fields) (part : ∀ entry ∈ rest, entry ∈ fields) :
      renderMore inside rest = renderMore inside' rest := by
    induction rest with
    | nil => rfl
    | cons entry rest ih =>
        obtain ⟨first, others⟩ := List.forall_mem_cons.mp part
        rw [renderMore, renderMore, field first, ih others]
  cases fields with
  | nil => rfl
  | cons entry rest =>
      rw [render, render, field List.mem_cons_self,
        more rest fun _ mem => List.mem_cons_of_mem _ mem]

end

/-- Every step inward writes something. -/
theorem Value.render_reaches (objects : Array Fields) (closures : Array (Closure ρ)) (n : Nat)
    (v : Value) : (v.render objects closures n).Reaches n := by
  induction n generalizing v with
  | zero => exact fun _ => Nat.zero_le _
  | succ n ih =>
      cases v with
      | object id => exact Fields.render_reaches ih _
      | boolean b => cases b <;> exact .piece _
      | _ => exact .piece _

/-! ### What is printed -/

/-- A text that a limited output has no room for does not fit. -/
theorem Output.write_snd_of_lt {output : Output} {text : String} {limit : Nat}
    (limited : output.limit = some limit) (long : output.room < text.utf8ByteSize) :
    (output.write text).2 = false := by
  obtain ⟨bytes, _⟩ := output
  obtain rfl := limited
  rw [write]
  exact congrArg Prod.snd (if_neg (Nat.not_le_of_lt long))

/-- What is printed of a value that has a text is the text. -/
theorem Machine.printed_of_some {text : String} (shown : m.display? v = some text) :
    m.printed v = .piece text := by
  have whole : (m.printed v).whole? = some text :=
    displayWithin_mono (Nat.le_add_right _ _) shown
  generalize m.printed v = r at whole
  obtain ⟨written, finished⟩ := r
  cases finished with
  | true =>
      cases whole
      rfl
  | false => cases whole

/-- What is printed of a value that has no text is never the whole of it. -/
theorem Machine.printed_of_none (hidden : m.display? v = none) :
    (m.printed v).whole = false := by
  have missing : (m.printed v).whole? = none := (display?_eq_none_iff.mp hidden).displayWithin _
  generalize m.printed v = r at missing
  obtain ⟨written, finished⟩ := r
  cases finished with
  | true => cases missing
  | false => rfl

/-- It is longer than what a limited output still takes. -/
theorem Machine.room_lt_printed (hidden : m.display? v = none) :
    m.output.room < (m.printed v).text.utf8ByteSize := by
  have reaches := v.render_reaches m.objects m.closures (m.objects.size + 1 + m.output.room)
    (Machine.printed_of_none hidden)
  exact Nat.lt_of_lt_of_le (by omega) reaches

namespace Exec

theorem display_of_some {text : String} (shown : m.display? v = some text) :
    (Effects.display v : Exec ρ String) m = .ok text m := by
  simp only [Effects.display, shown]

theorem display_of_none (hidden : m.display? v = none) :
    (Effects.display v : Exec ρ String) m = .unfinished := by
  simp only [Effects.display, hidden]

theorem print_eq (range : ρ) (v : Value) (m : Machine ρ) :
    print range v m = if (m.output.write (m.printed v).text).2 then
        if (m.printed v).whole then
          .ok () { m with output := (m.output.write (m.printed v).text).1 }
        else
          .unfinished
      else
        .error ⟨range, .outputFailed Output.full⟩
          { m with output := (m.output.write (m.printed v).text).1 } := by
  simp only [print, write_eq]
  by_cases fits : (m.output.write (m.printed v).text).2 = true
  · rw [if_pos fits, if_pos fits]
  · rw [if_neg fits, if_neg fits]

theorem print_of_some {text : String} (range : ρ) (shown : m.display? v = some text) :
    print range v m = write range text m := by
  simp only [print, Machine.printed_of_some shown, Rendered.piece, if_true]
  cases write range text m <;> rfl

/-- An object that contains itself is printed for ever if the output is unlimited. -/
theorem print_unlimited (range : ρ) (hidden : m.display? v = none)
    (unlimited : m.output.limit = none) : print range v m = .unfinished := by
  obtain ⟨frames, objects, closures, ⟨bytes, limit⟩, scope, depth⟩ := m
  obtain rfl : limit = none := unlimited
  rw [print_eq, Machine.printed_of_none hidden]
  rfl

/-- It fills an output that is limited. -/
theorem print_limited (range : ρ) (hidden : m.display? v = none) {limit : Nat}
    (limited : m.output.limit = some limit) : ∃ last,
      print range v m = .error ⟨range, .outputFailed Output.full⟩ last := by
  have full := Output.write_snd_of_lt limited (Machine.room_lt_printed hidden)
  rw [print_eq, if_neg (Bool.eq_false_iff.mp full)]
  exact ⟨_, rfl⟩

end Exec

end Guion
