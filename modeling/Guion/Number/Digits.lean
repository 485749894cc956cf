/-!
# Digits

The natural number that a list of decimal digits writes. A long list is read in
blocks: the digits of the present block gather in a small number, and only a full
block moves into the large one, so that reading takes few steps on large numbers.

The main statement is `ofDigits_eq_foldl`: the blocks do not show, each digit makes
the number ten times as large and adds itself.
-/

namespace Guion.Number

/-- The value of a digit. -/
def digitValue (digit : Char) : Nat := digit.toNat - '0'.toNat

/-- What is read of a number: the digits of `high` come first, then those of the
present block, `low`, in which `weight` has as many zeros as the block has digits. -/
structure Blocks where
  high : Nat
  weight : Nat
  low : Nat

namespace Blocks

/-- The weight of a full block. -/
def fullWeight : Nat := Nat.pow 10 200

/-- Nothing is read yet. -/
def empty : Blocks := ⟨0, 1, 0⟩

/-- The number that is read. -/
def value (blocks : Blocks) : Nat := blocks.high * blocks.weight + blocks.low

/-- Reads one more digit, the first of a new block if the present one is full. -/
def push (blocks : Blocks) (digit : Nat) : Blocks :=
  if blocks.weight < fullWeight then
    ⟨blocks.high, 10 * blocks.weight, 10 * blocks.low + digit⟩
  else
    ⟨blocks.value, 10, digit⟩

@[simp] theorem value_empty : empty.value = 0 := rfl

@[simp] theorem value_push (blocks : Blocks) (digit : Nat) :
    (blocks.push digit).value = 10 * blocks.value + digit := by
  unfold push
  split
  · simp only [value, Nat.mul_add, Nat.mul_left_comm, Nat.add_assoc]
  · simp only [value, Nat.mul_comm]

end Blocks

/-- The natural number that a list of digits writes. -/
def ofDigits (digits : List Char) : Nat :=
  (digits.foldl (fun blocks digit => blocks.push (digitValue digit)) Blocks.empty).value

theorem Blocks.value_foldl_push (digits : List Char) (blocks : Blocks) :
    (digits.foldl (fun blocks digit => blocks.push (digitValue digit)) blocks).value =
      digits.foldl (fun n digit => 10 * n + digitValue digit) blocks.value := by
  induction digits generalizing blocks with
  | nil => rfl
  | cons digit digits ih => rw [List.foldl_cons, ih, Blocks.value_push, List.foldl_cons]

/-- A digit makes the number before it ten times as large and adds itself. -/
theorem ofDigits_eq_foldl (digits : List Char) :
    ofDigits digits = digits.foldl (fun n digit => 10 * n + digitValue digit) 0 :=
  Blocks.value_foldl_push digits Blocks.empty

end Guion.Number
