import Mathlib.Data.Nat.Notation
import Mathlib.Data.Nat.Bitwise
import Mathlib.Tactic.Ring

/-! # Bit fields of natural numbers

`field x k n` is the value of the `n` bits of `x` from bit `k` on. A disjunction acts on each field by
itself, and a mask of consecutive bits keeps one field in place.
-/

namespace BitFields

/-- The bits `k` to `k + n - 1`. -/
def field (x k n : ℕ) : ℕ := x / 2 ^ k % 2 ^ n

variable {x y k n : ℕ}

theorem field_or : field (x ||| y) k n = field x k n ||| field y k n := by
  rw [field, Nat.or_div_two_pow, Nat.or_mod_two_pow, field, field]

theorem field_lt : field x k n < 2 ^ n := Nat.mod_lt _ (Nat.two_pow_pos n)

/-- Without its carries a sum gets no larger. -/
theorem xor_le_add (a b : ℕ) : a ^^^ b ≤ a + b := by
  induction a using Nat.strongRecOn generalizing b with
  | ind a ih =>
    rcases Nat.eq_zero_or_pos a with rfl | positive
    · rw [Nat.zero_xor, Nat.zero_add]
    · have half := ih (a / 2) (by omega) (b / 2)
      have low := Nat.xor_mod_two_eq (m := a) (n := b)
      have high := Nat.xor_div_two (a := a) (b := b)
      omega

/-- Clearing the bits of a mask takes no more than the mask away. -/
theorem le_clear_add {a m n : ℕ} (small : a < 2 ^ n) : a ≤ (a &&& (2 ^ n - 1 ^^^ m)) + m := by
  have split : a &&& (2 ^ n - 1 ^^^ m) = a ^^^ (a &&& m) := by
    rw [Nat.and_xor_distrib_left, Nat.and_two_pow_sub_one_of_lt_two_pow small]
  have back := xor_le_add (a ^^^ (a &&& m)) (a &&& m)
  rw [Nat.xor_assoc, Nat.xor_self, Nat.xor_zero] at back
  have part : a &&& m ≤ m := Nat.and_le_right
  omega

/-- A bit that one side sets is set. -/
theorem field_or_one (one : field y k 1 = 1) : field (x ||| y) k 1 = 1 := by
  have bound : field x k 1 < 2 := field_lt
  obtain zero | set : field x k 1 = 0 ∨ field x k 1 = 1 := by omega
  · rw [field_or, zero, one, Nat.zero_or]
  · rw [field_or, set, one, Nat.or_self]

theorem and_mask : x &&& (2 ^ n - 1) * 2 ^ k = field x k n * 2 ^ k := by
  apply Nat.eq_of_testBit_eq
  intro i
  rw [Nat.testBit_and, Nat.testBit_mul_two_pow, Nat.testBit_mul_two_pow, Nat.testBit_two_pow_sub_one, field,
    Nat.testBit_mod_two_pow, Nat.testBit_div_two_pow]
  by_cases above : k ≤ i
  · rw [Nat.sub_add_cancel above, Bool.and_comm]
    simp [above]
  · simp [above]

theorem and_bit_ne_zero : x &&& 2 ^ k ≠ 0 ↔ field x k 1 = 1 := by
  have mask : x &&& 2 ^ k = field x k 1 * 2 ^ k := by simpa using and_mask (x := x) (k := k) (n := 1)
  have bound : field x k 1 < 2 := field_lt
  rw [mask]
  constructor
  · intro nonzero
    have : field x k 1 ≠ 0 := fun zero => nonzero (by rw [zero, Nat.zero_mul])
    omega
  · intro one
    rw [one, Nat.one_mul]
    exact (Nat.two_pow_pos k).ne'

end BitFields
