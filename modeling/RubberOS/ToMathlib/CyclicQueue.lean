import Mathlib.Data.List.Basic
import Mathlib.Data.Nat.Notation
import Mathlib.Logic.Function.Basic

/-! # Queues on a ring of cells

The items of a queue lie in consecutive cells of a ring, from the place of the first one on. A push
writes the cell after the last item, a pop moves the first place on.
-/

namespace CyclicQueue

variable {α : Type*} {n head : ℕ} {cell : ℕ → α} {items : List α} {x : α}

/-- The cells of a ring of `n` from `head` on hold the items in order. -/
structure Holds (n : ℕ) (cell : ℕ → α) (head : ℕ) (items : List α) : Prop where
  inside : head < n
  fits : items.length ≤ n
  item : ∀ i (bound : i < items.length), cell ((head + i) % n) = items[i]

/-- The next place on the ring, by comparison. -/
theorem next_place {i : ℕ} (inside : i < n) : (if i + 1 = n then 0 else i + 1) = (i + 1) % n := by
  split_ifs with last
  · rw [last, Nat.mod_self]
  · rw [Nat.mod_eq_of_lt (by omega)]

theorem add_mod_ne {i j : ℕ} (less : i < j) (bound : j < n) : (head + i) % n ≠ (head + j) % n := by
  intro same
  have small : j - i < n := by omega
  have rest := Nat.sub_mod_eq_zero_of_mod_eq same.symm
  rw [Nat.add_sub_add_left, Nat.mod_eq_of_lt small] at rest
  omega

theorem holds_nil (positive : 0 < n) : Holds n cell 0 [] :=
  ⟨positive, Nat.zero_le _, fun _ bound => absurd bound (Nat.not_lt_zero _)⟩

/-- A push fills the cell after the last item. -/
theorem Holds.push (holds : Holds n cell head items) (room : items.length < n) (x : α) :
    Holds n (Function.update cell ((head + items.length) % n) x) head (items ++ [x]) := by
  refine ⟨holds.inside, ?_, fun i bound => ?_⟩
  · rw [List.length_append, List.length_singleton]
    exact room
  rcases Nat.lt_or_ge i items.length with old | new
  · rw [Function.update_of_ne (add_mod_ne old room), holds.item i old, List.getElem_append_left old]
  · have last : i = items.length := by
      rw [List.length_append, List.length_singleton] at bound
      omega
    subst last
    rw [Function.update_self, List.getElem_concat_length rfl]

/-- A pop takes the first item and moves the first place on. -/
theorem Holds.pop (holds : Holds n cell head (x :: items)) :
    cell head = x ∧ Holds n cell ((head + 1) % n) items := by
  have first := holds.item 0 (Nat.zero_lt_succ _)
  rw [Nat.add_zero, Nat.mod_eq_of_lt holds.inside] at first
  have fits := holds.fits
  rw [List.length_cons] at fits
  refine ⟨first, Nat.mod_lt _ (by omega), by omega, fun i bound => ?_⟩
  have next := holds.item (i + 1) (Nat.succ_lt_succ bound)
  rwa [List.getElem_cons_succ, Nat.add_comm i 1, ← Nat.add_assoc, ← Nat.mod_add_mod] at next

end CyclicQueue
