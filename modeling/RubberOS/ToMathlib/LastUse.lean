import Mathlib.Data.List.Dedup

/-! # Lists in the order of last use

`List.dedup` keeps the last occurrence of every element, so it puts the elements of a history in the order of
their last uses. One more use moves an element to the end.
-/

namespace List

variable {α : Type*} [DecidableEq α] {l : List α} {a : α}

/-- One more use takes the element to the end and leaves the others in their order. -/
theorem dedup_concat (l : List α) (a : α) : (l ++ [a]).dedup = l.dedup.erase a ++ [a] := by
  induction l with
  | nil => rfl
  | cons x l ih =>
    rw [cons_append]
    by_cases old : x ∈ l
    · rw [dedup_cons_of_mem (mem_append_left _ old), dedup_cons_of_mem old, ih]
    · rw [dedup_cons_of_notMem old]
      rcases eq_or_ne x a with rfl | apart
      · have fresh : x ∉ l.dedup := fun member => old (mem_dedup.mp member)
        rw [dedup_cons_of_mem (mem_append_right _ (mem_singleton_self x)), ih, erase_cons_head, erase_of_not_mem fresh]
      · have absent : x ∉ l ++ [a] := by
          rw [mem_append, mem_singleton]
          exact not_or.mpr ⟨old, apart⟩
        rw [dedup_cons_of_notMem absent, ih, erase_cons_tail (by simpa using apart), cons_append]

end List
