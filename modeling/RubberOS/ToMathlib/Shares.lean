import Mathlib.Data.Set.Lattice
import Mathlib.Logic.Pairwise
import Mathlib.Order.CompletePartialOrder

/-! # Shares of one resource

Several owners hold shares of one resource, no two of which meet. An owner that only changes its own
share, into something the others do not hold, keeps this; so what is known about one owner against
everything the others hold can be used for all of them together.
-/

namespace Shares

variable {ι α : Type*}

/-- No two owners share anything. -/
def Apart (share : ι → Set α) : Prop := Pairwise fun i j => Disjoint (share i) (share j)

/-- What anyone holds. -/
def total (share : ι → Set α) : Set α := ⋃ i, share i

/-- What the other owners hold. -/
def others (share : ι → Set α) (i : ι) : Set α := ⋃ j, ⋃ (_ : j ≠ i), share j

section Rules

variable {share share' : ι → Set α} {i j : ι} {a : α}

theorem mem_total : a ∈ total share ↔ ∃ i, a ∈ share i := Set.mem_iUnion

theorem mem_others : a ∈ others share i ↔ ∃ j, j ≠ i ∧ a ∈ share j := by
  simp only [others, Set.mem_iUnion, exists_prop]

/-- One owner against the rest. -/
theorem total_eq (share : ι → Set α) (i : ι) : total share = others share i ∪ share i := by
  ext a
  rw [mem_total, Set.mem_union, mem_others]
  constructor
  · rintro ⟨j, member⟩
    by_cases own : j = i
    · exact .inr (own ▸ member)
    · exact .inl ⟨j, own, member⟩
  · rintro (⟨j, _, member⟩ | member)
    · exact ⟨j, member⟩
    · exact ⟨i, member⟩

theorem Apart.disjoint (apart : Apart share) (distinct : i ≠ j) : Disjoint (share i) (share j) := apart distinct

theorem Apart.others_disjoint (apart : Apart share) (i : ι) : Disjoint (others share i) (share i) := by
  rw [Set.disjoint_left]
  intro a member own
  obtain ⟨j, other, held⟩ := mem_others.mp member
  exact Set.disjoint_left.mp (apart other) held own

/-- The others hold what they held when only one share has changed. -/
theorem others_congr (same : ∀ j, j ≠ i → share' j = share j) : others share' i = others share i := by
  ext a
  rw [mem_others, mem_others]
  exact exists_congr fun j => and_congr_right fun other => by rw [same j other]

theorem total_change (same : ∀ j, j ≠ i → share' j = share j) : total share' = others share i ∪ share' i := by
  rw [total_eq share' i, others_congr same]

/-- A share may become whatever the others do not hold. -/
theorem Apart.change (apart : Apart share) (same : ∀ j, j ≠ i → share' j = share j)
    (fresh : Disjoint (others share i) (share' i)) : Apart share' := by
  have beside {j : ι} (other : j ≠ i) : Disjoint (share' j) (share' i) := by
    rw [same j other]
    exact fresh.mono_left fun a member => mem_others.mpr ⟨j, other, member⟩
  intro j k distinct
  by_cases left : j = i
  · subst left
    exact (beside distinct.symm).symm
  · by_cases right : k = i
    · subst right
      exact beside left
    · rw [same j left, same k right]
      exact apart distinct

/-- What one owner holds no other one holds. -/
theorem Apart.eq_of_mem (apart : Apart share) (left : a ∈ share i) (right : a ∈ share j) : i = j := by
  by_contra distinct
  exact Set.disjoint_left.mp (apart distinct) left right

end Rules

end Shares
