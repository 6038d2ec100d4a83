import Mathlib.Data.Set.Card
import Mathlib.Order.CompletePartialOrder
import Mathlib.Order.Interval.Finset.Nat

/-! # Maximal dyadic blocks of a set of naturals

A dyadic block `dyadic k i` is the aligned run of `2 ^ k` naturals that share the quotient `i`.
Two blocks are nested or disjoint, so a set of naturals has at most one decomposition into blocks
that no longer extend to their parent. This file proves that the decomposition covers the set and
how it changes when one block is added or taken away. Those two laws are all that a buddy-style
splitting and merging scheme needs, in any order of operations.
-/

namespace Dyadic

/-- The aligned run `[i * 2 ^ k, (i + 1) * 2 ^ k)`. -/
def dyadic (k i : ℕ) : Set ℕ := {u | u / 2 ^ k = i}

/-- The other half of the parent of block `i`. -/
def sibling (i : ℕ) : ℕ := i ^^^ 1

variable {F : Set ℕ} {k l i j u : ℕ}

@[simp] theorem mem_dyadic : u ∈ dyadic k i ↔ u / 2 ^ k = i := Iff.rfl

theorem mem_dyadic_iff : u ∈ dyadic k i ↔ i * 2 ^ k ≤ u ∧ u < (i + 1) * 2 ^ k := by
  rw [mem_dyadic, Nat.div_eq_iff (Nat.two_pow_pos k)]
  have positive := Nat.two_pow_pos k
  rw [Nat.add_mul]
  omega

theorem first_mem : i * 2 ^ k ∈ dyadic k i := by simp [dyadic]

theorem dyadic_nonempty : (dyadic k i).Nonempty := ⟨_, first_mem⟩

theorem dyadic_eq_Ico : dyadic k i = Set.Ico (i * 2 ^ k) ((i + 1) * 2 ^ k) := by
  ext u
  rw [mem_dyadic_iff, Set.mem_Ico]

theorem dyadic_finite : (dyadic k i).Finite := by
  rw [dyadic_eq_Ico]
  exact Set.finite_Ico _ _

theorem dyadic_ncard : (dyadic k i).ncard = 2 ^ k := by
  rw [dyadic_eq_Ico, ← Finset.coe_Ico, Set.ncard_coe_finset, Nat.card_Ico, Nat.add_mul]
  omega

/-! ## Parents and siblings -/

theorem sibling_div : sibling i / 2 = i / 2 := by
  rw [sibling, Nat.xor_div_two]
  simp

theorem sibling_mod : sibling i % 2 = 1 - i % 2 := by
  rw [sibling, ← Nat.pow_one 2, Nat.xor_mod_two_pow]
  rcases Nat.mod_two_eq_zero_or_one i with even | odd
  · simp [even]
  · simp [odd]

theorem sibling_ne : sibling i ≠ i := by
  have parity := sibling_mod (i := i)
  omega

theorem eq_or_sibling_of_div (same : j / 2 = i / 2) : j = i ∨ j = sibling i := by
  have half := sibling_div (i := i)
  have parity := sibling_mod (i := i)
  omega

theorem sibling_double : sibling (2 * i + 1) = 2 * i := by
  have half := sibling_div (i := 2 * i + 1)
  have parity := sibling_mod (i := 2 * i + 1)
  omega

theorem div_succ : u / 2 ^ (k + 1) = u / 2 ^ k / 2 := by rw [pow_succ, Nat.div_div_eq_div_mul]

theorem mem_parent_iff : u ∈ dyadic (k + 1) (i / 2) ↔ u ∈ dyadic k i ∨ u ∈ dyadic k (sibling i) := by
  simp only [mem_dyadic, div_succ]
  constructor
  · exact eq_or_sibling_of_div
  · rintro (rfl | same)
    · rfl
    · rw [same, sibling_div]

theorem subset_parent : dyadic k i ⊆ dyadic (k + 1) (i / 2) :=
  fun _ member => mem_parent_iff.mpr (.inl member)

theorem sibling_subset_parent : dyadic k (sibling i) ⊆ dyadic (k + 1) (i / 2) :=
  fun _ member => mem_parent_iff.mpr (.inr member)

/-- A meeting pair of blocks is nested, the lower level inside the higher one. -/
theorem subset_of_meet (le : k ≤ l) (left : u ∈ dyadic k i) (right : u ∈ dyadic l j) :
    dyadic k i ⊆ dyadic l j := by
  obtain ⟨d, rfl⟩ := Nat.exists_eq_add_of_le le
  intro v member
  simp only [mem_dyadic, pow_add, ← Nat.div_div_eq_div_mul] at left right member ⊢
  rw [member, ← left, right]

/-- The first block of a lower level inside a block. -/
theorem first_subset (le : k ≤ l) : dyadic k (i * 2 ^ (l - k)) ⊆ dyadic l i := by
  refine subset_of_meet (u := i * 2 ^ l) le ?_ first_mem
  rw [mem_dyadic, ← Nat.sub_add_cancel le, pow_add, ← Nat.mul_assoc, Nat.add_sub_cancel]
  exact Nat.mul_div_cancel _ (Nat.two_pow_pos k)

theorem eq_of_meet (left : u ∈ dyadic k i) (right : u ∈ dyadic k j) : i = j := left.symm.trans right

/-- A meeting block of a strictly higher level contains the whole parent of the lower one. -/
theorem parent_subset_of_meet (lt : k < l) (left : u ∈ dyadic k i) (right : u ∈ dyadic l j) :
    dyadic (k + 1) (i / 2) ⊆ dyadic l j :=
  subset_of_meet lt (subset_parent left) right

theorem disjoint_sibling : Disjoint (dyadic k i) (dyadic k (sibling i)) :=
  Set.disjoint_left.mpr fun _ left right => sibling_ne (eq_of_meet right left)

/-! ## Maximal blocks -/

/-- A block inside the set that does not extend to its parent. -/
def Maximal (F : Set ℕ) (k i : ℕ) : Prop := dyadic k i ⊆ F ∧ ¬ dyadic (k + 1) (i / 2) ⊆ F

/-- No element lies in two maximal blocks, whatever their levels. -/
theorem Maximal.unique (first : Maximal F k i) (second : Maximal F l j)
    (left : u ∈ dyadic k i) (right : u ∈ dyadic l j) : k = l ∧ i = j := by
  rcases lt_trichotomy k l with lt | rfl | lt
  · exact (first.2 ((parent_subset_of_meet lt left right).trans second.1)).elim
  · exact ⟨rfl, eq_of_meet left right⟩
  · exact (second.2 ((parent_subset_of_meet lt right left).trans first.1)).elim

/-- Every element of a bounded set lies in a maximal block, whose level the bound limits. -/
theorem exists_maximal {levels : ℕ} (bounded : ∀ u ∈ F, u < 2 ^ levels) (member : u ∈ F) :
    ∃ k ≤ levels, Maximal F k (u / 2 ^ k) := by
  have stops : ¬ dyadic (levels + 1) (u / 2 ^ (levels + 1)) ⊆ F := by
    intro inside
    have small := bounded u member
    have zero : u / 2 ^ (levels + 1) = 0 :=
      Nat.div_eq_of_lt (small.trans (Nat.pow_lt_pow_right (by omega) (by omega)))
    rw [zero] at inside
    have top : 2 ^ levels ∈ dyadic (levels + 1) 0 :=
      Nat.div_eq_of_lt (Nat.pow_lt_pow_right (by omega) (by omega))
    exact lt_irrefl _ (bounded _ (inside top))
  -- the least level whose parent leaves the set
  have search : ∃ k, ¬ dyadic (k + 1) (u / 2 ^ (k + 1)) ⊆ F := ⟨levels, stops⟩
  classical
  refine ⟨Nat.find search, Nat.find_min' search stops, ?_, ?_⟩
  · cases level : Nat.find search with
    | zero => simpa [dyadic] using member
    | succ k => simpa using Nat.find_min search (m := k) (by omega)
  · simpa only [div_succ] using Nat.find_spec search

/-- A block inside a bounded set lies in a maximal block of its level or a higher one. -/
theorem exists_maximal_of_subset {levels : ℕ} (bounded : ∀ u ∈ F, u < 2 ^ levels) (inside : dyadic k i ⊆ F) :
    ∃ l, k ≤ l ∧ ∃ j, Maximal F l j := by
  obtain ⟨l, _, maximal⟩ := exists_maximal bounded (inside first_mem)
  rcases Nat.lt_or_ge l k with lt | ge
  · have here : i * 2 ^ k ∈ dyadic l (i * 2 ^ k / 2 ^ l) := rfl
    exact (maximal.2 ((parent_subset_of_meet lt here first_mem).trans inside)).elim
  · exact ⟨l, ge, _, maximal⟩

theorem Maximal.lt_of_bounded {bound : ℕ} (maximal : Maximal F k i) (bounded : ∀ u ∈ F, u < bound) :
    (i + 1) * 2 ^ k ≤ bound := by
  have positive := Nat.two_pow_pos k
  have last : (i + 1) * 2 ^ k - 1 ∈ dyadic k i := by
    rw [mem_dyadic_iff, Nat.add_mul]
    omega
  have := bounded _ (maximal.1 last)
  omega

/-- Adding a fresh block whose sibling is not free adds exactly that block to the decomposition. -/
theorem maximal_union (fresh : Disjoint (dyadic k i) F) (alone : ¬ dyadic k (sibling i) ⊆ F) :
    Maximal (F ∪ dyadic k i) l j ↔ Maximal F l j ∨ (l = k ∧ j = i) := by
  have separate := disjoint_sibling (k := k) (i := i)
  -- a union that swallowed the sibling would have the sibling inside the old set
  have noSibling {T : Set ℕ} (sub : dyadic k (sibling i) ⊆ T) : ¬ T ⊆ F ∪ dyadic k i := by
    intro inside
    exact alone fun v member => (inside (sub member)).resolve_right
      fun own => Set.disjoint_left.mp separate own member
  constructor
  · rintro ⟨inside, extends_⟩
    by_cases meets : ∃ v, v ∈ dyadic l j ∧ v ∈ dyadic k i
    · obtain ⟨v, left, right⟩ := meets
      rcases lt_trichotomy l k with lt | rfl | lt
      · exact (extends_ ((parent_subset_of_meet lt left right).trans Set.subset_union_right)).elim
      · exact .inr ⟨rfl, eq_of_meet left right⟩
      · exact (noSibling (sibling_subset_parent.trans (parent_subset_of_meet lt right left)) inside).elim
    · refine .inl ⟨fun v member => (inside member).resolve_right fun own => meets ⟨v, member, own⟩, ?_⟩
      exact fun parent => extends_ (parent.trans Set.subset_union_left)
  · rintro (⟨inside, extends_⟩ | ⟨rfl, rfl⟩)
    · refine ⟨inside.trans Set.subset_union_left, fun parent => ?_⟩
      obtain ⟨v, inParent, outside⟩ := Set.not_subset.mp extends_
      have own := (parent inParent).resolve_left outside
      rcases Nat.lt_or_ge k (l + 1) with lt | ge
      · exact noSibling (sibling_subset_parent.trans (parent_subset_of_meet lt own inParent)) parent
      · have nested := subset_parent.trans (subset_of_meet ge inParent own)
        obtain ⟨w, member⟩ := dyadic_nonempty (k := l) (i := j)
        exact Set.disjoint_left.mp fresh (nested member) (inside member)
    · exact ⟨Set.subset_union_right, noSibling sibling_subset_parent⟩

/-- Taking a maximal block away removes exactly that block from the decomposition. -/
theorem maximal_diff (maximal : Maximal F k i) :
    Maximal (F \ dyadic k i) l j ↔ Maximal F l j ∧ ¬ (l = k ∧ j = i) := by
  have fresh : Disjoint (dyadic k i) (F \ dyadic k i) := Set.disjoint_sdiff_right
  have alone : ¬ dyadic k (sibling i) ⊆ F \ dyadic k i := by
    intro inside
    refine maximal.2 fun v member => ?_
    rcases mem_parent_iff.mp member with own | other
    · exact maximal.1 own
    · exact (inside other).1
  have whole : F \ dyadic k i ∪ dyadic k i = F := Set.sdiff_union_of_subset maximal.1
  have step := maximal_union (l := l) (j := j) fresh alone
  rw [whole] at step
  rw [step]
  constructor
  · intro rest
    refine ⟨.inl rest, ?_⟩
    rintro ⟨rfl, rfl⟩
    obtain ⟨w, member⟩ := dyadic_nonempty (k := l) (i := j)
    exact (rest.1 member).2 member
  · rintro ⟨rest | same, other⟩
    · exact rest
    · exact (other same).elim

/-- The sibling of a block outside the set is free exactly when it is maximal. -/
theorem maximal_sibling_iff (outside : Disjoint (dyadic k i) F) :
    Maximal F k (sibling i) ↔ dyadic k (sibling i) ⊆ F := by
  constructor
  · exact And.left
  · intro inside
    refine ⟨inside, fun parent => ?_⟩
    obtain ⟨w, member⟩ := dyadic_nonempty (k := k) (i := i)
    rw [sibling_div] at parent
    exact Set.disjoint_left.mp outside member (parent (subset_parent member))

/-! ## Ends of blocks -/

/-- The block around a number below the end of another block ends with that one at the latest, unless its level is
higher by more than one, or by one and the number lies in the other block itself. -/
theorem end_le_of_near (below : u < (i + 1) * 2 ^ k) (near : l ≤ k ∨ l = k + 1 ∧ u < i * 2 ^ k) :
    (u / 2 ^ l + 1) * 2 ^ l ≤ (i + 1) * 2 ^ k := by
  obtain ⟨m, less, upper⟩ : ∃ m, u < m * 2 ^ l ∧ m * 2 ^ l ≤ (i + 1) * 2 ^ k := by
    rcases near with le | ⟨rfl, before⟩
    · obtain ⟨d, rfl⟩ := Nat.exists_eq_add_of_le le
      refine ⟨(i + 1) * 2 ^ d, ?_, ?_⟩ <;> rw [Nat.mul_assoc, ← pow_add, Nat.add_comm d]
      exact below
    · have lower := Nat.mul_le_mul_right (2 ^ k) (show i ≤ (i + 1) / 2 * 2 by omega)
      have upper := Nat.mul_le_mul_right (2 ^ k) (Nat.div_mul_le_self (i + 1) 2)
      refine ⟨(i + 1) / 2, ?_, ?_⟩ <;> rw [pow_succ', ← Nat.mul_assoc]
      · omega
      · exact upper
  have quotient : u / 2 ^ l + 1 ≤ m := Nat.div_lt_of_lt_mul (by rwa [Nat.mul_comm])
  exact (Nat.mul_le_mul_right _ quotient).trans upper

/-! ## Initial segments -/

theorem dyadic_subset_Iio_iff {bound : ℕ} : dyadic k i ⊆ Set.Iio bound ↔ i < bound / 2 ^ k := by
  have positive := Nat.two_pow_pos k
  rw [Nat.lt_iff_add_one_le, Nat.le_div_iff_mul_le positive]
  constructor
  · intro inside
    have last : (i + 1) * 2 ^ k - 1 ∈ dyadic k i := by
      rw [mem_dyadic_iff, Nat.add_mul]
      omega
    have := Set.mem_Iio.mp (inside last)
    omega
  · exact fun le u member => Set.mem_Iio.mpr ((mem_dyadic_iff.mp member).2.trans_le le)

/-- An initial segment has one maximal block for each binary digit one of its length. -/
theorem maximal_Iio_iff {bound : ℕ} :
    Maximal (Set.Iio bound) k i ↔ bound / 2 ^ k % 2 = 1 ∧ i + 1 = bound / 2 ^ k := by
  rw [Maximal, dyadic_subset_Iio_iff, dyadic_subset_Iio_iff, div_succ]
  omega

end Dyadic
