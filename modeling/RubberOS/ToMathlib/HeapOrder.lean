import Mathlib.Data.List.Nodup
import Mathlib.Logic.Equiv.Basic
import Mathlib.Order.Nat

/-! # Heap order and rearrangements of an initial segment

An array is a function on indices. `HeapFrom` says that every node whose parent is at or above a
bound is below its parent; `HeapExcept` allows one hole. Moving the hole to its greater child, or
stopping at it, are the two steps of every sift, and the root of a heap is its maximum.
-/

namespace HeapOrder

variable {α : Type*}

/-- The second array is the first with its first `n` elements permuted. -/
def Rearranged (n : ℕ) (p q : ℕ → α) : Prop := ∃ σ : Equiv.Perm ℕ, (∀ i, n ≤ i → σ i = i) ∧ q = p ∘ σ

section Rearranged

variable {n m : ℕ} {p q r : ℕ → α}

theorem Rearranged.refl (n : ℕ) (p : ℕ → α) : Rearranged n p p := ⟨Equiv.refl ℕ, fun _ _ => rfl, rfl⟩

theorem Rearranged.trans (first : Rearranged n p q) (second : Rearranged n q r) : Rearranged n p r := by
  obtain ⟨σ, fixed, rfl⟩ := first
  obtain ⟨τ, fixed', rfl⟩ := second
  refine ⟨τ.trans σ, fun i beyond => ?_, rfl⟩
  rw [Equiv.trans_apply, fixed' i beyond, fixed i beyond]

theorem Rearranged.mono (le : n ≤ m) (same : Rearranged n p q) : Rearranged m p q := by
  obtain ⟨σ, fixed, rfl⟩ := same
  exact ⟨σ, fun i beyond => fixed i (le.trans beyond), rfl⟩

theorem Rearranged.beyond (same : Rearranged n p q) {i : ℕ} (beyond : n ≤ i) : q i = p i := by
  obtain ⟨σ, fixed, rfl⟩ := same
  exact congrArg p (fixed i beyond)

/-- Every element of the segment was an element of the segment. -/
theorem Rearranged.source (same : Rearranged n p q) {i : ℕ} (inside : i < n) : ∃ j < n, q i = p j := by
  obtain ⟨σ, fixed, rfl⟩ := same
  refine ⟨σ i, ?_, rfl⟩
  by_contra beyond
  have moved := σ.injective (fixed (σ i) (Nat.le_of_not_lt beyond))
  omega

theorem Rearranged.target (same : Rearranged n p q) {i : ℕ} (inside : i < n) : ∃ j < n, q j = p i := by
  obtain ⟨σ, fixed, rfl⟩ := same
  refine ⟨σ.symm i, ?_, congrArg p (σ.apply_symm_apply i)⟩
  by_contra beyond
  have moved := fixed (σ.symm i) (Nat.le_of_not_lt beyond)
  rw [σ.apply_symm_apply] at moved
  omega

/-- The elements of the segment are the same, in another order. -/
theorem Rearranged.perm (same : Rearranged n p q) : ((List.range n).map q).Perm ((List.range n).map p) := by
  obtain ⟨σ, fixed, rfl⟩ := same
  have segment : ((List.range n).map σ).Perm (List.range n) := by
    refine (List.perm_ext_iff_of_nodup (List.nodup_range.map σ.injective) List.nodup_range).mpr fun i => ?_
    rw [List.mem_map, List.mem_range]
    constructor
    · rintro ⟨j, inside, rfl⟩
      by_contra beyond
      have moved := σ.injective (fixed (σ j) (by omega))
      rw [List.mem_range] at inside
      omega
    · intro inside
      refine ⟨σ.symm i, List.mem_range.mpr ?_, σ.apply_symm_apply i⟩
      by_contra beyond
      have moved := fixed (σ.symm i) (Nat.le_of_not_lt beyond)
      rw [σ.apply_symm_apply] at moved
      omega
  rw [← List.map_map]
  exact segment.map p

/-- An exchange of two elements of the segment. -/
theorem Rearranged.update {i j : ℕ} (left : i < n) (right : j < n) :
    Rearranged n p (Function.update (Function.update p i (p j)) j (p i)) := by
  refine ⟨Equiv.swap j i, fun k beyond => Equiv.swap_apply_of_ne_of_ne (by omega) (by omega), ?_⟩
  rw [Equiv.comp_swap_eq_update]

end Rearranged

/-! ## Heaps -/

variable {le : α → α → Prop} {p q : ℕ → α} {lo n hole child : ℕ}

/-- Every node whose parent is at or above the bound is below its parent. -/
def HeapFrom (le : α → α → Prop) (p : ℕ → α) (lo n : ℕ) : Prop :=
  ∀ c, 0 < c → c < n → lo ≤ (c - 1) / 2 → le (p c) (p ((c - 1) / 2))

/-- A heap but for the children of one node, which are below that node's parent. -/
structure HeapExcept (le : α → α → Prop) (p : ℕ → α) (lo n hole : ℕ) : Prop where
  others : ∀ c, 0 < c → c < n → lo ≤ (c - 1) / 2 → (c - 1) / 2 ≠ hole → le (p c) (p ((c - 1) / 2))
  bridge : lo < hole → lo ≤ (hole - 1) / 2 ∧ ∀ c, 0 < c → c < n → (c - 1) / 2 = hole → le (p c) (p ((hole - 1) / 2))

/-- A lower bound one step down leaves at most a hole at the new bound. -/
theorem HeapFrom.except (heap : HeapFrom le p (lo + 1) n) : HeapExcept le p lo n lo where
  others c positive inside above other := heap c positive inside (by omega)
  bridge lt := absurd lt (lt_irrefl _)

/-- A hole that dominates its children is no hole. -/
theorem HeapExcept.stop (except : HeapExcept le p lo n hole)
    (top : ∀ c, 0 < c → c < n → (c - 1) / 2 = hole → le (p c) (p hole)) : HeapFrom le p lo n := by
  intro c positive inside above
  rcases eq_or_ne ((c - 1) / 2) hole with here | other
  · rw [here]
    exact top c positive inside here
  · exact except.others c positive inside above other

/-- Exchanging the hole with its greatest child moves the hole to that child. -/
theorem HeapExcept.descend (except : HeapExcept le p lo n hole) (above : lo ≤ hole) (positive : 0 < child)
    (inside : child < n) (parent : (child - 1) / 2 = hole)
    (greatest : ∀ c, 0 < c → c < n → (c - 1) / 2 = hole → le (p c) (p child)) (up : le (p hole) (p child)) :
    HeapExcept le (Function.update (Function.update p hole (p child)) child (p hole)) lo n child := by
  have apart : hole ≠ child := by omega
  have atHole : Function.update (Function.update p hole (p child)) child (p hole) hole = p child := by
    rw [Function.update_of_ne apart, Function.update_self]
  have atOther (i : ℕ) (notHole : i ≠ hole) (notChild : i ≠ child) :
      Function.update (Function.update p hole (p child)) child (p hole) i = p i := by
    rw [Function.update_of_ne notChild, Function.update_of_ne notHole]
  refine ⟨fun c positive' inside' above' other => ?_, fun _ => ⟨by omega, fun c positive' inside' own => ?_⟩⟩
  · rcases eq_or_ne ((c - 1) / 2) hole with here | elsewhere
    · rw [here, atHole]
      rcases eq_or_ne c child with rfl | sibling
      · rwa [Function.update_self]
      · rw [atOther c (by omega) sibling]
        exact greatest c positive' inside' here
    · rw [atOther _ elsewhere other]
      rcases eq_or_ne c hole with rfl | notHole
      · rw [atHole]
        exact (except.bridge (by omega)).2 child positive inside parent
      · rw [atOther c notHole (by rintro rfl; exact elsewhere parent)]
        exact except.others c positive' inside' above' elsewhere
  · rw [parent, atHole, atOther c (by omega) (by omega)]
    have below := except.others c positive' inside' (by omega) (by omega)
    rwa [own] at below

/-- The root of a heap is its maximum. -/
theorem HeapFrom.le_root (heap : HeapFrom le p 0 n) (refl : ∀ x, le x x)
    (trans : ∀ x y z, le x y → le y z → le x z) {i : ℕ} (inside : i < n) : le (p i) (p 0) := by
  induction i using Nat.strongRecOn with
  | ind i ih =>
    rcases Nat.eq_zero_or_pos i with rfl | positive
    · exact refl _
    · exact trans _ _ _ (heap i positive inside (Nat.zero_le _)) (ih _ (by omega) (by omega))

end HeapOrder
