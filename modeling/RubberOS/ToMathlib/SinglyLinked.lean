import Mathlib.Data.List.Nodup
import Mathlib.Data.Nat.Notation
import Mathlib.Data.Option.Basic
import Mathlib.Logic.Function.Basic

/-! # Singly linked chains with a dummy head

The links of a list are a function on places: `none` is the dummy in front of the list and `some x`
is the node `x`. `Chain next p xs` says that the nodes after place `p` are exactly `xs`. The lemmas
cover the two edits of a singly linked list, which write the link of one place.
-/

namespace SinglyLinked

variable {α : Type*} {next next' : Option α → Option α} {p q : Option α} {x : α} {xs ys : List α}

/-- The nodes after a place, in order, up to the null link. -/
def Chain (next : Option α → Option α) : Option α → List α → Prop
  | p, [] => next p = none
  | p, x :: xs => next p = some x ∧ Chain next (some x) xs

/-- The last place of a chain's prefix. -/
def place : Option α → List α → Option α
  | p, [] => p
  | _, x :: xs => place (some x) xs

theorem place_mem (p : Option α) (xs : List α) : place p xs = p ∨ ∃ x ∈ xs, place p xs = some x := by
  induction xs generalizing p with
  | nil => exact .inl rfl
  | cons x xs ih =>
    right
    rcases ih (some x) with here | ⟨y, member, there⟩
    · exact ⟨x, .head _, here⟩
    · exact ⟨y, .tail _ member, there⟩

theorem place_mem_map (x : α) (xs ys : List α) : place (some x) xs ∈ (x :: xs ++ ys).map some := by
  rcases place_mem (some x) xs with here | ⟨y, member, there⟩
  · rw [here]
    exact .head _
  · rw [there]
    exact .tail _ (List.mem_map_of_mem (List.mem_append_left _ member))

@[simp] theorem place_append_singleton (p : Option α) (xs : List α) (x : α) :
    place p (xs ++ [x]) = some x := by
  induction xs generalizing p with
  | nil => rfl
  | cons y xs ih => exact ih (some y)

theorem place_none (xs : List α) : place none xs = xs.getLast? := by
  rcases List.eq_nil_or_concat xs with rfl | ⟨init, last, rfl⟩
  · rfl
  · rw [List.concat_eq_append, place_append_singleton, List.getLast?_append,
      List.getLast?_singleton, Option.some_or]

/-- The dummy and distinct nodes are distinct places. -/
theorem places_nodup (nodup : xs.Nodup) : (none :: xs.map some).Nodup := by
  rw [List.nodup_cons, List.nodup_map_iff (Option.some_injective _)]
  exact ⟨by simp, nodup⟩

theorem Chain.next_eq (chain : Chain next p xs) : next p = xs.head? := by
  cases xs with
  | nil => exact chain
  | cons x xs => exact chain.1

/-- The links determine the nodes. -/
theorem Chain.unique (chain : Chain next p xs) (chain' : Chain next p ys) : xs = ys := by
  induction xs generalizing p ys with
  | nil =>
    cases ys with
    | nil => rfl
    | cons y ys => exact absurd (chain'.1.symm.trans chain) (Option.some_ne_none y)
  | cons x xs ih =>
    cases ys with
    | nil => exact absurd (chain.1.symm.trans chain') (Option.some_ne_none x)
    | cons y ys =>
      obtain rfl : x = y := Option.some.inj (chain.1.symm.trans chain'.1)
      rw [ih chain.2 chain'.2]

/-- Two chains through the same nodes have the same links. -/
theorem Chain.next_congr (chain : Chain next p xs) (chain' : Chain next' p xs)
    (inside : q = p ∨ ∃ x ∈ xs, q = some x) :
    next q = next' q := by
  induction xs generalizing p with
  | nil =>
    rcases inside with rfl | ⟨x, member, _⟩
    · exact chain.trans chain'.symm
    · exact absurd member List.not_mem_nil
  | cons x xs ih =>
    rcases inside with rfl | ⟨y, member, rfl⟩
    · exact chain.1.trans chain'.1.symm
    · refine ih chain.2 chain'.2 ?_
      rcases List.mem_cons.mp member with rfl | later
      · exact .inl rfl
      · exact .inr ⟨y, later, rfl⟩

/-- The part of a chain after a prefix. -/
theorem Chain.rest (chain : Chain next p (xs ++ ys)) : Chain next (place p xs) ys := by
  induction xs generalizing p with
  | nil => exact chain
  | cons x xs ih => exact ih chain.2

/-- A chain moves to a place whose link agrees with its old first link. -/
theorem Chain.reroute (chain : Chain next p xs) (first : next' q = next p)
    (same : ∀ x ∈ xs, next' (some x) = next (some x)) : Chain next' q xs := by
  induction xs generalizing p q with
  | nil => exact first.trans chain
  | cons x xs ih =>
    refine ⟨first.trans chain.1, ih chain.2 (same x (.head _)) fun y member => same y (.tail _ member)⟩

/-- Links that lead from each of a range of nodes to the next form a chain. -/
theorem Chain.of_range {node : ℕ → α} {n i : ℕ} (first : next p = if i < n then some (node i) else none)
    (step : ∀ j, i ≤ j → j < n → next (some (node j)) = if j + 1 < n then some (node (j + 1)) else none) :
    Chain next p ((List.range' i (n - i)).map node) := by
  generalize rest : n - i = count
  induction count generalizing i p with
  | zero =>
    rw [if_neg (by omega)] at first
    exact first
  | succ count ih =>
    rw [if_pos (by omega)] at first
    exact ⟨first, ih (step i (Nat.le_refl i) (by omega))
      (fun j lower upper => step j (by omega) upper) (by omega)⟩

variable [DecidableEq α]

/-- Linking a fresh node in after a prefix. -/
theorem Chain.insert (chain : Chain next p (xs ++ ys)) (distinct : (p :: (xs ++ ys).map some).Nodup)
    (fresh : some x ∉ p :: (xs ++ ys).map some) :
    Chain (Function.update (Function.update next (some x) (next (place p xs))) (place p xs) (some x)) p
      (xs ++ x :: ys) := by
  induction xs generalizing p with
  | nil =>
    rw [List.nil_append] at *
    have other : some x ≠ p := fun same => fresh (same ▸ .head _)
    refine ⟨Function.update_self .., chain.reroute ?_ fun y member => ?_⟩
    · rw [place, Function.update_of_ne other, Function.update_self]
    · have inside : some y ∈ ys.map some := List.mem_map_of_mem member
      have notPlace : some y ≠ p := fun same => (List.nodup_cons.mp distinct).1 (same ▸ inside)
      have notFresh : some y ≠ some x := fun same => fresh (same ▸ .tail _ inside)
      rw [place, Function.update_of_ne notPlace, Function.update_of_ne notFresh]
  | cons y xs ih =>
    have later := ih chain.2 (List.nodup_cons.mp distinct).2 fun member => fresh (.tail _ member)
    refine ⟨?_, later⟩
    have notFresh : p ≠ some x := fun same => fresh (same ▸ .head _)
    have notPlace : p ≠ place (some y) xs := fun same =>
      (List.nodup_cons.mp distinct).1 (same ▸ place_mem_map y xs ys)
    rw [place, Function.update_of_ne notPlace, Function.update_of_ne notFresh]
    exact chain.1

/-- Unlinking the node after a prefix. -/
theorem Chain.remove (chain : Chain next p (xs ++ x :: ys))
    (distinct : (p :: (xs ++ x :: ys).map some).Nodup) :
    Chain (Function.update next (place p xs) (next (some x))) p (xs ++ ys) := by
  induction xs generalizing p with
  | nil =>
    refine chain.2.reroute (Function.update_self ..) fun y member => Function.update_of_ne ?_ _ _
    intro same
    have inside : some y ∈ (x :: ys).map some := List.mem_map_of_mem (.tail _ member)
    rw [show some y = p from same] at inside
    exact (List.nodup_cons.mp distinct).1 inside
  | cons y xs ih =>
    refine ⟨?_, ih chain.2 (List.nodup_cons.mp distinct).2⟩
    have notPlace : p ≠ place (some y) xs := fun same =>
      (List.nodup_cons.mp distinct).1 (same ▸ place_mem_map y xs (x :: ys))
    rw [place, Function.update_of_ne notPlace]
    exact chain.1

end SinglyLinked
