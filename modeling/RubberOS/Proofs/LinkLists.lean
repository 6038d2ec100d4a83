import RubberOS.Model.LinkLists
import RubberOS.ToMathlib.DoublyLinked

/-! # The doubly linked list of libcoll as a ring

Each function of `linkedlist.c` that the slab allocator calls has one lemma about the list of nodes
it leaves in the ring.
-/

namespace RubberOS.Model.Linkedlist

open SinglyLinked DoublyLinked

variable {α : Type} [DecidableEq α] {list : Links α} {xs ys : List α} {x : α}

/-- The nodes linked into a list, front to back. -/
def Linked (list : Links α) (xs : List α) : Prop := Ring list.next list.prev xs

theorem init_linked (list : Links α) : Linked (init list) [] := by
  constructor <;> simp [init, Chain]

theorem Linked.isEmpty_iff (linked : Linked list xs) : isEmpty list = true ↔ xs = [] := by
  have dummy := linked.nil_iff
  rw [isEmpty, decide_eq_true_eq, dummy, and_iff_left_of_imp]
  rintro rfl
  rw [linked.prev_dummy, linked.next_dummy]
  rfl

omit [DecidableEq α] in
theorem Linked.head_eq (linked : Linked list xs) : head list = xs.head? := linked.next_dummy

/-- Linking a fresh node in front of a place of the ring. -/
theorem Linked.insertBefore (linked : Linked list (xs ++ ys)) (nodup : (xs ++ ys).Nodup) (fresh : x ∉ xs ++ ys) :
    Linked (insertBefore list ys.head? x) (xs ++ x :: ys) := by
  have before : list.prev ys.head? = place none xs := by
    cases ys with
    | nil =>
      rw [List.append_nil] at linked
      rw [List.head?_nil, linked.prev_dummy, place_none]
    | cons y ys => exact Ring.prev_eq linked
  have inserted := Ring.insert linked nodup fresh
  have apart : place none xs ≠ some x := by
    rcases place_mem none xs with here | ⟨y, member, there⟩
    · rw [here]
      exact nofun
    · rw [there]
      rintro ⟨⟩
      exact fresh (List.mem_append_left ys member)
  rw [Function.update_comm apart.symm] at inserted
  simpa only [Linked, Linkedlist.insertBefore, before] using inserted

/-- Linking a fresh node in behind a place of the ring. -/
theorem Linked.insertAfter (linked : Linked list (xs ++ ys)) (nodup : (xs ++ ys).Nodup) (fresh : x ∉ xs ++ ys) :
    Linked (insertAfter list (place none xs) x) (xs ++ x :: ys) := by
  have after : list.next (place none xs) = ys.head? := linked.forward.rest.next_eq
  have inserted := Ring.insert linked nodup fresh
  have apart : ys.head? ≠ some x := fun same => fresh (List.mem_append_right xs (List.mem_of_head? same))
  rw [Function.update_comm (β := fun _ => Option α) (f := list.prev) apart.symm] at inserted
  simpa only [Linked, Linkedlist.insertAfter, after] using inserted

theorem Linked.pushFront (linked : Linked list xs) (nodup : xs.Nodup) (fresh : x ∉ xs) :
    Linked (pushFront list x) (x :: xs) := by
  rw [Linkedlist.pushFront, linked.next_dummy]
  exact @Linked.insertBefore _ _ _ [] _ _ linked nodup fresh

theorem Linked.pushBack (linked : Linked list xs) (nodup : xs.Nodup) (fresh : x ∉ xs) :
    Linked (pushBack list x) (xs ++ [x]) := by
  rw [Linkedlist.pushBack, linked.prev_dummy, ← place_none]
  rw [← List.append_nil xs] at linked nodup fresh
  exact linked.insertAfter nodup fresh

theorem Linked.remove (linked : Linked list (xs ++ x :: ys)) (nodup : (xs ++ x :: ys).Nodup) :
    Linked (remove list x) (xs ++ ys) := by
  have kept : Function.update list.next (list.prev (some x)) (list.next (some x)) (some x) =
      list.next (some x) := by
    rw [Function.update_apply, ite_self]
  have removed := Ring.remove linked nodup
  simpa only [Linked, Linkedlist.remove, kept] using removed

/-! ## Visits and pops -/

omit [DecidableEq α] in
/-- A walk along a chain visits its nodes and stops at the dummy. -/
private theorem foreachFrom_chain {step : Option α → Option α} {p : Option α} {fuel : ℕ} (chain : Chain step p xs)
    (enough : xs.length < fuel) : foreachFrom step fuel (step p) = .ok xs := by
  induction xs generalizing p fuel with
  | nil =>
    obtain ⟨fuel, rfl⟩ := Nat.exists_eq_succ_of_ne_zero (Nat.ne_of_gt enough)
    rw [chain.next_eq]
    rfl
  | cons x xs ih =>
    obtain ⟨fuel, rfl⟩ := Nat.exists_eq_succ_of_ne_zero (Nat.ne_of_gt (Nat.zero_lt_of_lt enough))
    rw [chain.1, foreachFrom, ih chain.2 (Nat.lt_of_succ_lt_succ enough)]
    rfl

omit [DecidableEq α] in
theorem Linked.foreach (linked : Linked list xs) {fuel : ℕ} (enough : xs.length < fuel) :
    foreach list fuel = .ok xs :=
  foreachFrom_chain linked.forward enough

omit [DecidableEq α] in
theorem Linked.foreachBackward (linked : Linked list xs) {fuel : ℕ} (enough : xs.length < fuel) :
    foreachBackward list fuel = .ok xs.reverse :=
  foreachFrom_chain linked.backward (by rwa [List.length_reverse])

omit [DecidableEq α] in
/-- The two neighbours of the dummy are the same exactly if there is at most one node. -/
private theorem Linked.dummy_neighbours (linked : Linked list xs) (nodup : xs.Nodup) :
    list.next none = list.prev none ↔ xs.length ≤ 1 := by
  rw [linked.next_dummy, linked.prev_dummy]
  rcases xs with _ | ⟨x, _ | ⟨y, rest⟩⟩
  · simp
  · simp
  · refine iff_of_false (fun same => ?_) (by simp)
    rw [List.head?_cons, List.getLast?_cons_cons, List.getLast?_eq_some_getLast (List.cons_ne_nil y rest)] at same
    exact (List.nodup_cons.mp nodup).1 (Option.some.inj same ▸ List.getLast_mem _)

/-- With two nodes or more, the first one is popped in front. -/
theorem Linked.popFront_cons (linked : Linked list (x :: xs)) (nodup : (x :: xs).Nodup) (rest : xs ≠ []) :
    (popFront list).1 = some (some x) ∧ Linked (popFront list).2 xs := by
  have more : ¬list.next none = list.prev none := by
    rw [linked.dummy_neighbours nodup, List.length_cons]
    have := List.length_pos_of_ne_nil rest
    omega
  have first : list.next none = some x := linked.next_dummy
  rw [popFront, if_neg more, first]
  exact ⟨rfl, @Linked.remove _ _ _ [] _ _ linked nodup⟩

/-- With two nodes or more, the last one is popped at the back. -/
theorem Linked.popBack_append (linked : Linked list (xs ++ [x])) (nodup : (xs ++ [x]).Nodup) (rest : xs ≠ []) :
    (popBack list).1 = some (some x) ∧ Linked (popBack list).2 xs := by
  have more : ¬list.prev none = list.next none := by
    rw [eq_comm, linked.dummy_neighbours nodup, List.length_append, List.length_singleton]
    have := List.length_pos_of_ne_nil rest
    omega
  have last : list.prev none = some x := by rw [linked.prev_dummy, List.getLast?_append_cons, List.getLast?_singleton]
  rw [popBack, if_neg more, last]
  have removed := linked.remove nodup
  rw [List.append_nil] at removed
  exact ⟨rfl, removed⟩

/-- With at most one node, both pops answer the null pointer. -/
theorem Linked.pop_few (linked : Linked list xs) (nodup : xs.Nodup) (few : xs.length ≤ 1) :
    popFront list = (none, list) ∧ popBack list = (none, list) := by
  have same := (linked.dummy_neighbours nodup).mpr few
  exact ⟨if_pos same, if_pos same.symm⟩

end RubberOS.Model.Linkedlist
