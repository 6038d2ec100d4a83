import RubberOS.ToMathlib.SinglyLinked

/-! # Circular doubly linked lists with a dummy

The `next` and `prev` links are functions on places, where `none` is the dummy of the ring. Read in
its own direction, each of them is a chain that starts and ends at the dummy, so the edits of a ring
are those of two singly linked chains.
-/

namespace DoublyLinked

open SinglyLinked

variable {α : Type*} {next prev : Option α → Option α} {x : α} {xs ys : List α}

/-- The nodes between two visits of the dummy, forwards and backwards. -/
structure Ring (next prev : Option α → Option α) (xs : List α) : Prop where
  forward : Chain next none xs
  backward : Chain prev none xs.reverse

theorem Ring.next_dummy (ring : Ring next prev xs) : next none = xs.head? := ring.forward.next_eq

theorem Ring.prev_dummy (ring : Ring next prev xs) : prev none = xs.getLast? := by
  rw [ring.backward.next_eq, List.head?_reverse]

theorem Ring.next_eq (ring : Ring next prev (xs ++ x :: ys)) : next (some x) = ys.head? := by
  have after := ring.forward.rest
  exact after.2.next_eq

theorem Ring.prev_eq (ring : Ring next prev (xs ++ x :: ys)) : prev (some x) = place none xs := by
  have backward := ring.backward
  rw [List.reverse_append, List.reverse_cons, List.append_assoc, List.singleton_append] at backward
  rw [backward.rest.2.next_eq, List.head?_reverse, place_none]

/-- The dummy points at itself exactly when nothing is linked. -/
theorem Ring.nil_iff (ring : Ring next prev xs) : prev none = none ↔ xs = [] := by
  rw [ring.prev_dummy, List.getLast?_eq_none_iff]

variable [DecidableEq α]

/-- Linking a fresh node in between two neighbours. -/
theorem Ring.insert (ring : Ring next prev (xs ++ ys)) (nodup : (xs ++ ys).Nodup) (fresh : x ∉ xs ++ ys) :
    Ring (Function.update (Function.update next (some x) ys.head?) (place none xs) (some x))
      (Function.update (Function.update prev (some x) (place none xs)) ys.head? (some x))
      (xs ++ x :: ys) := by
  have backward := ring.backward
  rw [List.reverse_append] at backward
  have seam : place none ys.reverse = ys.head? := by rw [place_none, List.getLast?_reverse]
  constructor
  · have linked := ring.forward.insert (places_nodup nodup) (x := x) (by simpa using fresh)
    rwa [ring.forward.rest.next_eq] at linked
  · have distinct : (ys.reverse ++ xs.reverse).Nodup := by
      rw [← List.reverse_append]
      exact List.nodup_reverse.mpr nodup
    have linked := backward.insert (places_nodup distinct) (x := x) (by simpa [or_comm] using fresh)
    rw [backward.rest.next_eq, seam, List.head?_reverse, ← place_none] at linked
    rwa [List.reverse_append, List.reverse_cons, List.append_assoc, List.singleton_append]

/-- Unlinking a node joins its neighbours. -/
theorem Ring.remove (ring : Ring next prev (xs ++ x :: ys)) (nodup : (xs ++ x :: ys).Nodup) :
    Ring (Function.update next (prev (some x)) (next (some x)))
      (Function.update prev (next (some x)) (prev (some x))) (xs ++ ys) := by
  have reversed : (xs ++ x :: ys).reverse = ys.reverse ++ x :: xs.reverse := by simp
  have seam : place none ys.reverse = next (some x) := by
    rw [ring.next_eq, place_none, List.getLast?_reverse]
  constructor
  · rw [ring.prev_eq]
    exact ring.forward.remove (places_nodup nodup)
  · have backward := ring.backward
    have distinct := List.nodup_reverse.mpr nodup
    rw [reversed] at backward distinct
    rw [← seam, List.reverse_append]
    exact backward.remove (places_nodup distinct)

end DoublyLinked
