import Mathlib.Logic.Function.Basic
import RubberOS.Model.Machine

/-! # The intrusive lists of libcoll

A list's links are kept apart from the nodes that embed them. A place is `none` for the list's
`dummy` and `some x` for the link inside node `x`, so `container_of` is the step from `some x` to `x`.
-/

namespace RubberOS.Model

/-! ## Singly linked lists -/

namespace Singlylist

variable {α : Type} [DecidableEq α]

/-- The `next` pointers by place; as a value, `none` is the null pointer. -/
abbrev Links (α : Type) := Option α → Option α

def init (list : Links α) : Links α := Function.update list none none

def insertAfter (list : Links α) (link : Option α) (toInsert : α) : Links α :=
  let list := Function.update list (some toInsert) (list link)
  Function.update list link (some toInsert)

def pushFront (list : Links α) (toInsert : α) : Links α := insertAfter list none toInsert

def removeAfter (list : Links α) (before : Option α) : Result (Links α) := do
  assert (list before ≠ none) "before->next != ((void *)0)"
  return Function.update list before (list (list before))

end Singlylist

/-! ## Circular doubly linked lists -/

namespace Linkedlist

variable {α : Type} [DecidableEq α]

/-- The pointers by place; as a value, `none` is the address of the dummy. -/
structure Links (α : Type) where
  prev : Option α → Option α
  next : Option α → Option α

def init (list : Links α) : Links α where
  prev := Function.update list.prev none none
  next := Function.update list.next none none

def isEmpty (list : Links α) : Bool := list.prev none = none ∧ list.prev none = list.next none

def head (list : Links α) : Option α := list.next none

def insertBefore (list : Links α) (link : Option α) (toInsert : α) : Links α :=
  let list := { list with next := Function.update list.next (list.prev link) (some toInsert) }
  let list := { list with prev := Function.update list.prev (some toInsert) (list.prev link) }
  let list := { list with next := Function.update list.next (some toInsert) link }
  { list with prev := Function.update list.prev link (some toInsert) }

def insertAfter (list : Links α) (link : Option α) (toInsert : α) : Links α :=
  let list := { list with prev := Function.update list.prev (list.next link) (some toInsert) }
  let list := { list with next := Function.update list.next (some toInsert) (list.next link) }
  let list := { list with prev := Function.update list.prev (some toInsert) link }
  { list with next := Function.update list.next link (some toInsert) }

def pushFront (list : Links α) (toInsert : α) : Links α := insertBefore list (list.next none) toInsert

def pushBack (list : Links α) (toInsert : α) : Links α := insertAfter list (list.prev none) toInsert

def remove (list : Links α) (link : α) : Links α :=
  let list := { list with next := Function.update list.next (list.prev (some link)) (list.next (some link)) }
  { list with prev := Function.update list.prev (list.next (some link)) (list.prev (some link)) }

def tail (list : Links α) : Option α := list.prev none

/-- `linkedlist_remove` on any place of the ring, the dummy included. -/
def removeAt (list : Links α) (link : Option α) : Links α :=
  let list := { list with next := Function.update list.next (list.prev link) (list.next link) }
  { list with prev := Function.update list.prev (list.next link) (list.prev link) }

/-- `linkedlist_pop_front`, whose result is the null pointer or a place. -/
def popFront (list : Links α) : Option (Option α) × Links α :=
  let removed := list.next none
  if removed = list.prev none then (none, list)
  else (some removed, removeAt list (list.next none))

def popBack (list : Links α) : Option (Option α) × Links α :=
  let removed := list.prev none
  if removed = list.next none then (none, list)
  else (some removed, removeAt list (list.prev none))

/-- The loop of `linkedlist_foreach`, from `ptr` on: the nodes in the order of their visits. -/
def foreachFrom (step : Option α → Option α) : ℕ → Option α → Result (List α)
  | 0, _ => .error .nonterminating
  | _ + 1, none => .ok []
  | fuel + 1, some x => do
    let rest ← foreachFrom step fuel (step (some x))
    return x :: rest

/-- `linkedlist_foreach`. -/
def foreach (list : Links α) (fuel : ℕ) : Result (List α) := foreachFrom list.next fuel (head list)

/-- `linkedlist_foreach_backward`. -/
def foreachBackward (list : Links α) (fuel : ℕ) : Result (List α) := foreachFrom list.prev fuel (tail list)

end Linkedlist

end RubberOS.Model
