import RubberOS.Proofs.LinkLists

/-! # Rings of links
 The functions of `linkedlist.c` edit a ring that represents a sequence of links. Insertions, removals and visits
are right for every length and position. The two pops compare the neighbours of the dummy with each other, which
are the same link when there is only one. -/

namespace RubberOS.Soundness.LinkedlistRings

open Model Model.Linkedlist SinglyLinked DoublyLinked

variable {α : Type} [DecidableEq α]

/-- The ring links distinct nodes, in this order. -/
structure WellFormed (list : Links α) (xs : List α) : Prop where
  linked : Linked list xs
  nodup : xs.Nodup

/-- The pointers of all places but some are the same. -/
def Unchanged (list after : Links α) (changed : List (Option α)) : Prop :=
  ∀ p ∉ changed, after.next p = list.next p ∧ after.prev p = list.prev p

/-- What an edit has to leave: a ring of other links, with changes at some places only. -/
structure Edits (list after : Links α) (xs : List α) (changed : List (Option α)) : Prop where
  wellFormed : WellFormed after xs
  unchanged : Unchanged list after changed

/-- The operations on a ring of the links `xs`. -/
structure RingOperations (list : Links α) (xs : List α) : Prop where
  init : ∀ any : Links α, Edits any (init any) [] [none]
  pushFront : ∀ x ∉ xs, Edits list (pushFront list x) (x :: xs) [none, some x, xs.head?]
  pushBack : ∀ x ∉ xs, Edits list (pushBack list x) (xs ++ [x]) [xs.getLast?, some x, none]
  insertBefore : ∀ as y bs, xs = as ++ y :: bs → ∀ x ∉ xs,
    Edits list (insertBefore list (some y) x) (as ++ x :: y :: bs) [as.getLast?, some x, some y]
  insertAfter : ∀ as y bs, xs = as ++ y :: bs → ∀ x ∉ xs,
    Edits list (insertAfter list (some y) x) (as ++ y :: x :: bs) [some y, some x, bs.head?]
  remove : ∀ as y bs, xs = as ++ y :: bs → Edits list (remove list y) (as ++ bs) [as.getLast?, bs.head?]
  moveToBack : ∀ as y bs, xs = as ++ y :: bs → Edits list (Linkedlist.pushBack (Linkedlist.remove list y) y)
    (as ++ bs ++ [y]) [as.getLast?, bs.head?, (as ++ bs).getLast?, some y, none]
  foreach : ∀ fuel > xs.length, foreach list fuel = .ok xs
  foreachBackward : ∀ fuel > xs.length, foreachBackward list fuel = .ok xs.reverse
  isEmpty : isEmpty list = true ↔ xs.length = 0

section Edits

variable {list after other : Links α} {xs as bs : List α} {x y : α} {link : Option α} {changed more : List (Option α)}

omit [DecidableEq α] in
private theorem Unchanged.trans (first : Unchanged list after changed) (second : Unchanged after other more) :
    Unchanged list other (changed ++ more) := by
  intro p outside
  rw [List.mem_append, not_or] at outside
  obtain ⟨next, prev⟩ := first p outside.1
  obtain ⟨next', prev'⟩ := second p outside.2
  exact ⟨next'.trans next, prev'.trans prev⟩

private theorem unchanged_insertBefore : Unchanged list (insertBefore list link x) [list.prev link, some x, link] := by
  intro p outside
  simp only [List.mem_cons, List.not_mem_nil, or_false, not_or] at outside
  obtain ⟨before, own, after⟩ := outside
  constructor
  · simp only [insertBefore, Function.update_of_ne own, Function.update_of_ne before]
  · simp only [insertBefore, Function.update_of_ne after, Function.update_of_ne own]

private theorem unchanged_insertAfter : Unchanged list (insertAfter list link x) [link, some x, list.next link] := by
  intro p outside
  simp only [List.mem_cons, List.not_mem_nil, or_false, not_or] at outside
  obtain ⟨before, own, after⟩ := outside
  constructor
  · simp only [insertAfter, Function.update_of_ne own, Function.update_of_ne before]
  · simp only [insertAfter, Function.update_of_ne after, Function.update_of_ne own]

private theorem WellFormed.pushFront (ring : WellFormed list xs) (fresh : x ∉ xs) :
    Edits list (pushFront list x) (x :: xs) [none, some x, xs.head?] := by
  refine ⟨⟨ring.linked.pushFront ring.nodup fresh, ring.nodup.cons fresh⟩, ?_⟩
  have before : list.prev (list.next none) = none := by
    rw [ring.linked.next_dummy]
    cases xs with
    | nil => exact ring.linked.prev_dummy
    | cons y ys =>
      have split : Linked list ([] ++ y :: ys) := ring.linked
      exact split.prev_eq
  have kept : Unchanged list (insertBefore list (list.next none) x)
      [list.prev (list.next none), some x, list.next none] :=
    unchanged_insertBefore
  rw [before, ring.linked.next_dummy] at kept
  rw [Linkedlist.pushFront, ring.linked.next_dummy]
  exact kept

private theorem WellFormed.pushBack (ring : WellFormed list xs) (fresh : x ∉ xs) :
    Edits list (pushBack list x) (xs ++ [x]) [xs.getLast?, some x, none] := by
  have nodup : (xs ++ [x]).Nodup := by
    rw [List.nodup_append_comm]
    exact ring.nodup.cons fresh
  refine ⟨⟨ring.linked.pushBack ring.nodup fresh, nodup⟩, ?_⟩
  have after : list.next (list.prev none) = none := by
    rw [ring.linked.prev_dummy, ← place_none]
    rw [← List.append_nil xs] at ring
    exact ring.linked.forward.rest.next_eq
  have kept : Unchanged list (insertAfter list (list.prev none) x)
      [list.prev none, some x, list.next (list.prev none)] :=
    unchanged_insertAfter
  rw [after, ring.linked.prev_dummy] at kept
  rw [Linkedlist.pushBack, ring.linked.prev_dummy]
  exact kept

private theorem WellFormed.insertBefore (ring : WellFormed list (as ++ y :: bs)) (fresh : x ∉ as ++ y :: bs) :
    Edits list (insertBefore list (some y) x) (as ++ x :: y :: bs) [as.getLast?, some x, some y] := by
  refine ⟨⟨ring.linked.insertBefore ring.nodup fresh, List.nodup_middle.mpr (ring.nodup.cons fresh)⟩, ?_⟩
  have kept : Unchanged list (Linkedlist.insertBefore list (some y) x) [list.prev (some y), some x, some y] :=
    unchanged_insertBefore
  rwa [ring.linked.prev_eq, place_none] at kept

private theorem WellFormed.insertAfter (ring : WellFormed list (as ++ y :: bs)) (fresh : x ∉ as ++ y :: bs) :
    Edits list (insertAfter list (some y) x) (as ++ y :: x :: bs) [some y, some x, bs.head?] := by
  have split : as ++ y :: bs = as ++ [y] ++ bs := by simp
  have joined : as ++ y :: x :: bs = as ++ [y] ++ x :: bs := by simp
  have kept : Unchanged list (Linkedlist.insertAfter list (some y) x) [some y, some x, list.next (some y)] :=
    unchanged_insertAfter
  rw [ring.linked.next_eq] at kept
  rw [split] at ring fresh
  have inserted := ring.linked.insertAfter ring.nodup fresh
  rw [place_append_singleton] at inserted
  rw [joined]
  exact ⟨⟨inserted, List.nodup_middle.mpr (ring.nodup.cons fresh)⟩, kept⟩

private theorem WellFormed.remove (ring : WellFormed list (as ++ y :: bs)) :
    Edits list (remove list y) (as ++ bs) [as.getLast?, bs.head?] := by
  refine ⟨⟨ring.linked.remove ring.nodup, (List.nodup_middle.mp ring.nodup).of_cons⟩, fun p outside => ?_⟩
  simp only [List.mem_cons, List.not_mem_nil, or_false, not_or] at outside
  obtain ⟨before, after⟩ := outside
  have prev : list.prev (some y) = as.getLast? := by rw [ring.linked.prev_eq, place_none]
  have next : list.next (some y) = bs.head? := ring.linked.next_eq
  have kept : Function.update list.next as.getLast? bs.head? (some y) = bs.head? := by
    rw [Function.update_apply]
    split_ifs
    · rfl
    · exact next
  constructor
  · simp only [Linkedlist.remove, prev, Function.update_of_ne before]
  · simp only [Linkedlist.remove, prev, next, kept, Function.update_of_ne after]

/-- Every operation on a ring of any length, at any position, represents the operation on the sequence. -/
theorem ring_operations (ring : WellFormed list xs) : RingOperations list xs where
  init any := by
    refine ⟨⟨init_linked any, List.nodup_nil⟩, fun p outside => ?_⟩
    rw [List.mem_singleton] at outside
    exact ⟨Function.update_of_ne outside _ _, Function.update_of_ne outside _ _⟩
  pushFront _ fresh := ring.pushFront fresh
  pushBack _ fresh := ring.pushBack fresh
  insertBefore as y bs split x fresh := by
    subst split
    exact ring.insertBefore fresh
  insertAfter as y bs split x fresh := by
    subst split
    exact ring.insertAfter fresh
  remove as y bs split := by
    subst split
    exact ring.remove
  moveToBack as y bs split := by
    subst split
    have gone := (List.nodup_cons.mp (List.nodup_middle.mp ring.nodup)).1
    have pushed := ring.remove.wellFormed.pushBack gone
    exact ⟨pushed.wellFormed, ring.remove.unchanged.trans pushed.unchanged⟩
  foreach _ enough := ring.linked.foreach enough
  foreachBackward _ enough := ring.linked.foreachBackward enough
  isEmpty := by rw [ring.linked.isEmpty_iff, List.length_eq_zero_iff]

theorem ring_operations_two :
    RingOperations (Linkedlist.pushBack (Linkedlist.pushBack (Linkedlist.init ⟨id, id⟩) 1) 2) [1, 2] := by
  have empty : WellFormed (Linkedlist.init ⟨id, id⟩) ([] : List ℕ) := ⟨init_linked _, List.nodup_nil⟩
  have one : WellFormed (Linkedlist.pushBack (Linkedlist.init ⟨id, id⟩) 1) [1] :=
    (empty.pushBack (by decide)).wellFormed
  exact ring_operations (one.pushBack (by decide)).wellFormed

end Edits

/-! ## Pops -/

inductive Side where
  | front
  | back

def pop (list : Links α) : Side → Option (Option α) × Links α
  | .front => popFront list
  | .back => popBack list

/-- Pops on the chosen sides until one answers the null pointer: what was popped, and the list that is left. -/
def drain (sides : ℕ → Side) : ℕ → ℕ → Links α → Result (List (Option α) × Links α)
  | 0, _, _ => .error .nonterminating
  | fuel + 1, i, list =>
    match pop list (sides i) with
    | (none, list) => .ok ([], list)
    | (some link, list) => do
      let (order, after) ← drain sides fuel (i + 1) list
      return (link :: order, after)

/-- A pop answers null if and only if there is no link, and unlinks the outermost one otherwise. -/
def Pops (list : Links α) (xs : List α) (side : Side) : Prop :=
  ((pop list side).1 = none ↔ xs = []) ∧
    match side with
    | .front => ∀ x rest, xs = x :: rest → (popFront list).1 = some (some x) ∧ WellFormed (popFront list).2 rest
    | .back => ∀ x rest, xs = rest ++ [x] → (popBack list).1 = some (some x) ∧ WellFormed (popBack list).2 rest

/-- In every order of pops, each link is returned once and the list is empty in the end. -/
def Drains (list : Links α) (xs : List α) : Prop :=
  ∀ sides, ∃ fuel order after, drain sides fuel 0 list = .ok (order, after) ∧ order.Perm (xs.map some) ∧
    WellFormed after []

section Pops

variable {list : Links α} {xs : List α} {side : Side}

/-- A pop of a ring with two links or more unlinks one of the outermost. -/
private theorem WellFormed.pop (side : Side) (ring : WellFormed list xs) (many : 2 ≤ xs.length) :
    ∃ x rest, (pop list side).1 = some (some x) ∧ WellFormed (pop list side).2 rest ∧ xs.Perm (x :: rest) := by
  cases side with
  | front =>
    obtain ⟨x, rest, rfl⟩ := List.exists_cons_of_length_pos (show 0 < xs.length by omega)
    rw [List.length_cons] at many
    have others : rest ≠ [] := List.ne_nil_of_length_pos (by omega)
    obtain ⟨popped, linked⟩ := ring.linked.popFront_cons ring.nodup others
    exact ⟨x, rest, popped, ⟨linked, ring.nodup.of_cons⟩, .refl _⟩
  | back =>
    rcases List.eq_nil_or_concat xs with rfl | ⟨rest, x, rfl⟩
    · exact absurd many (by simp)
    rw [List.concat_eq_append] at ring many ⊢
    rw [List.length_append, List.length_singleton] at many
    have others : rest ≠ [] := List.ne_nil_of_length_pos (by omega)
    obtain ⟨popped, linked⟩ := ring.linked.popBack_append ring.nodup others
    exact ⟨x, rest, popped, ⟨linked, ring.nodup.of_append_left⟩, List.perm_append_singleton x rest⟩

private theorem WellFormed.pop_few (ring : WellFormed list xs) (few : xs.length ≤ 1) :
    LinkedlistRings.pop list side = (none, list) := by
  obtain ⟨front, back⟩ := ring.linked.pop_few ring.nodup few
  cases side with
  | front => exact front
  | back => exact back

private theorem pops_side_iff (ring : WellFormed list xs) : Pops list xs side ↔ xs.length ≠ 1 := by
  constructor
  · rintro ⟨null, _⟩ one
    have empty := null.mp (by rw [ring.pop_few (Nat.le_of_eq one)])
    rw [empty] at one
    cases one
  · intro other
    rcases Nat.lt_or_ge xs.length 2 with few | many
    · have empty : xs = [] := List.length_eq_zero_iff.mp (by omega)
      subst empty
      refine ⟨iff_of_true (by rw [ring.pop_few (Nat.zero_le 1)]) rfl, ?_⟩
      cases side with
      | front => exact nofun
      | back => exact fun x rest split => absurd split.symm (List.append_ne_nil_of_right_ne_nil rest (by simp))
    · obtain ⟨x, rest, popped, _⟩ := ring.pop side many
      have nonempty : xs ≠ [] := List.ne_nil_of_length_pos (by omega)
      refine ⟨iff_of_false (by rw [popped]; exact nofun) nonempty, ?_⟩
      cases side with
      | front =>
        rintro x rest rfl
        rw [List.length_cons] at many
        obtain ⟨popped, linked⟩ := ring.linked.popFront_cons ring.nodup (List.ne_nil_of_length_pos (by omega))
        exact ⟨popped, linked, ring.nodup.of_cons⟩
      | back =>
        rintro x rest rfl
        rw [List.length_append, List.length_singleton] at many
        obtain ⟨popped, linked⟩ := ring.linked.popBack_append ring.nodup (List.ne_nil_of_length_pos (by omega))
        exact ⟨popped, linked, ring.nodup.of_append_left⟩

/-- Draining a list that is not empty leaves one link behind. -/
private theorem drain_length {sides : ℕ → Side} {fuel i : ℕ} {order : List (Option α)} {after : Links α}
    (ring : WellFormed list xs) (nonempty : xs ≠ []) (ran : drain sides fuel i list = .ok (order, after)) :
    order.length + 1 = xs.length := by
  induction fuel generalizing i list xs order with
  | zero => cases ran
  | succ fuel ih =>
    rw [drain] at ran
    rcases Nat.lt_or_ge xs.length 2 with few | many
    · rw [ring.pop_few (by omega)] at ran
      cases ran
      have := List.length_pos_of_ne_nil nonempty
      rw [List.length_nil]
      omega
    · obtain ⟨x, rest, popped, remaining, same⟩ := ring.pop (sides i) many
      rcases result : LinkedlistRings.pop list (sides i) with ⟨link, next⟩
      rw [result] at popped remaining ran
      dsimp only at popped remaining
      subst popped
      simp only [Except.bind_ok_iff, Except.pure_ok_iff, Prod.mk.injEq] at ran
      obtain ⟨⟨later, left⟩, ran, rfl, rfl⟩ := ran
      have length := same.length_eq
      rw [List.length_cons] at length ⊢
      have restNonempty : rest ≠ [] := List.ne_nil_of_length_pos (by omega)
      rw [ih remaining restNonempty ran]
      omega

/-- The pops are right exactly if there is not just one link, and draining exactly if there is none. -/
theorem pops_iff (ring : WellFormed list xs) :
    (Pops list xs .front ↔ xs.length ≠ 1) ∧ (Pops list xs .back ↔ xs.length ≠ 1) ∧ (Drains list xs ↔ xs.length = 0) := by
  refine ⟨pops_side_iff ring, pops_side_iff ring, fun drains => ?_, fun empty sides => ?_⟩
  · obtain ⟨fuel, order, after, ran, same, _⟩ := drains fun _ => .front
    by_contra nonempty
    have left := drain_length ring (mt List.length_eq_zero_iff.mpr nonempty) ran
    have all := same.length_eq
    rw [List.length_map] at all
    omega
  · have none := List.length_eq_zero_iff.mp empty
    subst none
    refine ⟨1, [], list, ?_, .nil, ring⟩
    rw [drain, ring.pop_few (Nat.zero_le 1)]

/-- A list with one link. -/
private theorem single_ring : WellFormed (Linkedlist.pushBack (Linkedlist.init ⟨id, id⟩) 1) [1] := by
  have empty : WellFormed (Linkedlist.init ⟨id, id⟩) ([] : List ℕ) := ⟨init_linked _, List.nodup_nil⟩
  exact (empty.pushBack (by decide)).wellFormed

theorem pops_iff_single :
    (Pops (Linkedlist.pushBack (Linkedlist.init ⟨id, id⟩) 1) [1] .front ↔ [1].length ≠ 1) ∧
      (Pops (Linkedlist.pushBack (Linkedlist.init ⟨id, id⟩) 1) [1] .back ↔ [1].length ≠ 1) ∧
      (Drains (Linkedlist.pushBack (Linkedlist.init ⟨id, id⟩) 1) [1] ↔ [1].length = 0) :=
  pops_iff single_ring

/-- The only link of a list is not popped. -/
theorem single_link_kept :
    WellFormed (Linkedlist.pushBack (Linkedlist.init ⟨id, id⟩) 1) [1] ∧
      (popFront (Linkedlist.pushBack (Linkedlist.init ⟨id, id⟩) 1)).1 = none ∧
      ¬Pops (Linkedlist.pushBack (Linkedlist.init ⟨id, id⟩) 1) [1] .front ∧
      ¬Drains (Linkedlist.pushBack (Linkedlist.init ⟨id, id⟩) 1) [1] := by
  refine ⟨single_ring, by decide, fun pops => (pops_side_iff single_ring).mp pops rfl, fun drains => ?_⟩
  obtain ⟨fuel, order, after, ran, same, _⟩ := drains fun _ => .front
  have left := drain_length single_ring (List.cons_ne_nil 1 []) ran
  have all := same.length_eq
  rw [List.length_map] at all
  omega

end Pops

end RubberOS.Soundness.LinkedlistRings
