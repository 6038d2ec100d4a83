import Mathlib.Data.List.Basic
import RubberOS.Proofs.Rbtree
import RubberOS.ToMathlib.SearchTrees

/-! # `rbtree_find`, `rbtree_first` and `rbtree_next` on a stored tree

The loop of `rbtree_find` follows the search of the abstract tree. The last node to the left of its
hole is `lower` and the first one to the right is `upper`. `rbtree_next` goes down to the first node of
the right subtree, or up to the first node after the hole that the node's subtree leaves.
-/

namespace RubberOS.Model.Rbtree

open RedBlackTrees ColoredTree TreePath ParentPointers

variable {ν : Type} {links : TreeLinks ν} {path : TreePath ν} {t left right : ColoredTree ν} {a : ν}
  {p : Option ν} {c : NodeColor} {fuel : ℕ}

/-! ## Lookup -/

variable {keys : ν → ℤ} {key : ℤ}

/-- What `rbtree_find` returns for a search that ends in the hole of a path. -/
def foundAt (path : TreePath ν) : ColoredTree ν → RbtreeFindResult ν
  | .nil => ⟨(before path).getLast?, (after path).head?, top? path⟩
  | .node _ _ a _ => ⟨some a, some a, none⟩

theorem findFrom_locate (keys : ν → ℤ) (key : ℤ) (stores : Stores links p t) (path : TreePath ν)
    (enough : t.inorder.length < fuel) :
    findFrom keys links key fuel ⟨(before path).getLast?, (after path).head?, none⟩ t.root? (top? path) =
      .ok (foundAt (locate keys key path t).1 (locate keys key path t).2) := by
  induction t generalizing p path fuel with
  | nil =>
    obtain ⟨fuel, rfl⟩ := Nat.exists_eq_add_one.mpr (Nat.zero_lt_of_lt enough)
    rfl
  | node c left a right ihLeft ihRight =>
    obtain ⟨fuel, rfl⟩ := Nat.exists_eq_add_one.mpr (Nat.zero_lt_of_lt enough)
    obtain ⟨_, first, second, _, inLeft, inRight⟩ := stores
    rw [inorder, List.length_append, List.length_cons] at enough
    rw [root?, findFrom, locate]
    split_ifs with less greater
    · have further := ihRight inRight (⟨.right, c, a, left⟩ :: path) (show right.inorder.length < fuel by omega)
      rw [before, List.getLast?_concat] at further
      rw [second]
      exact further
    · have further := ihLeft inLeft (⟨.left, c, a, right⟩ :: path) (show left.inorder.length < fuel by omega)
      rw [first]
      exact further
    · rfl

/-- The result of `rbtree_find` is read off the place where the search ends. -/
theorem rbtreeFind_locate (place : At links [] t) (enough : t.inorder.length < fuel) :
    rbtreeFind fuel keys links key = .ok (foundAt (locate keys key [] t).1 (locate keys key [] t).2) := by
  have found := findFrom_locate keys key place.stores [] enough
  rw [rbtreeFind, show links.root = t.root? from place.leads]
  exact found

/-! ## Traversal -/

/-- `get_min_node` returns the first node of the subtree. -/
private theorem getMinNode_head (stores : Stores links p t) (root : t.root? = some a)
    (enough : t.inorder.length ≤ fuel) :
    ∃ z rest, t.inorder = z :: rest ∧ getMinNode links fuel a = .ok z := by
  induction t generalizing p a fuel with
  | nil => cases root
  | node c left b right ihLeft _ =>
    cases root
    obtain ⟨_, first, _, _, inLeft, _⟩ := stores
    rw [inorder, List.length_append, List.length_cons] at enough
    obtain ⟨fuel, rfl⟩ := Nat.exists_eq_add_one.mpr (show 0 < fuel by omega)
    rw [getMinNode, first]
    cases left with
    | nil => exact ⟨b, right.inorder, rfl, rfl⟩
    | node d near x far =>
      obtain ⟨z, rest, sequence, ran⟩ := ihLeft inLeft rfl (show _ ≤ fuel by omega)
      refine ⟨z, rest ++ b :: right.inorder, ?_, ran⟩
      rw [inorder, sequence, List.cons_append]

private theorem rbtreeFirst_spec (place : At links [] t) (enough : t.inorder.length < fuel) :
    rbtreeFirst fuel links = .ok t.inorder.head? := by
  rw [rbtreeFirst, show links.root = t.root? from place.leads]
  cases t with
  | nil => rfl
  | node c left b right =>
    obtain ⟨z, rest, sequence, ran⟩ := getMinNode_head place.stores rfl (Nat.le_of_lt enough)
    rw [sequence]
    exact congrArg (some <$> ·) ran

/-- The root's parent field leads to the node above the hole. -/
private theorem parent_root (place : At links path t) (root : t.root? = some a) : links.parent a = top? path := by
  cases t with
  | nil => cases root
  | node c left b right =>
    cases root
    exact place.stores.1

variable [DecidableEq ν]

/-- The loop of `rbtree_next` climbs to the first node after the hole. -/
private theorem climb_spec (place : At links path t) (root : t.root? = some a) (enough : path.length < fuel) :
    climb links fuel a = .ok (after path).head? := by
  induction path generalizing t a fuel with
  | nil =>
    obtain ⟨fuel, rfl⟩ := Nat.exists_eq_add_one.mpr (Nat.zero_lt_of_lt enough)
    rw [climb, parent_root place root]
    rfl
  | cons frame up ih =>
    obtain ⟨fuel, rfl⟩ := Nat.exists_eq_add_one.mpr (Nat.zero_lt_of_lt enough)
    obtain ⟨side, c, b, other⟩ := frame
    have above := at_cons.mp place
    have seen := child_eq_iff' above root .left
    rw [climb, parent_root place root]
    simp only [top?, seen]
    cases side
    · exact if_pos rfl
    · rw [if_neg (by decide)]
      rw [List.length_cons] at enough
      exact ih above root?_join (by omega)

private theorem rbtreeNext_at (place : At links path (.node c left a right))
    (enough : (fill path (.node c left a right)).inorder.length < fuel) :
    rbtreeNext fuel links a = .ok (right.inorder ++ after path).head? := by
  have room : path.length + (ColoredTree.node c left a right).inorder.length < fuel :=
    Nat.lt_of_le_of_lt length_le_fill enough
  rw [inorder, List.length_append, List.length_cons] at room
  obtain ⟨_, _, second, _, _, inRight⟩ := place.stores
  rw [rbtreeNext, second]
  cases right with
  | nil => exact climb_spec place rfl (by omega)
  | node d near x far =>
    obtain ⟨z, rest, sequence, ran⟩ := getMinNode_head inRight rfl (show _ ≤ fuel by omega)
    rw [sequence]
    exact congrArg (some <$> ·) ran

/-- `rbtree_next` of a node is the node after it in the in-order sequence. -/
theorem rbtreeNext_spec (place : At links [] t) {smaller greater : List ν}
    (sequence : t.inorder = smaller ++ a :: greater) (enough : t.inorder.length < fuel) :
    rbtreeNext fuel links a = .ok greater.head? := by
  have member : a ∈ t.inorder := by simp [sequence]
  obtain ⟨path, c, left, right, rfl⟩ := exists_fill member
  have nodup : (fill path (.node c left a right)).inorder.Nodup := place.nodup
  have split : (fill path (.node c left a right)).inorder =
      (before path ++ left.inorder) ++ a :: (right.inorder ++ after path) := by
    simp [inorder_fill, inorder]
  have absent {first second : List ν} (same : (fill path (.node c left a right)).inorder = first ++ a :: second) :
      a ∉ first := by
    rw [same] at nodup
    exact fun inside => (List.nodup_append.mp nodup).2.2 a inside a List.mem_cons_self rfl
  have absentAfter {first second : List ν}
      (same : (fill path (.node c left a right)).inorder = first ++ a :: second) : a ∉ second := by
    rw [same] at nodup
    exact (List.nodup_cons.mp (List.nodup_append.mp nodup).2.1).1
  rw [rbtreeNext_at (at_fill.mpr place) enough]
  have both := split.symm.trans sequence
  obtain ⟨_, _, rest⟩ := (List.append_cons_inj_of_notMem (absent split) (absentAfter split)).mp both
  rw [rest]

/-- From any node on, the calls of `rbtree_next` visit the rest of the sequence. -/
private theorem visitFrom_spec (place : At links [] t) {smaller rest : List ν} (sequence : t.inorder = smaller ++ rest)
    (enough : t.inorder.length < fuel) {turns : ℕ} (last : rest.length < turns) :
    visitFrom fuel links turns rest.head? = .ok rest := by
  induction rest generalizing smaller turns with
  | nil =>
    obtain ⟨turns, rfl⟩ := Nat.exists_eq_add_one.mpr (Nat.zero_lt_of_lt last)
    rfl
  | cons a rest ih =>
    obtain ⟨turns, rfl⟩ := Nat.exists_eq_add_one.mpr (Nat.zero_lt_of_lt last)
    rw [List.length_cons] at last
    have moved : t.inorder = (smaller ++ [a]) ++ rest := by simp [sequence]
    have further := ih moved (show rest.length < turns by omega)
    rw [List.head?_cons, visitFrom, rbtreeNext_spec place sequence enough, Except.ok_bind, further]
    rfl

/-- The traversal visits the in-order sequence. -/
theorem visitAll_spec (place : At links [] t) (enough : t.inorder.length < fuel) {turns : ℕ}
    (last : t.inorder.length < turns) : visitAll fuel turns links = .ok t.inorder := by
  rw [visitAll, rbtreeFirst_spec place enough, Except.ok_bind]
  exact visitFrom_spec place (List.nil_append _).symm enough last

end RubberOS.Model.Rbtree
