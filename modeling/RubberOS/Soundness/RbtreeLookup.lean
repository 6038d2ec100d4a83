import RubberOS.Proofs.RbtreeLookup

/-! # What `rbtree_find` finds and `rbtree_next` visits

On every stored search tree, `lower` and `upper` are the neighbours of the key and `to_insert` is the only
node below which it may stand. On every stored tree, the traversal is the in-order sequence.
-/

namespace RubberOS.Soundness.RbtreeLookup

open RedBlackTrees ColoredTree TreePath ParentPointers Model.Rbtree

variable {ν : Type} {keys : ν → ℤ} {key : ℤ} {links : TreeLinks ν} {t : ColoredTree ν} {path : TreePath ν}

/-! ## Lookup -/

/-- The node with the greatest key that is at most the given one, or null. -/
def IsLower (keys : ν → ℤ) (key : ℤ) (t : ColoredTree ν) : Option ν → Prop
  | none => ∀ b ∈ t.inorder, key < keys b
  | some a => a ∈ t.inorder ∧ keys a ≤ key ∧ ∀ b ∈ t.inorder, keys b ≤ key → keys b ≤ keys a

/-- The node with the least key that is at least the given one, or null. -/
def IsUpper (keys : ν → ℤ) (key : ℤ) (t : ColoredTree ν) : Option ν → Prop
  | none => ∀ b ∈ t.inorder, keys b < key
  | some a => a ∈ t.inorder ∧ key ≤ keys a ∧ ∀ b ∈ t.inorder, key ≤ keys b → keys a ≤ keys b

/-- The node has no child on the side of the key, and the keys stay in order with the new one there. -/
def TakesKey (keys : ν → ℤ) (key : ℤ) (t : ColoredTree ν) (a : ν) : Prop :=
  ∃ side c other up, t = fill (⟨side, c, a, other⟩ :: up) .nil ∧ (side = .left ↔ key < keys a) ∧
    (keysAround keys key (⟨side, c, a, other⟩ :: up)).Pairwise (· < ·)

/-- What `rbtree_find` promises. -/
structure Finds (keys : ν → ℤ) (key : ℤ) (t : ColoredTree ν) (found : RbtreeFindResult ν) : Prop where
  lower : IsLower keys key t found.lower
  upper : IsUpper keys key t found.upper
  same : found.lower = found.upper ↔ (∃ b ∈ t.inorder, keys b = key) ∨ t = .nil
  toInsert : (∀ b ∈ t.inorder, keys b ≠ key) → t ≠ .nil →
    ∃ a, found.toInsert = some a ∧ ∀ b, TakesKey keys key t b ↔ b = a

private theorem inorder_hole : (fill path .nil).inorder = before path ++ after path := by
  rw [inorder_fill, inorder, List.append_nil]

/-- The last node to the left of the hole has the greatest of the smaller keys. -/
private theorem isLower_before (ordered : (fill path .nil).SearchOrder keys) (around : Around keys key path) :
    IsLower keys key (fill path .nil) (before path).getLast? := by
  rw [searchOrder_iff, inorder_hole] at ordered
  rcases List.eq_nil_or_concat' (before path) with none | ⟨init, a, last⟩
  · rw [none]
    intro b member
    rw [inorder_hole, none, List.nil_append] at member
    exact around.after b member
  · have own : a ∈ before path := by simp [last]
    rw [last, List.getLast?_concat]
    refine ⟨?_, (around.before a own).le, fun b member less => ?_⟩
    · rw [inorder_hole]
      exact List.mem_append_left _ own
    · rw [inorder_hole, List.mem_append] at member
      rcases member with inside | beyond
      · rw [last] at inside ordered
        rcases List.mem_append.mp inside with earlier | only
        · have first := (List.pairwise_append.mp ordered).1
          exact ((List.pairwise_append.mp first).2.2 b earlier a (List.mem_singleton_self a)).le
        · rw [List.mem_singleton.mp only]
      · exact absurd (around.after b beyond) (not_lt.mpr less)

/-- The first node to the right of the hole has the least of the greater keys. -/
private theorem isUpper_after (ordered : (fill path .nil).SearchOrder keys) (around : Around keys key path) :
    IsUpper keys key (fill path .nil) (after path).head? := by
  rw [searchOrder_iff, inorder_hole] at ordered
  have second := (List.pairwise_append.mp ordered).2.1
  cases last : after path with
  | nil =>
    intro b member
    rw [inorder_hole, last, List.append_nil] at member
    exact around.before b member
  | cons a rest =>
    have own : a ∈ after path := by simp [last]
    refine ⟨?_, (around.after a own).le, fun b member greater => ?_⟩
    · rw [inorder_hole]
      exact List.mem_append_right _ own
    · rw [inorder_hole, List.mem_append] at member
      rcases member with earlier | inside
      · exact absurd (around.before b earlier) (not_lt.mpr greater)
      · rw [last] at inside second
        rcases List.mem_cons.mp inside with rfl | inside
        · exact le_rfl
        · exact ((List.pairwise_cons.mp second).1 b inside).le

/-- Only in an empty tree are both neighbours of a missing key null. -/
private theorem neighbours_eq_iff (around : Around keys key path) :
    (before path).getLast? = (after path).head? ↔ fill path .nil = .nil := by
  constructor
  · intro same
    cases last : (after path).head? with
    | none =>
      rw [last, List.getLast?_eq_none_iff] at same
      have empty : (fill path .nil).inorder = [] := by
        rw [inorder_hole, same, List.head?_eq_none_iff.mp last, List.append_nil]
      cases filled : fill path .nil with
      | nil => rfl
      | node c left a right => simp [filled, inorder] at empty
    | some a =>
      have below := around.before a (List.mem_of_getLast? (same.trans last))
      exact absurd (around.after a (List.mem_of_head? last)) (not_lt.mpr below.le)
  · intro empty
    have sequence : before path ++ after path = [] := by rw [← inorder_hole, empty, inorder]
    obtain ⟨left, right⟩ := List.append_eq_nil_iff.mp sequence
    rw [left, right]
    rfl

/-- The hole where the keys ascend belongs to one node. -/
private theorem takesKey_iff {frame : TreeFrame ν} {up : TreePath ν}
    (ordered : (fill (frame :: up) .nil).SearchOrder keys)
    (around : Around keys key (frame :: up)) (b : ν) :
    TakesKey keys key (fill (frame :: up) .nil) b ↔ b = frame.addr := by
  constructor
  · rintro ⟨side, c, other, up', same, _, ascends⟩
    rw [same] at ordered
    have both := around_unique around ((keysAround_pairwise ordered).mp ascends) same
    rw [(List.cons.inj both).1]
  · rintro rfl
    refine ⟨frame.side, frame.color, frame.other, up, rfl, ?_, (keysAround_pairwise ordered).mpr around⟩
    obtain ⟨side, c, a, other⟩ := frame
    cases side
    · exact iff_of_true rfl (around_left.mp around).2.1
    · exact iff_of_false nofun (not_lt.mpr (around_right.mp around).2.1.le)

/-- The search that ends in a hole has found the neighbours of the key and the place for it. -/
private theorem finds_hole (ordered : (fill path .nil).SearchOrder keys) (around : Around keys key path) :
    Finds keys key (fill path .nil) (foundAt path .nil) := by
  have absent : ¬∃ b ∈ (fill path .nil).inorder, keys b = key := by
    rintro ⟨b, member, known⟩
    rw [inorder_hole, List.mem_append] at member
    rcases member with below | above
    · exact (around.before b below).ne known
    · exact (around.after b above).ne known.symm
  refine ⟨isLower_before ordered around, isUpper_after ordered around, ?_, fun _ nonempty => ?_⟩
  · rw [or_iff_right absent]
    exact neighbours_eq_iff around
  · cases path with
    | nil => exact absurd rfl nonempty
    | cons frame up => exact ⟨frame.addr, rfl, takesKey_iff ordered around⟩

/-- The search that meets the key returns its node as both neighbours. -/
private theorem finds_node {c : NodeColor} {left right : ColoredTree ν} {a : ν} (known : keys a = key) :
    Finds keys key (fill path (.node c left a right)) (foundAt path (.node c left a right)) := by
  have member : a ∈ (fill path (.node c left a right)).inorder := by
    rw [fill_perm.mem_iff]
    exact List.mem_append_right _ (root?_mem rfl)
  refine ⟨⟨member, known.le, fun b _ less => known ▸ less⟩, ⟨member, known.ge, fun b _ greater => known ▸ greater⟩,
    iff_of_true rfl (.inl ⟨a, member, known⟩), fun unknown _ => ?_⟩
  exact absurd known (unknown a member)

/-- On every stored search tree, `rbtree_find` returns the neighbours of the key and its place. -/
theorem rbtreeFind_finds (place : At links [] t) (ordered : t.SearchOrder keys) (key : ℤ) :
    ∃ found, (∀ fuel, t.inorder.length < fuel → rbtreeFind fuel keys links key = .ok found) ∧
      Finds keys key t found := by
  refine ⟨_, fun fuel enough => rbtreeFind_locate place enough, ?_⟩
  have same := fill_locate keys key [] t
  have around := around_locate (around_nil keys key) ordered
  have ends := locate_end keys key [] t
  generalize locate keys key [] t = placed at same around ends
  obtain ⟨path, hole⟩ := placed
  rcases ends with rfl | ⟨c, left, b, right, rfl, known⟩
  · obtain rfl : fill path .nil = t := same
    exact finds_hole ordered around
  · obtain rfl : fill path (.node c left b right) = t := same
    exact finds_node known

/-- Three nodes with the keys 10, 20 and 30. -/
def threeLinks : TreeLinks ℕ where
  root := some 1
  parent a := if a = 1 then none else some 1
  child side a := match side, a with
    | .left, 1 => some 0
    | .right, 1 => some 2
    | _, _ => none
  color _ := .blk

def threeKeys (a : ℕ) : ℤ := 10 * (a + 1)

private theorem threeLinks_at : At threeLinks [] (.node .blk (.node .blk .nil 0 .nil) 1 (.node .blk .nil 2 .nil)) :=
  ⟨rfl, by simp [threeLinks, Stores, root?, top?], by decide⟩

/-- The key 25 lies between the second and the third node. -/
theorem rbtreeFind_between : ∃ found, (∀ fuel, 3 < fuel → rbtreeFind fuel threeKeys threeLinks 25 = .ok found) ∧
    Finds threeKeys 25 (.node .blk (.node .blk .nil 0 .nil) 1 (.node .blk .nil 2 .nil)) found :=
  rbtreeFind_finds threeLinks_at (by simp [SearchOrder, inorder, threeKeys]) 25

/-- In an empty tree no key is present, and both neighbours are null. -/
theorem rbtreeFind_empty_same : ¬∀ (links : TreeLinks ℕ) (t : ColoredTree ℕ) (keys : ℕ → ℤ) (key : ℤ) (fuel : ℕ)
    (found : RbtreeFindResult ℕ), At links [] t → t.SearchOrder keys → rbtreeFind fuel keys links key = .ok found →
      (found.lower = found.upper ↔ ∃ b ∈ t.inorder, keys b = key) := by
  intro claim
  have stored : At (⟨none, fun _ => none, fun _ _ => none, fun _ => .blk⟩ : TreeLinks ℕ) [] .nil :=
    ⟨rfl, trivial, List.nodup_nil⟩
  obtain ⟨b, member, _⟩ := (claim _ _ threeKeys 25 1 ⟨none, none, none⟩ stored trivial rfl).mp rfl
  cases member

/-! ## Traversal -/

/-- The traversal ends, and it visits every node of the tree once, in order. The node that it visits last has no
successor. -/
structure Traverses [DecidableEq ν] (links : TreeLinks ν) (t : ColoredTree ν) : Prop where
  visits : ∀ fuel turns, t.inorder.length < fuel → t.inorder.length < turns →
    visitAll fuel turns links = .ok t.inorder
  once : t.inorder.Nodup
  last : ∀ fuel a, t.inorder.length < fuel → t.inorder.getLast? = some a → rbtreeNext fuel links a = .ok none
  ascends : ∀ keys : ν → ℤ, t.SearchOrder keys → t.inorder.Pairwise fun a b => keys a < keys b

/-- From `rbtree_first` on, `rbtree_next` visits the in-order sequence of every stored tree. -/
theorem visitAll_traverses [DecidableEq ν] (place : At links [] t) : Traverses links t := by
  refine ⟨fun fuel turns enough last => visitAll_spec place enough last, place.nodup, fun fuel a enough last => ?_,
    fun keys ordered => searchOrder_iff.mp ordered⟩
  obtain ⟨init, sequence⟩ := List.getLast?_eq_some_iff.mp last
  exact rbtreeNext_spec place sequence enough

/-- The three nodes are visited from the least key to the greatest. -/
theorem visitAll_three : Traverses threeLinks (.node .blk (.node .blk .nil 0 .nil) 1 (.node .blk .nil 2 .nil)) :=
  visitAll_traverses threeLinks_at

example : visitAll 4 4 threeLinks = .ok [0, 1, 2] := rfl

end RubberOS.Soundness.RbtreeLookup
