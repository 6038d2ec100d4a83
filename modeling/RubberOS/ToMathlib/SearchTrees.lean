import Mathlib.Order.Basic
import RubberOS.ToMathlib.RedBlackTrees

/-! # Search trees

The nodes of a tree have keys, and the keys ascend along the in-order sequence. `locate` follows a key down
from the hole of a path. It ends at the node with that key or at a hole around which the keys ascend, and
no other hole has this property.
-/

namespace RedBlackTrees

variable {ν α : Type*} [LinearOrder α] {keys : ν → α} {key : α} {a : ν} {t u : ColoredTree ν}
  {path up : TreePath ν} {frame : TreeFrame ν}

namespace ColoredTree

/-- The key of every node lies between those of its two subtrees. -/
def SearchOrder (keys : ν → α) : ColoredTree ν → Prop
  | nil => True
  | node _ left a right => left.SearchOrder keys ∧ right.SearchOrder keys ∧
      (∀ b ∈ left.inorder, keys b < keys a) ∧ ∀ b ∈ right.inorder, keys a < keys b

/-- The search order holds exactly when the in-order sequence ascends. -/
theorem searchOrder_iff : t.SearchOrder keys ↔ t.inorder.Pairwise fun a b => keys a < keys b := by
  induction t with
  | nil => simp [SearchOrder, inorder]
  | node c left a right ihLeft ihRight =>
    rw [SearchOrder, inorder, ihLeft, ihRight, List.pairwise_append, List.pairwise_cons]
    constructor
    · rintro ⟨inLeft, inRight, below, above⟩
      refine ⟨inLeft, ⟨above, inRight⟩, fun b member x other => ?_⟩
      rcases List.mem_cons.mp other with rfl | other
      · exact below b member
      · exact (below b member).trans (above x other)
    · rintro ⟨inLeft, ⟨above, inRight⟩, across⟩
      exact ⟨inLeft, inRight, fun b member => across b member a List.mem_cons_self, above⟩

end ColoredTree

namespace TreePath

open ColoredTree

/-- The keys to the left of the hole are below the given one, and those to its right above. -/
structure Around (keys : ν → α) (key : α) (path : TreePath ν) : Prop where
  before : ∀ b ∈ before path, keys b < key
  after : ∀ b ∈ after path, key < keys b

theorem around_nil (keys : ν → α) (key : α) : Around keys key ([] : TreePath ν) := ⟨nofun, nofun⟩

theorem around_right {c : NodeColor} :
    Around keys key (⟨.right, c, a, u⟩ :: up) ↔ Around keys key up ∧ keys a < key ∧
      ∀ b ∈ u.inorder, keys b < key := by
  constructor
  · rintro ⟨below, above⟩
    simp only [before, List.mem_append, List.mem_singleton] at below
    exact ⟨⟨fun b member => below b (.inl (.inl member)), above⟩, below a (.inr rfl),
      fun b member => below b (.inl (.inr member))⟩
  · rintro ⟨around, own, inner⟩
    refine ⟨fun b member => ?_, around.after⟩
    simp only [before, List.mem_append, List.mem_singleton] at member
    rcases member with (outer | inside) | rfl
    · exact around.before b outer
    · exact inner b inside
    · exact own

theorem around_left {c : NodeColor} :
    Around keys key (⟨.left, c, a, u⟩ :: up) ↔ Around keys key up ∧ key < keys a ∧ ∀ b ∈ u.inorder, key < keys b := by
  constructor
  · rintro ⟨below, above⟩
    simp only [after, List.cons_append, List.mem_cons, List.mem_append] at above
    exact ⟨⟨below, fun b member => above b (.inr (.inr member))⟩, above a (.inl rfl),
      fun b member => above b (.inr (.inl member))⟩
  · rintro ⟨around, own, inner⟩
    refine ⟨around.before, fun b member => ?_⟩
    simp only [after, List.cons_append, List.mem_cons, List.mem_append] at member
    rcases member with rfl | inside | outer
    · exact own
    · exact inner b inside
    · exact around.after b outer

/-- The keys of a tree with a key in its hole. -/
def keysAround (keys : ν → α) (key : α) (path : TreePath ν) : List α :=
  (before path).map keys ++ key :: (after path).map keys

/-- In a search tree, the keys stay in order exactly when the new one stands in a hole around which they
ascend. -/
theorem keysAround_pairwise (ordered : (fill path .nil).SearchOrder keys) :
    (keysAround keys key path).Pairwise (· < ·) ↔ Around keys key path := by
  rw [searchOrder_iff, inorder_fill, inorder, List.append_nil, List.pairwise_append] at ordered
  obtain ⟨first, second, across⟩ := ordered
  rw [keysAround, List.pairwise_append, List.pairwise_cons, List.pairwise_map, List.pairwise_map]
  simp only [List.mem_map, List.mem_cons, forall_exists_index, and_imp, forall_apply_eq_imp_iff₂]
  constructor
  · rintro ⟨_, ⟨above, _⟩, below⟩
    exact ⟨fun b member => below b member key (.inl rfl), above⟩
  · rintro ⟨below, above⟩
    refine ⟨first, ⟨above, second⟩, fun b member x other => ?_⟩
    rcases other with rfl | ⟨d, inAfter, rfl⟩
    · exact below b member
    · exact across b member d inAfter

/-- Where the search for a key ends: at the node with the key, or at a hole. -/
def locate (keys : ν → α) (key : α) : TreePath ν → ColoredTree ν → TreePath ν × ColoredTree ν
  | path, .nil => (path, .nil)
  | path, .node c left a right =>
    if keys a < key then locate keys key (⟨.right, c, a, left⟩ :: path) right
    else if key < keys a then locate keys key (⟨.left, c, a, right⟩ :: path) left
    else (path, .node c left a right)

/-- The search moves within the tree. -/
theorem fill_locate (keys : ν → α) (key : α) (path : TreePath ν) (t : ColoredTree ν) :
    fill (locate keys key path t).1 (locate keys key path t).2 = fill path t := by
  induction t generalizing path with
  | nil => rfl
  | node c left a right ihLeft ihRight =>
    rw [locate]
    split_ifs
    · exact ihRight _
    · exact ihLeft _
    · rfl

/-- The search ends at the key or at an empty subtree. -/
theorem locate_end (keys : ν → α) (key : α) (path : TreePath ν) (t : ColoredTree ν) :
    (locate keys key path t).2 = .nil ∨
      ∃ c left a right, (locate keys key path t).2 = .node c left a right ∧ keys a = key := by
  induction t generalizing path with
  | nil => exact .inl rfl
  | node c left a right ihLeft ihRight =>
    rw [locate]
    split_ifs with below above
    · exact ihRight _
    · exact ihLeft _
    · exact .inr ⟨c, left, a, right, rfl, le_antisymm (not_lt.mp above) (not_lt.mp below)⟩

/-- The keys ascend around the hole where the search ends. -/
theorem around_locate (around : Around keys key path) (ordered : t.SearchOrder keys) :
    Around keys key (locate keys key path t).1 := by
  induction t generalizing path with
  | nil => exact around
  | node c left a right ihLeft ihRight =>
    obtain ⟨inLeft, inRight, below, above⟩ := ordered
    rw [locate]
    split_ifs with less greater
    · exact ihRight (around_right.mpr ⟨around, less, fun b member => (below b member).trans less⟩) inRight
    · exact ihLeft (around_left.mpr ⟨around, greater, fun b member => greater.trans (above b member)⟩) inLeft
    · exact around

/-- The search from the root comes by every hole around which the keys ascend. -/
theorem locate_fill (around : Around keys key path) (t : ColoredTree ν) :
    locate keys key [] (fill path t) = locate keys key path t := by
  induction path generalizing t with
  | nil => rfl
  | cons frame up ih =>
    obtain ⟨side, c, a, other⟩ := frame
    cases side
    · obtain ⟨above, greater, _⟩ := around_left.mp around
      rw [fill_cons, ih above, TreeFrame.plug, join, locate, if_neg (not_lt.mpr greater.le), if_pos greater]
    · obtain ⟨above, less, _⟩ := around_right.mp around
      rw [fill_cons, ih above, TreeFrame.plug, join, locate, if_pos less]

/-- At most one hole takes the key. -/
theorem around_unique {path' : TreePath ν} (around : Around keys key path) (around' : Around keys key path')
    (same : fill path .nil = fill path' .nil) : path = path' := by
  have first := locate_fill around .nil
  have second := locate_fill around' .nil
  rw [same, second] at first
  exact congrArg Prod.fst first.symm

end TreePath

end RedBlackTrees
