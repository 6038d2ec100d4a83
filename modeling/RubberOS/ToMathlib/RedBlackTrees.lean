import Mathlib.Data.List.Nodup
import Mathlib.Data.List.Perm.Lattice
import Mathlib.Data.Nat.Notation
import Mathlib.Order.Lattice

/-! # Red-black trees and their zippers

A tree carries a color and an address at each node. A path leads from a subtree up to the root, and
`fill` puts a subtree back. `Balanced` and `Fits` are the red-black conditions on a tree and on the
hole of a path. Both kinds of child are treated alike: `join` builds a node from its child on a given
side and the other one.
-/

namespace RedBlackTrees

inductive Side where
  | left
  | right
deriving DecidableEq

def Side.other : Side → Side
  | .left => .right
  | .right => .left

@[simp] theorem Side.other_other (side : Side) : side.other.other = side := by cases side <;> rfl

@[simp] theorem Side.other_ne (side : Side) : side.other ≠ side := by cases side <;> decide

@[simp] theorem Side.ne_other (side : Side) : side ≠ side.other := by cases side <;> decide

inductive NodeColor where
  | red
  | blk
deriving DecidableEq

theorem eq_blk_of_ne {c : NodeColor} (restless : c ≠ .red) : c = .blk := by
  cases c
  · exact absurd rfl restless
  · rfl

inductive ColoredTree (ν : Type*) where
  | nil
  | node (color : NodeColor) (left : ColoredTree ν) (addr : ν) (right : ColoredTree ν)

variable {ν : Type*}

namespace ColoredTree

/-- The node with the given child on the given side. -/
def join (side : Side) (color : NodeColor) (addr : ν) (child other : ColoredTree ν) : ColoredTree ν :=
  match side with
  | .left => node color child addr other
  | .right => node color other addr child

def root? : ColoredTree ν → Option ν
  | nil => none
  | node _ _ addr _ => some addr

def inorder : ColoredTree ν → List ν
  | nil => []
  | node _ left addr right => left.inorder ++ addr :: right.inorder

/-- An empty tree counts as black. -/
def color : ColoredTree ν → NodeColor
  | nil => .blk
  | node color _ _ _ => color

def recolor (color : NodeColor) : ColoredTree ν → ColoredTree ν
  | nil => nil
  | node _ left addr right => node color left addr right

variable {side : Side} {c c' : NodeColor} {a b : ν} {s t u : ColoredTree ν} {m n : ℕ}

@[simp] theorem join_other : join side.other c a s t = join side c a t s := by cases side <;> rfl

@[simp] theorem root?_join : (join side c a s t).root? = some a := by cases side <;> rfl

@[simp] theorem color_join : (join side c a s t).color = c := by cases side <;> rfl

@[simp] theorem recolor_join : (join side c a s t).recolor c' = join side c' a s t := by cases side <;> rfl

/-- Every nonempty tree is a node seen from either side. -/
theorem exists_join (side : Side) (nonempty : t ≠ nil) : ∃ c a s u, t = join side c a s u := by
  cases t with
  | nil => exact absurd rfl nonempty
  | node c left a right =>
    cases side
    · exact ⟨c, a, left, right, rfl⟩
    · exact ⟨c, a, right, left, rfl⟩

theorem exists_root? (nonempty : t ≠ nil) : ∃ a, t.root? = some a := by
  cases t with
  | nil => exact absurd rfl nonempty
  | node _ _ a _ => exact ⟨a, rfl⟩

theorem root?_eq_none : t.root? = none ↔ t = nil := by cases t <;> simp [root?]

theorem inorder_join_perm : (join side c a s t).inorder.Perm (a :: (s.inorder ++ t.inorder)) := by
  cases side
  · exact List.perm_middle
  · exact List.perm_middle.trans (List.perm_append_comm.cons a)

theorem mem_join {x : ν} : x ∈ (join side c a s t).inorder ↔ x = a ∨ x ∈ s.inorder ∨ x ∈ t.inorder := by
  rw [inorder_join_perm.mem_iff, List.mem_cons, List.mem_append]

theorem root?_mem (root : t.root? = some a) : a ∈ t.inorder := by
  cases t with
  | nil => cases root
  | node c left b right =>
    cases root
    exact List.mem_append_right _ List.mem_cons_self

@[simp] theorem inorder_recolor : (t.recolor c).inorder = t.inorder := by cases t <;> rfl

/-- The in-order sequence does not depend on colors. -/
theorem inorder_join_color :
    (join side c a s t).inorder = (join side c' a s t).inorder := by cases side <;> rfl

/-- A rotation keeps the in-order sequence. -/
theorem inorder_rotate {d d' : NodeColor} :
    (join side c a s (join side c' b t u)).inorder = (join side d b (join side d' a s t) u).inorder := by
  cases side <;> simp [join, inorder]

/-! ## Balance -/

/-- No red node has a red child, and every path down has the same number of black nodes. -/
inductive Balanced : ColoredTree ν → NodeColor → ℕ → Prop
  | nil : Balanced nil .blk 0
  | red {left right : ColoredTree ν} {a : ν} {n : ℕ} :
      Balanced left .blk n → Balanced right .blk n → Balanced (node .red left a right) .red n
  | blk {left right : ColoredTree ν} {a : ν} {c c' : NodeColor} {n : ℕ} :
      Balanced left c n → Balanced right c' n → Balanced (node .blk left a right) .blk (n + 1)

theorem Balanced.color_eq (balanced : Balanced t c n) : t.color = c := by cases balanced <;> rfl

theorem balanced_red_iff : Balanced (join side .red a s t) c n ↔ c = .red ∧ Balanced s .blk n ∧
      Balanced t .blk n := by
  constructor
  · intro balanced
    cases side
    · obtain _ | ⟨left, right⟩ := balanced
      exact ⟨rfl, left, right⟩
    · obtain _ | ⟨left, right⟩ := balanced
      exact ⟨rfl, right, left⟩
  · rintro ⟨rfl, first, second⟩
    cases side
    · exact .red first second
    · exact .red second first

theorem balanced_blk_iff : Balanced (join side .blk a s t) c n ↔
    c = .blk ∧ ∃ m, n = m + 1 ∧ Balanced s s.color m ∧ Balanced t t.color m := by
  constructor
  · intro balanced
    cases side
    · obtain _ | _ | ⟨left, right⟩ := balanced
      exact ⟨rfl, _, rfl, left.color_eq ▸ left, right.color_eq ▸ right⟩
    · obtain _ | _ | ⟨left, right⟩ := balanced
      exact ⟨rfl, _, rfl, right.color_eq ▸ right, left.color_eq ▸ left⟩
  · rintro ⟨rfl, m, rfl, first, second⟩
    cases side
    · exact .blk first second
    · exact .blk second first

theorem Balanced.nil_iff (balanced : Balanced t .blk n) : t = .nil ↔ n = 0 := by
  cases balanced <;> simp

/-- A tree without black nodes on its paths is empty or a single red node. -/
theorem Balanced.zero (balanced : Balanced t c 0) : t = .nil ∨ ∃ a, t = .node .red .nil a .nil := by
  cases balanced with
  | nil => exact .inl rfl
  | red left right =>
    rw [left.nil_iff.mpr rfl, right.nil_iff.mpr rfl]
    exact .inr ⟨_, rfl⟩

/-- A node with at most one child: a red leaf, a black leaf, or a black node with a red leaf. -/
theorem Balanced.only_child (balanced : Balanced (join side c a t .nil) c n) :
    t = .nil ∧ (c = .red ∧ n = 0 ∨ c = .blk ∧ n = 1) ∨ (∃ b, t = .node .red .nil b .nil) ∧
      c = .blk ∧ n = 1 := by
  cases c with
  | red =>
    obtain ⟨_, first, second⟩ := balanced_red_iff.mp balanced
    obtain rfl := second.nil_iff.mp rfl
    exact .inl ⟨first.nil_iff.mpr rfl, .inl ⟨rfl, rfl⟩⟩
  | blk =>
    obtain ⟨_, m, rfl, first, second⟩ := balanced_blk_iff.mp balanced
    obtain rfl := Balanced.nil_iff second |>.mp rfl
    rcases first.zero with rfl | leaf
    · exact .inl ⟨rfl, .inr ⟨rfl, rfl⟩⟩
    · exact .inr ⟨leaf, rfl, rfl⟩

/-- A black node over two trees of the same height. -/
theorem balanced_black {d : NodeColor} (first : Balanced s c n) (second : Balanced t d n) :
    Balanced (join side .blk a s t) .blk (n + 1) :=
  balanced_blk_iff.mpr ⟨rfl, _, rfl, first.color_eq.symm ▸ first, second.color_eq.symm ▸ second⟩

/-- The children of a balanced black node, of which one is on the given side. -/
theorem Balanced.children (balanced : Balanced t .blk (n + 1)) (side : Side) :
    ∃ (x : ν) (near far : ColoredTree ν), t = join side .blk x near far ∧
      Balanced near near.color n ∧ Balanced far far.color n := by
  obtain ⟨c, x, near, far, rfl⟩ := exists_join side (t := t) fun empty => by
    have := balanced.nil_iff.mp empty
    omega
  obtain rfl : c = .blk := by simpa using balanced.color_eq
  obtain ⟨_, m, same, first, second⟩ := balanced_blk_iff.mp balanced
  cases same
  exact ⟨x, near, far, rfl, first, second⟩

theorem Balanced.children_red (balanced : Balanced t .red n) (side : Side) :
    ∃ (x : ν) (near far : ColoredTree ν), t = join side .red x near far ∧ Balanced near .blk n ∧
      Balanced far .blk n := by
  obtain ⟨c, x, near, far, rfl⟩ := exists_join side (t := t) fun empty => by
    subst empty
    cases balanced
  obtain rfl : c = .red := by simpa using balanced.color_eq
  obtain ⟨_, first, second⟩ := balanced_red_iff.mp balanced
  exact ⟨x, near, far, rfl, first, second⟩

/-- A black root over black children may be made red. -/
theorem Balanced.redden (balanced : Balanced (join side .blk a s t) .blk (n + 1)) (first : s.color = .blk)
    (second : t.color = .blk) : Balanced (join side .red a s t) .red n := by
  obtain ⟨_, m, same, left, right⟩ := balanced_blk_iff.mp balanced
  cases same
  exact balanced_red_iff.mpr ⟨rfl, first ▸ left, second ▸ right⟩

end ColoredTree

/-! ## Paths -/

/-- A node above a hole: the hole is its child on `side`. -/
structure TreeFrame (ν : Type*) where
  side : Side
  color : NodeColor
  addr : ν
  other : ColoredTree ν

/-- The nodes above a hole, from the hole up to the root. -/
abbrev TreePath (ν : Type*) := List (TreeFrame ν)

namespace TreeFrame

def plug (frame : TreeFrame ν) (t : ColoredTree ν) : ColoredTree ν := .join frame.side frame.color frame.addr t frame.other

/-- The addresses of the node and its other subtree. -/
def addrs (frame : TreeFrame ν) : List ν := frame.addr :: frame.other.inorder

end TreeFrame

namespace TreePath

open ColoredTree

/-- The tree with a subtree put back into the hole. -/
def fill : TreePath ν → ColoredTree ν → ColoredTree ν
  | [], t => t
  | frame :: up, t => fill up (frame.plug t)

/-- The node above the hole. -/
def top? : TreePath ν → Option ν
  | [] => none
  | frame :: _ => some frame.addr

def addrs : TreePath ν → List ν
  | [] => []
  | frame :: up => frame.addrs ++ addrs up

/-- The nodes to the left of the hole, in order. -/
def before : TreePath ν → List ν
  | [] => []
  | ⟨.left, _, _, _⟩ :: up => before up
  | ⟨.right, _, a, other⟩ :: up => before up ++ other.inorder ++ [a]

/-- The nodes to the right of the hole, in order. -/
def after : TreePath ν → List ν
  | [] => []
  | ⟨.left, _, a, other⟩ :: up => a :: other.inorder ++ after up
  | ⟨.right, _, _, _⟩ :: up => after up

variable {path up inner : TreePath ν} {frame : TreeFrame ν} {t : ColoredTree ν} {a : ν} {c : NodeColor} {m n : ℕ}

@[simp] theorem fill_nil : fill [] t = t := rfl

@[simp] theorem fill_cons : fill (frame :: up) t = fill up (frame.plug t) := rfl

@[simp] theorem fill_append : fill (inner ++ up) t = fill up (fill inner t) := by
  induction inner generalizing t with
  | nil => rfl
  | cons frame inner ih => exact ih

theorem fill_ne_nil (nonempty : t ≠ .nil) : fill path t ≠ .nil := by
  induction path generalizing t with
  | nil => exact nonempty
  | cons frame up ih =>
    obtain ⟨side, c, a, other⟩ := frame
    exact ih (by cases side <;> exact nofun)

theorem inorder_fill : (fill path t).inorder = before path ++ t.inorder ++ after path := by
  induction path generalizing t with
  | nil => simp [before, after]
  | cons frame up ih =>
    obtain ⟨side, c, a, other⟩ := frame
    rw [fill_cons, ih, TreeFrame.plug]
    cases side <;> simp [before, after, join, inorder]

theorem addrs_perm : (addrs path).Perm (before path ++ after path) := by
  induction path with
  | nil => exact .refl _
  | cons frame up ih =>
    obtain ⟨side, c, a, other⟩ := frame
    cases side
    · simp only [addrs, TreeFrame.addrs, before, after]
      refine ((ih.append_left (a :: other.inorder)).trans ?_)
      rw [← List.append_assoc, ← List.append_assoc]
      exact List.perm_append_comm.append_right _
    · simp only [addrs, TreeFrame.addrs, before, after]
      refine ((ih.append_left (a :: other.inorder)).trans ?_)
      rw [← List.append_assoc]
      refine List.Perm.append_right _ (List.perm_append_comm.trans ?_)
      rw [List.append_assoc]
      exact (List.perm_append_singleton a _).symm.append_left _

theorem fill_perm : (fill path t).inorder.Perm (addrs path ++ t.inorder) := by
  rw [inorder_fill, List.append_assoc]
  refine (List.perm_append_comm.append_left _).trans ?_
  rw [← List.append_assoc]
  exact addrs_perm.symm.append_right _

theorem length_le_fill : path.length + t.inorder.length ≤ (fill path t).inorder.length := by
  rw [fill_perm.length_eq, List.length_append]
  refine Nat.add_le_add_right ?_ _
  induction path with
  | nil => exact Nat.le_refl _
  | cons frame up ih =>
    rw [addrs, TreeFrame.addrs, List.length_cons, List.length_append, List.length_cons]
    omega

/-- Replacing the subtree in the hole by one with the same sequence keeps the whole sequence. -/
theorem inorder_fill_congr {s : ColoredTree ν} (same : s.inorder = t.inorder) :
    (fill path s).inorder = (fill path t).inorder := by
  rw [inorder_fill, inorder_fill, same]

/-- Every node of a tree is the root of a subtree behind a path. -/
theorem exists_fill (member : a ∈ t.inorder) : ∃ path c left right, t = fill path (.node c left a right) := by
  induction t with
  | nil => cases member
  | node c left b right ihLeft ihRight =>
    rcases List.mem_append.mp member with inLeft | (_ | ⟨_, inRight⟩)
    · obtain ⟨path, d, s, u, rfl⟩ := ihLeft inLeft
      exact ⟨path ++ [⟨.left, c, b, right⟩], d, s, u, by rw [fill_append]; rfl⟩
    · exact ⟨[], c, left, right, rfl⟩
    · obtain ⟨path, d, s, u, rfl⟩ := ihRight inRight
      exact ⟨path ++ [⟨.right, c, b, left⟩], d, s, u, by rw [fill_append]; rfl⟩

/-- The sequence without the root of the subtree in the hole. -/
theorem erase_inorder [DecidableEq ν] {left right : ColoredTree ν}
    (nodup : (fill path (.node c left a right)).inorder.Nodup) :
    (fill path (.node c left a right)).inorder.erase a =
      before path ++ left.inorder ++ (right.inorder ++ after path) := by
  have split : (fill path (.node c left a right)).inorder =
      (before path ++ left.inorder) ++ a :: (right.inorder ++ after path) := by
    simp [inorder_fill, inorder]
  rw [split] at nodup ⊢
  have absent : a ∉ before path ++ left.inorder := fun member =>
    (List.nodup_append.mp nodup).2.2 a member a List.mem_cons_self rfl
  rw [List.erase_append_right _ absent, List.erase_cons_head]

/-! ## The hole of a balanced tree -/

/-- Filling the hole with a balanced tree of this color and height gives a balanced tree. A hole below a
black node takes either color. -/
inductive Fits : TreePath ν → NodeColor → ℕ → Prop
  | root {n : ℕ} : Fits [] .blk n
  | red {side : Side} {a : ν} {other : ColoredTree ν} {up : TreePath ν} {n : ℕ} :
      Balanced other .blk n → Fits up .red n → Fits (⟨side, .red, a, other⟩ :: up) .blk n
  | blk {side : Side} {a : ν} {other : ColoredTree ν} {up : TreePath ν} {c c' : NodeColor} {n : ℕ} :
      Balanced other c' n → Fits up .blk (n + 1) → Fits (⟨side, .blk, a, other⟩ :: up) c n

theorem Fits.fill (fits : Fits path c n) (balanced : Balanced t c n) :
    ∃ m, Balanced (fill path t) .blk m := by
  induction fits generalizing t with
  | root => exact ⟨_, balanced⟩
  | red other _ ih => exact ih (balanced_red_iff.mpr ⟨rfl, balanced, other⟩)
  | blk other _ ih =>
    exact ih (balanced_blk_iff.mpr ⟨rfl, _, rfl, balanced.color_eq ▸ balanced, other.color_eq ▸ other⟩)

theorem fits_of_fill (balanced : Balanced (fill path t) .blk m) :
    ∃ n, Balanced t t.color n ∧ Fits path t.color n := by
  induction path generalizing t with
  | nil =>
    rw [fill_nil] at balanced
    have black := balanced.color_eq
    exact ⟨m, black.symm ▸ balanced, black.symm ▸ .root⟩
  | cons frame up ih =>
    obtain ⟨side, c, a, other⟩ := frame
    obtain ⟨n, whole, fits⟩ := ih balanced
    simp only [TreeFrame.plug, color_join] at whole fits
    cases c with
    | red =>
      obtain ⟨_, first, second⟩ := balanced_red_iff.mp whole
      have black := first.color_eq
      exact ⟨n, black.symm ▸ first, black.symm ▸ .red second fits⟩
    | blk =>
      obtain ⟨_, m, rfl, first, second⟩ := balanced_blk_iff.mp whole
      exact ⟨m, first, .blk second fits⟩

/-- The balance does not depend on the address of a node. -/
theorem balanced_readdress {left right : ColoredTree ν} {b : ν}
    (balanced : Balanced (fill path (.node c left a right)) .blk m) :
    ∃ n, Balanced (fill path (.node c left b right)) .blk n := by
  obtain ⟨n, whole, fits⟩ := fits_of_fill balanced
  refine fits.fill ?_
  cases whole with
  | red first second => exact .red first second
  | blk first second => exact .blk first second

/-- A hole that takes a red tree takes a black one. -/
theorem Fits.black (fits : Fits path c n) : Fits path .blk n := by
  cases fits with
  | root => exact .root
  | red other up => exact .red other up
  | blk other up => exact .blk other up

end TreePath

end RedBlackTrees
