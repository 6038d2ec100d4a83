import Mathlib.Algebra.Order.Ring.Int
import RubberOS.Model.Rbtree

/-! # Rotations and color tests of the red-black tree

A rotation of the stored tree is a rotation of the abstract one at the same place. Which branch the
source takes between `left` and `right` is the side of the hole.
-/

namespace RubberOS.Model.Rbtree

open RedBlackTrees ColoredTree TreePath ParentPointers TreeLinks

/-- The links store the tree, with the root's parent null; its keys ascend, and it is a red-black tree with
a black root. -/
structure WellFormed {ν : Type} (keys : ν → ℤ) (links : TreeLinks ν) (t : ColoredTree ν) : Prop where
  stored : At links [] t
  ordered : t.inorder.Pairwise fun a b => keys a < keys b
  balanced : ∃ n, Balanced t .blk n

variable {ν : Type} [DecidableEq ν] {links links' : TreeLinks ν} {path up : TreePath ν} {s t u other : ColoredTree ν}
  {a b : ν} {p : Option ν} {side : Side} {c d : NodeColor}

omit [DecidableEq ν] in
@[simp] theorem deref_some : deref (some a) = .ok a := rfl

omit [DecidableEq ν] in
theorem isRed_root? (stores : Stores links p t) : isRed links t.root? = decide (t.color = .red) := by
  cases t with
  | nil => rfl
  | node c left a right =>
    obtain ⟨_, _, _, color, _⟩ := stores
    exact congrArg (fun c => decide (c = NodeColor.red)) color

omit [DecidableEq ν] in
theorem isBlkOrNil_root? (stores : Stores links p t) :
    isBlkOrNil links t.root? = decide (t.color = .blk) := by
  cases t with
  | nil => rfl
  | node c left a right =>
    obtain ⟨_, _, _, color, _⟩ := stores
    exact congrArg (fun c => decide (c = NodeColor.blk)) color

omit [DecidableEq ν] in
/-- Only the field on its own side leads to the root of a node's other child. -/
theorem child_eq_iff (place : At links up (.join side c a s t)) (root : t.root? = some b) (look : Side) :
    links.child look a = some b ↔ look = side.other := by
  obtain ⟨_, first, second, _⟩ := place.root_fields
  obtain ⟨_, _, _, apart⟩ := join_nodup.mp (List.nodup_append.mp place.nodup).2.1
  constructor
  · rintro found
    rcases eq_or_ne look side with rfl | differs
    · exact absurd (root?_mem root) (apart b (root?_mem (first.symm.trans found)))
    · cases look <;> cases side <;> trivial
  · rintro rfl
    exact second.trans root

omit [DecidableEq ν] in
/-- Only the field on its own side leads to the root of a node's first child. -/
theorem child_eq_iff' (place : At links up (.join side c a s t)) (root : s.root? = some b) (look : Side) :
    links.child look a = some b ↔ look = side := by
  have flipped : At links up (.join side.other c a t s) := by rwa [join_other]
  rw [child_eq_iff flipped root, Side.other_other]

omit [DecidableEq ν] in
/-- The test of a node's two children for blackness. -/
theorem children_black_iff (place : At links path (.join side c a s t)) :
    isBlkOrNil links (links.child .left a) ∧ isBlkOrNil links (links.child .right a) ↔
      s.color = .blk ∧ t.color = .blk := by
  obtain ⟨_, first, second, _, inner, other⟩ := stores_join.mp place.stores
  have inner := isBlkOrNil_root? inner
  have other := isBlkOrNil_root? other
  rw [← first] at inner
  rw [← second] at other
  cases side
  · rw [inner, show isBlkOrNil links (links.child .right a) = _ from other, decide_eq_true_eq,
      decide_eq_true_eq]
  · rw [inner, show isBlkOrNil links (links.child .left a) = _ from other, decide_eq_true_eq,
      decide_eq_true_eq, and_comm]

/-- `getSibling` of the node in the hole is the root of the tree beside it. -/
theorem getSibling_eq (place : At links (⟨side, c, a, other⟩ :: up) t) (root : t.root? = some b) :
    getSibling links b = other.root? := by
  have parent : links.parent b = some a := by
    cases t with
    | nil => cases root
    | node _ _ _ _ =>
      cases root
      exact place.stores.1
  have whole : At links up (.join side.other c a other t) := by
    rw [join_other]
    exact at_cons.mp place
  obtain ⟨_, first, _⟩ := whole.root_fields
  rw [getSibling, parent]
  cases side
  · exact (if_pos ((child_eq_iff whole root _).mpr rfl)).trans first
  · exact (if_neg fun same => absurd ((child_eq_iff whole root _).mp same) (by decide)).trans first

/-- A rotation at the root of a subtree. -/
theorem rotate_spec (place : At links path (.join side c a s (.join side d b t u))) (text : String) :
    ∃ links', rotate side text links a = .ok links' ∧
      At links' path (.join side d b (.join side c a s t) u) := by
  obtain ⟨parent, first, second, color, inner, whole⟩ := stores_join.mp place.stores
  obtain ⟨_, first', second', color', middle, outer⟩ := stores_join.mp whole
  have nodup := (List.nodup_append.mp place.nodup).2.1
  obtain ⟨⟨notInner, notWhole⟩, _, below, apart⟩ := join_nodup.mp nodup
  obtain ⟨⟨notMiddle, notOuter⟩, distinct, _, apart'⟩ := join_nodup.mp below
  rw [root?_join] at second
  have differs : a ≠ b := fun same => notWhole (mem_join.mpr (.inl same))
  -- the stores before the one into the parent
  let moved := ((((links.reparent t.root? (some a)).setChild side.other a t.root?).setParent a (some b)).setChild
    side b (some a)).setParent b (top? path)
  have further (x : ν) (notA : x ≠ a) (notB : x ≠ b) : SameAt (links.reparent t.root? (some a)) moved x :=
    (((sameAt_setChild notA).trans (sameAt_setParent notA)).trans (sameAt_setChild notB)).trans
      (sameAt_setParent notB)
  have outside (x : ν) (notA : x ≠ a) (notB : x ≠ b) (notRoot : t.root? ≠ some x) : SameAt links moved x :=
    (sameAt_reparent notRoot).trans (further x notA notB)
  have above (x : ν) (member : x ∈ addrs path) : x ≠ a ∧ x ≠ b ∧ x ∉ t.inorder := by
    have absent : x ∉ (join side c a s (join side d b t u)).inorder :=
      fun below => place.disjoint below member
    simp only [mem_join, not_or] at absent
    exact ⟨absent.1, absent.2.2.1, absent.2.2.2.1⟩
  have leads : Leads moved path (some a) := by
    have leads := place.leads
    rw [root?_join] at leads
    refine leads.congr reparent_root fun x member => ?_
    obtain ⟨notA, notB, absent⟩ := above x member
    exact outside x notA notB fun root => absent (root?_mem root)
  have linked := leads.relink (List.nodup_append.mp place.nodup).1
    (place.disjoint (mem_join.mpr (.inl rfl))) (some b)
  have last (x : ν) (member : x ∈ (join side c a s (join side d b t u)).inorder) :
      SameAt moved (moved.relink (top? path) a (some b)) x := sameAt_relink (place.top_ne member)
  refine ⟨moved.relink (top? path) a (some b), ?_, ?_, ?_, ?_⟩
  · rw [rotate, assert_of (by simp [second])]
    simp only [second, deref_some, Except.ok_bind, parent, reparent_child, first']
    rfl
  · rwa [root?_join]
  · have atA := last a (by simp [mem_join])
    have atB := last b (by simp [mem_join])
    refine stores_join.mpr ⟨atB.parent.trans (Function.update_self ..), ?_, ?_, ?_,
      stores_join.mpr ⟨?_, ?_, ?_, ?_, ?_, ?_⟩, ?_⟩
    · rw [root?_join]
      exact (atB.child side).trans child_setChild
    · rw [atB.child, ← second']
      exact (child_setChild_other (Side.other_ne side)).trans ((child_setChild_ne differs.symm).trans
        (congrFun (congrFun reparent_child _) _))
    · exact atB.color.trans ((congrFun reparent_color b).trans color')
    · exact atA.parent.trans ((Function.update_of_ne differs _ _).trans (Function.update_self ..))
    · rw [atA.child, ← first]
      exact (child_setChild_ne differs).trans ((child_setChild_other (Side.ne_other side)).trans
        (congrFun (congrFun reparent_child _) _))
    · exact (atA.child _).trans ((child_setChild_ne differs).trans child_setChild)
    · exact atA.color.trans ((congrFun reparent_color a).trans color)
    · refine inner.congr fun x member => (outside x ?_ ?_ ?_).trans (last x (by simp [mem_join, member]))
      · exact fun same => notInner (same ▸ member)
      · exact fun same => apart x member (mem_join.mpr (.inl same))
      · exact fun root => apart x member (mem_join.mpr (.inr (.inl (root?_mem root))))
    · refine (middle.reparent distinct (some a)).congr fun x member =>
        (further x ?_ ?_).trans (last x (by simp [mem_join, member]))
      · exact fun same => notWhole (mem_join.mpr (.inr (.inl (same ▸ member))))
      · exact fun same => notMiddle (same ▸ member)
    · refine outer.congr fun x member => (outside x ?_ ?_ ?_).trans (last x (by simp [mem_join, member]))
      · exact fun same => notWhole (mem_join.mpr (.inr (.inr (same ▸ member))))
      · exact fun same => notOuter (same ▸ member)
      · exact fun root => apart' x (root?_mem root) member
  · exact (List.Perm.append_left _ (List.Perm.of_eq inorder_rotate)).nodup_iff.mp place.nodup

end RubberOS.Model.Rbtree
