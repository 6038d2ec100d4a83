import Mathlib.Data.List.Induction
import RubberOS.Proofs.RbtreeRemoval

/-! # The successor takes a node's place

`get_min_node` follows the left children to the first node of a subtree. When the given parent is the
node's real one, the stores of `rbtree_remove` put the successor where the node was, with its color.
-/

namespace RubberOS.Model.Rbtree

open RedBlackTrees ColoredTree TreePath ParentPointers TreeLinks

variable {ν : Type} [DecidableEq ν] {links : TreeLinks ν} {path up spine : TreePath ν} {s t : ColoredTree ν}
  {a x z : ν} {p q hole : Option ν} {side : Side} {c d : NodeColor}

omit [DecidableEq ν] in
theorem getMinNode_spec {right : ColoredTree ν} (stores : Stores links p (fill spine (.node c .nil z right)))
    (sides : ∀ frame ∈ spine, frame.side = .left)
    (root : (fill spine (.node c .nil z right)).root? = some a) :
    ∀ fuel, spine.length < fuel → getMinNode links fuel a = .ok z := by
  induction spine using List.reverseRecOn generalizing p a with
  | nil =>
    intro fuel enough
    obtain ⟨fuel, rfl⟩ := Nat.exists_eq_add_one.mpr (Nat.zero_lt_of_lt enough)
    cases root
    rw [getMinNode, stores.2.1]
    rfl
  | append_singleton spine frame ih =>
    intro fuel enough
    obtain ⟨fuel, rfl⟩ := Nat.exists_eq_add_one.mpr (Nat.zero_lt_of_lt enough)
    rw [fill_append] at stores root
    obtain ⟨side, d, b, other⟩ := frame
    obtain rfl : side = .left := sides ⟨side, d, b, other⟩ (List.mem_append_right _ List.mem_cons_self)
    cases root
    obtain ⟨_, first, _, _, below, _⟩ := stores
    obtain ⟨y, lower⟩ := exists_root? (show fill spine (.node c .nil z right) ≠ .nil from fill_ne_nil nofun)
    rw [getMinNode, first, lower]
    rw [List.length_append, List.length_singleton] at enough
    exact ih below (fun frame member => sides frame (List.mem_append_left _ member)) lower fuel (by omega)

/-- The successor's own fields. -/
def ownFields (links : TreeLinks ν) (q : Option ν) (z : ν) (left right : Option ν) (c : NodeColor) : TreeLinks ν :=
  (((links.setParent z q).setChild .left z left).setChild .right z right).setColor z c

private theorem ownFields_left {left right : Option ν} : (ownFields links q z left right c).child .left z = left := by
  rw [ownFields, setColor_child, child_setChild_other (by decide), child_setChild]

private theorem ownFields_right {left right : Option ν} :
    (ownFields links q z left right c).child .right z = right := by
  rw [ownFields, setColor_child, child_setChild]

private theorem takeFields_eq (first : links.child .left a = p) (second : links.child .right a = q)
    (color : links.color a = c)
    (differs : a ≠ z) (parent : Option ν) : takeFields links parent a z =
      ((ownFields links parent z p q c).reparent p (some z)).reparent q (some z) := by
  have third : ((links.setParent z parent).setChild .left z p).child .right a = q :=
    (child_setChild_ne differs).trans second
  have fourth : (((links.setParent z parent).setChild .left z p).setChild .right z q).color a = c := color
  rw [takeFields]
  simp only [show (links.setParent z parent).child .left a = p from first, third, fourth]
  change ((ownFields links parent z p q c).reparent
    ((ownFields links parent z p q c).child .left z) _).reparent
    (((ownFields links parent z p q c).reparent ((ownFields links parent z p q c).child .left z) _).child .right z) _ = _
  rw [ownFields_left, reparent_child, ownFields_right]

private theorem ownFields_sameAt {left right : Option ν} (differs : x ≠ z) :
    SameAt links (ownFields links q z left right c) x :=
  (((sameAt_setParent differs).trans (sameAt_setChild differs)).trans (sameAt_setChild differs)).trans
    (sameAt_setColor differs)

/-- The successor takes over the children, and all other nodes keep their fields. -/
private theorem takeFields_spec (first : links.child .left a = s.root?) (second : links.child .right a = t.root?)
    (color : links.color a = c) (left : Stores links (some a) s) (right : Stores links (some a) t)
    (nodup : (ColoredTree.node c s a t).inorder.Nodup) (fresh : z ∉ (ColoredTree.node c s a t).inorder) :
    Stores (takeFields links q a z) q (.node c s z t) ∧ (takeFields links q a z).root = links.root ∧
      ∀ x, x ≠ z → x ∉ s.inorder → x ∉ t.inorder → SameAt links (takeFields links q a z) x := by
  have nodup : (join .left c a s t).inorder.Nodup := nodup
  have fresh : z ∉ (join .left c a s t).inorder := fresh
  simp only [mem_join, not_or] at fresh
  obtain ⟨differs, notLeft, notRight⟩ := fresh
  obtain ⟨_, distinct, distinct', apart⟩ := join_nodup.mp nodup
  rw [takeFields_eq first second color (Ne.symm differs)]
  -- the two children's parent fields are written last, and lie outside each other's subtree
  have firstParent {x : ν} (absent : x ∉ s.inorder) : SameAt (ownFields links q z s.root? t.root? c)
      ((ownFields links q z s.root? t.root? c).reparent s.root? (some z)) x :=
    sameAt_reparent fun root => absent (root?_mem root)
  have secondParent {x : ν} (links : TreeLinks ν) (absent : x ∉ t.inorder) :
      SameAt links (links.reparent t.root? (some z)) x := sameAt_reparent fun root => absent (root?_mem root)
  have own : SameAt (ownFields links q z s.root? t.root? c)
      (((ownFields links q z s.root? t.root? c).reparent s.root? (some z)).reparent t.root? (some z)) z :=
    (firstParent notLeft).trans (secondParent _ notRight)
  have untouched {u : ColoredTree ν} {x : ν} (absent : z ∉ u.inorder) (member : x ∈ u.inorder) :
      SameAt links (ownFields links q z s.root? t.root? c) x :=
        ownFields_sameAt fun same => absent (same ▸ member)
  refine ⟨⟨?_, ?_, ?_, ?_, ?_, ?_⟩, reparent_root.trans reparent_root, fun x notZ absent absent' => ?_⟩
  · exact own.parent.trans (Function.update_self ..)
  · exact (own.child _).trans ownFields_left
  · exact (own.child _).trans ownFields_right
  · exact own.color.trans (Function.update_self ..)
  · have kept := left.congr fun x member => untouched notLeft member
    exact (kept.reparent distinct (some z)).congr fun x member => secondParent _ (apart x member)
  · have kept := right.congr fun x member =>
      (untouched notRight member).trans (firstParent fun inside => apart x inside member)
    exact kept.reparent distinct' (some z)
  · exact (ownFields_sameAt notZ).trans ((firstParent absent).trans (secondParent _ absent'))

omit [DecidableEq ν] in
/-- The root of a tree with a hole is a node of the path. -/
private theorem leads_root {frame : TreeFrame ν} (leads : Leads links (frame :: up) hole) :
    ∃ x ∈ addrs (frame :: up), links.root = some x := by
  induction up generalizing frame hole with
  | nil =>
    obtain ⟨_, _, _, _, _, root⟩ := leads
    exact ⟨frame.addr, List.mem_cons_self, root⟩
  | cons above up ih =>
    obtain ⟨_, _, _, _, _, further⟩ := leads
    obtain ⟨x, member, root⟩ := ih further
    exact ⟨x, List.mem_append_right _ member, root⟩

/-- When the given parent is the real one, the successor takes the node's place in the tree. -/
theorem replaceBySuccessor_spec (place : At links path (.node c s a t))
    (fresh : z ∉ (fill path (.node c s a t)).inorder) :
    At (replaceBySuccessor links (top? path) a z) path (.node c s z t) := by
  have fields : At links path (.join .left c a s t) := place
  obtain ⟨_, first, second, color, left, right⟩ := stores_join.mp fields.stores
  have parts := List.nodup_append.mp place.nodup
  rw [fill_perm.mem_iff, List.mem_append, not_or] at fresh
  obtain ⟨above, below⟩ := fresh
  have own : a ∈ (ColoredTree.node c s a t).inorder := root?_mem rfl
  have inLeft {x : ν} (member : x ∈ s.inorder) : x ∈ (ColoredTree.node c s a t).inorder :=
    List.mem_append_left _ member
  have inRight {x : ν} (member : x ∈ t.inorder) : x ∈ (ColoredTree.node c s a t).inorder :=
    List.mem_append_right _ (List.mem_cons_of_mem _ member)
  have nodup : (addrs path ++ (ColoredTree.node c s z t).inorder).Nodup := by
    obtain ⟨_, distinct⟩ := join_nodup.mp (show (join .left c a s t).inorder.Nodup from parts.2.1)
    have whole : (join .left c z s t).inorder.Nodup :=
      join_nodup.mpr ⟨⟨fun member => below (inLeft member), fun member => below (inRight member)⟩, distinct⟩
    refine List.nodup_append.mpr ⟨parts.1, whole, fun x inPath y inTree same => ?_⟩
    subst same
    rcases mem_join.mp (show x ∈ (join .left c z s t).inorder from inTree) with rfl | inside | inside
    · exact above inPath
    · exact place.disjoint (inLeft inside) inPath
    · exact place.disjoint (inRight inside) inPath
  cases path with
  | nil =>
    obtain ⟨stores, root, _⟩ := takeFields_spec first second color left right parts.2.1 below (q := none)
    have taken : replaceBySuccessor links (top? []) a z = (takeFields links none a z).setRoot (some z) :=
      if_pos (root.trans place.leads)
    rw [taken]
    exact ⟨rfl, stores.congr fun _ _ => sameAt_setRoot, nodup⟩
  | cons frame up =>
    -- the node's subtree, seen after the store into its parent
    let linked := links.relink (some frame.addr) a (some z)
    have kept {x : ν} (member : x ∈ (ColoredTree.node c s a t).inorder) : SameAt links linked x :=
      sameAt_relink (place.top_ne member)
    have atNode := kept own
    obtain ⟨stores, root, outside⟩ :=
        takeFields_spec (q := some frame.addr) ((atNode.child .left).trans first)
      ((atNode.child .right).trans second) (atNode.color.trans color)
        (left.congr fun x member => kept (inLeft member))
      (right.congr fun x member => kept (inRight member)) parts.2.1 below
    have leads : Leads linked (frame :: up) (some z) :=
      place.leads.relink parts.1 (place.disjoint own) (some z)
    obtain ⟨x, inPath, top⟩ := leads_root leads
    have taken : replaceBySuccessor links (top? (frame :: up)) a z =
        takeFields linked (some frame.addr) a z := by
      refine if_neg fun same => place.disjoint own ?_
      rw [← Option.some.inj ((root.trans top).symm.trans same)]
      exact inPath
    rw [taken]
    refine ⟨leads.congr root fun x inPath => outside x ?_ ?_ ?_, stores, nodup⟩
    · exact fun same => above (same ▸ inPath)
    · exact fun inside => place.disjoint (inLeft inside) inPath
    · exact fun inside => place.disjoint (inRight inside) inPath

/-- The children of a node that is neither the given parent nor the successor stay as they are. -/
theorem replaceBySuccessor_child (parent : Option ν) (notParent : parent ≠ some x) (notOwn : x ≠ z)
    (side : Side) :
    (replaceBySuccessor links parent a z).child side x = links.child side x := by
  have fields (links : TreeLinks ν) : (takeFields links parent a z).child side x = links.child side x := by
    rw [takeFields]
    simp only [reparent_child, setColor_child]
    rw [child_setChild_ne notOwn, child_setChild_ne notOwn]
    rfl
  have rooted (tree : TreeLinks ν) (kept : tree.child side x = links.child side x) :
      (let tree := takeFields tree parent a z
        if tree.root = some a then tree.setRoot (some z) else tree).child side x = links.child side x := by
    dsimp only
    split
    · exact (fields tree).trans kept
    · exact (fields tree).trans kept
  cases parent with
  | none => exact rooted links rfl
  | some p =>
    have differs : x ≠ p := fun same => notParent (congrArg some same.symm)
    refine rooted (if links.child .left p = some a then links.setChild .left p (some z)
      else links.setChild .right p (some z)) ?_
    split
    · exact child_setChild_ne differs
    · exact child_setChild_ne differs

end RubberOS.Model.Rbtree
