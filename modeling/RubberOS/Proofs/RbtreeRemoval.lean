import RubberOS.Proofs.Rbtree
import RubberOS.ToMathlib.RedBlackDeficits

/-! # `removal_balancing` repairs the deficit

The function gets the sibling of the subtree that is one black node short. Each of its cases is a
constructor of the abstract repair at the same node, so the stored tree becomes the repaired one.
-/

namespace RubberOS.Model.Rbtree

open RedBlackTrees ColoredTree TreePath ParentPointers TreeLinks

variable {ν : Type} [DecidableEq ν] {links : TreeLinks ν} {path up : TreePath ν} {s t u w near far near' far' : ColoredTree ν}
  {a b p x y z : ν} {side : Side} {c d : NodeColor}

/-- Case 5 rotates the red inner child above its black parent. -/
private theorem removalRotateSibling_inner
    (place : At links up (.join side c p t (.join side .blk x (.join side .red y near' far') far)))
    (quiet : far.color = .blk) : ∃ links', removalRotateSibling links p x = .ok (links', y) ∧
      At links' up (.join side c p t (.join side .blk y near' (.join side .red x far' far))) := by
  have within := at_other.mp place
  obtain ⟨_, inner, outer, _⟩ := within.root_fields
  obtain ⟨_, _, _, _, innerStores, outerStores⟩ := stores_join.mp within.stores
  have isInner := isRed_root? innerStores
  have isOuter := isBlkOrNil_root? outerStores
  have found := child_eq_iff place root?_join
  rw [← inner, color_join] at isInner
  rw [← outer, quiet] at isOuter
  rw [root?_join] at inner
  -- the two colors are stored before the rotation
  have painted := (at_child.mp (within.setColor .red)).setColor .blk
  have turned : At ((links.setColor x .red).setColor y .blk) (⟨side.other, c, p, t⟩ :: up)
      (.join side.other .red x far (.join side.other .blk y far' near')) := by
    rw [join_other, join_other]
    exact at_child.mpr painted
  have rotated (text : String) := rotate_spec turned text
  simp only [join_other] at rotated
  cases side
  · obtain ⟨links', ran, place'⟩ := rotated "left != ((void *)0)"
    have parent : links'.parent x = some y := (at_other.mp place').root_fields.1
    refine ⟨links', ?_, at_other.mpr place'⟩
    rw [removalRotateSibling, if_pos ⟨(found _).mpr rfl, isInner, isOuter⟩]
    simp only [setColor_child, inner, deref_some, Except.ok_bind]
    exact Except.bind_ok_iff.mpr ⟨links', ran, by rw [parent]; rfl⟩
  · obtain ⟨links', ran, place'⟩ := rotated "right != ((void *)0)"
    have parent : links'.parent x = some y := (at_other.mp place').root_fields.1
    refine ⟨links', ?_, at_other.mpr place'⟩
    rw [removalRotateSibling, if_neg fun first => absurd ((found _).mp first.1) (by decide),
      if_pos ⟨(found _).mpr rfl, isInner, isOuter⟩]
    simp only [setColor_child, inner, deref_some, Except.ok_bind]
    exact Except.bind_ok_iff.mpr ⟨links', ran, by rw [parent]; rfl⟩

/-- Case 5 does nothing when the outer child is red. -/
private theorem removalRotateSibling_outer
    (place : At links up (.join side c p t (.join side .blk x near (.join side .red z near' far')))) :
    removalRotateSibling links p x = .ok (links, x) := by
  have within := at_other.mp place
  obtain ⟨_, _, outer, _⟩ := within.root_fields
  obtain ⟨_, _, _, _, _, stores⟩ := stores_join.mp within.stores
  have red := isBlkOrNil_root? stores
  have found := child_eq_iff place root?_join
  rw [removalRotateSibling]
  cases side
  · rw [if_neg, if_neg]
    · simp [found]
    · intro ⟨_, _, black⟩
      rw [show links.child .right x = _ from outer, red] at black
      simp at black
  · rw [if_neg, if_neg]
    · intro ⟨_, _, black⟩
      rw [show links.child .left x = _ from outer, red] at black
      simp at black
    · simp [found]

/-- Case 6 rotates the sibling, with a red outer child, above the parent. -/
private theorem removalRotateParent_spec
    (place : At links up (.join side c p t (.join side d x near (.join side .red z near' far')))) :
    ∃ links', removalRotateParent links p x = .ok links' ∧
      At links' up (.join side c x (.join side .blk p t near) (.join side .blk z near' far')) := by
  have color := place.root_fields.2.2.2
  -- sibling, parent and outer child are painted from above
  have painted := (place.setColorOther c).setColor .blk
  have outer := (at_other.mp painted).root_fields.2.2.1
  have found := child_eq_iff painted root?_join
  have last := at_other.mpr ((at_other.mp painted).setColorOther .blk)
  have rotated (text : String) := rotate_spec last text
  rw [root?_join] at outer
  cases side
  · obtain ⟨links', ran, place'⟩ := rotated "right != ((void *)0)"
    refine ⟨links', ?_, place'⟩
    rw [removalRotateParent, color, if_pos ((found .right).mpr rfl),
      show TreeLinks.child _ .right x = some z from outer, deref_some, Except.ok_bind]
    exact ran
  · obtain ⟨links', ran, place'⟩ := rotated "left != ((void *)0)"
    refine ⟨links', ?_, place'⟩
    rw [removalRotateParent, color, if_neg fun same => absurd ((found .right).mp same) (by decide),
      show TreeLinks.child _ .left x = some z from outer, deref_some, Except.ok_bind]
    exact ran

/-- Cases 4 to 6 settle the deficit at the parent. -/
private theorem removalSettle_spec {frame : TreeFrame ν} (settles : Settles frame t u)
    (place : At links (frame :: up) t) (root : frame.other.root? = some x) :
    ∃ links', removalSettle links frame.addr x = .ok links' ∧ At links' up u := by
  have whole := at_cons.mp place
  have within := at_other.mp whole
  have color := whole.root_fields.2.2.2
  cases settles with
  | @recolor side a y t near far first second =>
    rw [root?_join] at root
    cases root
    rw [removalSettle, if_pos ⟨color, (children_black_iff within).mpr ⟨first, second⟩⟩]
    exact ⟨_, rfl, (whole.setColorOther .red).setColor .blk⟩
  | @inner side c a y z t near' far' far quiet =>
    rw [root?_join] at root
    cases root
    obtain ⟨turned, ran, place'⟩ := removalRotateSibling_inner whole quiet
    obtain ⟨links', ran', place''⟩ := removalRotateParent_spec place'
    rw [removalSettle, if_neg fun black => by simpa using ((children_black_iff within).mp black.2).1, ran]
    exact ⟨links', ran', place''⟩
  | @outer side c a y z t near near' far' =>
    rw [root?_join] at root
    cases root
    obtain ⟨links', ran, place'⟩ := removalRotateParent_spec whole
    rw [removalSettle, if_neg fun black => by simpa using ((children_black_iff within).mp black.2).2,
      removalRotateSibling_outer whole]
    exact ⟨links', ran, place'⟩

/-- Case 2 rotates a red sibling above the parent and goes on with the inner child. -/
private theorem removalRedSibling_red (place : At links up (.join side .blk p t (.join side .red x near far))) :
    ∃ links', removalRedSibling links p x = .ok (links', near.root?) ∧
      At links' (⟨side, .blk, x, far⟩ :: up) (.join side .red p t near) := by
  have color := (at_other.mp place).root_fields.2.2.2
  have painted := (place.setColorOther .blk).setColor .red
  have inner := (at_other.mp painted).root_fields.2.1
  have found := child_eq_iff painted root?_join
  have rotated (text : String) := rotate_spec painted text
  rw [removalRedSibling, if_pos color]
  cases side
  · obtain ⟨links', ran, place'⟩ := rotated "right != ((void *)0)"
    refine ⟨links', ?_, at_child.mp place'⟩
    rw [if_pos ((found .right).mpr rfl), inner]
    exact Except.bind_ok_iff.mpr ⟨links', ran, rfl⟩
  · obtain ⟨links', ran, place'⟩ := rotated "left != ((void *)0)"
    refine ⟨links', ?_, at_child.mp place'⟩
    rw [if_neg fun same => absurd ((found .right).mp same) (by decide), inner]
    exact Except.bind_ok_iff.mpr ⟨links', ran, rfl⟩

private theorem removalRedSibling_black (color : links.color x = .blk) :
    removalRedSibling links p x = .ok (links, some x) := by
  rw [removalRedSibling, if_neg (by simp [color])]

/-- The sibling that a repair starts with. -/
def sibling? : TreePath ν → Option ν
  | [] => none
  | frame :: _ => frame.other.root?

omit [DecidableEq ν] in
/-- What the sibling's own fields hold. -/
private theorem sibling_fields {frame : TreeFrame ν} (place : At links (frame :: up) t)
    (root : frame.other.root? = some x) :
    links.parent x = some frame.addr ∧ links.color x = frame.other.color := by
  obtain ⟨side, c, a, other⟩ := frame
  cases other with
  | nil => cases root
  | node d left b right =>
    cases root
    have within : At links (⟨side.other, c, a, t⟩ :: up) (.join .left d x left right) :=
      at_other.mp (at_cons.mp place)
    obtain ⟨parent, _, _, color⟩ := within.root_fields
    exact ⟨parent, color⟩

omit [DecidableEq ν] in
/-- The third case is taken at a calm node. -/
private theorem calm_iff {frame : TreeFrame ν} (place : At links (frame :: up) t)
    (root : frame.other.root? = some x) :
    (links.color frame.addr = .blk ∧ isBlkOrNil links (links.child .left x) ∧
      isBlkOrNil links (links.child .right x)) ∧ links.color x = .blk ↔ frame.Calm := by
  obtain ⟨side, c, a, other⟩ := frame
  have whole := at_cons.mp place
  have color : links.color a = c := whole.root_fields.2.2.2
  cases other with
  | nil => cases root
  | node d left b right =>
    cases root
    have within : At links (⟨side.other, c, a, t⟩ :: up) (.join .left d x left right) := at_other.mp whole
    have own : links.color x = d := within.root_fields.2.2.2
    rw [children_black_iff within, TreeFrame.Calm]
    change (links.color a = _ ∧ _) ∧ _ ↔ c = _ ∧ (join .left d x left right).Calm
    rw [calm_join, color, own]
    tauto

/-- A calm node passes the deficit on when its other child is made red. -/
private theorem setColor_pass {frame : TreeFrame ν} (calm : frame.Calm) (place : At links (frame :: up) t)
    (root : frame.other.root? = some x) : At (links.setColor x .red) up (frame.pass t) ∧
      getSibling (links.setColor x .red) frame.addr = sibling? up := by
  obtain ⟨side, c, a, other⟩ := frame
  obtain rfl : c = .blk := calm.1
  cases other with
  | nil => cases root
  | node d left b right =>
    cases root
    have whole : At links up (.join side .blk a t (.join .left d x left right)) := at_cons.mp place
    have place' := whole.setColorOther .red
    refine ⟨place', ?_⟩
    cases up with
    | nil => rw [getSibling, show TreeLinks.parent _ a = none from place'.root_fields.1, sibling?]
    | cons above up => exact getSibling_eq place' root?_join

/-- `removal_balancing` carries out the repair, with a counter above the length of the path. -/
private theorem removalBalancing_spec (repaired : Repaired path t w) (place : At links path t) :
    ∃ links', (∀ fuel, path.length < fuel → removalBalancing fuel links (sibling? path) = .ok links') ∧
      At links' [] w := by
  induction repaired generalizing links with
  | root =>
    refine ⟨links, fun fuel enough => ?_, place⟩
    obtain ⟨fuel, rfl⟩ := Nat.exists_eq_add_one.mpr (Nat.zero_lt_of_lt enough)
    rfl
  | @absorbed frame up t u absorbs =>
    cases absorbs with
    | settled settles =>
      obtain ⟨x, root, black⟩ : ∃ x, frame.other.root? = some x ∧ frame.other.color = .blk := by
        cases settles <;> exact ⟨_, root?_join, color_join⟩
      obtain ⟨parent, color⟩ := sibling_fields place root
      obtain ⟨links', ran, place'⟩ := removalSettle_spec settles place root
      refine ⟨links', fun fuel enough => ?_, at_fill.mp place'⟩
      obtain ⟨fuel, rfl⟩ := Nat.exists_eq_add_one.mpr (Nat.zero_lt_of_lt enough)
      rw [sibling?, root, removalBalancing, parent, deref_some, Except.ok_bind,
        removalRedSibling_black (color.trans black), Except.ok_bind]
      dsimp only
      rw [deref_some, Except.ok_bind, if_neg fun third => settles.restless ((calm_iff place root).mp
        ⟨third, color.trans black⟩), ran]
    | @redSibling side a x t u near far settles =>
      have root : (join side .red x near far).root? = some x := root?_join
      obtain ⟨parent, _⟩ := sibling_fields place root
      obtain ⟨turned, ran, place'⟩ := removalRedSibling_red (at_cons.mp place)
      obtain ⟨y, inner⟩ : ∃ y, near.root? = some y := by
        generalize frameEq : (⟨side, .red, a, near⟩ : TreeFrame ν) = frame at settles
        cases settles <;> cases frameEq <;> exact ⟨_, root?_join⟩
      have color : turned.color a = .red := place'.root_fields.2.2.2
      obtain ⟨links', ran', place''⟩ := removalSettle_spec settles (at_child.mp place') inner
      refine ⟨links', fun fuel enough => ?_, at_fill.mp (at_child.mpr place'')⟩
      obtain ⟨fuel, rfl⟩ := Nat.exists_eq_add_one.mpr (Nat.zero_lt_of_lt enough)
      rw [sibling?, root, removalBalancing, parent, deref_some, Except.ok_bind, ran, Except.ok_bind]
      dsimp only
      rw [inner, deref_some, Except.ok_bind, if_neg fun third => by simp [color] at third, ran']
  | @passed frame up t w calm _ ih =>
    obtain ⟨x, root⟩ : ∃ x, frame.other.root? = some x := by
      cases other : frame.other with
      | nil => exact absurd calm.2 (other ▸ id)
      | node d left b right => exact ⟨b, rfl⟩
    obtain ⟨parent, _⟩ := sibling_fields place root
    obtain ⟨third, black⟩ := (calm_iff place root).mpr calm
    obtain ⟨place', sibling⟩ := setColor_pass calm place root
    obtain ⟨links', ran, place''⟩ := ih place'
    refine ⟨links', fun fuel enough => ?_, place''⟩
    obtain ⟨fuel, rfl⟩ := Nat.exists_eq_add_one.mpr (Nat.zero_lt_of_lt enough)
    rw [sibling?, root, removalBalancing, parent, deref_some, Except.ok_bind,
      removalRedSibling_black black, Except.ok_bind]
    dsimp only
    rw [deref_some, Except.ok_bind, if_pos third, sibling]
    exact ran fuel (Nat.lt_of_succ_lt_succ enough)

/-! ## Taking a node out -/

/-- The parent's field leads to the only child afterwards, and the child's parent field is the node's. -/
private theorem unlink_spec (place : At links path (.join side c a s .nil)) :
    At ((links.relink (top? path) a s.root?).reparent s.root? (top? path)) path s := by
  obtain ⟨_, _, _, _, inner, _⟩ := stores_join.mp place.stores
  have nodup := List.nodup_append.mp place.nodup
  obtain ⟨_, distinct, _⟩ := join_nodup.mp nodup.2.1
  have own : a ∈ (join side c a s .nil).inorder := mem_join.mpr (.inl rfl)
  have below {x : ν} (member : x ∈ s.inorder) : x ∈ (join side c a s .nil).inorder :=
    mem_join.mpr (.inr (.inl member))
  have leads := place.leads
  rw [root?_join] at leads
  refine ⟨?_, ?_, ?_⟩
  · refine (leads.relink nodup.1 (place.disjoint own) s.root?).congr reparent_root fun x member =>
      sameAt_reparent ?_
    exact fun root => place.disjoint (below (root?_mem root)) member
  · have kept : Stores (links.relink (top? path) a s.root?) (some a) s :=
      inner.congr fun x member => sameAt_relink (place.top_ne (below member))
    exact kept.reparent distinct (top? path)
  · exact List.nodup_append.mpr ⟨nodup.1, distinct,
      fun x above y member => nodup.2.2 x above y (below member)⟩

omit [DecidableEq ν] in
private theorem relink_color [DecidableEq ν] {q value : Option ν} : (links.relink q a value).color = links.color := by
  cases q with
  | none => rfl
  | some p => rw [relink]; split <;> rfl

/-- The node's sibling is the one that a repair starts with. -/
private theorem unlinkNode_eq (place : At links path (.node c s a t)) (child : Option ν) :
    unlinkNode links (top? path) a child = (links.relink (top? path) a child, sibling? path) := by
  have place : At links path (.join .left c a s t) := place
  cases path with
  | nil => rfl
  | cons frame up =>
    obtain ⟨side, d, p, other⟩ := frame
    have above : At links up (.join side.other d p other (.join .left c a s t)) := by
      rw [join_other]
      exact at_cons.mp place
    have found := child_eq_iff above root?_join .left
    have second := (at_cons.mp place).root_fields.2.2.1
    rw [top?, unlinkNode, relink, sibling?]
    cases side
    · rw [if_pos (found.mpr rfl), if_pos (found.mpr rfl)]
      exact congrArg (Prod.mk _) ((child_setChild_other (by decide)).trans second)
    · have differs : links.child .left p ≠ some a := fun same => absurd (found.mp same) (by decide)
      rw [if_neg differs, if_neg differs]
      exact congrArg (Prod.mk _) ((child_setChild_other (by decide)).trans second)

/-- A red node, or one with a child, is replaced by its child, which becomes black. -/
private theorem removeSingle_child (place : At links path (.node c s a t)) {rest : ColoredTree ν}
    (whole : s = rest ∧ t = .nil ∨ s = .nil ∧ t = rest) :
    ∃ links', At links' path rest ∧ links'.color a = links.color a ∧
      ∀ fuel, removeSingle fuel links (top? path) a =
      match rest.root? with
      | some child => .ok (links'.setColor child .blk)
      | none =>
        if links'.color a = .red then .ok links' else removalBalancing fuel links' (sibling? path) := by
  have fields : At links path (.join .left c a s t) := place
  obtain ⟨_, left, right, _⟩ := fields.root_fields
  have child : (if links.child .left a ≠ none then links.child .left a else links.child .right a) =
      rest.root? := by
    rw [left, show links.child .right a = t.root? from right]
    rcases whole with ⟨rfl, rfl⟩ | ⟨rfl, rfl⟩
    · cases s <;> rfl
    · rfl
  refine ⟨(links.relink (top? path) a rest.root?).reparent rest.root? (top? path), ?_, ?_, ?_⟩
  · rcases whole with ⟨rfl, rfl⟩ | ⟨rfl, rfl⟩
    · exact unlink_spec fields
    · exact unlink_spec (show At links path (.join .right c a t .nil) from place)
  · rw [reparent_color, relink_color]
  · intro fuel
    rw [removeSingle]
    simp only [child, unlinkNode_eq place]
    cases rest <;> rfl

/-- What the tree becomes without a node whose only child, if any, is `rest`: the child takes its place
and becomes black, or a deficit is repaired. -/
def TakenOut (path : TreePath ν) (c : NodeColor) (rest w : ColoredTree ν) : Prop :=
  w = fill path (rest.recolor .blk) ∧ (c = .red ∨ rest ≠ .nil) ∨ c = .blk ∧ rest = .nil ∧ Repaired path .nil w

omit [DecidableEq ν] in
theorem TakenOut.inorder {rest : ColoredTree ν} (taken : TakenOut path c rest w) :
    w.inorder = (fill path rest).inorder := by
  rcases taken with ⟨rfl, _⟩ | ⟨_, rfl, repaired⟩
  · exact inorder_fill_congr inorder_recolor
  · exact repaired.inorder

/-- `rbtree_remove` of a node with at most one child returns a balanced tree. -/
theorem rbtreeRemove_single (place : At links path (.node c s a t)) {n : ℕ}
    (balanced : Balanced (fill path (.node c s a t)) .blk n) {rest : ColoredTree ν}
    (whole : s = rest ∧ t = .nil ∨ s = .nil ∧ t = rest) :
    ∃ links' w, (∀ fuel, path.length + 1 < fuel → rbtreeRemove fuel links a = .ok links') ∧ At links' [] w ∧
      (∃ m, Balanced w .blk m) ∧ TakenOut path c rest w := by
  have fields : At links path (.join .left c a s t) := place
  obtain ⟨parent, left, right, color⟩ := fields.root_fields
  obtain ⟨links', place', kept, ran⟩ := removeSingle_child place whole
  obtain ⟨m, own, fits⟩ := fits_of_fill balanced
  have start (fuel : ℕ) : rbtreeRemove (fuel + 1) links a = removeSingle fuel links (top? path) a := by
    rw [rbtreeRemove, if_neg, parent]
    rw [left, show links.child .right a = t.root? from right]
    rcases whole with ⟨_, rfl⟩ | ⟨rfl, _⟩ <;> simp [root?]
  have returns {result : TreeLinks ν} (single : ∀ fuel, path.length < fuel →
      removeSingle fuel links (top? path) a = .ok result) :
      ∀ fuel, path.length + 1 < fuel → rbtreeRemove fuel links a = .ok result := by
    intro fuel enough
    obtain ⟨fuel, rfl⟩ := Nat.exists_eq_add_one.mpr (Nat.zero_lt_of_lt enough)
    exact (start fuel).trans (single fuel (by omega))
  have shape : Balanced (.join .left c a rest .nil) c m ∨ Balanced (.join .right c a rest .nil) c m := by
    rcases whole with ⟨rfl, rfl⟩ | ⟨rfl, rfl⟩
    · exact .inl own
    · exact .inr own
  rcases shape.elim Balanced.only_child Balanced.only_child with ⟨rfl, red | black⟩ | ⟨⟨b, rfl⟩, rfl, rfl⟩
  · obtain ⟨rfl, rfl⟩ := red
    refine ⟨links', fill path .nil, returns fun fuel _ => ?_, at_fill.mp place',
      fits.black.fill .nil, .inl ⟨rfl, .inl rfl⟩⟩
    exact (ran fuel).trans (if_pos (kept.trans color))
  · obtain ⟨rfl, rfl⟩ := black
    obtain ⟨w, repaired, balanced'⟩ := exists_repaired .nil fits
    obtain ⟨repairedLinks, ran', place''⟩ := removalBalancing_spec repaired place'
    refine ⟨repairedLinks, w, returns fun fuel enough => ?_, place'', balanced', .inr ⟨rfl, rfl, repaired⟩⟩
    refine (ran fuel).trans ((if_neg fun red => ?_).trans (ran' fuel enough))
    rw [kept, color] at red
    cases red
  · refine ⟨_, fill path (.node .blk .nil b .nil), returns fun fuel _ => ran fuel, at_fill.mp ?_,
      fits.fill (.blk .nil .nil), .inl ⟨rfl, .inr ?_⟩⟩
    · have painted : At links' path (.join .left .red b .nil .nil) := place'
      exact painted.setColor .blk
    · intro bare
      cases bare

end RubberOS.Model.Rbtree
