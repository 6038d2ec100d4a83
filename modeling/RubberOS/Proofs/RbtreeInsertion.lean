import Mathlib.Data.List.Induction
import RubberOS.Proofs.Rbtree

/-! # `insertion_balancing` restores the colors

The new node is red. A red parent with a red sibling moves the conflict up by two nodes; with a black
sibling, one or two rotations end it. The subtree whose root is to be red always has black children of
the height that its hole expects.
-/

namespace RubberOS.Model.Rbtree

open RedBlackTrees ColoredTree TreePath ParentPointers TreeLinks

variable {ν : Type} [DecidableEq ν] {links : TreeLinks ν} {path up : TreePath ν} {s t u v w : ColoredTree ν}
  {a p q x : ν} {side : Side} {c d : NodeColor}

/-- Case 5: the parent rises above the grandparent. -/
private theorem insertionRotateGrand_spec (place : At links up (.join side .blk q (.join side .red p s t) u))
    (root : s.root? = some x) : ∃ links', insertionRotateGrand links x p q = .ok links' ∧
      At links' up (.join side .blk p s (.join side .red q t u)) := by
  have painted : At ((links.setColor p .blk).setColor q .red) up
      (.join side.other .red q u (.join side.other .blk p t s)) := by
    rw [join_other, join_other]
    exact (at_child.mpr ((at_child.mp place).setColor .blk)).setColor .red
  have below : At ((links.setColor p .blk).setColor q .red) (⟨side, .red, q, u⟩ :: up)
      (.join side .blk p s t) := by
    rw [join_other, join_other] at painted
    exact at_child.mp painted
  have found := child_eq_iff' below root .left
  have rotated (text : String) := rotate_spec painted text
  simp only [join_other] at rotated
  cases side
  · obtain ⟨links', ran, place'⟩ := rotated "left != ((void *)0)"
    exact ⟨links', (if_pos (found.mpr rfl)).trans ran, place'⟩
  · obtain ⟨links', ran, place'⟩ := rotated "right != ((void *)0)"
    exact ⟨links', (if_neg fun same => absurd (found.mp same) (by decide)).trans ran, place'⟩

/-- Case 4 is left out when the node is on the outer side of its parent. -/
private theorem insertionRotate_straight (place : At links up (.join side .blk q (.join side .red p s t) u))
    (root : s.root? = some x) : insertionRotate links x p q = insertionRotateGrand links x p q := by
  have inner := child_eq_iff' (at_child.mp place) root
  have outer := child_eq_iff' place root?_join
  rw [insertionRotate, if_neg, if_neg]
  · rfl
  · rw [inner, outer]
    cases side <;> decide
  · rw [inner, outer]
    cases side <;> decide

/-- Case 4 rotates a node on the inner side above its parent. -/
private theorem insertionRotate_bent
    (place : At links up (.join side .blk q (.join side .red p s (.join side .red x t u)) v)) :
    ∃ links', insertionRotate links x p q = insertionRotateGrand links' p x q ∧
      At links' up (.join side .blk q (.join side .red x (.join side .red p s t) u) v) := by
  have within := at_child.mp place
  have inner := child_eq_iff within root?_join
  have outer := child_eq_iff' place root?_join
  have rotated (text : String) := rotate_spec within text
  cases side
  · obtain ⟨links', ran, place'⟩ := rotated "right != ((void *)0)"
    have parent : links'.parent p = some x := (at_child.mp place').root_fields.1
    have grand : links'.parent x = some q := place'.root_fields.1
    refine ⟨links', ?_, at_child.mpr place'⟩
    have turned : rotateLeft links p = .ok links' := ran
    rw [insertionRotate, if_pos ⟨(inner .right).mpr rfl, (outer .left).mpr rfl⟩, turned]
    change (deref (links'.parent p) >>= fun parent => deref (links'.parent parent) >>= fun grand => _) = _
    rw [parent, deref_some, Except.ok_bind, grand, deref_some, Except.ok_bind]
  · obtain ⟨links', ran, place'⟩ := rotated "left != ((void *)0)"
    have parent : links'.parent p = some x := (at_child.mp place').root_fields.1
    have grand : links'.parent x = some q := place'.root_fields.1
    refine ⟨links', ?_, at_child.mpr place'⟩
    have turned : rotateRight links p = .ok links' := ran
    rw [insertionRotate, if_neg fun both => absurd ((inner .right).mp both.1) (by decide),
      if_pos ⟨(inner .left).mpr rfl, (outer .right).mpr rfl⟩, turned]
    change (deref (links'.parent p) >>= fun parent => deref (links'.parent parent) >>= fun grand => _) = _
    rw [parent, deref_some, Except.ok_bind, grand, deref_some, Except.ok_bind]

/-- What a call promises for a node behind a path. -/
def Balances (links : TreeLinks ν) (path : TreePath ν) (a : ν) (t : ColoredTree ν) : Prop :=
  ∃ links' w, (∀ fuel, path.length < fuel → insertionBalancing fuel links a = .ok links') ∧ At links' [] w ∧
    (∃ m, Balanced w .blk m) ∧ w.inorder = (fill path t).inorder

/-- Case 1: the root becomes black. -/
private theorem balances_root (place : At links [] (.join side c a s t)) {n : ℕ} (first : Balanced s .blk n)
    (second : Balanced t .blk n) : Balances links [] a (.join side c a s t) := by
  refine ⟨links.setColor a .blk, join side .blk a s t, fun fuel enough => ?_, place.setColor .blk,
    ⟨n + 1, balanced_black first second⟩, inorder_join_color⟩
  obtain ⟨fuel, rfl⟩ := Nat.exists_eq_add_one.mpr (Nat.zero_lt_of_lt enough)
  rw [insertionBalancing, place.root_fields.1]
  rfl

/-- Case 2: a black parent may have a red child. -/
private theorem balances_blackParent {frame : TreeFrame ν} (black : frame.color = .blk)
    (place : At links (frame :: up) (.join side c a s t)) {n : ℕ} (first : Balanced s .blk n)
    (second : Balanced t .blk n)
    (fits : Fits (frame :: up) .blk n) : Balances links (frame :: up) a (.join side c a s t) := by
  obtain ⟨side', d, p, other⟩ := frame
  obtain rfl : d = .blk := black
  have painted := place.setColor .red
  have color : (links.setColor a .red).color p = .blk := (at_cons.mp painted).root_fields.2.2.2
  have fits' : Fits (⟨side', .blk, p, other⟩ :: up) .red n := by
    cases fits with
    | blk other above => exact .blk other above
  refine ⟨links.setColor a .red, _, fun fuel enough => ?_, at_fill.mp painted,
    fits'.fill (balanced_red_iff.mpr ⟨rfl, first, second⟩), inorder_fill_congr inorder_join_color⟩
  obtain ⟨fuel, rfl⟩ := Nat.exists_eq_add_one.mpr (Nat.zero_lt_of_lt enough)
  rw [insertionBalancing, place.root_fields.1]
  exact if_pos color

/-- Cases 3 to 5 start with the red node's grandparent and uncle. -/
private theorem insertionBalancing_redParent {side' side'' : Side} {other uncle : ColoredTree ν}
    (place : At links (⟨side', .red, p, other⟩ :: ⟨side'', .blk, q, uncle⟩ :: up)
      (.join side c a s t)) (fuel : ℕ) :
    insertionBalancing (fuel + 1) links a =
      if uncle.color = .red then do
        let uncle ← deref uncle.root?
        insertionBalancing fuel ((((links.setColor a .red).setColor p .blk).setColor uncle .blk).setColor q .red) q
      else insertionRotate (links.setColor a .red) a p q := by
  have painted := at_cons.mp (place.setColor .red)
  have color : (links.setColor a .red).color p = .red := painted.root_fields.2.2.2
  have grand : (links.setColor a .red).parent p = some q := painted.root_fields.1
  have sibling : getSibling (links.setColor a .red) p = uncle.root? := getSibling_eq painted root?_join
  have red : isRed (links.setColor a .red) uncle.root? = decide (uncle.color = .red) :=
    isRed_root? painted.leads.2.2.2.2.1
  rw [insertionBalancing, place.root_fields.1]
  simp only [top?]
  rw [if_neg (by simp [color]), grand, sibling, red]
  by_cases isRed' : uncle.color = .red
  · rw [if_pos (decide_eq_true isRed'), if_pos isRed']
    rfl
  · rw [if_neg (by simp [isRed']), if_neg isRed']
    rfl

/-- Case 3: with a red uncle the conflict moves to the grandparent. -/
private theorem recolor_redUncle {side' side'' : Side} {other near far : ColoredTree ν} {y : ν}
    (place : At links (⟨side', .red, p, other⟩ :: ⟨side'', .blk, q, .join .left .red y near far⟩ :: up)
      (.join side c a s t)) :
    At ((((links.setColor a .red).setColor p .blk).setColor y .blk).setColor q .red) up
      (.join side'' .red q (.join side' .blk p (.join side .red a s t) other)
        (.join .left .blk y near far)) := by
  have parent := at_cons.mp (place.setColor .red)
  have grand : At ((links.setColor a .red).setColor p .blk) up
      (.join side'' .blk q (.join side' .blk p (.join side .red a s t) other)
          (.join .left .red y near far)) :=
    at_child.mpr (parent.setColor .blk)
  exact (grand.setColorOther .blk).setColor .red

/-- Cases 4 and 5: with a black uncle the rotations end the conflict. -/
private theorem balances_rotate {side' side'' : Side} {other uncle : ColoredTree ν} (black : uncle.color = .blk)
    (place : At links (⟨side', .red, p, other⟩ :: ⟨side'', .blk, q, uncle⟩ :: up)
      (.join side c a s t)) {n : ℕ}
    (first : Balanced s .blk n) (second : Balanced t .blk n) (third : Balanced other .blk n)
    (fourth : Balanced uncle .blk n) (above : Fits up .blk (n + 1)) :
    Balances links (⟨side', .red, p, other⟩ :: ⟨side'', .blk, q, uncle⟩ :: up) a (.join side c a s t) := by
  have painted : At (links.setColor a .red) up
      (.join side'' .blk q (.join side' .red p (.join side .red a s t) other) uncle) :=
    at_child.mpr (at_cons.mp (place.setColor .red))
  have node : Balanced (join side .red a s t) .red n := balanced_red_iff.mpr ⟨rfl, first, second⟩
  have whole (fuel : ℕ) : insertionBalancing (fuel + 1) links a =
      insertionRotate (links.setColor a .red) a p q := by
    rw [insertionBalancing_redParent place, if_neg (by simp [black])]
  have finish {links' : TreeLinks ν} {u : ColoredTree ν}
    (ran : insertionRotate (links.setColor a .red) a p q = .ok links')
      (place' : At links' up u) (balanced : Balanced u .blk (n + 1))
      (same : u.inorder = (join side'' .blk q (.join side' .red p (.join side c a s t) other) uncle).inorder) :
      Balances links (⟨side', .red, p, other⟩ :: ⟨side'', .blk, q, uncle⟩ :: up) a (.join side c a s t) := by
    refine ⟨links', fill up u, fun fuel enough => ?_, at_fill.mp place', above.fill balanced,
      inorder_fill_congr same⟩
    obtain ⟨fuel, rfl⟩ := Nat.exists_eq_add_one.mpr (Nat.zero_lt_of_lt enough)
    exact (whole fuel).trans ran
  rcases eq_or_ne side' side'' with rfl | bent
  · obtain ⟨links', ran, place'⟩ := insertionRotateGrand_spec painted root?_join
    refine finish ((insertionRotate_straight painted root?_join).trans ran) place' ?_ ?_
    · exact balanced_black node (balanced_red_iff.mpr ⟨rfl, third, fourth⟩)
    · cases side' <;> cases side <;> simp [join, inorder]
  · obtain rfl : side' = side''.other := by cases side' <;> cases side'' <;> trivial
    -- the node's two subtrees, the inner one first
    obtain ⟨inner, outer, seen, fifth, sixth⟩ :
      ∃ inner outer, (∀ c, join side c a s t = join side'' c a inner outer) ∧
        Balanced inner .blk n ∧ Balanced outer .blk n := by
      rcases eq_or_ne side side'' with rfl | differs
      · exact ⟨s, t, fun _ => rfl, first, second⟩
      · obtain rfl : side = side''.other := by cases side <;> cases side'' <;> trivial
        exact ⟨t, s, fun _ => join_other, second, first⟩
    rw [seen, join_other] at painted
    obtain ⟨turned, ran, place'⟩ := insertionRotate_bent painted
    obtain ⟨links', ran', place''⟩ := insertionRotateGrand_spec place' root?_join
    refine finish (ran.trans ran') place'' ?_ ?_
    · exact balanced_black (balanced_red_iff.mpr ⟨rfl, third, fifth⟩)
        (balanced_red_iff.mpr ⟨rfl, sixth, fourth⟩)
    · rw [seen]
      cases side'' <;> simp [join, inorder, Side.other]

/-- `insertion_balancing` of a node that may be painted red. -/
theorem insertionBalancing_spec (place : At links path (.join side c a s t)) {n : ℕ}
    (first : Balanced s .blk n)
    (second : Balanced t .blk n) (fits : Fits path .blk n) : Balances links path a (.join side c a s t) := by
  induction path using List.twoStepInduction generalizing links side c a s t n with
  | nil => exact balances_root place first second
  | singleton frame =>
    cases fits with
    | red _ above => cases above
    | blk other above => exact balances_blackParent rfl place first second (.blk other above)
  | cons_cons frame above up ih _ =>
    cases fits with
    | blk other fits => exact balances_blackParent rfl place first second (.blk other fits)
    | @red side' p other _ _ third fits =>
      cases fits with
      | @blk side'' q uncle _ _ d _ fourth fits =>
        cases d with
        | blk => exact balances_rotate fourth.color_eq place first second third fourth fits
        | red =>
          obtain ⟨y, near, far, rfl, fifth, sixth⟩ := fourth.children_red .left
          have moved := recolor_redUncle place
          have node : Balanced (join side .red a s t) .red n := balanced_red_iff.mpr ⟨rfl, first, second⟩
          obtain ⟨links', w, ran, stored, balanced, same⟩ :=
            ih moved (balanced_black node third) (balanced_black fifth sixth) fits
          refine ⟨links', w, fun fuel enough => ?_, stored, balanced, same.trans (inorder_fill_congr ?_)⟩
          · obtain ⟨fuel, rfl⟩ := Nat.exists_eq_add_one.mpr (Nat.zero_lt_of_lt enough)
            rw [insertionBalancing_redParent place, if_pos color_join, root?_join, deref_some, Except.ok_bind]
            exact ran fuel (by simp only [List.length_cons] at enough; omega)
          · cases side'' <;> cases side' <;> cases side <;> simp [TreeFrame.plug, join, inorder]

/-! ## A new node -/

/-- The stores into the fields of a new node. -/
def newNode (links : TreeLinks ν) (a : ν) (parent : Option ν) : TreeLinks ν :=
  ((links.setParent a parent).setChild .right a none).setChild .left a none

private theorem newNode_sameAt {parent : Option ν} (differs : x ≠ a) : SameAt links (newNode links a parent) x :=
  ((sameAt_setParent differs).trans (sameAt_setChild differs)).trans (sameAt_setChild differs)

theorem newNode_stores (parent : Option ν) :
    Stores (newNode links a parent) parent (.node (links.color a) .nil a .nil) := by
  refine ⟨Function.update_self .., child_setChild, ?_, rfl, trivial, trivial⟩
  exact (child_setChild_other (by decide)).trans child_setChild

/-- A new node in the hole of a path. -/
theorem attach_spec {frame : TreeFrame ν} (place : At links (frame :: up) .nil)
    (fresh : a ∉ addrs (frame :: up)) :
    At ((newNode links a (some frame.addr)).setChild frame.side frame.addr (some a)) (frame :: up)
      (.node (links.color a) .nil a .nil) := by
  obtain ⟨side, c, b, other⟩ := frame
  obtain ⟨parent, _, second, color, stores, above⟩ := place.leads
  have nodup : (addrs (⟨side, c, b, other⟩ :: up)).Nodup := (List.nodup_append.mp place.nodup).1
  have notA {x : ν} (member : x ∈ addrs (⟨side, c, b, other⟩ :: up)) : x ≠ a :=
    fun same => fresh (same ▸ member)
  have own : b ∈ addrs (⟨side, c, b, other⟩ :: up) := List.mem_append_left _ List.mem_cons_self
  have absent : b ∉ other.inorder ++ addrs up := (List.nodup_cons.mp nodup).1
  rw [List.mem_append, not_or] at absent
  have kept {x : ν} (member : x ∈ addrs (⟨side, c, b, other⟩ :: up)) (differs : x ≠ b) :
      SameAt links ((newNode links a (some b)).setChild side b (some a)) x :=
    (newNode_sameAt (notA member)).trans (sameAt_setChild differs)
  have atB : SameAt links (newNode links a (some b)) b := newNode_sameAt (notA own)
  refine ⟨⟨atB.parent.trans parent, child_setChild, ?_, atB.color.trans color, ?_, ?_⟩, ?_, ?_⟩
  · exact (child_setChild_other (Side.other_ne side)).trans ((atB.child _).trans second)
  · refine stores.congr fun x member => kept
      (List.mem_append_left _ (List.mem_cons_of_mem _ member)) fun same => ?_
    exact absent.1 (same ▸ member)
  · refine above.congr rfl fun x member => kept (List.mem_append_right _ member) fun same =>
      absent.2 (same ▸ member)
  · refine (newNode_stores (some b)).congr fun x member => sameAt_setChild fun same => ?_
    obtain rfl : x = a := by simpa [inorder] using member
    exact notA own same.symm
  · refine List.nodup_append.mpr ⟨nodup, List.nodup_singleton a, fun x member y only => ?_⟩
    rw [List.mem_singleton.mp only]
    exact notA member

end RubberOS.Model.Rbtree
