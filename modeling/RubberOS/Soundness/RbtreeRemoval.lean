import RubberOS.Proofs.RbtreeSuccessor

/-! # What `rbtree_remove` leaves

A node with at most one child is taken out, and the repair keeps the rest well formed. A node with two
children is replaced by its successor at the place that its parent pointer named before the successor
was taken out. If the repair for the successor rotates the node down, that place is stale.
-/

namespace RubberOS.Soundness.RbtreeRemoval

open RedBlackTrees ColoredTree TreePath ParentPointers Model Model.Rbtree

variable {ν : Type} [DecidableEq ν] {keys : ν → ℤ} {links : TreeLinks ν} {t : ColoredTree ν} {node : ν}

/-- No link of the stored tree refers to the node. -/
def Unlinked (links : TreeLinks ν) (t : ColoredTree ν) (node : ν) : Prop :=
  links.root ≠ some node ∧ ∀ a ∈ t.inorder, links.parent a ≠ some node ∧ ∀ side, links.child side a ≠ some node

/-- The call returns, and leaves a well-formed tree whose sequence lacks the node and nothing else. -/
def Removes (keys : ν → ℤ) (links : TreeLinks ν) (t : ColoredTree ν) (node : ν) : Prop :=
  ∃ links' t', (∀ fuel, t.inorder.length + 1 < fuel → rbtreeRemove fuel links node = .ok links') ∧
    WellFormed keys links' t' ∧ t'.inorder = t.inorder.erase node ∧ Unlinked links' t' node

omit [DecidableEq ν] in
private theorem unlinked_of_notMem (stored : At links [] t) (absent : node ∉ t.inorder) : Unlinked links t node := by
  refine ⟨fun root => absent (root?_mem (stored.leads.symm.trans root)), fun a member => ?_⟩
  obtain ⟨up, down⟩ := stored.stores.links_mem member
  refine ⟨fun parent => ?_, fun side child => absent (down side node child)⟩
  rcases up with top | ⟨b, inside, own⟩
  · cases top.symm.trans parent
  · obtain rfl := Option.some.inj (own.symm.trans parent)
    exact absent inside

/-- A returned tree with the right sequence is the tree that a removal promises. -/
private theorem removes_of_erase (wellFormed : WellFormed keys links t) {links' : TreeLinks ν} {t' : ColoredTree ν}
    (ran : ∀ fuel, t.inorder.length + 1 < fuel → rbtreeRemove fuel links node = .ok links')
    (stored : At links' [] t')
    (balanced : ∃ n, Balanced t' .blk n) (sequence : t'.inorder = t.inorder.erase node) :
    Removes keys links t node := by
  have nodup : t.inorder.Nodup := wellFormed.stored.nodup
  refine ⟨links', t', ran, ⟨stored, ?_, balanced⟩, sequence, unlinked_of_notMem stored ?_⟩
  · rw [sequence]
    exact wellFormed.ordered.sublist List.erase_sublist
  · rw [sequence]
    exact nodup.not_mem_erase

/-- The removal of a node with at most one child returns without a null pointer being used, and takes just
this node out of the sequence. -/
theorem remove_single (wellFormed : WellFormed keys links t) (member : node ∈ t.inorder)
    (single : links.child .left node = none ∨ links.child .right node = none) : Removes keys links t node := by
  obtain ⟨path, c, left, right, rfl⟩ := exists_fill member
  have place : At links path (.node c left node right) := at_fill.mpr wellFormed.stored
  have fields : At links path (.join .left c node left right) := place
  obtain ⟨_, first, second, _⟩ := fields.root_fields
  obtain ⟨n, balanced⟩ := wellFormed.balanced
  obtain ⟨rest, whole, sequence⟩ : ∃ rest :
    ColoredTree ν, (left = rest ∧ right = .nil ∨ left = .nil ∧ right = rest) ∧
      rest.inorder = left.inorder ++ right.inorder := by
    rcases single with none | none
    · obtain rfl := root?_eq_none.mp (first.symm.trans none)
      exact ⟨right, .inr ⟨rfl, rfl⟩, rfl⟩
    · obtain rfl := root?_eq_none.mp (second.symm.trans none)
      exact ⟨left, .inl ⟨rfl, rfl⟩, (List.append_nil _).symm⟩
  obtain ⟨links', t', ran, stored, balanced', taken⟩ := rbtreeRemove_single place balanced whole
  have length : path.length + _ ≤ (fill path (.node c left node right)).inorder.length := length_le_fill
  refine removes_of_erase wellFormed (fun fuel enough => ran fuel (by omega)) stored balanced' ?_
  rw [taken.inorder, erase_inorder wellFormed.stored.nodup, inorder_fill, sequence]
  simp only [List.append_assoc]

/-! ### A tree of four nodes -/

def sampleLinks : TreeLinks ℕ where
  root := some 2
  parent a := match a with
    | 0 => some 1
    | 1 => some 2
    | 3 => some 2
    | _ => none
  child side a := match side, a with
    | .left, 1 => some 0
    | .left, 2 => some 1
    | .right, 2 => some 3
    | _, _ => none
  color a := if a = 0 then .red else .blk

def sampleTree : ColoredTree ℕ :=
  .node .blk (.node .blk (.node .red .nil 0 .nil) 1 .nil) 2 (.node .blk .nil 3 .nil)

private theorem sample_wellFormed : WellFormed (fun a : ℕ => (a : ℤ)) sampleLinks sampleTree where
  stored := ⟨rfl, by simp [sampleTree, sampleLinks, Stores, root?, top?], by decide⟩
  ordered := by decide
  balanced := ⟨2, .blk (.blk (.red .nil .nil) .nil) (.blk .nil .nil)⟩

/-- The removal of the black leaf rotates the root. -/
theorem remove_single_leaf : Removes (fun a : ℕ => (a : ℤ)) sampleLinks sampleTree 3 :=
  remove_single sample_wellFormed (by decide) (.inl rfl)

/-! ## Nodes with two children -/

omit [DecidableEq ν] in
private theorem before_left {spine up : TreePath ν} (sides : ∀ frame ∈ spine, frame.side = .left) :
    before (spine ++ up) = before up := by
  induction spine with
  | nil => rfl
  | cons frame spine ih =>
    obtain ⟨side, c, a, other⟩ := frame
    obtain rfl : side = .left := sides ⟨side, c, a, other⟩ List.mem_cons_self
    exact ih fun frame member => sides frame (List.mem_cons_of_mem _ member)

omit [DecidableEq ν] in
/-- Where the node is after its successor has been taken out of its right subtree. -/
private theorem node_moves {path spine : TreePath ν} {c d : NodeColor} {left right rest w : ColoredTree ν}
    (taken : TakenOut (spine ++ ⟨.right, c, node, left⟩ :: path) d rest w)
    (starved : right.Starved ↔ (d = .blk ∧ rest = .nil) ∧ ∀ frame ∈ spine, frame.Calm) :
    ∃ path' c' left' right', w = fill path' (.node c' left' node right') ∧
      (¬ (right.Starved ∧ ¬ left.Calm) ∧ top? path' = top? path ∨
        (right.Starved ∧ ¬ left.Calm) ∧ ∃ x ∈ left.inorder, top? path' = some x) := by
  rcases taken with ⟨rfl, kept⟩ | ⟨rfl, rfl, repaired⟩
  · refine ⟨path, c, left, fill spine (rest.recolor .blk), fill_append, .inl ⟨fun fails => ?_, rfl⟩⟩
    obtain ⟨⟨rfl, rfl⟩, _⟩ := starved.mp fails.1
    rcases kept with red | full
    · cases red
    · exact full rfl
  · rcases repaired.lower with ⟨calm, u, further⟩ | ⟨restless, u, rfl⟩
    · have short := starved.mpr ⟨⟨rfl, rfl⟩, calm⟩
      cases further with
      | @absorbed _ _ _ v absorbs =>
        obtain ⟨inner, other, rfl, place⟩ := absorbs.node
        refine ⟨inner ++ path, .blk, other, u, fill_append.symm, ?_⟩
        rcases place with ⟨still, rfl⟩ | ⟨moves, x, member, top⟩
        · exact .inl ⟨fun fails => fails.2 still, rfl⟩
        · refine .inr ⟨⟨short, moves⟩, x, member, (top?_append fun empty => ?_).trans top⟩
          rw [empty] at top
          cases top
      | passed still further =>
        obtain ⟨path', rfl, top⟩ := further.keeps
        exact ⟨path', .blk, left.recolor .red, u, rfl, .inl ⟨fun fails => fails.2 still.2, top⟩⟩
    · exact ⟨path, c, left, u, rfl, .inl ⟨fun fails => restless (starved.mp fails.1).2, rfl⟩⟩

/-- Where the node occurs once, both ways to split a sequence there agree. -/
private theorem erase_of_splits {whole without front rest front' rest' : List ν} {successor : ν}
    (old : whole = front ++ node :: successor :: rest) (out : without = front ++ node :: rest)
    (split : without = front' ++ node :: rest') (nodup : without.Nodup) :
    whole.erase node = front' ++ successor :: rest' := by
  have absent {xs ys : List ν} (same : without = xs ++ node :: ys) : node ∉ xs ∧ node ∉ ys := by
    rw [same] at nodup
    have parts := List.nodup_append.mp nodup
    exact ⟨fun member => parts.2.2 node member node List.mem_cons_self rfl,
      (List.nodup_cons.mp parts.2.1).1⟩
  obtain ⟨same, _, same'⟩ := (List.append_cons_inj_of_notMem (absent out).1 (absent out).2).mp
    (out.symm.trans split)
  rw [old, List.erase_append_right _ (absent out).1, List.erase_cons_head, same, same']

/-- The calls before the successor takes the node's place: the successor is out of the tree, and the node has
its old parent, unless the right subtree starved and the left one was not calm. -/
private theorem successor_out {path : TreePath ν} {c : NodeColor} {left right : ColoredTree ν}
    (wellFormed : WellFormed keys links (fill path (.node c left node right))) (nonempty : left ≠ .nil)
    (nonempty' : right ≠ .nil) :
    ∃ links' successor path' d left' right',
    (∀ fuel, (fill path (.node c left node right)).inorder.length + 1 < fuel →
        rbtreeRemove fuel links node = .ok (replaceBySuccessor links' (top? path) node successor)) ∧
      At links' path' (.node d left' node right') ∧
        (∃ n, Balanced (fill path' (.node d left' node right')) .blk n) ∧
      successor ∈ right.inorder ∧
      (fill path (.node c left node right)).inorder.erase node =
        before path' ++ left'.inorder ++ successor :: (right'.inorder ++ after path') ∧
      (¬ (right.Starved ∧ ¬ left.Calm) ∧ top? path' = top? path ∨
        (right.Starved ∧ ¬ left.Calm) ∧ ∃ x ∈ left.inorder, top? path' = some x) := by
  obtain ⟨spine, e, successor, rest, rfl, sides, starved⟩ := exists_first nonempty'
  have place : At links path (.join .left c node left (fill spine (.node e .nil successor rest))) :=
    at_fill.mpr wellFormed.stored
  obtain ⟨parent, first, second, _⟩ := place.root_fields
  have below : At links (⟨.right, c, node, left⟩ :: path)
      (fill spine (.node e .nil successor rest)) := at_other.mp place
  have lowest := at_append.mpr below
  obtain ⟨n, balanced⟩ := wellFormed.balanced
  have whole : fill path (.node c left node (fill spine (.node e .nil successor rest))) =
      fill (spine ++ ⟨.right, c, node, left⟩ :: path) (.node e .nil successor rest) := by
    rw [fill_append]
    rfl
  obtain ⟨links', w, ran, stored, balanced', taken⟩ :=
    rbtreeRemove_single lowest (whole ▸ balanced) (.inr ⟨rfl, rfl⟩)
  obtain ⟨path', d, left', right', rfl, outcome⟩ := node_moves taken starved
  refine ⟨links', successor, path', d, left', right', ?_, at_fill.mpr stored, balanced', ?_, ?_, outcome⟩
  · intro fuel enough
    obtain ⟨fuel, rfl⟩ := Nat.exists_eq_add_one.mpr (Nat.zero_lt_of_lt enough)
    obtain ⟨x, root⟩ := exists_root? nonempty
    obtain ⟨y, root'⟩ := exists_root? nonempty'
    have length : (spine ++ ⟨.right, c, node, left⟩ :: path).length + _ ≤
        (fill (spine ++ ⟨.right, c, node, left⟩ :: path)
          (.node e .nil successor rest)).inorder.length := length_le_fill
    rw [← whole, List.length_append, List.length_cons, inorder, List.length_append,
      List.length_cons] at length
    rw [root] at first
    rw [root'] at second
    have found := getMinNode_spec below.stores sides root' fuel (by omega)
    have out := ran fuel (by rw [List.length_append, List.length_cons]; omega)
    rw [rbtreeRemove, if_pos (by simp [first, show links.child .right node = some y from second]), parent,
      show links.child .right node = some y from second, deref_some, Except.ok_bind, found,
        Except.ok_bind, out]
    rfl
  · rw [inorder_fill]
    simp [inorder]
  · have front : before (spine ++ ⟨.right, c, node, left⟩ :: path) = before path ++ left.inorder ++ [node] :=
      before_left sides
    have old : (fill path (.node c left node (fill spine (.node e .nil successor rest)))).inorder =
        (before path ++ left.inorder) ++ node ::
          successor :: (rest.inorder ++ after (spine ++ ⟨.right, c, node, left⟩ :: path)) := by
      rw [whole, inorder_fill, front]
      simp [inorder]
    have out : (fill path' (.node d left' node right')).inorder =
        (before path ++ left.inorder) ++ node ::
            (rest.inorder ++ after (spine ++ ⟨.right, c, node, left⟩ :: path)) := by
      rw [taken.inorder, inorder_fill, front]
      simp
    have split : (fill path' (.node d left' node right')).inorder =
        (before path' ++ left'.inorder) ++ node :: (right'.inorder ++ after path') := by
      rw [inorder_fill]
      simp [inorder]
    exact erase_of_splits old out split stored.nodup

/-- A node with two children is removed from the tree exactly when the removal of its successor leaves the node
below its old parent: its right subtree does not starve, or its left child is black without red children. -/
theorem remove_double_iff {path : TreePath ν} {c : NodeColor} {left right : ColoredTree ν}
    (wellFormed : WellFormed keys links (fill path (.node c left node right))) (nonempty : left ≠ .nil)
    (nonempty' : right ≠ .nil) :
    Removes keys links (fill path (.node c left node right)) node ↔ ¬ (right.Starved ∧ ¬ left.Calm) := by
  have place : At links path (.join .left c node left right) := at_fill.mpr wellFormed.stored
  obtain ⟨⟨_, notRight⟩, _, _, apart⟩ := join_nodup.mp (List.nodup_append.mp place.nodup).2.1
  have nodup : (fill path (.node c left node right)).inorder.Nodup := wellFormed.stored.nodup
  obtain ⟨links', successor, path', d, left', right', ran, place', balanced, member, sequence, outcome⟩ :=
    successor_out wellFormed nonempty nonempty'
  rcases outcome with ⟨stays, top⟩ | ⟨fails, x, inLeft, top⟩
  · refine iff_of_true ?_ stays
    have distinct := nodup.erase node
    rw [sequence] at distinct
    obtain ⟨_, below, disjoint⟩ := List.nodup_append.mp distinct
    have fresh : successor ∉ (fill path' (.node d left' node right')).inorder := by
      rw [inorder_fill]
      simp only [inorder, List.mem_append, List.mem_cons, not_or]
      have outside := (List.nodup_cons.mp below).1
      have front : successor ∉ before path' ++ left'.inorder := fun inside =>
        disjoint successor inside successor List.mem_cons_self rfl
      simp only [List.mem_append, not_or] at outside front
      exact ⟨⟨front.1, front.2, fun same => notRight (same ▸ member), outside.1⟩, outside.2⟩
    have stored := replaceBySuccessor_spec place' fresh
    rw [top] at stored
    obtain ⟨_, balanced⟩ := balanced
    refine removes_of_erase wellFormed ran (at_fill.mp stored) (balanced_readdress balanced) ?_
    rw [sequence, inorder_fill]
    simp [inorder]
  · refine iff_of_false ?_ (not_not.mpr fails)
    rintro ⟨result, t', ran', _, same, unlinked⟩
    -- the node's new parent still links to it, and no later store changes that
    obtain ⟨side, child⟩ : ∃ side, links'.child side x = some node := by
      cases path' with
      | nil => cases top
      | cons frame up =>
        obtain ⟨side, e, y, other⟩ := frame
        cases top
        exact ⟨side, place'.leads.2.1⟩
    have inTree : x ∈ (join .left c node left right).inorder := mem_join.mpr (.inr (.inl inLeft))
    have notNode : x ≠ node := fun same => by
      subst same
      exact (join_nodup.mp (List.nodup_append.mp place.nodup).2.1).1.1 inLeft
    have result_eq := (ran' _ (Nat.lt_succ_self _)).symm.trans (ran _ (Nat.lt_succ_self _))
    have kept : (replaceBySuccessor links' (top? path) node successor).child side x = links'.child side x :=
      replaceBySuccessor_child _ (place.top_ne inTree) (fun same => apart x inLeft (same ▸ member)) side
    rw [← Except.ok.inj result_eq, child] at kept
    refine (unlinked.2 x ?_).2 side kept
    rw [same, List.mem_erase_of_ne notNode, fill_perm.mem_iff]
    exact List.mem_append_right _ inTree

/-- The removal of the sample's root leaves it linked: its former left child keeps it as its right child. -/
theorem removed_root_stays : sampleLinks.child .left 2 ≠ none ∧ sampleLinks.child .right 2 ≠ none ∧
    WellFormed (fun a : ℕ => (a : ℤ)) sampleLinks sampleTree ∧
    ¬ Removes (fun a : ℕ => (a : ℤ)) sampleLinks sampleTree 2 := by
  refine ⟨by decide, by decide, sample_wellFormed, fun ⟨result, t', ran, _, sequence, unlinked⟩ => ?_⟩
  have returned := congrArg (fun r : Result (TreeLinks ℕ) => r.toOption.bind fun tree => tree.child .right 1)
    (ran 9 (by decide))
  have linked : result.child .right 1 = some 2 := returned.symm
  have member : 1 ∈ t'.inorder := by
    rw [sequence]
    decide
  exact (unlinked.2 1 member).2 .right linked

def blackLinks : TreeLinks ℕ where
  root := some 2
  parent a := if a = 2 then none else some 2
  child side a := match side, a with
    | .left, 2 => some 1
    | .right, 2 => some 3
    | _, _ => none
  color _ := .blk

/-- The removal of the root of three black nodes. -/
theorem remove_double_iff_black : Removes (fun a : ℕ => (a : ℤ)) blackLinks
    (.node .blk (.node .blk .nil 1 .nil) 2 (.node .blk .nil 3 .nil)) 2 := by
  have wellFormed : WellFormed (fun a : ℕ => (a : ℤ)) blackLinks
      (fill [] (.node .blk (.node .blk .nil 1 .nil) 2 (.node .blk .nil 3 .nil))) :=
    ⟨⟨rfl, by simp [blackLinks, Stores, root?, top?], by decide⟩, by decide, 2,
      .blk (.blk .nil .nil) (.blk .nil .nil)⟩
  exact (remove_double_iff wellFormed (fun none => by cases none) (fun none => by cases none)).mpr fun fails => fails.2 ⟨rfl, rfl⟩

end RubberOS.Soundness.RbtreeRemoval
