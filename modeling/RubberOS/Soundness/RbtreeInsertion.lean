import RubberOS.Proofs.RbtreeInsertion
import RubberOS.Proofs.RbtreeLookup

/-! # What `rbtree_insert` leaves

A node with a new key enters the sequence between the smaller and the greater keys, and the tree is
well formed again. A node whose key is present changes nothing.
-/

namespace RubberOS.Soundness.RbtreeInsertion

open RedBlackTrees ColoredTree TreePath ParentPointers Model Model.Rbtree

variable {ν : Type} [DecidableEq ν] {keys : ν → ℤ} {links : TreeLinks ν} {t : ColoredTree ν} {node : ν}

/-- The call returns and leaves a well-formed tree. A new key is inserted at its place; a known one leaves
every node and the root as they are. -/
def Inserts (keys : ν → ℤ) (links : TreeLinks ν) (t : ColoredTree ν) (node : ν) : Prop :=
  ∃ links' t', (∀ fuel, t.inorder.length + 1 < fuel → rbtreeInsert fuel keys links node = .ok links') ∧
    WellFormed keys links' t' ∧
    ((∀ b ∈ t.inorder, keys b ≠ keys node) → ∃ smaller greater, t.inorder = smaller ++ greater ∧
      t'.inorder = smaller ++ node :: greater) ∧
    ((∃ b ∈ t.inorder, keys b = keys node) → links' = links)

omit [DecidableEq ν] in
/-- A sequence stays ordered when a node is put between the smaller and the greater keys. -/
private theorem ordered_insert {smaller greater : List ν}
    (ordered : (smaller ++ greater).Pairwise fun a b => keys a < keys b)
    (below : ∀ b ∈ smaller, keys b < keys node) (above : ∀ b ∈ greater, keys node < keys b) :
    (smaller ++ node :: greater).Pairwise fun a b => keys a < keys b := by
  obtain ⟨first, second, across⟩ := List.pairwise_append.mp ordered
  refine List.pairwise_append.mpr ⟨first, List.pairwise_cons.mpr ⟨above, second⟩, fun a member b other => ?_⟩
  rcases List.mem_cons.mp other with rfl | other
  · exact below a member
  · exact across a member b other

/-- The first node of a tree. -/
private theorem insert_first (keys : ν → ℤ) (node : ν) (fuel : ℕ) (stored : At links [] .nil) :
    rbtreeInsert fuel keys links node =
      .ok (((newNode links node none).setColor node .blk).setRoot (some node)) ∧
      WellFormed keys (((newNode links node none).setColor node .blk).setRoot (some node))
      (.node .blk .nil node .nil) := by
  refine ⟨if_pos stored.leads, ⟨rfl, ?_, List.nodup_singleton node⟩, List.pairwise_singleton _ _, 1,
    .blk .nil .nil⟩
  have place : At ((newNode links node none).setRoot (some node)) []
      (.join .left (links.color node) node .nil .nil) :=
    ⟨rfl, (newNode_stores none).congr fun _ _ => sameAt_setRoot, List.nodup_singleton node⟩
  exact (place.setColor .blk).stores

/-- The node is attached on the side that its key asks for. -/
private theorem attach_side {frame : TreeFrame ν} {up : TreePath ν} (around : Around keys (keys node) (frame :: up))
    (tree : TreeLinks ν) : (if keys node < keys frame.addr then tree.setChild .left frame.addr (some node)
      else tree.setChild .right frame.addr (some node)) =
        tree.setChild frame.side frame.addr (some node) := by
  obtain ⟨side, c, b, other⟩ := frame
  cases side
  · exact if_pos (around.after b (by simp [after]))
  · have below := around.before b (by simp [before])
    exact if_neg (by dsimp only; omega)

/-- A node that is attached behind a path and painted by the balancing. -/
private theorem insert_attached {frame : TreeFrame ν} {up : TreePath ν}
    (wellFormed : WellFormed keys links (fill (frame :: up) .nil))
    (fresh : node ∉ (fill (frame :: up) .nil).inorder)
    (around : Around keys (keys node) (frame :: up)) : ∃ links' t', (∀ fuel, (frame :: up).length < fuel →
      insertionBalancing fuel ((newNode links node (some frame.addr)).setChild frame.side frame.addr
        (some node)) node =
        .ok links') ∧ WellFormed keys links' t' ∧
          t'.inorder = before (frame :: up) ++ node :: after (frame :: up) := by
  obtain ⟨stored, ordered, n, balanced⟩ := wellFormed
  rw [fill_perm.mem_iff, List.mem_append, not_or] at fresh
  have place : At _ (frame :: up) (.join .left (links.color node) node .nil .nil) :=
    attach_spec (at_fill.mpr stored) fresh.1
  obtain ⟨m, height, fits⟩ := fits_of_fill balanced
  obtain ⟨links', t', ran, stored', balanced', sequence⟩ := insertionBalancing_spec place height height fits
  rw [inorder_fill] at sequence ordered
  simp only [join, inorder, List.nil_append, List.append_nil, List.append_assoc, List.cons_append]
    at sequence ordered
  refine ⟨links', t', ran, ⟨stored', ?_, balanced'⟩, sequence⟩
  rw [sequence]
  exact ordered_insert ordered around.before around.after

/-- Every insertion of a node that is not in the tree leaves a well-formed tree. -/
theorem insert_wellFormed (wellFormed : WellFormed keys links t) (fresh : node ∉ t.inorder) :
    Inserts keys links t node := by
  rcases eq_or_ne t .nil with rfl | nonempty
  · have result := (insert_first keys node 0 wellFormed.stored).2
    refine ⟨_, _, fun fuel _ => (insert_first keys node fuel wellFormed.stored).1, result,
      fun _ => ⟨[], [], rfl, rfl⟩, ?_⟩
    rintro ⟨b, member, _⟩
    cases member
  · obtain ⟨x, root⟩ := exists_root? nonempty
    have top : links.root = some x := wellFormed.stored.leads.trans root
    have start (fuel : ℕ) : rbtreeInsert fuel keys links node = (do
        let r ← findFrom keys links (keys node) fuel ⟨none, none, none⟩ t.root? none
        r.toInsert.elim (.ok links) fun toInsert => insertionBalancing fuel (if keys node < keys toInsert then
            (newNode links node (some toInsert)).setChild .left toInsert (some node)
          else (newNode links node (some toInsert)).setChild .right toInsert (some node)) node) := by
      rw [rbtreeInsert, if_neg (by simp [top]), rbtreeFind, top, root]
      refine congrArg _ (funext fun r => ?_)
      cases r.toInsert <;> rfl
    have ran (fuel : ℕ) (enough : t.inorder.length < fuel) :=
      findFrom_locate keys (keys node) wellFormed.stored.stores [] enough
    have same := fill_locate keys (keys node) [] t
    have around := around_locate (around_nil keys (keys node)) (searchOrder_iff.mpr wellFormed.ordered)
    have ends := locate_end keys (keys node) [] t
    generalize locate keys (keys node) [] t = placed at ran same around ends
    obtain ⟨path, hole⟩ := placed
    rcases ends with rfl | ⟨c, left, b, right, rfl, known⟩
    · obtain rfl : fill path .nil = t := same
      cases path with
      | nil => exact absurd rfl nonempty
      | cons frame up =>
        obtain ⟨links', t', ran', result, sequence⟩ := insert_attached wellFormed fresh around
        have old : (fill (frame :: up) .nil).inorder = before (frame :: up) ++ after (frame :: up) := by
          rw [inorder_fill]
          simp [inorder]
        have depth : (frame :: up).length + _ ≤ (fill (frame :: up) .nil).inorder.length := length_le_fill
        refine ⟨links', t', fun fuel enough => ?_, result, fun _ => ⟨_, _, old, sequence⟩, ?_⟩
        · rw [start, show findFrom keys links (keys node) fuel ⟨none, none, none⟩
            (fill (frame :: up) .nil).root? none = _ from ran fuel (by omega), Except.ok_bind]
          change insertionBalancing fuel (if keys node < keys frame.addr then _ else _) node = _
          rw [attach_side around]
          exact ran' fuel (by omega)
        · rintro ⟨b, member, same⟩
          rw [old] at member
          rcases List.mem_append.mp member with below | above
          · exact absurd same (around.before b below).ne
          · exact absurd same.symm (around.after b above).ne
    · have member : b ∈ t.inorder := by
        rw [← show fill path (.node c left b right) = t from same, fill_perm.mem_iff]
        exact List.mem_append_right _ (root?_mem rfl)
      refine ⟨links, t, fun fuel enough => ?_, wellFormed, fun unknown => ?_, fun _ => rfl⟩
      · rw [start, show findFrom keys links (keys node) fuel ⟨none, none, none⟩ t.root? none = _ from
          ran fuel (by omega), Except.ok_bind]
        rfl
      · exact absurd known (unknown b member)

def pairLinks : TreeLinks ℕ where
  root := some 0
  parent a := if a = 1 then some 0 else none
  child side a := match side, a with
    | .right, 0 => some 1
    | _, _ => none
  color a := if a = 0 then .blk else .red

/-- The third node in ascending order rotates the root. -/
theorem insert_third : Inserts (fun a : ℕ => (a : ℤ)) pairLinks (.node .blk .nil 0 (.node .red .nil 1 .nil)) 2 :=
  insert_wellFormed ⟨⟨rfl, by simp [pairLinks, Stores, root?, top?], by decide⟩, by decide, 1,
    .blk .nil (.red .nil .nil)⟩
    (by decide)

end RubberOS.Soundness.RbtreeInsertion
