import Mathlib.Logic.Function.Basic
import RubberOS.ToMathlib.RedBlackTrees

/-! # Trees with parent pointers

The links of all nodes are one function for each field, and a null pointer is `none`. `At links path t`
says that the links store the tree `t` behind the path: every pointer and every color is the one of
the zipper, and all addresses are distinct. A store into a field changes one node, so each lemma
about a store consists of the new value there and of `SameAt` everywhere else.
-/

namespace ParentPointers

open RedBlackTrees ColoredTree TreePath

variable {ν : Type*}

/-- The root pointer, and the fields of the nodes. -/
structure TreeLinks (ν : Type*) where
  root : Option ν
  parent : ν → Option ν
  child : Side → ν → Option ν
  color : ν → NodeColor

/-- The fields of a node are the same in both. -/
structure SameAt (links links' : TreeLinks ν) (a : ν) : Prop where
  parent : links'.parent a = links.parent a
  child : ∀ side, links'.child side a = links.child side a
  color : links'.color a = links.color a

/-- The links below a parent pointer are those of the tree. -/
def Stores (links : TreeLinks ν) : Option ν → ColoredTree ν → Prop
  | _, .nil => True
  | parent, .node color left a right => links.parent a = parent ∧ links.child .left a = left.root? ∧
      links.child .right a = right.root? ∧ links.color a = color ∧ Stores links (some a) left ∧ Stores links (some a) right

/-- The links above a hole are those of the path. -/
def Leads (links : TreeLinks ν) : TreePath ν → Option ν → Prop
  | [], hole => links.root = hole
  | ⟨side, color, a, other⟩ :: up, hole => links.parent a = top? up ∧ links.child side a = hole ∧
      links.child side.other a = other.root? ∧ links.color a = color ∧ Stores links (some a) other ∧ Leads links up (some a)

/-- The links store the tree behind the path, at distinct addresses. -/
structure At (links : TreeLinks ν) (path : TreePath ν) (t : ColoredTree ν) : Prop where
  leads : Leads links path t.root?
  stores : Stores links (top? path) t
  nodup : (addrs path ++ t.inorder).Nodup

variable {links links' links'' : TreeLinks ν} {path up : TreePath ν} {frame : TreeFrame ν} {s t u : ColoredTree ν}
  {a b : ν} {p q hole : Option ν} {side : Side} {c c' : NodeColor}

theorem SameAt.trans (first : SameAt links links' a) (second : SameAt links' links'' a) :
    SameAt links links'' a :=
  ⟨second.parent.trans first.parent, fun side => (second.child side).trans (first.child side),
    second.color.trans first.color⟩

theorem stores_join : Stores links p (join side c a s t) ↔ links.parent a = p ∧ links.child side a = s.root? ∧
    links.child side.other a = t.root? ∧ links.color a = c ∧ Stores links (some a) s ∧
      Stores links (some a) t := by
  cases side
  · exact Iff.rfl
  · constructor
    · rintro ⟨parent, left, right, color, first, second⟩
      exact ⟨parent, right, left, color, second, first⟩
    · rintro ⟨parent, right, left, color, second, first⟩
      exact ⟨parent, left, right, color, first, second⟩

/-! ## Untouched parts -/

theorem Stores.congr (stores : Stores links p t) (same : ∀ a ∈ t.inorder, SameAt links links' a) :
    Stores links' p t := by
  induction t generalizing p with
  | nil => trivial
  | node c left a right ihLeft ihRight =>
    obtain ⟨parent, first, second, color, inLeft, inRight⟩ := stores
    have own := same a (List.mem_append_right _ List.mem_cons_self)
    refine ⟨own.parent.trans parent, (own.child _).trans first, (own.child _).trans second,
      own.color.trans color, ?_, ?_⟩
    · exact ihLeft inLeft fun b member => same b (List.mem_append_left _ member)
    · exact ihRight inRight fun b member => same b (List.mem_append_right _ (List.mem_cons_of_mem _ member))

theorem Leads.congr (leads : Leads links path hole) (root : links'.root = links.root)
    (same : ∀ a ∈ addrs path, SameAt links links' a) : Leads links' path hole := by
  induction path generalizing hole with
  | nil => exact root.trans leads
  | cons frame up ih =>
    obtain ⟨side, c, a, other⟩ := frame
    obtain ⟨parent, first, second, color, stores, above⟩ := leads
    have own := same a (List.mem_append_left _ List.mem_cons_self)
    refine ⟨own.parent.trans parent, (own.child _).trans first, (own.child _).trans second,
      own.color.trans color, ?_, ?_⟩
    · exact stores.congr fun b member => same b (List.mem_append_left _ (List.mem_cons_of_mem _ member))
    · exact ih above fun b member => same b (List.mem_append_right _ member)

/-! ## Moving along the path -/

theorem at_cons : At links (frame :: up) t ↔ At links up (frame.plug t) := by
  obtain ⟨side, c, a, other⟩ := frame
  have perm : (addrs (⟨side, c, a, other⟩ :: up) ++ t.inorder).Perm
      (addrs up ++ (TreeFrame.plug ⟨side, c, a, other⟩ t).inorder) := by
    refine List.Perm.trans ?_ (inorder_join_perm.symm.append_left _)
    rw [addrs, TreeFrame.addrs]
    refine ((List.perm_append_comm.append_right _).trans ?_)
    rw [List.append_assoc, List.cons_append]
    exact (List.perm_append_comm.cons a).append_left _
  constructor
  · rintro ⟨⟨parent, first, second, color, stores, above⟩, below, nodup⟩
    exact ⟨by rwa [TreeFrame.plug, root?_join], stores_join.mpr ⟨parent, first, second, color, below, stores⟩,
      perm.nodup_iff.mp nodup⟩
  · rintro ⟨above, whole, nodup⟩
    rw [TreeFrame.plug, root?_join] at above
    obtain ⟨parent, first, second, color, below, stores⟩ := stores_join.mp whole
    exact ⟨⟨parent, first, second, color, stores, above⟩, below, perm.nodup_iff.mpr nodup⟩

/-- The two children of a subtree's root as holes. -/
theorem at_child : At links path (join side c a s t) ↔ At links (⟨side, c, a, t⟩ :: path) s := by
  rw [at_cons, TreeFrame.plug]

theorem at_other : At links path (join side c a s t) ↔ At links (⟨side.other, c, a, s⟩ :: path) t := by
  rw [at_cons, TreeFrame.plug, join_other]

theorem at_append {inner : TreePath ν} : At links (inner ++ up) t ↔ At links up (fill inner t) := by
  induction inner generalizing t with
  | nil => rfl
  | cons frame inner ih => rw [List.cons_append, at_cons, ih, fill_cons]

theorem at_fill : At links path t ↔ At links [] (fill path t) := by
  rw [← at_append, List.append_nil]

theorem At.disjoint (place : At links path t) (member : a ∈ t.inorder) : a ∉ addrs path := by
  intro above
  exact (List.nodup_append.mp place.nodup).2.2 a above a member rfl

theorem At.top_ne (place : At links path t) (member : a ∈ t.inorder) : top? path ≠ some a := by
  intro top
  cases path with
  | nil => cases top
  | cons frame up =>
    cases top
    exact place.disjoint member (List.mem_append_left _ List.mem_cons_self)

/-- What the fields of the subtree's root hold. -/
theorem At.root_fields (place : At links path (join side c a s t)) : links.parent a = top? path ∧
    links.child side a = s.root? ∧ links.child side.other a = t.root? ∧ links.color a = c := by
  obtain ⟨parent, first, second, color, _⟩ := stores_join.mp place.stores
  exact ⟨parent, first, second, color⟩

theorem join_nodup : (join side c a s t).inorder.Nodup ↔
    (a ∉ s.inorder ∧ a ∉ t.inorder) ∧ s.inorder.Nodup ∧ t.inorder.Nodup ∧ ∀ b ∈ s.inorder, b ∉ t.inorder := by
  rw [inorder_join_perm.nodup_iff, List.nodup_cons, List.mem_append, not_or, List.nodup_append']
  rfl

/-- The links of a stored tree's nodes stay within the tree, but for the parent of its root. -/
theorem Stores.links_mem (stores : Stores links p t) (member : a ∈ t.inorder) :
    (links.parent a = p ∨ ∃ b ∈ t.inorder, links.parent a = some b) ∧
      ∀ side b, links.child side a = some b → b ∈ t.inorder := by
  induction t generalizing p with
  | nil => cases member
  | node c left x right ihLeft ihRight =>
    obtain ⟨parent, first, second, _, inLeft, inRight⟩ := stores
    have own : x ∈ (ColoredTree.node c left x right).inorder := List.mem_append_right _ List.mem_cons_self
    have below (b : ν) (inside : b ∈ left.inorder ∨ b ∈ right.inorder) :
        b ∈ (ColoredTree.node c left x right).inorder := by
      rcases inside with inside | inside
      · exact List.mem_append_left _ inside
      · exact List.mem_append_right _ (List.mem_cons_of_mem _ inside)
    rcases List.mem_append.mp member with inside | (_ | ⟨_, inside⟩)
    · obtain ⟨up, down⟩ := ihLeft inLeft inside
      refine ⟨.inr ?_, fun side b child => below b (.inl (down side b child))⟩
      rcases up with top | ⟨b, lower, child⟩
      · exact ⟨x, own, top⟩
      · exact ⟨b, below b (.inl lower), child⟩
    · refine ⟨.inl parent, fun side b child => ?_⟩
      cases side
      · exact below b (.inl (root?_mem (first.symm.trans child)))
      · exact below b (.inr (root?_mem (second.symm.trans child)))
    · obtain ⟨up, down⟩ := ihRight inRight inside
      refine ⟨.inr ?_, fun side b child => below b (.inr (down side b child))⟩
      rcases up with top | ⟨b, lower, child⟩
      · exact ⟨x, own, top⟩
      · exact ⟨b, below b (.inr lower), child⟩

/-! ## Stores into the fields -/

variable [DecidableEq ν]

namespace TreeLinks

def setRoot (links : TreeLinks ν) (value : Option ν) : TreeLinks ν := { links with root := value }

def setParent (links : TreeLinks ν) (node : ν) (value : Option ν) : TreeLinks ν :=
  { links with parent := Function.update links.parent node value }

def setChild (links : TreeLinks ν) (side : Side) (node : ν) (value : Option ν) : TreeLinks ν :=
  { links with child := Function.update links.child side (Function.update (links.child side) node value) }

def setColor (links : TreeLinks ν) (node : ν) (value : NodeColor) : TreeLinks ν :=
  { links with color := Function.update links.color node value }

/-- A store into the parent field of a node, if there is one. -/
def reparent (links : TreeLinks ν) (node value : Option ν) : TreeLinks ν :=
  match node with
  | some node => links.setParent node value
  | none => links

/-- A store into the field that points to `node`: one of its parent's, or the root. -/
def relink (links : TreeLinks ν) (parent : Option ν) (node : ν) (value : Option ν) : TreeLinks ν :=
  match parent with
  | some parent => if links.child .left parent = some node then links.setChild .left parent value
      else links.setChild .right parent value
  | none => links.setRoot value

variable {links : TreeLinks ν} {side other : Side} {node : ν} {value : Option ν}

@[simp] theorem setColor_child {c : NodeColor} : (links.setColor node c).child = links.child := rfl

theorem child_setChild : (links.setChild side node value).child side node = value := by
  simp [setChild]

theorem child_setChild_other (differs : other ≠ side) {a : ν} :
    (links.setChild side node value).child other a =
    links.child other a := by
  rw [setChild]
  exact congrFun (Function.update_of_ne differs _ _) a

theorem child_setChild_ne {a : ν} (differs : a ≠ node) : (links.setChild side node value).child other a =
    links.child other a := by
  rcases eq_or_ne other side with rfl | differs'
  · simp [setChild, Function.update_of_ne differs]
  · exact child_setChild_other differs'

end TreeLinks

open TreeLinks

variable {value : Option ν} {node : ν}

omit [DecidableEq ν] in
theorem sameAt_setRoot : SameAt links (links.setRoot value) a := ⟨rfl, fun _ => rfl, rfl⟩

theorem sameAt_setParent (apart : a ≠ node) : SameAt links (links.setParent node value) a :=
  ⟨Function.update_of_ne apart _ _, fun _ => rfl, rfl⟩

theorem sameAt_setChild (apart : a ≠ node) : SameAt links (links.setChild side node value) a :=
  ⟨rfl, fun _ => child_setChild_ne apart, rfl⟩

theorem sameAt_setColor (apart : a ≠ node) : SameAt links (links.setColor node c) a :=
  ⟨rfl, fun _ => rfl, Function.update_of_ne apart _ _⟩

theorem sameAt_reparent (apart : p ≠ some a) : SameAt links (links.reparent p value) a := by
  cases p with
  | none => exact ⟨rfl, fun _ => rfl, rfl⟩
  | some node => exact sameAt_setParent fun same => apart (congrArg some same.symm)

theorem sameAt_relink (apart : p ≠ some a) : SameAt links (links.relink p node value) a := by
  cases p with
  | none => exact sameAt_setRoot
  | some parent =>
    have differs : a ≠ parent := fun same => apart (congrArg some same.symm)
    rw [relink]
    split
    · exact sameAt_setChild differs
    · exact sameAt_setChild differs

theorem reparent_root : (links.reparent p value).root = links.root := by cases p <;> rfl

theorem reparent_child : (links.reparent p value).child = links.child := by cases p <;> rfl

theorem reparent_color : (links.reparent p value).color = links.color := by cases p <;> rfl

/-- Storing into the field that leads to the hole changes what is in the hole. -/
theorem Leads.relink (leads : Leads links path (some a)) (nodup : (addrs path).Nodup)
    (absent : a ∉ addrs path)
    (value : Option ν) : Leads (links.relink (top? path) a value) path value := by
  cases path with
  | nil => rfl
  | cons frame up =>
    obtain ⟨side, c, b, other⟩ := frame
    obtain ⟨parent, first, second, color, stores, above⟩ := leads
    rw [addrs, TreeFrame.addrs, List.cons_append, List.nodup_cons, List.mem_append, not_or] at nodup
    obtain ⟨⟨notOther, notUp⟩, _⟩ := nodup
    -- the other child is not the node itself, so the branch taken is that of the hole's side
    have stored : links.relink (some b) a value = links.setChild side b value := by
      cases side
      · exact if_pos first
      · refine if_neg fun same => absent ?_
        rw [show links.child .left b = other.root? from second] at same
        exact List.mem_append_left _ (List.mem_cons_of_mem _ (root?_mem same))
    rw [top?, stored]
    have outside : ∀ x, x ≠ b → SameAt links (links.setChild side b value) x :=
      fun x differs => sameAt_setChild differs
    refine ⟨parent, ?_, ?_, color, ?_, ?_⟩
    · exact child_setChild
    · exact (child_setChild_other (Side.other_ne side)).trans second
    · exact stores.congr fun x member => outside x fun same => notOther (same ▸ member)
    · exact above.congr rfl fun x member => outside x fun same => notUp (same ▸ member)

/-- Storing into the root's parent field moves the tree below another node. -/
theorem Stores.reparent (stores : Stores links p t) (nodup : t.inorder.Nodup) (value : Option ν) :
    Stores (links.reparent t.root? value) value t := by
  cases t with
  | nil => trivial
  | node c left a right =>
    obtain ⟨parent, first, second, color, inLeft, inRight⟩ := stores
    obtain ⟨⟨notLeft, notRight⟩, _⟩ :=
      join_nodup.mp (show (join .left c a left right).inorder.Nodup from nodup)
    have outside : ∀ x, x ≠ a → SameAt links (links.setParent a value) x :=
      fun x differs => sameAt_setParent differs
    refine ⟨Function.update_self .., first, second, color, ?_, ?_⟩
    · exact inLeft.congr fun x member => outside x fun same => notLeft (same ▸ member)
    · exact inRight.congr fun x member => outside x fun same => notRight (same ▸ member)

/-- Storing a color into the root of the subtree. -/
theorem At.setColor (place : At links path (join side c a s t)) (c' : NodeColor) :
    At (links.setColor a c') path (join side c' a s t) := by
  obtain ⟨parent, first, second, color, inner, other⟩ := stores_join.mp place.stores
  have leads := place.leads
  have nodup := place.nodup
  have below := (List.nodup_append.mp nodup).2.1
  obtain ⟨⟨notFirst, notSecond⟩, _⟩ := join_nodup.mp below
  have outside : ∀ x, x ≠ a → SameAt links (links.setColor a c') x := fun x differs => sameAt_setColor differs
  refine ⟨?_, stores_join.mpr ⟨parent, first, second, Function.update_self .., ?_, ?_⟩, ?_⟩
  · rw [root?_join] at leads ⊢
    refine leads.congr rfl fun x member => outside x fun same => ?_
    exact place.disjoint (mem_join.mpr (.inl same)) member
  · exact inner.congr fun x member => outside x fun same => notFirst (same ▸ member)
  · exact other.congr fun x member => outside x fun same => notSecond (same ▸ member)
  · rwa [inorder_join_color]

/-- Storing a color into the root of the other child. -/
theorem At.setColorOther {side' : Side}
    (place : At links path (join side c a s (join side' c' b t u))) (color : NodeColor) :
    At (links.setColor b color) path (join side c a s (join side' color b t u)) :=
  at_other.mpr ((at_other.mp place).setColor color)

end ParentPointers
