import RubberOS.ToMathlib.RedBlackTrees

/-! # Repairing a black-height deficit

A subtree with a black root that is one black node short of what its hole expects is repaired on the
way to the root. At each node above the hole the deficit is absorbed, or it is passed on: the node is
black, and so are its other child and that child's children. `Repaired path t w` says that `w` is the
repaired tree. The repair keeps the in-order sequence and always restores the balance.
-/

namespace RedBlackTrees

variable {ν : Type*}

/-- A black node with black children. -/
def ColoredTree.Calm : ColoredTree ν → Prop
  | .node .blk left _ right => left.color = .blk ∧ right.color = .blk
  | _ => False

/-- The node passes a deficit on. -/
def TreeFrame.Calm (frame : TreeFrame ν) : Prop := frame.color = .blk ∧ frame.other.Calm

/-- The subtree after its node has passed on the deficit of the hole. -/
def TreeFrame.pass (frame : TreeFrame ν) (t : ColoredTree ν) : ColoredTree ν :=
  .join frame.side .blk frame.addr t (frame.other.recolor .red)

open ColoredTree TreePath

variable {side : Side} {c d : NodeColor} {a b x y z : ν} {s t u w near far near' far' : ColoredTree ν} {frame : TreeFrame ν}
  {path up inner : TreePath ν} {m n : ℕ}

theorem calm_join : (join side c x near far).Calm ↔ c = .blk ∧ near.color = .blk ∧ far.color = .blk := by
  cases side <;> cases c <;> simp [join, ColoredTree.Calm, and_comm]

/-- The node above the hole and its other child, a black one, absorb the deficit. -/
inductive Settles : TreeFrame ν → ColoredTree ν → ColoredTree ν → Prop
  | recolor {side : Side} {a x : ν} {t near far : ColoredTree ν} : near.color = .blk → far.color = .blk →
      Settles ⟨side, .red, a, join side .blk x near far⟩ t (join side .blk a t (join side .red x near far))
  | inner {side : Side} {c : NodeColor} {a x y : ν} {t near' far' far : ColoredTree ν} : far.color = .blk →
      Settles ⟨side, c, a, join side .blk x (join side .red y near' far') far⟩ t
        (join side c y (join side .blk a t near') (join side .blk x far' far))
  | outer {side : Side} {c : NodeColor} {a x z : ν} {t near near' far' : ColoredTree ν} :
      Settles ⟨side, c, a, join side .blk x near (join side .red z near' far')⟩ t
        (join side c x (join side .blk a t near) (join side .blk z near' far'))

/-- The node above the hole absorbs the deficit; a red other child is first rotated above it. -/
inductive Absorbs : TreeFrame ν → ColoredTree ν → ColoredTree ν → Prop
  | settled {frame : TreeFrame ν} {t u : ColoredTree ν} : Settles frame t u → Absorbs frame t u
  | redSibling {side : Side} {a x : ν} {t u near far : ColoredTree ν} : Settles ⟨side, .red, a, near⟩ t u →
      Absorbs ⟨side, .blk, a, join side .red x near far⟩ t (join side .blk x u far)

/-- The repair of a deficit in the hole of a path. -/
inductive Repaired : TreePath ν → ColoredTree ν → ColoredTree ν → Prop
  | root {t : ColoredTree ν} : Repaired [] t t
  | absorbed {frame : TreeFrame ν} {up : TreePath ν} {t u : ColoredTree ν} :
      Absorbs frame t u → Repaired (frame :: up) t (fill up u)
  | passed {frame : TreeFrame ν} {up : TreePath ν} {t w : ColoredTree ν} :
      frame.Calm → Repaired up (frame.pass t) w → Repaired (frame :: up) t w

/-- A settled deficit is not in the third case. -/
theorem Settles.restless {frame : TreeFrame ν} (settles : Settles frame t u) : ¬ frame.Calm := by
  intro calm
  cases settles with
  | recolor => cases calm.1
  | inner => simpa using (calm_join.mp calm.2).2.1
  | outer => simpa using (calm_join.mp calm.2).2.2

/-! ## The in-order sequence -/

theorem Settles.inorder (settles : Settles frame t u) : u.inorder = (frame.plug t).inorder := by
  cases settles with
  | @recolor side => cases side <;> simp [TreeFrame.plug, join, ColoredTree.inorder]
  | @inner side => cases side <;> simp [TreeFrame.plug, join, ColoredTree.inorder]
  | @outer side => cases side <;> simp [TreeFrame.plug, join, ColoredTree.inorder]

theorem Absorbs.inorder (absorbs : Absorbs frame t u) : u.inorder = (frame.plug t).inorder := by
  cases absorbs with
  | settled settles => exact settles.inorder
  | @redSibling side _ _ _ _ _ _ settles =>
    have within := settles.inorder
    cases side <;> simp_all [TreeFrame.plug, join, ColoredTree.inorder]

theorem TreeFrame.inorder_pass : (frame.pass t).inorder = (frame.plug t).inorder := by
  obtain ⟨side, c, a, other⟩ := frame
  cases side <;> simp [TreeFrame.pass, TreeFrame.plug, join, ColoredTree.inorder]

theorem Repaired.inorder (repaired : Repaired path t w) : w.inorder = (fill path t).inorder := by
  induction repaired with
  | root => rfl
  | absorbed absorbs => exact inorder_fill_congr absorbs.inorder
  | passed _ _ ih => exact ih.trans (inorder_fill_congr TreeFrame.inorder_pass)

/-! ## The balance -/

/-- The height that the hole of a settled node's parent expects. -/
def heightAbove (c : NodeColor) (n : ℕ) : ℕ :=
  match c with
  | .red => n + 1
  | .blk => n + 2

theorem balanced_above (first : Balanced s .blk (n + 1)) (second : Balanced t .blk (n + 1)) :
    Balanced (join side c a s t) c (heightAbove c n) := by
  cases c with
  | red => exact balanced_red_iff.mpr ⟨rfl, first, second⟩
  | blk =>
    exact balanced_blk_iff.mpr
      ⟨rfl, _, rfl, first.color_eq.symm ▸ first, second.color_eq.symm ▸ second⟩

/-- A node that is red, or whose other child has a red child, absorbs the deficit. -/
theorem exists_settles (side : Side) (short : Balanced t .blk n) (first : Balanced near near.color n)
    (second : Balanced far far.color n) (restless : ¬ (c = .blk ∧ near.color = .blk ∧ far.color = .blk)) :
    ∃ u, Settles ⟨side, c, a, join side .blk x near far⟩ t u ∧ Balanced u u.color (heightAbove c n) ∧
      (c = .blk → u.color = .blk) := by
  by_cases outer : far.color = .red
  · rw [outer] at second
    obtain ⟨z, near', far', rfl, third, fourth⟩ := second.children_red side
    have whole : Balanced (join side c x (join side .blk a t near) (join side .blk z near' far')) c
        (heightAbove c n) :=
      balanced_above (balanced_black short first) (balanced_black third fourth)
    exact ⟨_, .outer, whole.color_eq.symm ▸ whole, fun black => whole.color_eq.trans black⟩
  · have quiet := eq_blk_of_ne outer
    by_cases inner : near.color = .red
    · rw [inner] at first
      obtain ⟨y, near', far', rfl, third, fourth⟩ := first.children_red side
      have whole : Balanced (join side c y (join side .blk a t near') (join side .blk x far' far)) c
          (heightAbove c n) :=
        balanced_above (balanced_black short third) (balanced_black fourth second)
      exact ⟨_, .inner quiet, whole.color_eq.symm ▸ whole, fun black => whole.color_eq.trans black⟩
    · have still := eq_blk_of_ne inner
      cases c with
      | blk => exact absurd ⟨rfl, still, quiet⟩ restless
      | red =>
        have lower : Balanced (join side .red x near far) .red n :=
          balanced_red_iff.mpr ⟨rfl, still ▸ first, quiet ▸ second⟩
        have whole : Balanced (join side .blk a t (join side .red x near far)) .blk (n + 1) :=
          balanced_black short lower
        exact ⟨_, .recolor still quiet, whole.color_eq.symm ▸ whole, fun black => by cases black⟩

/-- Every deficit is repaired. -/
theorem exists_repaired (short : Balanced t .blk n) (fits : Fits path .blk (n + 1)) :
    ∃ w, Repaired path t w ∧ ∃ m, Balanced w .blk m := by
  induction path generalizing t n with
  | nil => exact ⟨t, .root, n, short⟩
  | cons frame up ih =>
    cases fits with
    | @red side a other up _ sibling above =>
      obtain ⟨x, near, far, rfl, first, second⟩ := sibling.children side
      obtain ⟨u, settles, balanced, _⟩ := exists_settles (c := .red) (a := a) (x := x) side short first second
        fun ⟨red, _⟩ => by cases red
      refine ⟨_, .absorbed (.settled settles), ?_⟩
      cases color : u.color with
      | red => exact above.fill (color ▸ balanced)
      | blk => exact above.black.fill (color ▸ balanced)
    | @blk side a other up _ d _ sibling above =>
      cases d with
      | red =>
        obtain ⟨x, near, far, rfl, first, second⟩ := sibling.children_red side
        obtain ⟨y, near', far', rfl, third, fourth⟩ := first.children side
        obtain ⟨u, settles, balanced, _⟩ :=
            exists_settles (c := .red) (a := a) (x := y) side short third fourth
          fun ⟨red, _⟩ => by cases red
        exact ⟨_, .absorbed (.redSibling settles), above.fill (balanced_black balanced second)⟩
      | blk =>
        obtain ⟨x, near, far, rfl, first, second⟩ := sibling.children side
        by_cases calm : near.color = .blk ∧ far.color = .blk
        · have red : Balanced (join side .red x near far) .red n := sibling.redden calm.1 calm.2
          have passed : Balanced (TreeFrame.pass ⟨side, .blk, a, join side .blk x near far⟩ t) .blk
              (n + 1) := by
            rw [TreeFrame.pass, recolor_join]
            exact balanced_black short red
          obtain ⟨w, repaired, balanced⟩ := ih passed above
          exact ⟨w, .passed ⟨rfl, calm_join.mpr ⟨rfl, calm⟩⟩ repaired, balanced⟩
        · obtain ⟨u, settles, balanced, black⟩ :=
              exists_settles (c := .blk) (a := a) (x := x) side short first
            second fun ⟨_, both⟩ => calm both
          exact ⟨_, .absorbed (.settled settles), above.fill (black rfl ▸ balanced)⟩

/-! ## Where a deficit stops -/

theorem Absorbs.restless (absorbs : Absorbs frame t u) : ¬ frame.Calm := by
  cases absorbs with
  | settled settles => exact settles.restless
  | redSibling => exact fun calm => by simpa using (calm_join.mp calm.2).1

/-- A deficit leaves the lower part of a path exactly when all nodes there are calm. -/
theorem Repaired.lower (repaired : Repaired (inner ++ up) t w) :
    (∀ frame ∈ inner, frame.Calm) ∧ (∃ u, Repaired up u w) ∨ ¬ (∀ frame ∈ inner, frame.Calm) ∧
      ∃ u, w = fill up u := by
  induction inner generalizing t with
  | nil => exact .inl ⟨fun _ member => (List.not_mem_nil member).elim, t, repaired⟩
  | cons frame inner ih =>
    rw [List.cons_append] at repaired
    cases repaired with
    | @absorbed _ _ _ u absorbs =>
      exact .inr ⟨fun calm => absorbs.restless (calm frame List.mem_cons_self), fill inner u, fill_append⟩
    | passed calm further =>
      rcases ih further with ⟨rest, u, above⟩ | ⟨rest, above⟩
      · exact .inl ⟨List.forall_mem_cons.mpr ⟨calm, rest⟩, u, above⟩
      · exact .inr ⟨fun all => rest fun frame member => all frame (List.mem_cons_of_mem _ member), above⟩

/-- The subtree with the deficit stays below its node, unless it was the whole tree. -/
theorem Absorbs.keeps (absorbs : Absorbs frame t u) :
    ∃ inner, u = fill inner t ∧ top? inner = some frame.addr := by
  have settled {frame : TreeFrame ν} {u : ColoredTree ν} (settles : Settles frame t u) :
      ∃ inner, u = fill inner t ∧ top? inner = some frame.addr := by
    cases settles with
    | @recolor side a x t near far => exact ⟨[⟨side, .blk, a, join side .red x near far⟩], rfl, rfl⟩
    | @inner side c a x y t near' far' far =>
      exact ⟨[⟨side, .blk, a, near'⟩, ⟨side, c, y, join side .blk x far' far⟩], rfl, rfl⟩
    | @outer side c a x z t near near' far' =>
      exact ⟨[⟨side, .blk, a, near⟩, ⟨side, c, x, join side .blk z near' far'⟩], rfl, rfl⟩
  cases absorbs with
  | settled settles => exact settled settles
  | @redSibling side a x t u near far settles =>
    obtain ⟨inner, rfl, top⟩ := settled settles
    refine ⟨inner ++ [⟨side, .blk, x, far⟩], by rw [fill_append]; rfl, ?_⟩
    cases inner with
    | nil => cases top
    | cons frame inner => exact top

theorem top?_append (nonempty : inner ≠ []) : top? (inner ++ up) = top? inner := by
  cases inner with
  | nil => exact absurd rfl nonempty
  | cons frame inner => rfl

/-- The repair leaves the node above the deficit where it is above the deficit. -/
theorem Repaired.keeps (repaired : Repaired path t w) :
    ∃ path', w = fill path' t ∧ top? path' = top? path := by
  induction repaired with
  | root => exact ⟨[], rfl, rfl⟩
  | @absorbed frame up t u absorbs =>
    obtain ⟨inner, rfl, top⟩ := absorbs.keeps
    have nonempty : inner ≠ [] := fun empty => by
      rw [empty] at top
      cases top
    exact ⟨inner ++ up, fill_append.symm, (top?_append nonempty).trans top⟩
  | @passed frame up t w _ _ ih =>
    obtain ⟨path', rfl, _⟩ := ih
    exact ⟨⟨frame.side, .blk, frame.addr, frame.other.recolor .red⟩ :: path', rfl, rfl⟩

/-- Settling a deficit leaves the node in place when its other child is calm. Otherwise a rotation moves it
below a node of its other subtree. -/
theorem Settles.node (settles : Settles frame t u) :
    ∃ inner other, u = fill inner (join frame.side .blk frame.addr t other) ∧
    (frame.other.Calm ∧ inner = [] ∨ ¬ frame.other.Calm ∧ ∃ x ∈ frame.other.inorder, top? inner =
      some x) := by
  cases settles with
  | @recolor side a x t near far first second =>
    exact ⟨[], join side .red x near far, rfl, .inl ⟨calm_join.mpr ⟨rfl, first, second⟩, rfl⟩⟩
  | @inner side c a x y t near' far' far =>
    refine ⟨[⟨side, c, y, join side .blk x far' far⟩], near', rfl, .inr ⟨?_, y, ?_, rfl⟩⟩
    · exact fun calm => by simpa using (calm_join.mp calm).2.1
    · exact mem_join.mpr (.inr (.inl (mem_join.mpr (.inl rfl))))
  | @outer side c a x z t near near' far' =>
    refine ⟨[⟨side, c, x, join side .blk z near' far'⟩], near, rfl,
      .inr ⟨?_, x, mem_join.mpr (.inl rfl), rfl⟩⟩
    exact fun calm => by simpa using (calm_join.mp calm).2.2

theorem Absorbs.node (absorbs : Absorbs frame t u) :
    ∃ inner other, u = fill inner (join frame.side .blk frame.addr t other) ∧
    (frame.other.Calm ∧ inner = [] ∨ ¬ frame.other.Calm ∧ ∃ x ∈ frame.other.inorder, top? inner =
      some x) := by
  cases absorbs with
  | settled settles => exact settles.node
  | @redSibling side a x t u near far settles =>
    obtain ⟨inner, other, rfl, place⟩ := settles.node
    have red : ¬ (join side .red x near far).Calm := fun calm => by simpa using (calm_join.mp calm).1
    refine ⟨inner ++ [⟨side, .blk, x, far⟩], other, by rw [fill_append]; rfl, .inr ⟨red, ?_⟩⟩
    rcases place with ⟨_, rfl⟩ | ⟨_, y, member, top⟩
    · exact ⟨x, mem_join.mpr (.inl rfl), rfl⟩
    · refine ⟨y, mem_join.mpr (.inr (.inl member)), (top?_append fun empty => ?_).trans top⟩
      rw [empty] at top
      cases top

/-- Taking out the first node of the tree leaves it one black node short. -/
def ColoredTree.Starved : ColoredTree ν → Prop
  | .nil => False
  | .node c .nil _ right => c = .blk ∧ right = .nil
  | .node c left _ right => (c = .blk ∧ right.Calm) ∧ left.Starved

/-- The first node of a tree, behind a path of left children. The tree is starved when the node is a black
leaf and all nodes of the path are calm. -/
theorem exists_first (nonempty : t ≠ .nil) : ∃ spine c a right, t = fill spine (.node c .nil a right) ∧
    (∀ frame ∈ spine, frame.side = .left) ∧
      (t.Starved ↔ (c = .blk ∧ right = .nil) ∧ ∀ frame ∈ spine, frame.Calm) := by
  induction t with
  | nil => exact absurd rfl nonempty
  | node c left a right ih _ =>
    cases left with
    | nil => exact ⟨[], c, a, right, rfl, nofun, by simp [ColoredTree.Starved]⟩
    | node d left' b right' =>
      obtain ⟨spine, e, z, last, same, sides, starved⟩ := ih nofun
      refine ⟨spine ++ [⟨.left, c, a, right⟩], e, z, last, by rw [fill_append, ← same]; rfl, ?_, ?_⟩
      · intro frame member
        rcases List.mem_append.mp member with lower | (_ | ⟨_, none⟩)
        · exact sides frame lower
        · rfl
        · cases none
      · rw [ColoredTree.Starved, starved]
        · simp only [List.forall_mem_append, List.forall_mem_singleton, TreeFrame.Calm]
          tauto
        · nofun

end RedBlackTrees
