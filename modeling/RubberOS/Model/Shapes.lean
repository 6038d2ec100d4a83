import Mathlib.Algebra.Group.Int.Defs
import RubberOS.Model.Machine

/-! # Rectangles

Coordinates are integers without a bound here. A sum that leaves `int` has no behaviour in C: the functions with the
arithmetic of C, and that their results are these, are in the namespace `Checked`.
-/

namespace RubberOS.Model.Gui

structure Point where
  x : ℤ
  y : ℤ
deriving DecidableEq, Repr

structure Size where
  width : ℤ
  height : ℤ
deriving DecidableEq, Repr

structure Rect where
  x : ℤ
  y : ℤ
  width : ℤ
  height : ℤ
deriving DecidableEq, Repr

def rectContains (r : Rect) (x y : ℤ) : Bool :=
  r.x ≤ x && x < r.x + r.width && r.y ≤ y && y < r.y + r.height

def rectIntersect (r1 r2 : Rect) : Rect :=
  let x := max r1.x r2.x
  let y := max r1.y r2.y
  let width := min (r1.x + r1.width) (r2.x + r2.width) - x
  let height := min (r1.y + r1.height) (r2.y + r2.height) - y
  if width < 0 ∨ height < 0 then ⟨x, y, 0, 0⟩ else ⟨x, y, width, height⟩

def rectUnion (r1 r2 : Rect) : Rect :=
  if r2.width = 0 ∨ r2.height = 0 then r1
  else if r1.width = 0 ∨ r1.height = 0 then r2
  else
    let x := min r1.x r2.x
    let y := min r1.y r2.y
    { x, y, width := max (r1.x + r1.width) (r2.x + r2.width) - x,
            height := max (r1.y + r1.height) (r2.y + r2.height) - y }

section Membership

variable {a b : Rect} {x y : ℤ}

theorem rectContains_iff :
    rectContains a x y = true ↔ (a.x ≤ x ∧ x < a.x + a.width) ∧ a.y ≤ y ∧ y < a.y + a.height := by
  simp only [rectContains, Bool.and_eq_true, decide_eq_true_eq, and_assoc]

theorem rectContains_intersect :
    rectContains (rectIntersect a b) x y = true ↔ rectContains a x y = true ∧ rectContains b x y = true := by
  simp only [rectContains_iff, rectIntersect]
  split <;> dsimp only <;> omega

/-- A bounding box contains its first rectangle. -/
theorem rectContains_union_left (b : Rect) (inside : rectContains a x y = true) :
    rectContains (rectUnion a b) x y = true := by
  rw [rectContains_iff] at inside
  rw [rectUnion]
  split
  · exact rectContains_iff.mpr inside
  split
  · omega
  · rw [rectContains_iff]
    dsimp only
    omega

/-- A bounding box contains its second rectangle. -/
theorem rectContains_union_right (a : Rect) (inside : rectContains b x y = true) :
    rectContains (rectUnion a b) x y = true := by
  rw [rectContains_iff] at inside
  rw [rectUnion]
  split
  · omega
  split
  · exact rectContains_iff.mpr inside
  · rw [rectContains_iff]
    dsimp only
    omega

/-- The bounding box of an empty rectangle and another one shows the other one. -/
theorem rectContains_union_empty (a : Rect) :
    rectContains (rectUnion ⟨0, 0, 0, 0⟩ a) x y = true ↔ rectContains a x y = true := by
  constructor
  · intro inside
    rw [rectUnion] at inside
    split at inside
    · rw [rectContains_iff] at inside
      dsimp only at inside
      omega
    · rwa [if_pos (.inl rfl)] at inside
  · exact rectContains_union_right _

end Membership

end RubberOS.Model.Gui
