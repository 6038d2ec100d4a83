import Mathlib.Data.List.Pairwise
import Mathlib.Data.Nat.Notation
import Mathlib.Tactic.SplitIfs

/-! # Half-open ranges and how often they cover a point

A range is a pair of its first point and its end. `covering` counts the ranges of a list that hold a
point, and `Spaced` lists are nonempty ranges in ascending order with a gap between neighbours.
-/

namespace SpacedRanges

/-- How many of the ranges hold the point. -/
def covering (ranges : List (ℕ × ℕ)) (point : ℕ) : ℕ :=
  ranges.countP fun range => range.1 ≤ point ∧ point < range.2

/-- Nonempty ranges, each ending before the next begins. -/
structure Spaced (ranges : List (ℕ × ℕ)) : Prop where
  nonempty : ∀ range ∈ ranges, range.1 < range.2
  ascending : ranges.Pairwise fun first second => first.2 < second.1

variable {ranges before after : List (ℕ × ℕ)} {a b c d point : ℕ}

theorem covering_append : covering (before ++ after) point = covering before point + covering after point :=
  List.countP_append

theorem covering_cons : covering ((a, b) :: ranges) point =
    (if a ≤ point ∧ point < b then 1 else 0) + covering ranges point := by
  rw [covering, List.countP_cons, Nat.add_comm]
  simp [covering]

theorem covering_perm (same : before.Perm after) : covering before point = covering after point :=
  same.countP_eq _

/-- Removing one range keeps the others spaced. -/
theorem Spaced.remove (spaced : Spaced (before ++ (a, b) :: after)) : Spaced (before ++ after) := by
  have kept : (before ++ after).Sublist (before ++ (a, b) :: after) :=
    (List.Sublist.refl before).append (List.sublist_cons_self _ _)
  exact ⟨fun range member => spaced.nonempty range (kept.subset member), spaced.ascending.sublist kept⟩

/-- A range inside a gap joins the list there. -/
theorem Spaced.insert (spaced : Spaced (before ++ after)) (nonempty : c < d)
    (left : ∀ range ∈ before, range.2 < c) (right : ∀ range ∈ after, d < range.1) :
    Spaced (before ++ (c, d) :: after) := by
  refine ⟨fun range member => ?_, ?_⟩
  · rcases List.mem_append.mp member with front | (_ | ⟨_, back⟩)
    · exact spaced.nonempty range (List.mem_append_left _ front)
    · exact nonempty
    · exact spaced.nonempty range (List.mem_append_right _ back)
  · have parts := List.pairwise_append.mp spaced.ascending
    refine List.pairwise_append.mpr ⟨parts.1, List.pairwise_cons.mpr ⟨right, parts.2.1⟩,
      fun front first back second => ?_⟩
    rcases second with _ | ⟨_, member⟩
    · exact left front first
    · exact parts.2.2 front first back member

/-- One range may be replaced by any nonempty range within the gaps around it. -/
theorem Spaced.replace (spaced : Spaced (before ++ (a, b) :: after)) (nonempty : c < d)
    (left : ∀ range ∈ before, range.2 < c) (right : ∀ range ∈ after, d < range.1) :
    Spaced (before ++ (c, d) :: after) :=
  spaced.remove.insert nonempty left right

/-- The ranges before and after a member of a spaced list lie beyond its ends. -/
theorem Spaced.around (spaced : Spaced (before ++ (a, b) :: after)) :
    (∀ range ∈ before, range.2 < a) ∧ (∀ range ∈ after, b < range.1) := by
  have parts := List.pairwise_append.mp spaced.ascending
  exact ⟨fun range member => parts.2.2 range member _ (.head _), (List.pairwise_cons.mp parts.2.1).1⟩

end SpacedRanges
