import RubberOS.Proofs.BuddyCalls

/-! # Marks inside the data area
 Without any assumption on the lengths of blocks, and so on the addresses that are handed out, the marked blocks
still lie in the data area, as long as the released ones do. That is enough for every search to find a marked
block. -/

namespace RubberOS.Model.Buddy

open Dyadic

/-- The counters agree with the bits, and every marked block lies in the data area. -/
def Marked (pool buddy : BuddyBlocks) : Prop :=
  ∃ P, Shows pool buddy P ∧ ∀ k i, P k i → (i + 1) * 2 ^ k ≤ pool.units

section Marks

variable {pool buddy after : BuddyBlocks} {fit k l i : ℕ}

theorem Marked.describes (marked : Marked pool buddy) : Describes pool buddy := by
  obtain ⟨P, shown, _⟩ := marked
  exact ⟨shown.same, shown.bits⟩

private theorem Marked.set0 (placed : Placed pool) (marked : Marked pool buddy)
    (inside : (i + 1) * 2 ^ k ≤ pool.units) :
    Marked pool (set0 buddy k i) := by
  obtain ⟨P, shown, area⟩ := marked
  exact ⟨_, shown.set0 placed (placed.inRange inside), fun l j set => area l j set.1⟩

private theorem Marked.set1 (placed : Placed pool) (marked : Marked pool buddy)
    (inside : (i + 1) * 2 ^ k ≤ pool.units) :
    Marked pool (set1 buddy k i) := by
  obtain ⟨P, shown, area⟩ := marked
  refine ⟨_, shown.set1 placed (placed.inRange inside), ?_⟩
  rintro l j (old | ⟨rfl, rfl⟩)
  · exact area l j old
  · exact inside

theorem Marked.setUsed (marked : Marked pool buddy) (used : ℕ) : Marked pool { buddy with used } := by
  obtain ⟨P, shown, area⟩ := marked
  exact ⟨P, shown.setUsed used, area⟩

private theorem Marked.splitDown (fit : ℕ) (placed : Placed pool) (marked : Marked pool buddy)
    (inside : (i + 1) * 2 ^ k ≤ pool.units) :
    Marked pool (splitDown fit k i buddy) := by
  induction k generalizing buddy i with
  | zero => exact marked
  | succ k ih =>
    rw [Buddy.splitDown]
    rw [pow_succ] at inside
    split_ifs
    · exact ih (marked.set1 placed (by linarith)) (by linarith [Nat.two_pow_pos k])
    · exact marked

/-- The merge loop marks blocks of the data area only, when it starts with one. -/
theorem Marked.mergeUp (placed : Placed pool) (marked : Marked pool buddy) (inside : (i + 1) * 2 ^ k ≤ pool.units)
    {rest : ℕ} (ran : mergeUp rest k i buddy = .ok after) : Marked pool after := by
  induction rest generalizing buddy k i with
  | zero => cases ran
  | succ rest ih =>
    simp only [Buddy.mergeUp, Except.bind_ok_iff] at ran
    obtain ⟨_, _, ran⟩ := ran
    have set := marked.set1 placed inside
    split_ifs at ran with alone top
    · cases ran
      exact set
    · cases ran
      exact set
    · have siblingInside : (sibling i + 1) * 2 ^ k ≤ pool.units := by
        obtain ⟨P, shown, area⟩ := set
        have free : (Buddy.set1 buddy k i).levelBit k (sibling i) = true := by
          rw [sibling]
          simpa using alone
        exact area _ _ ((shown.bit k _ (inRange_sibling (placed.inRange inside))).mp free)
      have parent := parent_inside (subset_Iio_of_inside inside) (subset_Iio_of_inside siblingInside)
      exact ih ((set.set0 placed siblingInside).set0 placed inside) parent ran

/-- At a level with free blocks, one of them is found and split, and the rest depends on the two shifts only. -/
theorem Marked.takeFrom (fit : ℕ) (placed : Placed pool) (marked : Marked pool buddy) (level : k < pool.bitmapsLen)
    (some : isEmpty (buddy.bitmaps k) = false) : ∃ i after, (i + 1) * 2 ^ k ≤ pool.units ∧ Marked pool after ∧
      takeFrom buddy fit k = do
        let wanted ← intShl BUDDY_UNIT fit
        let whole ← intShl BUDDY_UNIT k
        return (⟨u64 (u64 pool.dataAddr + i * intToSize whole), wanted.toNat⟩,
          { after with used := u64 (after.used + wanted.toNat) }) := by
  have kept := marked
  obtain ⟨P, shown, area⟩ := marked
  obtain ⟨i, found, range, holds⟩ := getFirst1_ok placed shown level some
  have inside := area k i holds
  have split := (kept.set0 placed inside).splitDown fit placed inside
  refine ⟨i, _, inside, split, ?_⟩
  rw [Buddy.takeFrom, found, Except.ok_bind, BuddyBlocks.dataAddr]
  dsimp only
  rw [split.describes.same]

end Marks

end RubberOS.Model.Buddy
