import RubberOS.Proofs.BuddyCalls
import RubberOS.Soundness.BuddyRuns

/-! # Releases of free blocks
 `buddy_dealloc` asserts that the bit of the block it gives back is clear, and asserts the same of each block it
merges into. A free block is marked at one level only, where the merging of earlier releases left it. The
assertions see that mark only on the way up, which ends at the first sibling that is not marked. This file settles,
for every state that any calls reach, which releases of free units they detect. -/

namespace RubberOS.Soundness.BuddyDoubleFree

open Model Model.Buddy Dyadic LabelledRuns

/-- The calls of any client, with any arguments. -/
inductive Call where
  | alloc (len : ℕ)
  | dealloc (addr len : ℕ)

def exec (buddy : BuddyBlocks) : Call → Result BuddyBlocks
  | .alloc len => do
    let (_, buddy) ← buddyAllocSlice buddy len
    return buddy
  | .dealloc addr len => buddyDealloc buddy addr len

/-- A finite run of calls from a fresh pool. -/
abbrev Reaches (pool : BuddyBlocks) : List Call → BuddyBlocks → Prop :=
  Run (fun buddy c after => exec buddy c = .ok after) pool

/-- The unit lies in a block of the data area whose bit is set. -/
def MarkedFree (buddy : BuddyBlocks) (u : ℕ) : Prop :=
  ∃ l < buddy.bitmapsLen, u / 2 ^ l < buddy.units / 2 ^ l ∧ buddy.levelBit l (u / 2 ^ l) = true

/-- The block itself, a larger block that contains it or a smaller one inside it is marked free. -/
def Overlaps (buddy : BuddyBlocks) (block : Selection) : Prop :=
  ∃ u ∈ dyadic block.bitmapIdxFit block.blockIndex, MarkedFree buddy u

section Runs

variable {memory : Memory} {bitmaps : ℕ → BlockBitmap} {startAddr totalLen : ℕ} {pool buddy after : BuddyBlocks}
variable {calls : List Call} {c : Call} {addr len : ℕ} {block : Selection}

private theorem describes_exec (describes : Describes pool buddy) (ran : exec buddy c = .ok after) :
    Describes pool after := by
  cases c with
  | alloc len =>
    simp only [exec, Except.bind_ok_iff, Except.pure_ok_iff] at ran
    obtain ⟨⟨slice, _⟩, ran, rfl⟩ := ran
    exact describes.alloc ran
  | dealloc addr len => exact describes.dealloc ran

private theorem Reaches.describes (run : Reaches pool calls buddy) : Describes pool buddy :=
  Run.invariant run (.refl pool) fun _ _ _ describes ran => describes_exec describes ran

/-- After any calls, a release is detected exactly when the merge loop meets a set bit. -/
private theorem buddyDealloc_panics_iff (placed : Placed pool) (describes : Describes pool buddy) (positive : 0 < len)
    (selected : selectedBlock buddy addr len = .ok block) :
    (∃ text, buddyDealloc buddy addr len = .error (.panic text)) ↔
      Caught buddy block.bitmapIdxFit block.blockIndex := by
  have facts := selectedBlock_ok_iff.mp selected
  have level := facts.level
  have bitmapsLen := describes.bitmapsLen_eq
  obtain ⟨stops, returns⟩ := mergeUp_eq placed describes ((describes.selected_iff.mp facts).index_le placed)
    (pool.bitmapsLen - block.bitmapIdxFit) (by omega) (by omega)
  rw [buddyDealloc_eq buddy addr (by omega), selected, Except.ok_bind, bitmapsLen]
  constructor
  · rintro ⟨text, failed⟩
    by_contra free
    obtain ⟨after, ran⟩ := returns free
    rw [ran] at failed
    cases failed
  · intro caught
    rw [stops caught]
    exact ⟨_, rfl⟩

/-- In every state that any calls reach, the release of a block with a free unit is detected if and only if the block
is marked free itself, or a block that contains it is and so are all the siblings below that one on the way. -/
theorem release_detected_iff (wide : totalLen < 2 ^ 64)
    (accepted : buddyInit memory bitmaps startAddr totalLen = .ok pool) (run : Reaches pool calls buddy)
    (positive : 0 < len) (selected : selectedBlock buddy addr len = .ok block) :
    (Overlaps buddy block → ∃ text, buddyDealloc buddy addr len = .error (.panic text)) ↔
      ¬Overlaps buddy block ∨ ∃ m, block.bitmapIdxFit + m < buddy.bitmapsLen ∧
        buddy.levelBit (block.bitmapIdxFit + m) (block.blockIndex / 2 ^ m) = true ∧
        ∀ j < m, buddy.levelBit (block.bitmapIdxFit + j) (sibling (block.blockIndex / 2 ^ j)) = true := by
  obtain ⟨placed, _⟩ := buddyInit_placed accepted wide
  rw [buddyDealloc_panics_iff placed (Reaches.describes run) positive selected, ← imp_iff_not_or]
  rfl

/-- One unit is taken and given back, which merges it into the whole data area. -/
def takeAndRelease : List Call := [.alloc 4096, .dealloc 69632 4096]

set_option maxRecDepth 20000 in
private theorem take_and_release_run : ∃ pool buddy after,
    buddyInit (fun _ => 0) (fun _ => ⟨0, 0⟩) 65536 12288 = .ok pool ∧ Reaches pool takeAndRelease buddy ∧
      selectedBlock buddy 69632 4096 = .ok ⟨0, 4096, 0⟩ ∧ buddy.bitmapsLen = 2 ∧ buddy.units = 2 ∧
      buddy.levelBit 1 0 = true ∧ buddyDealloc buddy 69632 4096 = .ok after ∧ after.used = 18446744073709547520 :=
  ⟨_, _, _, rfl, .snoc (.single rfl) rfl, rfl, rfl, rfl, rfl, rfl, rfl⟩

theorem release_detected_iff_two_units : ∃ pool buddy, Reaches pool takeAndRelease buddy ∧
    ((Overlaps buddy ⟨0, 4096, 0⟩ → ∃ text, buddyDealloc buddy 69632 4096 = .error (.panic text)) ↔
      ¬Overlaps buddy ⟨0, 4096, 0⟩ ∨ ∃ m, 0 + m < buddy.bitmapsLen ∧ buddy.levelBit (0 + m) (0 / 2 ^ m) = true ∧
        ∀ j < m, buddy.levelBit (0 + j) (sibling (0 / 2 ^ j)) = true) := by
  obtain ⟨pool, buddy, _, accepted, run, selected, _⟩ := take_and_release_run
  exact ⟨pool, buddy, run, release_detected_iff (by decide) accepted run (by decide) selected⟩

/-- The second release of the unit is not detected, and takes its length off `used` again. -/
theorem second_release_undetected : ∃ pool buddy after,
    buddyInit (fun _ => 0) (fun _ => ⟨0, 0⟩) 65536 12288 = .ok pool ∧ Reaches pool takeAndRelease buddy ∧
      selectedBlock buddy 69632 4096 = .ok ⟨0, 4096, 0⟩ ∧ Overlaps buddy ⟨0, 4096, 0⟩ ∧
      buddyDealloc buddy 69632 4096 = .ok after ∧ after.used = 18446744073709547520 := by
  obtain ⟨pool, buddy, after, accepted, run, selected, levels, units, marked, ran, used⟩ := take_and_release_run
  refine ⟨pool, buddy, after, accepted, run, selected, ⟨0, rfl, 1, ?_, ?_, marked⟩, ran, used⟩
  · rw [levels]
    decide
  · rw [units]
    decide

end Runs

/-! ## After calls that respect the interface -/

section Respectful

variable {pool buddy : BuddyBlocks} {F : Set ℕ} {k i : ℕ}

/-- A block that is not free meets no set bit: a free block above it would contain it. -/
private theorem not_caught (placed : Placed pool) (represents : Represents pool buddy F) (rest : ℕ)
    (levels : k + rest = pool.bitmapsLen) (inside : (i + 1) * 2 ^ k ≤ pool.units) (used : ¬dyadic k i ⊆ F) :
    ¬Caught buddy k i := by
  induction rest generalizing k i with
  | zero =>
    have := (placed.inRange inside).1
    omega
  | succ rest ih =>
    have shown := represents.shown
    have range := placed.inRange inside
    rw [caught_iff (by rw [shown.bitmapsLen_eq]; exact range.1)]
    rintro (own | ⟨marked, caught⟩)
    · exact used ((shown.bit k i range).mp own).1
    · have free := ((shown.bit k _ (inRange_sibling range)).mp marked).1
      have parent := parent_inside (subset_Iio_of_inside inside) (free.trans represents.bounded)
      exact ih (by omega) parent (fun both => used (subset_parent.trans both)) caught

/-- The merge loop of a consistent pool can only stop at its first assertion. -/
private theorem caught_iff_marked (placed : Placed pool) (represents : Represents pool buddy F)
    (inside : (i + 1) * 2 ^ k ≤ pool.units) : Caught buddy k i ↔ buddy.levelBit k i = true := by
  have shown := represents.shown
  have range := placed.inRange inside
  rw [caught_iff (by rw [shown.bitmapsLen_eq]; exact range.1)]
  refine or_iff_left ?_
  rintro ⟨marked, caught⟩
  have maximal := (shown.bit k _ (inRange_sibling range)).mp marked
  have parent := parent_inside (subset_Iio_of_inside inside) (maximal.1.trans represents.bounded)
  have partial_ := maximal.2
  rw [sibling_div] at partial_
  exact not_caught placed represents (pool.bitmapsLen - (k + 1))
    (by have := (placed.inRange parent).1; omega) parent partial_ caught

/-- After a run of calls that respect the interface, the release of a block of the data area is detected exactly when
that block is marked free itself, at its own level. -/
theorem respectful_release_detected_iff {memory : Memory} {bitmaps : ℕ → BlockBitmap} {region : BuddyRuns.PoolRegion}
    {es : List BuddyRuns.Event} {s : BuddyRuns.State} {addr len : ℕ} {block : Selection}
    (accepted : buddyInit memory bitmaps region.startAddr region.totalLen = .ok pool)
    (run : BuddyRuns.Reaches pool es s) (positive : 0 < len) (selected : selectedBlock s.buddy addr len = .ok block)
    (inside : (block.blockIndex + 1) * 2 ^ block.bitmapIdxFit ≤ pool.units) :
    (∃ text, buddyDealloc s.buddy addr len = .error (.panic text)) ↔
      s.buddy.levelBit block.bitmapIdxFit block.blockIndex = true := by
  obtain ⟨layout, _, consistent⟩ := BuddyRuns.Reaches.consistent accepted run
  have shown := consistent.represents.shown
  rw [buddyDealloc_panics_iff layout.toPlaced ⟨shown.same, shown.bits⟩ positive selected,
    caught_iff_marked layout.toPlaced consistent.represents inside]

end Respectful

end RubberOS.Soundness.BuddyDoubleFree
