import Mathlib.Order.Interval.Set.Nat
import RubberOS.Proofs.BuddyAlloc

/-! # Release and coalescing

`buddy_dealloc` gives one whole block back. Its merge loop stops exactly when the sibling is not
free, so the state again shows the maximal blocks of the enlarged set.
-/

namespace RubberOS.Model.Buddy

open Dyadic

/-- The page-rounded extent of an address range, as `buddy_dealloc` computes it. -/
def roundedExtent (addr len : ℕ) : ℕ :=
  uptrdivCeil (addr + len) BUDDY_UNIT * BUDDY_UNIT - addr / BUDDY_UNIT * BUDDY_UNIT

/-- What `buddy_dealloc` has checked and computed when it enters its loop. -/
structure Selected (buddy : BuddyBlocks) (addr len : ℕ) (block : Selection) : Prop where
  start : u64 (buddy.startAddr + buddy.dataOffset) ≤ addr / BUDDY_UNIT * BUDDY_UNIT
  inside : addr / BUDDY_UNIT * BUDDY_UNIT <
    u64 (u64 (buddy.startAddr + buddy.dataOffset) + sub64 buddy.totalLen buddy.dataOffset)
  nonempty : u64 (buddy.startAddr + buddy.dataOffset) <
    u64 (uptrdivCeil (u64 (addr + len)) BUDDY_UNIT * BUDDY_UNIT)
  stop : u64 (uptrdivCeil (u64 (addr + len)) BUDDY_UNIT * BUDDY_UNIT) ≤
    u64 (u64 (buddy.startAddr + buddy.dataOffset) + sub64 buddy.totalLen buddy.dataOffset)
  fit : IsFit (sub64 (u64 (uptrdivCeil (u64 (addr + len)) BUDDY_UNIT * BUDDY_UNIT)) (addr / BUDDY_UNIT * BUDDY_UNIT))
    block.bitmapIdxFit
  level : block.bitmapIdxFit < buddy.bitmapsLen
  shift : ∃ x, intShl BUDDY_UNIT block.bitmapIdxFit = .ok x ∧ block.blockLen = intToSize x
  positive : block.blockLen ≠ 0
  index : block.blockIndex =
    sub64 (addr / BUDDY_UNIT * BUDDY_UNIT) (u64 (buddy.startAddr + buddy.dataOffset)) / block.blockLen

section Selection

variable {buddy : BuddyBlocks} {addr len : ℕ} {block : Selection}

theorem selectedBlock_ok_iff : selectedBlock buddy addr len = .ok block ↔ Selected buddy addr len block := by
  simp only [selectedBlock, Except.bind_ok_iff, assert_ok_iff, decide_eq_true_eq, Except.pure_ok_iff,
    bitmapIndexForSize_ok_iff, sizeDiv]
  constructor
  · rintro ⟨_, ⟨start, inside⟩, _, ⟨nonempty, stop⟩, fit, ⟨_, isFit⟩, _, level, x, shift, index, divided, rfl⟩
    split_ifs at divided with zero
    cases divided
    exact ⟨start, inside, nonempty, stop, isFit, level, ⟨x, shift, rfl⟩, zero, rfl⟩
  · intro selected
    obtain ⟨x, shift, blockLen⟩ := selected.shift
    have narrow : block.bitmapIdxFit ≤ 51 := by
      rcases intShl_unit_cases shift with ⟨_, _⟩ | ⟨_, _⟩ | ⟨_, _, _⟩ <;> omega
    refine ⟨(), ⟨selected.start, selected.inside⟩, (), ⟨selected.nonempty, selected.stop⟩, block.bitmapIdxFit,
      ⟨narrow, selected.fit⟩, (), selected.level, x, shift, block.blockIndex, ?_, ?_⟩
    · rw [← blockLen, if_neg selected.positive, selected.index]
    · rw [← blockLen]

end Selection

section Dealloc

variable {pool buddy : BuddyBlocks} {F : Set ℕ} {k i : ℕ}

private theorem parent_eq_union : dyadic (k + 1) (i / 2) = dyadic k i ∪ dyadic k (sibling i) :=
  Set.ext fun _ => mem_parent_iff

/-- A block and a free sibling inside the data area have a parent inside it. -/
theorem parent_inside {n : ℕ} (own : dyadic k i ⊆ Set.Iio n) (other : dyadic k (sibling i) ⊆ Set.Iio n) :
    (i / 2 + 1) * 2 ^ (k + 1) ≤ n := by
  have whole : dyadic (k + 1) (i / 2) ⊆ Set.Iio n := by
    rw [parent_eq_union]
    exact Set.union_subset own other
  exact (Nat.le_div_iff_mul_le (Nat.two_pow_pos _)).mp (dyadic_subset_Iio_iff.mp whole)

theorem subset_Iio_of_inside {n : ℕ} (inside : (i + 1) * 2 ^ k ≤ n) : dyadic k i ⊆ Set.Iio n :=
  dyadic_subset_Iio_iff.mpr ((Nat.le_div_iff_mul_le (Nat.two_pow_pos _)).mpr inside)

/-- The merge loop returns a taken block to the free set and keeps it coalesced. -/
private theorem mergeUp_spec (placed : Placed pool) (shown : Shows pool buddy (Maximal F))
    (bounded : ∀ u ∈ F, u < pool.units) (fresh : Disjoint (dyadic k i) F)
    (inside : (i + 1) * 2 ^ k ≤ pool.units) (rest : ℕ) (levels : k + rest = pool.bitmapsLen) :
    ∃ after, mergeUp rest k i buddy = .ok after ∧ Shows pool after (Maximal (F ∪ dyadic k i)) ∧
      after.used = buddy.used := by
  induction rest generalizing buddy F k i with
  | zero =>
    have := (placed.inRange inside).1
    omega
  | succ rest ih =>
    have range := placed.inRange inside
    have siblingRange := inRange_sibling range
    have taken : ¬ Maximal F k i := fun maximal =>
      Set.disjoint_left.mp fresh first_mem (maximal.1 first_mem)
    have clear : buddy.levelBit k i = false := by
      rw [← Bool.not_eq_true]
      exact mt (shown.bit k i range).mp taken
    have set := shown.set1 placed range
    have siblingBit : (set1 buddy k i).levelBit k (i ^^^ 1) = true ↔ dyadic k (sibling i) ⊆ F := by
      rw [← maximal_sibling_iff fresh, set.bit k (i ^^^ 1) siblingRange]
      have other := sibling_ne (i := i)
      exact or_iff_left fun both => other both.2
    rw [mergeUp, clear, assert_of (by rfl), Except.ok_bind]
    dsimp only
    by_cases free : dyadic k (sibling i) ⊆ F
    · have parent := parent_inside (subset_Iio_of_inside inside) (free.trans bounded)
      have higher := (placed.inRange parent).1
      have grown : F \ dyadic k (sibling i) ∪ dyadic (k + 1) (i / 2) = F ∪ dyadic k i := by
        ext u
        have member := @free u
        rw [parent_eq_union]
        simp only [Set.mem_union, Set.mem_sdiff]
        tauto
      have cleared : Shows pool (set0 (set0 (set1 buddy k i) k (i ^^^ 1)) k i)
          (Maximal (F \ dyadic k (sibling i))) := by
        refine ((set.set0 placed siblingRange).set0 placed range).congr fun l j _ => ?_
        rw [maximal_diff ((maximal_sibling_iff fresh).mpr free)]
        constructor
        · rintro ⟨⟨old | own, other⟩, notOwn⟩
          · exact ⟨old, other⟩
          · exact (notOwn own).elim
        · rintro ⟨old, other⟩
          refine ⟨⟨.inl old, other⟩, ?_⟩
          rintro ⟨rfl, rfl⟩
          exact taken old
      have freshParent : Disjoint (dyadic (k + 1) (i / 2)) (F \ dyadic k (sibling i)) := by
        rw [parent_eq_union]
        exact Set.disjoint_union_left.mpr ⟨fresh.mono_right Set.sdiff_subset, Set.disjoint_sdiff_right⟩
      obtain ⟨after, ran, afterShown, used⟩ :=
        ih cleared (fun u member => bounded u member.1) freshParent parent
        (by omega)
      rw [grown] at afterShown
      refine ⟨after, ?_, afterShown, used⟩
      rw [siblingBit.mpr free, if_neg (by decide), if_neg (by rw [set.bitmapsLen_eq]; omega)]
      exact ran
    · have stays : (set1 buddy k i).levelBit k (i ^^^ 1) = false := by
        rw [← Bool.not_eq_true]
        exact mt siblingBit.mp free
      refine ⟨set1 buddy k i, ?_, set.congr fun l j _ => (maximal_union fresh free).symm, rfl⟩
      rw [stays]
      rfl

/-- What the naming of a range inside a block makes `buddy_dealloc` compute. -/
theorem rounded_bounds {start addr len : ℕ} (n m : ℕ) (aligned : start % BUDDY_UNIT = 0)
    (lower : start + n * BUDDY_UNIT ≤ addr) (upper : addr + len ≤ start + (n + m) * BUDDY_UNIT)
    (positive : len ≠ 0) :
    start + n * BUDDY_UNIT ≤ addr / BUDDY_UNIT * BUDDY_UNIT ∧
      addr / BUDDY_UNIT * BUDDY_UNIT < uptrdivCeil (addr + len) BUDDY_UNIT * BUDDY_UNIT ∧
      uptrdivCeil (addr + len) BUDDY_UNIT * BUDDY_UNIT ≤ start + (n + m) * BUDDY_UNIT := by
  obtain ⟨above, below⟩ := uptrdivCeil_bounds (addr + len) (y := BUDDY_UNIT) (by decide)
  simp only [BUDDY_UNIT] at *
  omega

/-- The release of a selected block that is taken gives back all of it and its bytes. -/
theorem release_spec (placed : Placed pool) (represents : Represents pool buddy F) (fresh : Disjoint (dyadic k i) F)
    (inside : (i + 1) * 2 ^ k ≤ pool.units) {addr len : ℕ} (positive : len ≠ 0)
    (selected : selectedBlock buddy addr len = .ok ⟨k, BUDDY_UNIT * 2 ^ k, i⟩) :
    ∃ after, buddyDealloc buddy addr len = .ok after ∧ Represents pool after (F ∪ dyadic k i) ∧
      after.used + BUDDY_UNIT * 2 ^ k = buddy.used := by
  have shown := represents.shown
  have few := placed.units_lt
  have level := (placed.inRange inside).1
  obtain ⟨after, ran, afterShown, used⟩ := mergeUp_spec placed shown represents.bounded fresh inside
    (pool.bitmapsLen - k) (by omega)
  have finite : F.Finite := (Set.finite_Iio pool.units).subset represents.bounded
  have added := Set.ncard_union_eq fresh.symm finite dyadic_finite
  have balance := represents.used
  have capacity : (F ∪ dyadic k i).ncard ≤ pool.units := by
    rw [← Set.ncard_Iio_nat pool.units]
    refine Set.ncard_le_ncard (Set.union_subset represents.bounded (subset_Iio_of_inside inside))
      (Set.finite_Iio _)
  rw [dyadic_ncard] at added
  rw [added] at capacity
  have room := Nat.mul_le_mul_left BUDDY_UNIT capacity
  rw [Nat.mul_add] at room
  have size : BUDDY_UNIT * pool.units < 2 ^ 64 := by
    simp only [BUDDY_UNIT]
    omega
  have taken : sub64 after.used (BUDDY_UNIT * 2 ^ k) = buddy.used - BUDDY_UNIT * 2 ^ k := by
    rw [used, sub64_of_le (by omega) (by omega)]
  refine ⟨{ after with used := sub64 after.used (BUDDY_UNIT * 2 ^ k) }, ?_, ⟨afterShown.setUsed _, ?_, ?_⟩, ?_⟩
  · rw [buddyDealloc_eq buddy addr positive, selected, Except.ok_bind, shown.bitmapsLen_eq]
    dsimp only
    rw [ran]
    rfl
  · rintro u (old | own)
    · exact represents.bounded u old
    · exact subset_Iio_of_inside inside own
  · rw [added, Nat.mul_add]
    dsimp only
    rw [taken]
    omega
  · dsimp only
    rw [taken]
    omega

/-- A range inside a block whose extent rounds up to the block selects it. -/
private theorem selectedBlock_eq (layout : Layout pool) (represents : Represents pool buddy F)
    (inside : (i + 1) * 2 ^ k ≤ pool.units) {addr len : ℕ} (positive : len ≠ 0) (lower : (pool.block k i).ptr ≤ addr)
    (upper : addr + len ≤ (pool.block k i).ptr + (pool.block k i).length) (isFit : IsFit (roundedExtent addr len) k) :
    selectedBlock buddy addr len = .ok ⟨k, BUDDY_UNIT * 2 ^ k, i⟩ := by
  have shown := represents.shown
  have bytes := block_bytes inside
  have bound := layout.bounded
  have total := layout.total
  have positiveLen : 0 < BUDDY_UNIT * 2 ^ k := Nat.mul_pos (by decide) (Nat.two_pow_pos k)
  have alignedStart : pool.dataAddr % BUDDY_UNIT = 0 := layout.aligned
  have shape : i * (BUDDY_UNIT * 2 ^ k) = i * 2 ^ k * BUDDY_UNIT := by ring
  have width : (i * 2 ^ k + 2 ^ k) * BUDDY_UNIT = i * (BUDDY_UNIT * 2 ^ k) + BUDDY_UNIT * 2 ^ k := by ring
  rw [BuddyBlocks.block] at lower upper
  dsimp only at lower upper
  obtain ⟨start, nonempty, stop⟩ := @rounded_bounds _ addr len (i * 2 ^ k) (2 ^ k) alignedStart
    (by omega) (by omega) positive
  rw [width] at stop
  rw [← shape] at start
  have extent : roundedExtent addr len = uptrdivCeil (addr + len) BUDDY_UNIT * BUDDY_UNIT -
    addr / BUDDY_UNIT * BUDDY_UNIT := rfl
  have startAddr : buddy.startAddr = pool.startAddr := by rw [shown.same]
  have dataOffset : buddy.dataOffset = pool.dataOffset := by rw [shown.same]
  have totalLen : buddy.totalLen = pool.totalLen := by rw [shown.same]
  have level := (layout.inRange inside).1
  have levels := layout.bitmapsLen_le
  have dataAddr : pool.dataAddr = pool.startAddr + pool.dataOffset := rfl
  have index : (addr / BUDDY_UNIT * BUDDY_UNIT - pool.dataAddr) / (BUDDY_UNIT * 2 ^ k) = i := by
    rw [Nat.div_eq_iff positiveLen]
    omega
  obtain ⟨shift, shifted, _, shiftedSize⟩ := intShl_unit (s := k) (by omega)
  have dataStart : u64 (buddy.startAddr + buddy.dataOffset) = pool.dataAddr := by
    rw [startAddr, dataOffset, ← dataAddr, u64_of_lt (by omega)]
  have dataEnd : u64 (pool.dataAddr + sub64 buddy.totalLen buddy.dataOffset) = pool.startAddr + pool.totalLen := by
    rw [totalLen, dataOffset, sub64_of_le (by omega) (by omega), u64_of_lt (by omega)]
    omega
  have alignedEnd : u64 (uptrdivCeil (u64 (addr + len)) BUDDY_UNIT * BUDDY_UNIT) =
      uptrdivCeil (addr + len) BUDDY_UNIT * BUDDY_UNIT := by
    rw [u64_of_lt (n := addr + len) (by omega), u64_of_lt (by omega)]
  refine selectedBlock_ok_iff.mpr ⟨?_, ?_, ?_, ?_, ?_, ?_, ⟨shift, shifted, shiftedSize.symm⟩, positiveLen.ne', ?_⟩
  · rw [dataStart]
    omega
  · rw [dataStart, dataEnd]
    omega
  · rw [dataStart, alignedEnd]
    omega
  · rw [dataStart, dataEnd, alignedEnd]
    omega
  · rw [alignedEnd, sub64_of_le (by omega) (by omega)]
    exact isFit
  · rw [shown.bitmapsLen_eq]
    exact level
  · rw [dataStart, sub64_of_le (by omega) (by omega)]
    exact index.symm

/-- A range inside a taken block whose extent rounds up to the block gives back the whole block. -/
theorem buddyDealloc_spec (layout : Layout pool) (represents : Represents pool buddy F)
    (fresh : Disjoint (dyadic k i) F) (inside : (i + 1) * 2 ^ k ≤ pool.units) {addr len : ℕ}
    (positive : len ≠ 0) (lower : (pool.block k i).ptr ≤ addr)
    (upper : addr + len ≤ (pool.block k i).ptr + (pool.block k i).length)
    (isFit : IsFit (roundedExtent addr len) k) :
    ∃ after, buddyDealloc buddy addr len = .ok after ∧ Represents pool after (F ∪ dyadic k i) := by
  obtain ⟨after, ran, afterRepresents, _⟩ := release_spec layout.toPlaced represents fresh inside positive
    (selectedBlock_eq layout represents inside positive lower upper isFit)
  exact ⟨after, ran, afterRepresents⟩

end Dealloc

end RubberOS.Model.Buddy
