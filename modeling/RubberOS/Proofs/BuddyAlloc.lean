import Mathlib.Tactic.Linarith
import Mathlib.Tactic.Ring
import RubberOS.Proofs.BuddyBitmaps

/-! # Allocation from a coalesced pool

A state `Represents` a set of free units when its bitmaps show the maximal blocks of that set and
its counter agrees with the rest. `buddy_alloc_slice` then either takes one aligned block out of
the set, or leaves the state alone because the set contains no block of the wanted level.
-/

namespace RubberOS.Model.Buddy

open Dyadic

/-- The least level whose blocks hold a length. -/
structure IsFit (len k : ℕ) : Prop where
  covers : len ≤ BUDDY_UNIT * 2 ^ k
  least : ∀ j < k, BUDDY_UNIT * 2 ^ j < len

/-- The block of a level and an index as a slice. -/
def BuddyBlocks.block (pool : BuddyBlocks) (k i : ℕ) : Slice :=
  ⟨pool.dataAddr + i * (BUDDY_UNIT * 2 ^ k), BUDDY_UNIT * 2 ^ k⟩

/-- A state whose free units are those of the set, fully coalesced. -/
structure Represents (pool buddy : BuddyBlocks) (F : Set ℕ) : Prop where
  shown : Shows pool buddy (Maximal F)
  bounded : ∀ u ∈ F, u < pool.units
  used : buddy.used + BUDDY_UNIT * F.ncard = BUDDY_UNIT * pool.units

section Fit

variable {len k l : ℕ}

theorem exists_fit (len : ℕ) : ∃ k, IsFit len k := by
  have search : ∃ k, len ≤ BUDDY_UNIT * 2 ^ k := by
    refine ⟨len, ?_⟩
    have := Nat.lt_two_pow_self (n := len)
    simp only [BUDDY_UNIT]
    omega
  exact ⟨Nat.find search, Nat.find_spec search, fun j lt => Nat.lt_of_not_le (Nat.find_min search lt)⟩

theorem IsFit.le_of_covers (fit : IsFit len k) (covers : len ≤ BUDDY_UNIT * 2 ^ l) : k ≤ l := by
  by_contra above
  have := fit.least l (by omega)
  omega

theorem IsFit.unique (fit : IsFit len k) (other : IsFit len l) : k = l :=
  Nat.le_antisymm (fit.le_of_covers other.covers) (other.le_of_covers fit.covers)

/-- Rounding a length up to units does not change its level. -/
theorem IsFit.round (fit : IsFit len k) : IsFit (szdivCeil len BUDDY_UNIT * BUDDY_UNIT) k := by
  obtain ⟨lower, upper⟩ := szdivCeil_bounds len (y := BUDDY_UNIT) (by decide)
  refine ⟨?_, fun j lt => (fit.least j lt).trans_le lower⟩
  have := fit.covers
  simp only [BUDDY_UNIT] at *
  omega

/-- Rounding up to units wraps for the last lengths below the top only, and then to zero. -/
theorem rounded_wraps (bound : len < 2 ^ 64) (wraps : 2 ^ 64 < len + BUDDY_UNIT) :
    u64 (szdivCeil len BUDDY_UNIT * BUDDY_UNIT) = 0 := by
  obtain ⟨lower, upper⟩ := szdivCeil_bounds len (y := BUDDY_UNIT) (by decide)
  unfold u64 BUDDY_UNIT at *
  omega

/-- The level that the source computes is that of the length, unless the rounding wraps to zero. -/
theorem fit_or_wrapped (bound : len < 2 ^ 64) (fit : IsFit (u64 (szdivCeil len BUDDY_UNIT * BUDDY_UNIT)) k) :
    IsFit len k ∨ k = 0 ∧ 2 ^ 64 < len + BUDDY_UNIT := by
  obtain ⟨lower, upper⟩ := szdivCeil_bounds len (y := BUDDY_UNIT) (by decide)
  rcases Nat.lt_or_ge (2 ^ 64) (len + BUDDY_UNIT) with wraps | fits
  · rw [rounded_wraps bound wraps] at fit
    exact .inr ⟨Nat.le_zero.mp (fit.le_of_covers (Nat.zero_le _)), wraps⟩
  · rw [u64_of_lt (by omega)] at fit
    refine .inl ⟨lower.trans fit.covers, fun j lt => ?_⟩
    have less := fit.least j lt
    rw [Nat.mul_comm, Nat.mul_lt_mul_right (by decide)] at less
    have next := Nat.mul_le_mul_right BUDDY_UNIT less
    rw [Nat.succ_mul] at next
    rw [Nat.mul_comm]
    omega

private theorem bitmapIndexFrom_eq {fuel idx : ℕ} (fit : IsFit len k) (small : k ≤ 51) (le : idx ≤ k)
    (enough : k < idx + fuel) : bitmapIndexFrom len fuel idx = .ok k := by
  induction fuel generalizing idx with
  | zero => omega
  | succ fuel ih =>
    have power : 2 ^ idx ≤ 2 ^ 51 := Nat.pow_le_pow_right (by decide) (by omega)
    rw [bitmapIndexFrom, sizeShl, if_pos (by omega), Except.ok_bind,
      u64_of_lt (by simp only [BUDDY_UNIT]; omega)]
    rcases Nat.eq_or_lt_of_le le with rfl | lt
    · rw [if_neg (Nat.not_lt.mpr fit.covers)]
      rfl
    · rw [if_pos (fit.least idx lt), ih lt (by omega)]

theorem bitmapIndexForSize_eq (fit : IsFit len k) (small : k ≤ 51) : bitmapIndexForSize len = .ok k :=
  bitmapIndexFrom_eq fit small (Nat.zero_le _) (by omega)

/-- Shifts by 52 and more push every bit of the unit out. -/
private theorem bitmapIndexFrom_high {fuel idx : ℕ} (high : 52 ≤ idx) (positive : 0 < len) :
    bitmapIndexFrom len fuel idx = .error .shiftOutOfRange := by
  induction fuel generalizing idx with
  | zero => rfl
  | succ fuel ih =>
    rw [bitmapIndexFrom, sizeShl]
    split_ifs with short
    · have gone : u64 (BUDDY_UNIT * 2 ^ idx) = 0 := by
        obtain ⟨d, rfl⟩ := Nat.exists_eq_add_of_le high
        rw [pow_add, ← Nat.mul_assoc]
        exact Nat.mul_mod_right _ _
      rw [Except.ok_bind, gone, if_pos positive]
      exact ih (by omega)
    · rfl

private theorem bitmapIndexFrom_inv {fuel idx : ℕ} (ran : bitmapIndexFrom len fuel idx = .ok k)
    (below : ∀ j < idx, BUDDY_UNIT * 2 ^ j < len) : k ≤ 51 ∧ IsFit len k := by
  induction fuel generalizing idx with
  | zero => cases ran
  | succ fuel ih =>
    by_cases high : 52 ≤ idx
    · have positive : 0 < len := (below 0 (by omega)).trans_le' (Nat.zero_le _)
      cases (bitmapIndexFrom_high high positive).symm.trans ran
    · have power : 2 ^ idx ≤ 2 ^ 51 := Nat.pow_le_pow_right (by decide) (by omega)
      rw [bitmapIndexFrom, sizeShl, if_pos (by omega), Except.ok_bind,
        u64_of_lt (by simp only [BUDDY_UNIT]; omega)] at ran
      split_ifs at ran with shorter
      · refine ih ran fun j lt => ?_
        rcases Nat.eq_or_lt_of_le (Nat.le_of_lt_succ lt) with rfl | earlier
        · exact shorter
        · exact below j earlier
      · cases ran
        exact ⟨by omega, Nat.le_of_not_lt shorter, below⟩

/-- The search ends for lengths of at most half the address space, at the fitting level. -/
theorem bitmapIndexForSize_ok_iff : bitmapIndexForSize len = .ok k ↔ k ≤ 51 ∧ IsFit len k :=
  ⟨fun ran => bitmapIndexFrom_inv ran fun _ lt => (Nat.not_lt_zero _ lt).elim,
    fun ⟨small, fit⟩ => bitmapIndexForSize_eq fit small⟩

private theorem IsFit.le_of_bound (fit : IsFit len k) (bound : len ≤ 2 ^ 31) : k ≤ 19 :=
  fit.le_of_covers (bound.trans (by decide))

/-- A block length of at most a gibibyte survives the `int` shift and both conversions. -/
theorem intShl_unit {s : ℕ} (small : s < 19) : ∃ x, intShl BUDDY_UNIT s = .ok x ∧
    x.toNat = BUDDY_UNIT * 2 ^ s ∧ intToSize x = BUDDY_UNIT * 2 ^ s := by
  refine ⟨_, if_pos (by omega), ?_⟩
  revert s
  decide

/-- All values of the `int` shift: the sign bit is set at 19, and from 20 on nothing is left. -/
theorem intShl_unit_cases {s : ℕ} {x : BitVec 32} (ran : intShl BUDDY_UNIT s = .ok x) :
    s < 19 ∧ x.toNat = BUDDY_UNIT * 2 ^ s ∧ intToSize x = BUDDY_UNIT * 2 ^ s ∨
      s = 19 ∧ x.toNat = BUDDY_UNIT * 2 ^ s ∧ intToSize x + 2 ^ 31 = 2 ^ 64 ∨
      20 ≤ s ∧ s < 32 ∧ x.toNat = 0 ∧ intToSize x = 0 := by
  unfold intShl at ran
  split_ifs at ran with short
  cases ran
  revert s
  decide

end Fit

/-! ## Finding a set bit -/

private theorem firstByte_ok {memory : Memory} {bits idx c : ℕ} (le : idx ≤ c) (fuel : ℕ) (enough : c < idx + fuel)
    (set : memory (bits + c) ≠ 0#8) :
    ∃ first ≤ c, firstByte memory bits fuel idx = .ok first ∧ memory (bits + first) ≠ 0#8 := by
  induction fuel generalizing idx with
  | zero => omega
  | succ fuel ih =>
    rw [firstByte]
    split_ifs with blank
    · have later : idx ≠ c := by
        rintro rfl
        exact set blank
      exact ih (by omega) (by omega)
    · exact ⟨idx, le, rfl, blank⟩

private theorem firstOffset_set (byte : BitVec 8) (set : byte ≠ 0#8) :
    firstOffset byte 8 0 < 8 ∧ byte.getLsbD (firstOffset byte 8 0) = true := by
  revert byte
  decide

section Alloc

variable {pool buddy : BuddyBlocks} {P : ℕ → ℕ → Prop} {F G : Set ℕ} {k l i j fit : ℕ}

/-- A level with a nonzero count yields a bit that is set. -/
theorem getFirst1_ok (placed : Placed pool) (shown : Shows pool buddy P) (level : k < pool.bitmapsLen)
    (some : isEmpty (buddy.bitmaps k) = false) :
    ∃ i, getFirst1 buddy.memory (buddy.bitmaps k) buddy.metadataLen = .ok i ∧ pool.InRange k i ∧ P k i := by
  have counted : (buddy.bitmaps k).count ≠ 0 := by simpa [isEmpty] using some
  rw [shown.count k level, BuddyBlocks.levelCount, shown.units_eq, Finset.card_ne_zero] at counted
  obtain ⟨i, member⟩ := counted
  rw [Finset.mem_filter, Finset.mem_range, levelBit_eq] at member
  have nonzero : buddy.memory ((buddy.bitmaps k).bits + i / 8) ≠ 0#8 := by
    intro blank
    rw [blank, BitVec.getLsbD_zero] at member
    exact Bool.false_ne_true member.2
  have metadata : buddy.metadataLen = pool.metadataLen := by rw [shown.same]
  have enough := placed.metadata_bound level
  obtain ⟨c, le, ran, set⟩ := firstByte_ok (Nat.zero_le _) pool.metadataLen (by omega) nonzero
  obtain ⟨small, bit⟩ := firstOffset_set _ set
  have range : pool.InRange k (c * 8 + firstOffset (buddy.memory ((buddy.bitmaps k).bits + c)) 8 0) :=
    ⟨level, by omega⟩
  refine ⟨_, ?_, range, (shown.bit _ _ range).mp ?_⟩
  · rw [getFirst1, some, assert_of (by rfl), Except.ok_bind, metadata, ran, Except.ok_bind]
    dsimp only
    rw [assert_of (by simpa using small)]
    rfl
  · rw [levelBit_eq, show (c * 8 + firstOffset (buddy.memory ((buddy.bitmaps k).bits + c)) 8 0) / 8 = c by omega,
      show (c * 8 + firstOffset (buddy.memory ((buddy.bitmaps k).bits + c)) 8 0) % 8 = _ from by
        rw [Nat.mul_add_mod_self_right, Nat.mod_eq_of_lt small]]
    exact bit

/-! ## Splitting -/

private theorem set1_used (buddy : BuddyBlocks) (k i : ℕ) : (set1 buddy k i).used = buddy.used := rfl

private theorem set0_used (buddy : BuddyBlocks) (k i : ℕ) : (set0 buddy k i).used = buddy.used := rfl

private theorem splitDown_used (buddy : BuddyBlocks) (fit k i : ℕ) : (splitDown fit k i buddy).used = buddy.used := by
  induction k generalizing i buddy with
  | zero => rfl
  | succ k ih =>
    rw [splitDown]
    split_ifs
    · rw [ih, set1_used]
    · rfl

private theorem right_half : dyadic k (i * 2 + 1) ⊆ dyadic (k + 1) i := by
  have nested := subset_parent (k := k) (i := i * 2 + 1)
  rwa [show (i * 2 + 1) / 2 = i by omega] at nested

private theorem left_half : dyadic k (i * 2) ⊆ dyadic (k + 1) i := by
  have nested := subset_parent (k := k) (i := i * 2)
  rwa [Nat.mul_div_cancel i (by decide)] at nested

private theorem halves : dyadic (k + 1) i = dyadic k (i * 2) ∪ dyadic k (i * 2 + 1) := by
  ext u
  simp only [Set.mem_union, mem_dyadic, div_succ]
  omega

private theorem disjoint_halves : Disjoint (dyadic k (i * 2)) (dyadic k (i * 2 + 1)) :=
  Set.disjoint_left.mpr fun _ left right => by
    have := eq_of_meet left right
    omega

/-- Splitting a taken block frees all of it but the first block of the wanted level. -/
private theorem Shows.splitDown (placed : Placed pool) (shown : Shows pool buddy (Maximal G)) (le : fit ≤ k)
    (fresh : Disjoint (dyadic k i) G) (inside : (i + 1) * 2 ^ k ≤ pool.units) :
    Shows pool (splitDown fit k i buddy) (Maximal (G ∪ (dyadic k i \ dyadic fit (i * 2 ^ (k - fit))))) := by
  induction k generalizing buddy G i with
  | zero =>
    obtain rfl : fit = 0 := by omega
    simpa [Buddy.splitDown] using shown
  | succ k ih =>
    rw [Buddy.splitDown]
    split_ifs with deeper
    · have left : dyadic k (i * 2) ⊆ dyadic (k + 1) i := left_half
      have right : dyadic k (i * 2 + 1) ⊆ dyadic (k + 1) i := right_half
      have positive := Nat.two_pow_pos k
      rw [pow_succ'] at inside
      have range : pool.InRange k (i * 2 + 1) := placed.inRange (by linarith)
      have freshRight : Disjoint (dyadic k (i * 2 + 1)) G := fresh.mono_left right
      have alone : ¬ dyadic k (sibling (i * 2 + 1)) ⊆ G := by
        rw [Nat.mul_comm i 2, sibling_double, Nat.mul_comm 2 i]
        intro swallowed
        exact Set.disjoint_left.mp fresh (left first_mem) (swallowed first_mem)
      have step : Shows pool (Buddy.set1 buddy k (i * 2 + 1)) (Maximal (G ∪ dyadic k (i * 2 + 1))) :=
        (shown.set1 placed range).congr fun l j _ => (maximal_union freshRight alone).symm
      have freshLeft : Disjoint (dyadic k (i * 2)) (G ∪ dyadic k (i * 2 + 1)) :=
        Set.disjoint_union_right.mpr ⟨fresh.mono_left left, disjoint_halves⟩
      have rest := ih step (by omega) freshLeft (by linarith)
      have kept : dyadic fit (i * 2 * 2 ^ (k - fit)) ⊆ dyadic k (i * 2) := first_subset (by omega)
      have index : i * 2 ^ (k + 1 - fit) = i * 2 * 2 ^ (k - fit) := by
        rw [Nat.succ_sub (by omega), pow_succ']
        ring
      rw [index, halves, Set.union_sdiff_distrib, (disjoint_halves.mono_left kept).symm.sdiff_eq_left,
        Set.union_comm (dyadic k (i * 2) \ _), ← Set.union_assoc]
      exact rest
    · obtain rfl : fit = k + 1 := by omega
      simpa using shown

/-! ## The level loop -/

theorem Shows.setUsed (shown : Shows pool buddy P) (used : ℕ) : Shows pool { buddy with used } P where
  same := by rw [shown.same]
  bits := shown.bits
  idle := shown.idle
  frame := shown.frame
  bit := shown.bit
  count := shown.count

/-- The bytes of a block inside the data area do not pass its end. -/
theorem block_bytes (inside : (i + 1) * 2 ^ k ≤ pool.units) :
    i * (BUDDY_UNIT * 2 ^ k) + BUDDY_UNIT * 2 ^ k ≤ pool.units * BUDDY_UNIT := by
  have bytes := Nat.mul_le_mul_right BUDDY_UNIT inside
  linarith

private theorem Compact.block_address (compact : Compact pool) (inside : (i + 1) * 2 ^ k ≤ pool.units) :
    u64 (u64 (pool.startAddr + pool.dataOffset) + i * (BUDDY_UNIT * 2 ^ k)) =
      pool.dataAddr + i * (BUDDY_UNIT * 2 ^ k) := by
  have bytes := block_bytes inside
  have bound := compact.bounded
  have tight := compact.tight
  have page : BUDDY_UNIT ≤ BUDDY_UNIT * 2 ^ k := Nat.le_mul_of_pos_right _ (Nat.two_pow_pos k)
  rw [u64_of_lt (n := pool.startAddr + pool.dataOffset) (by omega), u64_of_lt (by omega),
    BuddyBlocks.dataAddr]

theorem block_first (le : fit ≤ k) :
    i * 2 ^ (k - fit) * (BUDDY_UNIT * 2 ^ fit) = i * (BUDDY_UNIT * 2 ^ k) := by
  have powers : 2 ^ (k - fit) * 2 ^ fit = 2 ^ k := by rw [← pow_add, Nat.sub_add_cancel le]
  rw [← powers]
  ring

/-- A level whose counter is zero has no set bit. -/
theorem Shows.none_of_isEmpty (shown : Shows pool buddy P) (range : pool.InRange k i)
    (empty : isEmpty (buddy.bitmaps k) = true) : ¬P k i := by
  have counted : buddy.levelCount k = 0 := by
    rw [← shown.count k range.1]
    simpa [isEmpty] using empty
  have units := shown.units_eq
  have bound := range.2
  rw [BuddyBlocks.levelCount, Finset.card_eq_zero, Finset.filter_eq_empty_iff] at counted
  intro holds
  exact counted (Finset.mem_range.mpr (by rw [units]; omega)) ((shown.bit k i range).mpr holds)

/-- The search stops at the first level with a free block. -/
theorem firstLevel_some {rest : ℕ} (found : firstLevel buddy rest k = some l) :
    k ≤ l ∧ l < k + rest ∧ isEmpty (buddy.bitmaps l) = false ∧ ∀ j, k ≤ j → j < l →
      isEmpty (buddy.bitmaps j) = true := by
  induction rest generalizing k with
  | zero => cases found
  | succ rest ih =>
    rw [firstLevel] at found
    split_ifs at found with empty
    · obtain ⟨above, below, some, earlier⟩ := ih found
      refine ⟨by omega, by omega, some, fun j from_ until_ => ?_⟩
      rcases Nat.eq_or_lt_of_le from_ with rfl | later
      · exact empty
      · exact earlier j later until_
    · cases found
      exact ⟨le_rfl, by omega, Bool.eq_false_iff.mpr empty, fun j from_ until_ => by omega⟩

theorem firstLevel_none {rest : ℕ} (none : firstLevel buddy rest k = none) (from_ : k ≤ l) (until_ : l < k + rest) :
    isEmpty (buddy.bitmaps l) = true := by
  induction rest generalizing k with
  | zero => omega
  | succ rest ih =>
    rw [firstLevel] at none
    split_ifs at none with empty
    rcases Nat.eq_or_lt_of_le from_ with rfl | later
    · exact empty
    · exact ih none later (by omega)

/-- From a level with free blocks, the first block of the wanted level in one of them is taken. -/
private theorem takeFrom_spec (compact : Compact pool) (shown : Shows pool buddy (Maximal F))
    (bounded : ∀ u ∈ F, u < pool.units) (le : fit ≤ k) (level : k < pool.bitmapsLen)
    (some : isEmpty (buddy.bitmaps k) = false) :
    ∃ i after, getFirst1 buddy.memory (buddy.bitmaps k) buddy.metadataLen = .ok i ∧ Maximal F k i ∧
      takeFrom buddy fit k = .ok (⟨pool.dataAddr + i * (BUDDY_UNIT * 2 ^ k), BUDDY_UNIT * 2 ^ fit⟩, after) ∧
      Shows pool after (Maximal (F \ dyadic fit (i * 2 ^ (k - fit)))) ∧
      after.used = u64 (buddy.used + BUDDY_UNIT * 2 ^ fit) := by
  obtain ⟨i, found, range, maximal⟩ := getFirst1_ok compact.toPlaced shown level some
  have small := compact.bitmapsLen_le
  obtain ⟨wanted, shifted, wantedNat, _⟩ := intShl_unit (s := fit) (by omega)
  obtain ⟨whole, shiftedWhole, _, wholeSize⟩ := intShl_unit (s := k) (by omega)
  have inside := maximal.lt_of_bounded bounded
  have taken : Shows pool (set0 buddy k i) (Maximal (F \ dyadic k i)) :=
    (shown.set0 compact.toPlaced range).congr fun l j _ => (maximal_diff maximal).symm
  have split := taken.splitDown compact.toPlaced le Set.disjoint_sdiff_right inside
  have nested : dyadic fit (i * 2 ^ (k - fit)) ⊆ dyadic k i := first_subset le
  have remaining : F \ dyadic k i ∪ (dyadic k i \ dyadic fit (i * 2 ^ (k - fit))) =
      F \ dyadic fit (i * 2 ^ (k - fit)) := by
    ext u
    have kept := @nested u
    have own := @maximal.1 u
    simp only [Set.mem_union, Set.mem_sdiff]
    tauto
  rw [remaining] at split
  have start : (Buddy.splitDown fit k i (set0 buddy k i)).startAddr = pool.startAddr := by rw [split.same]
  have offset : (Buddy.splitDown fit k i (set0 buddy k i)).dataOffset =
      pool.dataOffset := by rw [split.same]
  refine ⟨i, { Buddy.splitDown fit k i (set0 buddy k i) with
    used := u64 (buddy.used + BUDDY_UNIT * 2 ^ fit) }, found, maximal, ?_, split.setUsed _, rfl⟩
  rw [takeFrom, found, Except.ok_bind]
  dsimp only
  rw [shifted, Except.ok_bind, shiftedWhole, Except.ok_bind, wholeSize, wantedNat, start, offset,
    compact.block_address inside, splitDown_used, set0_used]
  rfl

/-- The free units that remain when one block leaves the set. -/
theorem ncard_taken (bounded : ∀ u ∈ F, u < pool.units) (inside : dyadic k i ⊆ F) :
    (F \ dyadic k i).ncard + 2 ^ k = F.ncard := by
  have finite : F.Finite := (Set.finite_Iio pool.units).subset bounded
  rw [← dyadic_ncard (k := k) (i := i)]
  exact Set.ncard_sdiff_add_ncard_of_subset inside finite

/-- The free units determine the whole pool. -/
theorem Represents.unique {other : BuddyBlocks} (represents : Represents pool buddy F)
    (representsOther : Represents pool other F) : buddy = other := by
  have left := represents.used
  have right := representsOther.used
  exact represents.shown.unique representsOther.shown (by omega)

/-- What is left after a block has been taken from a level with free blocks. -/
theorem takeFrom_represents (compact : Compact pool) (represents : Represents pool buddy F) (le : fit ≤ k)
    (level : k < pool.bitmapsLen) (some : isEmpty (buddy.bitmaps k) = false) :
    ∃ i after, getFirst1 buddy.memory (buddy.bitmaps k) buddy.metadataLen = .ok i ∧
      dyadic fit (i * 2 ^ (k - fit)) ⊆ F ∧
      takeFrom buddy fit k = .ok (⟨pool.dataAddr + i * (BUDDY_UNIT * 2 ^ k), BUDDY_UNIT * 2 ^ fit⟩, after) ∧
      Represents pool after (F \ dyadic fit (i * 2 ^ (k - fit))) ∧
      after.used = buddy.used + BUDDY_UNIT * 2 ^ fit := by
  obtain ⟨i, after, found, maximal, ran, afterShown, used⟩ :=
    takeFrom_spec compact represents.shown represents.bounded le level some
  have inside : dyadic fit (i * 2 ^ (k - fit)) ⊆ F := (first_subset le).trans maximal.1
  have remaining := ncard_taken represents.bounded inside
  have before := represents.used
  have units := compact.small
  rw [← remaining, Nat.mul_add] at before
  rw [u64_of_lt (by simp only [BUDDY_UNIT] at *; omega)] at used
  refine ⟨i, after, found, inside, ran, ⟨afterShown, fun u member => represents.bounded u member.1, ?_⟩, used⟩
  omega

/-- The level loop takes a block of the wanted level, or there is none. -/
private theorem allocLevels_represents (compact : Compact pool) (represents : Represents pool buddy F)
    (level : k < pool.bitmapsLen) :
    (∃ i after, allocLevels buddy k (pool.bitmapsLen - k) k = .ok (pool.block k i, after) ∧ dyadic k i ⊆ F ∧
      Represents pool after (F \ dyadic k i)) ∨
    (allocLevels buddy k (pool.bitmapsLen - k) k = .ok (⟨0, 0⟩, buddy) ∧ ∀ i, ¬ dyadic k i ⊆ F) := by
  have capacity : ∀ u ∈ F, u < 2 ^ pool.bitmapsLen := fun u member =>
    (represents.bounded u member).trans compact.lt_two_pow
  rw [allocLevels_eq]
  cases search : firstLevel buddy (pool.bitmapsLen - k) k with
  | none =>
    refine .inr ⟨rfl, fun i inside => ?_⟩
    obtain ⟨l, ge, j, maximal⟩ := exists_maximal_of_subset capacity inside
    have range := compact.inRange (maximal.lt_of_bounded represents.bounded)
    have above := range.1
    exact represents.shown.none_of_isEmpty range (firstLevel_none search ge (by omega)) maximal
  | some l =>
    obtain ⟨ge, lt, some, _⟩ := firstLevel_some search
    obtain ⟨i, after, _, inside, ran, afterRepresents, _⟩ :=
      takeFrom_represents compact represents ge (by omega) some
    refine .inl ⟨i * 2 ^ (l - k), after, ?_, inside, afterRepresents⟩
    rw [BuddyBlocks.block, block_first ge]
    exact ran

/-- `buddy_alloc_slice` takes one free block of the fitting level, or answers null and changes
nothing when the free units contain no such block. -/
theorem buddyAllocSlice_spec (compact : Compact pool) (represents : Represents pool buddy F) {len : ℕ}
    (positive : 1 ≤ len) (bound : len ≤ 2 ^ 31) (isFit : IsFit len k) :
    (∃ i after, buddyAllocSlice buddy len = .ok (pool.block k i, after) ∧ dyadic k i ⊆ F ∧
      Represents pool after (F \ dyadic k i)) ∨
    (buddyAllocSlice buddy len = .ok (⟨0, 0⟩, buddy) ∧ ∀ i, ¬ dyadic k i ⊆ F) := by
  have small := isFit.le_of_bound bound
  have capacity : ∀ u ∈ F, u < 2 ^ pool.bitmapsLen := fun u member =>
    (represents.bounded u member).trans compact.lt_two_pow
  obtain ⟨lower, upper⟩ := szdivCeil_bounds len (y := BUDDY_UNIT) (by decide)
  have aligned : u64 (szdivCeil len BUDDY_UNIT * BUDDY_UNIT) = szdivCeil len BUDDY_UNIT * BUDDY_UNIT :=
    u64_of_lt (by simp only [BUDDY_UNIT] at *; omega)
  rw [buddyAllocSlice, assert_of (by simp; omega), Except.ok_bind]
  dsimp only
  rw [aligned, bitmapIndexForSize_eq isFit.round (by omega), Except.ok_bind, represents.shown.bitmapsLen_eq]
  split_ifs with large
  · refine .inr ⟨rfl, fun i inside => ?_⟩
    obtain ⟨l, ge, j, maximal⟩ := exists_maximal_of_subset capacity inside
    have := (compact.inRange (maximal.lt_of_bounded represents.bounded)).1
    omega
  · exact allocLevels_represents compact represents (Nat.lt_of_not_le large)

/-- Whatever length is asked for, an answer that is not null is a free block. -/
theorem buddyAllocSlice_inv (compact : Compact pool) (represents : Represents pool buddy F) {len : ℕ}
    {slice : Slice} {after : BuddyBlocks} (ran : buddyAllocSlice buddy len = .ok (slice, after)) :
    slice = ⟨0, 0⟩ ∧ after = buddy ∨
      ∃ k i, slice = pool.block k i ∧ dyadic k i ⊆ F ∧ Represents pool after (F \ dyadic k i) := by
  simp only [buddyAllocSlice, Except.bind_ok_iff, represents.shown.bitmapsLen_eq] at ran
  obtain ⟨_, _, k, _, ran⟩ := ran
  split_ifs at ran with large
  · cases ran
    exact .inl ⟨rfl, rfl⟩
  · rcases allocLevels_represents compact represents (Nat.lt_of_not_le large) with
      ⟨i, after', found, inside, afterRepresents⟩ | ⟨none, _⟩
    · cases found.symm.trans ran
      exact .inr ⟨k, i, rfl, inside, afterRepresents⟩
    · cases none.symm.trans ran
      exact .inl ⟨rfl, rfl⟩

end Alloc

end RubberOS.Model.Buddy
