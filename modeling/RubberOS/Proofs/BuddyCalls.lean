import RubberOS.Proofs.BuddyDealloc

/-! # Calls in any state

No call changes where the bitmaps lie, whatever the bits are and whatever range is released. The block that
`buddy_dealloc` selects has an index that may pass the last block of its level by one, and its bit is then read in the
bitmap of the next level. The bits that the merge loop changes still lie in front of those it reads afterwards.
-/

namespace RubberOS.Model.Buddy

open Dyadic

/-! ## The description of the pool -/

/-- A state with the description of the pool, whatever its bits and counts. -/
structure Describes (pool buddy : BuddyBlocks) : Prop where
  same : buddy = { pool with used := buddy.used, bitmaps := buddy.bitmaps, memory := buddy.memory }
  bits : ∀ k, (buddy.bitmaps k).bits = (pool.bitmaps k).bits

section Description

variable {pool buddy : BuddyBlocks} {k i : ℕ}

theorem Describes.refl (pool : BuddyBlocks) : Describes pool pool := ⟨rfl, fun _ => rfl⟩

theorem Describes.bitmapsLen_eq (describes : Describes pool buddy) : buddy.bitmapsLen = pool.bitmapsLen := by
  rw [describes.same]

private theorem Describes.storeLevel (describes : Describes pool buddy) (k i : ℕ) (byte : BitVec 8) (count : ℕ) :
    Describes pool (storeLevel buddy k i byte count) where
  same := by rw [Buddy.storeLevel, describes.same]
  bits l := by rw [storeLevel_bits, describes.bits]

private theorem Describes.set1 (describes : Describes pool buddy) (k i : ℕ) : Describes pool (set1 buddy k i) :=
  describes.storeLevel k i _ _

private theorem Describes.set0 (describes : Describes pool buddy) (k i : ℕ) : Describes pool (set0 buddy k i) :=
  describes.storeLevel k i _ _

private theorem Describes.setUsed (describes : Describes pool buddy) (used : ℕ) :
    Describes pool { buddy with used } where
  same := by rw [describes.same]
  bits := describes.bits

private theorem Describes.splitDown (describes : Describes pool buddy) (fit k i : ℕ) :
    Describes pool (splitDown fit k i buddy) := by
  induction k generalizing buddy i with
  | zero => exact describes
  | succ k ih =>
    rw [Buddy.splitDown]
    split_ifs
    · exact ih (describes.set1 k _) _
    · exact describes

private theorem Describes.mergeUp (describes : Describes pool buddy) {rest : ℕ} {after : BuddyBlocks}
    (ran : mergeUp rest k i buddy = .ok after) : Describes pool after := by
  induction rest generalizing buddy k i with
  | zero => cases ran
  | succ rest ih =>
    simp only [Buddy.mergeUp, Except.bind_ok_iff] at ran
    obtain ⟨_, _, ran⟩ := ran
    have set := describes.set1 k i
    split_ifs at ran
    · cases ran
      exact set
    · cases ran
      exact set
    · exact ih ((set.set0 k _).set0 k i) ran

theorem Describes.alloc (describes : Describes pool buddy) {len : ℕ} {slice : Slice} {after : BuddyBlocks}
    (ran : buddyAllocSlice buddy len = .ok (slice, after)) : Describes pool after := by
  simp only [buddyAllocSlice, Except.bind_ok_iff] at ran
  obtain ⟨_, _, fit, _, ran⟩ := ran
  split_ifs at ran
  · cases ran
    exact describes
  · rw [allocLevels_eq] at ran
    split at ran
    · cases ran
      exact describes
    · simp only [takeFrom, Except.bind_ok_iff, Except.pure_ok_iff] at ran
      obtain ⟨i, _, _, _, _, _, made⟩ := ran
      cases made
      exact ((describes.set0 _ i).splitDown fit _ i).setUsed _

theorem Describes.dealloc (describes : Describes pool buddy) {addr len : ℕ} {after : BuddyBlocks}
    (ran : buddyDealloc buddy addr len = .ok after) : Describes pool after := by
  rcases eq_or_ne len 0 with rfl | positive
  · cases ran
    exact describes
  · rw [buddyDealloc_eq buddy addr positive] at ran
    simp only [Except.bind_ok_iff, Except.pure_ok_iff] at ran
    obtain ⟨_, _, merged, ran, rfl⟩ := ran
    exact (describes.mergeUp ran).setUsed _

end Description

/-! ## The selected block -/

section Selection

variable {pool buddy : BuddyBlocks} {addr len k i : ℕ} {block : Selection}

/-- The selection depends on the description of the pool only. -/
theorem Describes.selected_iff (describes : Describes pool buddy) :
    Selected buddy addr len block ↔ Selected pool addr len block := by
  rw [describes.same]
  constructor <;> intro selected
  · exact ⟨selected.start, selected.inside, selected.nonempty, selected.stop, selected.fit, selected.level,
      selected.shift, selected.positive, selected.index⟩
  · exact ⟨selected.start, selected.inside, selected.nonempty, selected.stop, selected.fit, selected.level,
      selected.shift, selected.positive, selected.index⟩

/-- The bytes of the data area. -/
private theorem Placed.dataLen (placed : Placed pool) :
    sub64 pool.totalLen pool.dataOffset = pool.totalLen - pool.dataOffset ∧
      pool.totalLen - pool.dataOffset ≤ pool.units * BUDDY_UNIT := by
  have many := placed.many
  have covers := placed.covers
  have tight := placed.tight
  have few := placed.units_lt
  simp only [BUDDY_UNIT, sub64] at *
  omega

/-- The data area begins behind a page at least. -/
theorem Placed.dataOffset_ge (placed : Placed pool) : BUDDY_UNIT ≤ pool.dataOffset := by
  have offset := placed.offset
  have multiple := placed.multiple
  unfold BUDDY_UNIT at *
  omega

private theorem Placed.dataOffset_lt (placed : Placed pool) : pool.dataOffset + BUDDY_UNIT < pool.totalLen := by
  have many := placed.many
  have tight := placed.tight
  unfold BUDDY_UNIT at *
  omega

theorem Placed.dataStart (placed : Placed pool) (bounded : pool.startAddr + pool.totalLen < 2 ^ 64) :
    u64 (pool.startAddr + pool.dataOffset) = pool.dataAddr := by
  have less := placed.dataOffset_lt
  rw [u64_of_lt (by omega), BuddyBlocks.dataAddr]

theorem Placed.dataEnd (placed : Placed pool) (bounded : pool.startAddr + pool.totalLen < 2 ^ 64) :
    u64 (pool.dataAddr + sub64 pool.totalLen pool.dataOffset) = pool.startAddr + pool.totalLen := by
  have less := placed.dataOffset_lt
  have dataAddr : pool.dataAddr = pool.startAddr + pool.dataOffset := rfl
  rw [placed.dataLen.1, u64_of_lt (by omega)]
  omega

/-- The selected block begins in the data area. -/
theorem Selected.index_le (placed : Placed pool) (selected : Selected pool addr len block) :
    block.blockIndex ≤ pool.units / 2 ^ block.bitmapIdxFit := by
  obtain ⟨x, shifted, blockLen⟩ := selected.shift
  obtain ⟨dataLen, size⟩ := placed.dataLen
  have few := placed.units_lt
  have start := selected.start
  have inside := selected.inside
  have wrapped := Nat.mod_le (u64 (pool.startAddr + pool.dataOffset) + (pool.totalLen - pool.dataOffset)) (2 ^ 64)
  have bound := u64_lt (u64 (pool.startAddr + pool.dataOffset) + (pool.totalLen - pool.dataOffset))
  rw [dataLen] at inside
  change u64 _ ≤ _ at wrapped
  rw [selected.index, sub64_of_le start (by omega), blockLen]
  rcases intShl_unit_cases shifted with ⟨_, _, exact_⟩ | ⟨_, _, top⟩ | ⟨_, _, _, zero⟩
  · rw [exact_, ← Nat.mul_div_mul_left pool.units _ (show 0 < BUDDY_UNIT by decide)]
    refine Nat.div_le_div_right ?_
    rw [Nat.mul_comm] at size
    omega
  · rw [Nat.div_eq_of_lt]
    · exact Nat.zero_le _
    · simp only [BUDDY_UNIT] at *
      omega
  · exact (selected.positive (blockLen.trans zero)).elim

/-- A selected range of the data area has not wrapped: a wrapped end would be in front of the data area. -/
theorem Selected.extent (placed : Placed pool) (bounded : pool.startAddr + pool.totalLen < 2 ^ 64)
    (selected : Selected pool addr len block) (upper : addr + len ≤ pool.dataAddr + pool.units * BUDDY_UNIT) :
    IsFit (roundedExtent addr len) block.bitmapIdxFit := by
  have tight := placed.tight
  have front := placed.dataOffset_ge
  have dataAddr : pool.dataAddr = pool.startAddr + pool.dataOffset := rfl
  have nonempty := selected.nonempty
  have fit := selected.fit
  rw [placed.dataStart bounded] at nonempty
  have ceiling := uptrdivCeil_bounds (addr + len) (y := BUDDY_UNIT) (by decide)
  have wrapped := uptrdivCeil_bounds (u64 (addr + len)) (y := BUDDY_UNIT) (by decide)
  unfold roundedExtent
  unfold BUDDY_UNIT at *
  have short : addr + len < 2 ^ 64 := by
    by_contra long
    have small : u64 (addr + len) < 4096 := by
      unfold u64
      omega
    rw [u64_of_lt (n := uptrdivCeil (u64 (addr + len)) 4096 * 4096) (by omega)] at nonempty
    omega
  rw [u64_of_lt short] at nonempty fit
  have stop : uptrdivCeil (addr + len) 4096 * 4096 < 2 ^ 64 := by
    by_contra long
    have zero : u64 (uptrdivCeil (addr + len) 4096 * 4096) = 0 := by
      unfold u64
      omega
    rw [zero] at nonempty
    exact Nat.not_lt_zero _ nonempty
  rwa [u64_of_lt stop, sub64_of_le (by omega) stop] at fit

/-- In an aligned pool below two gibibytes, the selected level and the start of the range determine the selected
block. -/
theorem Selected.eq_of_level (compact : Compact pool) (selected : Selected pool addr len block)
    (level : block.bitmapIdxFit = k)
    (lower : pool.dataAddr + i * (BUDDY_UNIT * 2 ^ k) ≤ addr / BUDDY_UNIT * BUDDY_UNIT)
    (upper : addr / BUDDY_UNIT * BUDDY_UNIT < pool.dataAddr + i * (BUDDY_UNIT * 2 ^ k) + BUDDY_UNIT * 2 ^ k) :
    block = ⟨k, BUDDY_UNIT * 2 ^ k, i⟩ := by
  have levels := compact.bitmapsLen_le
  have inLevels := selected.level
  have short := selected.inside.trans (u64_lt _)
  have index := selected.index
  obtain ⟨x, shifted, blockLen⟩ := selected.shift
  rw [compact.dataStart compact.bounded, sub64_of_le (by omega) short] at index
  rw [level] at shifted inLevels
  rcases intShl_unit_cases shifted with ⟨_, _, exact_⟩ | ⟨high, _⟩ | ⟨high, _⟩
  · rw [exact_] at blockLen
    have own : (addr / BUDDY_UNIT * BUDDY_UNIT - pool.dataAddr) / (BUDDY_UNIT * 2 ^ k) = i := by
      rw [Nat.div_eq_iff (Nat.mul_pos (by decide) (Nat.two_pow_pos k))]
      omega
    rw [blockLen, own] at index
    rcases block with ⟨bitmapIdxFit, length, blockIndex⟩
    dsimp only at level blockLen index
    rw [level, blockLen, index]
  · omega
  · omega

/-- In an aligned pool below two gibibytes, a range inside a block whose extent rounds up to the block can only select
it. -/
theorem Selected.eq_block (compact : Compact pool) (selected : Selected pool addr len block)
    (inside : (i + 1) * 2 ^ k ≤ pool.units) (nonzero : len ≠ 0) (lower : (pool.block k i).ptr ≤ addr)
    (upper : addr + len ≤ (pool.block k i).ptr + (pool.block k i).length)
    (isFit : IsFit (roundedExtent addr len) k) : block = ⟨k, BUDDY_UNIT * 2 ^ k, i⟩ := by
  have bytes := block_bytes inside
  have alignedStart : pool.dataAddr % BUDDY_UNIT = 0 := compact.aligned
  have shape : i * (BUDDY_UNIT * 2 ^ k) = i * 2 ^ k * BUDDY_UNIT := by ring
  have width : (i * 2 ^ k + 2 ^ k) * BUDDY_UNIT = i * (BUDDY_UNIT * 2 ^ k) + BUDDY_UNIT * 2 ^ k := by ring
  rw [BuddyBlocks.block] at lower upper
  dsimp only at lower upper
  obtain ⟨start, some, stop⟩ :=
    @rounded_bounds _ addr len (i * 2 ^ k) (2 ^ k) alignedStart (by omega) (by omega) nonzero
  rw [width] at stop
  rw [← shape] at start
  have fit := selected.extent compact.toPlaced compact.bounded (by omega)
  exact selected.eq_of_level compact (fit.unique isFit) (by omega) (by omega)

end Selection

/-! ## The found block -/

section Found

variable {pool buddy : BuddyBlocks} {F : Set ℕ} {len : ℕ}

/-- Without a block, `buddy_alloc_slice` answers null. -/
theorem buddyAllocSlice_of_none (positive : len ≠ 0) (search : foundBlock buddy len = .ok none) :
    buddyAllocSlice buddy len = .ok (⟨0, 0⟩, buddy) := by
  simp only [foundBlock, Except.bind_ok_iff] at search
  obtain ⟨fit, isFit, search⟩ := search
  rw [buddyAllocSlice_eq buddy positive, isFit, Except.ok_bind]
  split_ifs at search ⊢
  · rfl
  · cases first : firstLevel buddy (buddy.bitmapsLen - fit) fit with
    | none => rfl
    | some level =>
      rw [first] at search
      simp only [Except.bind_ok_iff, Except.pure_ok_iff] at search
      obtain ⟨_, _, ⟨⟩⟩ := search

/-- With a block, it returns the block's address and takes the first block of the wanted level in it. -/
theorem buddyAllocSlice_of_some (compact : Compact pool) (represents : Represents pool buddy F) (positive : len ≠ 0)
    {found : Found} (search : foundBlock buddy len = .ok (some found)) :
    IsFit (u64 (szdivCeil len BUDDY_UNIT * BUDDY_UNIT)) found.bitmapIdxFit ∧ found.bitmapIdxFit ≤ found.bitmapIdx ∧
      dyadic found.bitmapIdxFit (found.blockIndex * 2 ^ (found.bitmapIdx - found.bitmapIdxFit)) ⊆ F ∧
      ∃ after, buddyAllocSlice buddy len =
        .ok (⟨pool.dataAddr + found.blockIndex * (BUDDY_UNIT * 2 ^ found.bitmapIdx),
          BUDDY_UNIT * 2 ^ found.bitmapIdxFit⟩, after) ∧
        Represents pool after
          (F \ dyadic found.bitmapIdxFit (found.blockIndex * 2 ^ (found.bitmapIdx - found.bitmapIdxFit))) ∧
        after.used = buddy.used + BUDDY_UNIT * 2 ^ found.bitmapIdxFit := by
  simp only [foundBlock, Except.bind_ok_iff] at search
  obtain ⟨fit, searched, search⟩ := search
  rw [buddyAllocSlice_eq buddy positive, searched, Except.ok_bind]
  split_ifs at search ⊢ with large
  · cases search
  · rw [represents.shown.bitmapsLen_eq] at large search ⊢
    cases first : firstLevel buddy (pool.bitmapsLen - fit) fit with
    | none =>
      rw [first] at search
      cases search
    | some level =>
      rw [first] at search
      obtain ⟨le, lt, some, _⟩ := firstLevel_some first
      obtain ⟨i, after, block, inside, ran, afterRepresents, used⟩ :=
        takeFrom_represents compact represents le (by omega) some
      simp only [Except.bind_ok_iff, Except.pure_ok_iff] at search
      obtain ⟨_, own, made⟩ := search
      cases own.symm.trans block
      cases made
      exact ⟨(bitmapIndexForSize_ok_iff.mp searched).2, le, inside, after, ran, afterRepresents, used⟩

end Found

/-! ## The merge loop -/

/-- The merge loop meets a set bit on its way up: the block is marked free, or its sibling is and the parent meets
one. -/
def Caught (buddy : BuddyBlocks) (k i : ℕ) : Prop :=
  ∃ m, k + m < buddy.bitmapsLen ∧ buddy.levelBit (k + m) (i / 2 ^ m) = true ∧
    ∀ j < m, buddy.levelBit (k + j) (sibling (i / 2 ^ j)) = true

section Merge

variable {pool buddy other : BuddyBlocks} {k l i j : ℕ}

theorem caught_iff (level : k < buddy.bitmapsLen) : Caught buddy k i ↔
    buddy.levelBit k i = true ∨ buddy.levelBit k (sibling i) = true ∧ Caught buddy (k + 1) (i / 2) := by
  have up (m : ℕ) : i / 2 / 2 ^ m = i / 2 ^ (m + 1) := by rw [Nat.div_div_eq_div_mul, ← pow_succ']
  have next (m : ℕ) : k + 1 + m = k + (m + 1) := by omega
  constructor
  · rintro ⟨_ | m, inside, set, siblings⟩
    · rw [pow_zero, Nat.div_one] at set
      exact .inl set
    · have first := siblings 0 (Nat.succ_pos m)
      rw [pow_zero, Nat.div_one] at first
      refine .inr ⟨first, m, by omega, ?_, fun j lt => ?_⟩
      · rw [up, next]
        exact set
      · rw [up, next]
        exact siblings (j + 1) (by omega)
  · rintro (set | ⟨first, m, inside, set, siblings⟩)
    · exact ⟨0, level, by rwa [pow_zero, Nat.div_one], fun j lt => (Nat.not_lt_zero j lt).elim⟩
    · rw [up, next] at set
      refine ⟨m + 1, by omega, set, fun j lt => ?_⟩
      cases j with
      | zero => rwa [pow_zero, Nat.div_one]
      | succ j =>
        have other := siblings j (by omega)
        rwa [up, next] at other

private theorem caught_congr (levels : other.bitmapsLen = buddy.bitmapsLen)
    (same : ∀ m, k + m < buddy.bitmapsLen → ∀ j, j / 2 = i / 2 ^ m / 2 →
      other.levelBit (k + m) j = buddy.levelBit (k + m) j) : Caught other k i ↔ Caught buddy k i := by
  unfold Caught
  rw [levels]
  refine exists_congr fun m => and_congr_right fun inside => and_congr ?_ ?_
  · rw [same m inside _ rfl]
  · refine forall₂_congr fun j lt => ?_
    rw [same j (by omega) _ sibling_div]

/-- A store changes no bit at another position. -/
private theorem levelBit_storeLevel_of_ne {byte : BitVec 8} {count : ℕ}
    (apart : 8 * (buddy.bitmaps l).bits + j ≠ 8 * (buddy.bitmaps k).bits + i)
    (stored : ∀ offset < 8, offset ≠ i % 8 →
      byte.getLsbD offset = (buddy.memory ((buddy.bitmaps k).bits + i / 8)).getLsbD offset) :
    (storeLevel buddy k i byte count).levelBit l j = buddy.levelBit l j := by
  rw [levelBit_eq, storeLevel_bits, levelBit_eq]
  simp only [storeLevel, Function.update_apply]
  split_ifs with here
  · rw [stored _ (Nat.mod_lt _ (by decide)) (by omega), here]
  · rfl

private theorem levelBit_set1_of_ne (apart : 8 * (buddy.bitmaps l).bits + j ≠ 8 * (buddy.bitmaps k).bits + i) :
    (set1 buddy k i).levelBit l j = buddy.levelBit l j := by
  refine levelBit_storeLevel_of_ne apart fun offset small other => ?_
  rw [getLsbD_or_shift _ (Nat.mod_lt _ (by decide)), decide_eq_false other, Bool.or_false]

private theorem levelBit_set0_of_ne (apart : 8 * (buddy.bitmaps l).bits + j ≠ 8 * (buddy.bitmaps k).bits + i) :
    (set0 buddy k i).levelBit l j = buddy.levelBit l j := by
  refine levelBit_storeLevel_of_ne apart fun offset small other => ?_
  rw [getLsbD_and_not_shift _ (Nat.mod_lt _ (by decide)) _ small, decide_eq_true other, Bool.and_true]

private theorem set1_bits (buddy : BuddyBlocks) (k i l : ℕ) :
    ((set1 buddy k i).bitmaps l).bits = (buddy.bitmaps l).bits :=
  storeLevel_bits ..

private theorem set0_bits (buddy : BuddyBlocks) (k i l : ℕ) :
    ((set0 buddy k i).bitmaps l).bits = (buddy.bitmaps l).bits :=
  storeLevel_bits ..

/-- The pairs of siblings on the way up lie one behind the other, also if the first is one past its level. -/
private theorem Placed.position_lt (placed : Placed pool) (lt : k < l) (level : l < pool.bitmapsLen)
    (index : i ≤ pool.units / 2 ^ k) {a c : ℕ} (first : a / 2 = i / 2) (second : c / 2 = i / 2 ^ (l - k) / 2) :
    8 * (pool.bitmaps k).bits + a < 8 * (pool.bitmaps l).bits + c := by
  rw [placed.bits k (by omega), placed.bits l level]
  have length : bitsLen pool.units k = (pool.units / 2 ^ k - 1) / 8 + 1 := rfl
  rcases Nat.eq_or_lt_of_le (Nat.succ_le_of_lt lt) with rfl | higher
  · rw [show k + 1 - k = 1 by omega, pow_one] at second
    rw [bitsOffset_succ]
    omega
  · have between : bitsOffset pool.units (k + 1) + bitsLen pool.units (k + 1) ≤ bitsOffset pool.units l :=
      bitsOffset_le pool.units higher
    have next : 0 < bitsLen pool.units (k + 1) := Nat.succ_pos _
    rw [bitsOffset_succ] at between
    omega

/-- The merge loop stops at its assertion exactly when it meets a set bit, whatever the bits are. -/
theorem mergeUp_eq (placed : Placed pool) (describes : Describes pool buddy) (index : i ≤ pool.units / 2 ^ k)
    (rest : ℕ) (levels : k + rest = pool.bitmapsLen) (level : k < pool.bitmapsLen) :
    (Caught buddy k i → mergeUp rest k i buddy =
      .error (.panic "assertion failed : !get_bit(bitmap, block_index)")) ∧
    (¬Caught buddy k i → ∃ after, mergeUp rest k i buddy = .ok after) := by
  induction rest generalizing buddy k i with
  | zero => omega
  | succ rest ih =>
    have bitmapsLen := describes.bitmapsLen_eq
    rw [caught_iff (by omega), mergeUp]
    cases own : buddy.levelBit k i with
    | true => exact ⟨fun _ => rfl, fun free => (free (.inl rfl)).elim⟩
    | false =>
      have set := describes.set1 k i
      have siblingBit : (set1 buddy k i).levelBit k (i ^^^ 1) = buddy.levelBit k (sibling i) :=
        levelBit_set1_of_ne (by have := sibling_ne (i := i); change _ + sibling i ≠ _; omega)
      have higher := set.bitmapsLen_eq
      rw [assert_of (by rfl), Except.ok_bind]
      dsimp only
      rw [siblingBit, higher]
      cases marked : buddy.levelBit k (sibling i) with
      | false => exact ⟨by simp, fun _ => ⟨_, rfl⟩⟩
      | true =>
        rw [if_neg (by decide)]
        split_ifs with top
        · refine ⟨?_, fun _ => ⟨_, rfl⟩⟩
          rintro (⟨⟨⟩⟩ | ⟨_, m, above, _⟩)
          omega
        · have parent : i / 2 ≤ pool.units / 2 ^ (k + 1) := by
            rw [div_succ]
            exact Nat.div_le_div_right index
          have cleared := (set.set0 k (i ^^^ 1)).set0 k i
          have kept : Caught (set0 (set0 (set1 buddy k i) k (i ^^^ 1)) k i) (k + 1) (i / 2) ↔
              Caught buddy (k + 1) (i / 2) := by
            refine caught_congr rfl fun m inside j half => ?_
            have later {a : ℕ} (pair : a / 2 = i / 2) :
                8 * (buddy.bitmaps k).bits + a < 8 * (buddy.bitmaps (k + 1 + m)).bits + j := by
              rw [describes.bits, describes.bits]
              refine placed.position_lt (by omega) (by omega) index pair ?_
              rw [half, Nat.div_div_eq_div_mul i 2, ← pow_succ', show k + 1 + m - k = m + 1 by omega]
            have own := later (a := i) rfl
            have other := later (a := i ^^^ 1) sibling_div
            rw [levelBit_set0_of_ne, levelBit_set0_of_ne, levelBit_set1_of_ne]
            · omega
            · rw [set1_bits, set1_bits]
              omega
            · rw [set0_bits, set0_bits, set1_bits, set1_bits]
              omega
          obtain ⟨stops, returns⟩ := ih cleared parent (by omega) (by omega)
          rw [kept] at stops returns
          simpa using ⟨stops, returns⟩

end Merge

end RubberOS.Model.Buddy
