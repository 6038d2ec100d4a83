import RubberOS.Proofs.BuddyBitmaps

/-! # A freshly initialised pool

An accepted pool has the layout that the other proofs assume, and its bitmaps show the maximal
blocks of the whole data area: at each level the last block when the level's length is odd.
-/

namespace RubberOS.Model.Buddy

open Finset Dyadic

/-! ## Sizes of the bitmaps -/

private theorem bitsLen_half (units level : ℕ) : bitsLen (units / 2) level = bitsLen units (level + 1) := by
  rw [bitsLen, bitsLen, Nat.div_div_eq_div_mul, ← pow_succ']

theorem bitsOffset_half (units levels : ℕ) :
    bitsOffset units (levels + 1) = bitsLen units 0 + bitsOffset (units / 2) levels := by
  rw [bitsOffset, sum_range_succ', Nat.add_comm]
  exact congrArg _ (sum_congr rfl fun j _ => (bitsLen_half units j).symm)

theorem bitsOffset_bound (units levels : ℕ) : bitsOffset units levels ≤ levels * (units / 8 + 1) := by
  have each (j : ℕ) : bitsLen units j ≤ units / 8 + 1 := by
    have := Nat.div_le_self units (2 ^ j)
    unfold bitsLen
    omega
  calc
    bitsOffset units levels ≤ ∑ _j ∈ range levels, (units / 8 + 1) := sum_le_sum fun j _ => each j
    _ = levels * (units / 8 + 1) := by rw [sum_const, card_range, Nat.nsmul_eq_mul]

private theorem u32_add (m n : ℕ) : u32 (u32 m + n) = u32 (m + n) := Nat.mod_add_mod ..

/-- The loop counts the levels and the bytes of their bitmaps, both in 32 bits. -/
private theorem calcLevels_eq {fuel levels bits blockCount : ℕ} (positive : blockCount ≠ 0)
    (enough : blockCount < 2 ^ fuel) :
    calcLevels fuel levels bits blockCount = .ok (u32 (levels + (Nat.log2 blockCount + 1)),
      u32 (bits + bitsOffset blockCount (Nat.log2 blockCount + 1))) := by
  induction fuel generalizing levels bits blockCount with
  | zero => omega
  | succ fuel ih =>
    have first : bitsLen blockCount 0 = (blockCount - 1) / 8 + 1 := by rw [bitsLen, pow_zero, Nat.div_one]
    rw [calcLevels, bitsOffset_half, first]
    split_ifs with last
    · subst last
      rfl
    · have step : Nat.log2 blockCount = Nat.log2 (blockCount / 2) + 1 := by
        rw [Nat.log2_def, if_pos (by omega)]
      rw [ih (by omega) (by rw [pow_succ] at enough; omega), u32_add, u32_add, step, Nat.add_assoc levels 1,
        Nat.add_comm 1, Nat.add_assoc bits]

/-- The metadata description of a data area, which the source computes for any length. -/
theorem buddyInfoCalcMetadata_ok_iff {dataLen : ℕ} (bound : dataLen < 2 ^ 64) {info : MetadataInfo} :
    buddyInfoCalcMetadata dataLen = .ok info ↔
      BUDDY_UNIT < dataLen ∧ info.units = (dataLen - 1) / BUDDY_UNIT + 1 ∧ info.levels = Nat.log2 info.units + 1 ∧
        info.metadataLen = info.levels * blockBitmapSize + u32 (bitsOffset info.units info.levels) ∧
        info.metadataLen < dataLen := by
  obtain ⟨units, unitsEq⟩ : ∃ units, (dataLen - 1) / BUDDY_UNIT + 1 = units := ⟨_, rfl⟩
  have nonempty : units ≠ 0 := by
    rw [← unitsEq]
    exact Nat.succ_ne_zero _
  have wide : units ≤ 2 ^ 52 := by simp only [BUDDY_UNIT] at unitsEq; omega
  have log : Nat.log2 units < 53 := (Nat.log2_lt nonempty).mpr (by omega)
  have levels : u32 (0 + (Nat.log2 units + 1)) = Nat.log2 units + 1 := by rw [Nat.zero_add, u32_of_lt (by omega)]
  have bits : u32 (bitsOffset units (Nat.log2 units + 1)) < 2 ^ 32 := Nat.mod_lt _ (by decide)
  have size : u64 ((Nat.log2 units + 1) * blockBitmapSize + u32 (bitsOffset units (Nat.log2 units + 1))) =
      (Nat.log2 units + 1) * blockBitmapSize + u32 (bitsOffset units (Nat.log2 units + 1)) :=
    u64_of_lt (by simp only [blockBitmapSize]; omega)
  rw [buddyInfoCalcMetadata]
  simp only [unitsEq, Except.bind_ok_iff, assert_ok_iff, exists_const, decide_eq_true_eq]
  rw [calcLevels_eq nonempty (by omega), levels, Nat.zero_add]
  simp only [Except.ok.injEq, exists_eq_left', size, Except.pure_ok_iff]
  rcases info with ⟨metadataLen, unitsField, levelsField⟩
  simp only [MetadataInfo.mk.injEq]
  refine and_congr_right fun _ => ?_
  constructor
  · rintro ⟨small, rfl, rfl, rfl⟩
    exact ⟨rfl, rfl, rfl, small⟩
  · rintro ⟨rfl, rfl, rfl, small⟩
    exact ⟨small, rfl, rfl, rfl⟩

/-! ## The level loop -/

/-- Where the loop stores the bitmap of a level, and the bytes it leaves there. -/
structure LevelsDone (units totalBits : ℕ) (k : ℕ) (st done : InitState) : Prop where
  bitsIdx : done.bitsIdx = bitsOffset units (Nat.log2 units + 1)
  idx : done.idx = Nat.log2 units + 1
  bitmaps : ∀ j, k ≤ j → j ≤ Nat.log2 units →
    done.bitmaps j = ⟨totalBits + bitsOffset units j, units / 2 ^ j % 2⟩
  before : ∀ address < totalBits + bitsOffset units k, done.memory address = st.memory address
  earlier : ∀ j < k, done.bitmaps j = st.bitmaps j
  bytes : ∀ j, k ≤ j → j ≤ Nat.log2 units → ∀ c < bitsLen units j,
    done.memory (totalBits + bitsOffset units j + c) =
      if units / 2 ^ j % 2 = 1 ∧ c + 1 = bitsLen units j then 1#8 <<< (units / 2 ^ j % 8 - 1)
      else st.memory (totalBits + bitsOffset units j + c)

/-- What one iteration stores: the bitmap of its level, and the last byte of an odd one. -/
structure LevelStored (units totalBits k : ℕ) (st next : InitState) : Prop where
  bitsIdx : next.bitsIdx = bitsOffset units (k + 1)
  idx : next.idx = k + 1
  bitmap : next.bitmaps k = ⟨totalBits + bitsOffset units k, units / 2 ^ k % 2⟩
  earlier : ∀ j < k, next.bitmaps j = st.bitmaps j
  memory : ∀ address, next.memory address =
    if units / 2 ^ k % 2 = 1 ∧ address = totalBits + (bitsOffset units k + bitsLen units k - 1) then
      1#8 <<< (units / 2 ^ k % 8 - 1) else st.memory address

section Levels

variable {units totalBits k : ℕ} {st next done : InitState}

private theorem LevelStored.own (stored : LevelStored units totalBits k st next) (c : ℕ) (bound : c < bitsLen units k) :
    next.memory (totalBits + bitsOffset units k + c) =
      if units / 2 ^ k % 2 = 1 ∧ c + 1 = bitsLen units k then 1#8 <<< (units / 2 ^ k % 8 - 1)
      else st.memory (totalBits + bitsOffset units k + c) := by
  rw [stored.memory]
  exact if_congr (by omega) rfl rfl

private theorem LevelStored.outside (stored : LevelStored units totalBits k st next) (address : ℕ)
    (apart : address < totalBits + bitsOffset units k ∨ totalBits + bitsOffset units (k + 1) ≤ address) :
    next.memory address = st.memory address := by
  have offset := bitsOffset_succ units k
  have length : bitsLen units k = (units / 2 ^ k - 1) / 8 + 1 := rfl
  rw [stored.memory, if_neg (by omega)]

/-- The last level. -/
private theorem LevelStored.last (stored : LevelStored units totalBits (Nat.log2 units) st next) :
    LevelsDone units totalBits (Nat.log2 units) st next where
  bitsIdx := stored.bitsIdx
  idx := stored.idx
  bitmaps j lower upper := by
    obtain rfl := Nat.le_antisymm upper lower
    exact stored.bitmap
  before address bound := stored.outside address (.inl bound)
  earlier := stored.earlier
  bytes j lower upper := by
    obtain rfl := Nat.le_antisymm upper lower
    exact stored.own

/-- A level in front of others. -/
private theorem LevelStored.cons (stored : LevelStored units totalBits k st next)
    (facts : LevelsDone units totalBits (k + 1) next done) : LevelsDone units totalBits k st done where
  bitsIdx := facts.bitsIdx
  idx := facts.idx
  bitmaps j lower upper := by
    rcases Nat.eq_or_lt_of_le lower with rfl | later
    · rw [facts.earlier k (by omega), stored.bitmap]
    · exact facts.bitmaps j later upper
  before address bound := by
    have offset := bitsOffset_succ units k
    rw [facts.before address (by omega), stored.outside address (.inl bound)]
  earlier j lt := by rw [facts.earlier j (by omega), stored.earlier j lt]
  bytes j lower upper c bound := by
    have offset := bitsOffset_succ units k
    rcases Nat.eq_or_lt_of_le lower with rfl | later
    · rw [facts.before _ (by omega), stored.own c bound]
    · have above := bitsOffset_le units (Nat.lt_of_succ_le later)
      rw [facts.bytes j later upper c bound, stored.outside _ (.inr (by omega))]

end Levels

private theorem initLevels_eq (units totalBits fuel k : ℕ) (st : InitState) (nonempty : units ≠ 0)
    (level : k ≤ Nat.log2 units) (enough : Nat.log2 units < k + fuel)
    (bitsIdx : st.bitsIdx = bitsOffset units k) (idx : st.idx = k) :
    ∃ done, initLevels totalBits fuel (units / 2 ^ k) st = .ok done ∧
      LevelsDone units totalBits k st done := by
  induction fuel generalizing k st with
  | zero => omega
  | succ fuel ih =>
    have positive : units / 2 ^ k ≠ 0 := by
      have := (Nat.le_log2 nonempty).mp level
      have := Nat.div_pos this (Nat.two_pow_pos k)
      omega
    have continues : units / 2 ^ k / 2 ≠ 0 ↔ k + 1 ≤ Nat.log2 units := by
      rw [← Dyadic.div_succ, Nat.le_log2 nonempty, Nat.div_ne_zero_iff]
      have := Nat.two_pow_pos (k + 1)
      omega
    have length : bitsLen units k = (units / 2 ^ k - 1) / 8 + 1 := rfl
    rw [initLevels, bitsIdx, idx, ← length]
    generalize stepped : InitState.mk _ _ _ _ = next
    have stored : LevelStored units totalBits k st next := by
      rw [← stepped]
      refine ⟨(bitsOffset_succ units k).symm, rfl, ?_, fun j lt => Function.update_of_ne (by omega) _ _,
        fun address => ?_⟩
      · dsimp only
        rw [Function.update_self]
        congr 1
        split_ifs <;> omega
      · dsimp only
        by_cases odd : units / 2 ^ k % 2 ≠ 0
        · rw [if_pos odd, Function.update_apply]
          exact if_congr (by omega) rfl rfl
        · rw [if_neg odd, if_neg (by omega)]
    split_ifs with more
    · obtain ⟨done, ran, facts⟩ := ih (k + 1) next (continues.mp more) (by omega) stored.bitsIdx stored.idx
      rw [Dyadic.div_succ] at ran
      exact ⟨done, ran, stored.cons facts⟩
    · have last : k = Nat.log2 units := by
        have := mt continues.mpr more
        omega
      subst last
      exact ⟨next, rfl, stored.last⟩

/-! ## Accepted pools -/

/-- The metadata fits in one page, or takes a small part of the pool. -/
theorem metadata_small (units levels : ℕ) (log : levels = Nat.log2 units + 1) (wide : units < 2 ^ 53) :
    levels * blockBitmapSize + u32 (bitsOffset units levels) ≤ BUDDY_UNIT ∨
      levels * blockBitmapSize + u32 (bitsOffset units levels) + 2 * BUDDY_UNIT ≤ units * BUDDY_UNIT := by
  have few : levels ≤ 53 := by
    rcases Nat.eq_zero_or_pos units with rfl | positive
    · rw [log]
      decide
    · have := (Nat.log2_lt (by omega)).mpr wide
      omega
  have bits := (Nat.mod_le (bitsOffset units levels) (2 ^ 32)).trans (bitsOffset_bound units levels)
  have bytes : levels * (units / 8 + 1) ≤ 53 * (units / 8 + 1) := Nat.mul_le_mul_right _ few
  unfold u32
  simp only [blockBitmapSize, BUDDY_UNIT]
  omega

/-- What an accepted request says about the sizes `buddy_info_init` chose. -/
private theorem buddyInfoInit_ok {totalLen : ℕ} (bound : totalLen < 2 ^ 64) {info : MetadataInfo} {dataOffset : ℕ}
    (accepted : buddyInfoInit totalLen = .ok (info, dataOffset)) :
    dataOffset + BUDDY_UNIT < totalLen ∧ dataOffset % BUDDY_UNIT = 0 ∧
      info.units = (totalLen - dataOffset - 1) / BUDDY_UNIT + 1 ∧ info.levels = Nat.log2 info.units + 1 ∧
      info.metadataLen = info.levels * blockBitmapSize + u32 (bitsOffset info.units info.levels) ∧
      info.metadataLen < dataOffset := by
  simp only [buddyInfoInit, Except.bind_ok_iff, assert_ok_iff, decide_eq_true_eq, Except.pure_ok_iff,
    Prod.mk.injEq] at accepted
  obtain ⟨first, firstRan, second, secondRan, _, below, rfl, rfl⟩ := accepted
  obtain ⟨large, units, levels, metadata, _⟩ := (buddyInfoCalcMetadata_ok_iff bound).mp firstRan
  obtain ⟨lower, upper⟩ := szdivCeil_bounds first.metadataLen (y := BUDDY_UNIT) (by decide)
  obtain ⟨m, offset⟩ : ∃ m, szdivCeil first.metadataLen BUDDY_UNIT = m := ⟨_, rfl⟩
  rw [offset] at lower upper secondRan below ⊢
  have inside : m * BUDDY_UNIT < totalLen := by
    have small := metadata_small first.units first.levels (by rw [levels]) (by simp only [BUDDY_UNIT] at units; omega)
    rw [← metadata] at small
    simp only [BUDDY_UNIT] at *
    omega
  have unwrapped : u64 (m * BUDDY_UNIT) = m * BUDDY_UNIT := u64_of_lt (by omega)
  rw [unwrapped, sub64_of_le (by omega) bound] at secondRan
  rw [unwrapped] at below ⊢
  obtain ⟨many, units', levels', metadata', _⟩ := (buddyInfoCalcMetadata_ok_iff (by omega)).mp secondRan
  exact ⟨by omega, by simp only [BUDDY_UNIT]; omega, units', levels', metadata', below⟩

/-- A byte with one bit set shows that bit and no other. -/
private theorem getLsbD_one_shift {offset bit : ℕ} (small : bit < 8) :
    (1#8 <<< offset).getLsbD bit = decide (bit = offset) := by
  simp only [BitVec.getLsbD_shiftLeft, BitVec.getLsbD_one]
  rw [Bool.eq_iff_iff]
  simp
  omega

section FirstBitmaps

variable {units totalBits levels k : ℕ} {bitmaps : ℕ → BlockBitmap} {memory : Memory} {done : InitState}

/-- The loop sets the bits of the maximal blocks of all units, in bitmaps that were cleared before. -/
private theorem LevelsDone.getBit_iff
    (facts : LevelsDone units totalBits 0 ⟨0, 0, bitmaps, memset memory totalBits 0 (bitsOffset units levels)⟩ done)
    (count : levels = Nat.log2 units + 1) (nonempty : units ≠ 0) (level : k < levels) (i : ℕ)
    (bound : i / 8 < bitsLen units k) :
    getBit done.memory (done.bitmaps k) i = true ↔ Maximal (Set.Iio units) k i := by
  have inside := bitsOffset_le units level
  have digit := Nat.div_pos ((Nat.le_log2 nonempty).mp (show k ≤ Nat.log2 units by omega)) (Nat.two_pow_pos k)
  have length : bitsLen units k = (units / 2 ^ k - 1) / 8 + 1 := rfl
  have blank : memset memory totalBits 0 (bitsOffset units levels) (totalBits + bitsOffset units k + i / 8) = 0 := by
    rw [memset_apply, if_pos ⟨by omega, by omega⟩]
  rw [getBit_eq, facts.bitmaps k (Nat.zero_le _) (by omega), maximal_Iio_iff]
  dsimp only
  rw [facts.bytes k (Nat.zero_le _) (by omega) _ bound]
  dsimp only
  rw [blank]
  split_ifs with last
  · rw [getLsbD_one_shift (Nat.mod_lt _ (by decide)), decide_eq_true_iff]
    omega
  · simp only [BitVec.ofNat_eq_ofNat, BitVec.getLsbD_zero, Bool.false_eq_true, false_iff]
    omega

/-- A level of all units has at most one maximal block. -/
private theorem card_maximal {f : ℕ → Bool}
    (bit : ∀ i, i / 8 < bitsLen units k → (f i = true ↔ Maximal (Set.Iio units) k i)) :
    ((range (8 * bitsLen units k)).filter fun i => f i).card = units / 2 ^ k % 2 := by
  have members : ((range (8 * bitsLen units k)).filter fun i => f i) =
      if units / 2 ^ k % 2 = 1 then {units / 2 ^ k - 1} else ∅ := by
    ext i
    have expand : i ∈ range (8 * bitsLen units k) ↔ i / 8 < bitsLen units k := by
      rw [mem_range]
      omega
    have length : bitsLen units k = (units / 2 ^ k - 1) / 8 + 1 := rfl
    have sign := Nat.zero_le (units / 2 ^ k)
    rw [mem_filter, expand]
    split_ifs with odd
    · rw [mem_singleton]
      constructor
      · rintro ⟨bound, set⟩
        have := maximal_Iio_iff.mp ((bit i bound).mp set)
        omega
      · rintro rfl
        exact ⟨by omega, (bit _ (by omega)).mpr (maximal_Iio_iff.mpr ⟨odd, by omega⟩)⟩
    · refine iff_of_false (fun both => ?_) (notMem_empty i)
      exact odd (maximal_Iio_iff.mp ((bit i both.1).mp both.2)).1
  rw [members]
  split_ifs with odd
  · rw [card_singleton, odd]
  · rw [card_empty]
    omega

end FirstBitmaps

section Pools

variable {memory : Memory} {bitmaps : ℕ → BlockBitmap} {startAddr totalLen : ℕ} {pool : BuddyBlocks}

/-- The rest of `buddy_init` passes its checks if the bytes of the bitmaps were counted right. -/
theorem buddyInit_of_info (wide : totalLen < 2 ^ 64) {info : MetadataInfo} {dataOffset : ℕ}
    (sizes : buddyInfoInit totalLen = .ok (info, dataOffset)) (narrow : bitsOffset info.units info.levels < 2 ^ 32) :
    ∃ pool, buddyInit memory bitmaps startAddr totalLen = .ok pool ∧ pool.units = info.units := by
  obtain ⟨_, _, units, levels, metadata, _⟩ := buddyInfoInit_ok wide sizes
  rw [u32_of_lt narrow] at metadata
  have nonempty : info.units ≠ 0 := by
    rw [units]
    exact Nat.succ_ne_zero _
  have log : Nat.log2 info.units < 64 := (Nat.log2_lt nonempty).mpr (by simp only [BUDDY_UNIT] at units; omega)
  have totalBitsLen : info.metadataLen - info.levels * blockBitmapSize = bitsOffset info.units info.levels := by omega
  obtain ⟨done, ran, facts⟩ := initLevels_eq info.units (startAddr + info.levels * blockBitmapSize) 64 0
    ⟨0, 0, bitmaps, memset memory (startAddr + info.levels * blockBitmapSize) 0
      (bitsOffset info.units info.levels)⟩ nonempty (Nat.zero_le _) (by omega) rfl rfl
  rw [pow_zero, Nat.div_one] at ran
  have bytes : done.bitsIdx = bitsOffset info.units info.levels := by rw [facts.bitsIdx, levels]
  have count : done.idx = info.levels := by rw [facts.idx, levels]
  simp only [buddyInit, sizes, Except.ok_bind, totalBitsLen, ran, assert_of (decide_eq_true bytes),
    assert_of (decide_eq_true count)]
  exact ⟨_, rfl, rfl⟩

/-- An accepted pool shows the maximal blocks of its whole data area. -/
theorem buddyInit_placed (accepted : buddyInit memory bitmaps startAddr totalLen = .ok pool)
    (wide : totalLen < 2 ^ 64) :
    Placed pool ∧ Shows pool pool (Maximal (Set.Iio pool.units)) ∧ pool.used = 0 ∧
      pool.startAddr = startAddr ∧ pool.totalLen = totalLen := by
  simp only [buddyInit, Except.bind_ok_iff, assert_ok_iff, decide_eq_true_eq, Except.pure_ok_iff] at accepted
  obtain ⟨⟨info, dataOffset⟩, sizes, st, loop, _, counted, _, _, rfl⟩ := accepted
  obtain ⟨large, multiple, units, levels, metadata, below⟩ := buddyInfoInit_ok wide sizes
  dsimp only at loop counted ⊢
  have nonempty : info.units ≠ 0 := by
    rw [units]
    exact Nat.succ_ne_zero _
  have log : Nat.log2 info.units < 64 := (Nat.log2_lt nonempty).mpr (by simp only [BUDDY_UNIT] at units; omega)
  obtain ⟨totalBitsLen, hlen⟩ : ∃ totalBitsLen, info.metadataLen - info.levels * blockBitmapSize = totalBitsLen :=
    ⟨_, rfl⟩
  rw [hlen] at loop counted
  obtain ⟨done, ran, facts⟩ := initLevels_eq info.units (startAddr + info.levels * blockBitmapSize) 64 0
    ⟨0, 0, bitmaps, memset memory (startAddr + info.levels * blockBitmapSize) 0 totalBitsLen⟩ nonempty
    (Nat.zero_le _) (by omega) rfl rfl
  rw [pow_zero, Nat.div_one, loop] at ran
  obtain rfl := Except.ok.inj ran
  -- the bytes that the loop stored are as many as the counter says, so the counter did not wrap
  have filled : bitsOffset info.units info.levels = totalBitsLen := by rw [← counted, facts.bitsIdx, levels]
  have truncated : u32 (bitsOffset info.units info.levels) < 2 ^ 32 := Nat.mod_lt _ (by decide)
  rw [← filled] at hlen
  have metadata' : info.metadataLen = info.levels * blockBitmapSize + bitsOffset info.units info.levels := by omega
  rw [← filled] at facts
  have levelMap (k : ℕ) (level : k < info.levels) := facts.bitmaps k (Nat.zero_le _) (by omega)
  have bit (k i : ℕ) (level : k < info.levels) (bound : i / 8 < bitsLen info.units k) :=
    facts.getBit_iff levels nonempty level i bound
  refine ⟨?_, ?_, rfl, rfl, rfl⟩
  · exact
      { levels := levels
        many := by dsimp only; simp only [BUDDY_UNIT] at units large; omega
        bits := fun k level => by dsimp only; rw [levelMap k level]
        metadata := metadata'
        narrow := by dsimp only; omega
        offset := below
        multiple := multiple
        covers := by dsimp only; simp only [BUDDY_UNIT] at *; omega
        tight := by dsimp only; simp only [BUDDY_UNIT] at *; omega }
  · refine ⟨rfl, fun _ => rfl, fun _ _ => rfl, fun _ _ => rfl, fun k i range => bit k i range.1 range.2, ?_⟩
    intro k level
    dsimp only at level ⊢
    rw [levelMap k level, BuddyBlocks.levelCount]
    exact (card_maximal fun i bound => bit k i level bound).symm

/-- Whole pages below two gibibytes have the layout. -/
theorem buddyInit_ok (accepted : buddyInit memory bitmaps startAddr totalLen = .ok pool)
    (alignedStart : startAddr % BUDDY_UNIT = 0) (alignedLen : totalLen % BUDDY_UNIT = 0)
    (small : totalLen ≤ 2 ^ 31) (bounded : startAddr + totalLen < 2 ^ 64) :
    Layout pool ∧ Shows pool pool (Maximal (Set.Iio pool.units)) ∧ pool.used = 0 ∧
      pool.startAddr = startAddr ∧ pool.totalLen = totalLen := by
  obtain ⟨placed, shown, used, start, total⟩ := buddyInit_placed accepted (by omega)
  have covers := placed.covers
  have tight := placed.tight
  have offset := placed.offset
  have multiple := placed.multiple
  refine ⟨{ placed with small := ?_, total := ?_, aligned := ?_, bounded := ?_ }, shown, used, start, total⟩ <;>
    simp only [BUDDY_UNIT] at * <;> omega

end Pools

end RubberOS.Model.Buddy
