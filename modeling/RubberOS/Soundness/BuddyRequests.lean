import RubberOS.Proofs.BuddyMarks
import RubberOS.Soundness.BuddyRuns

/-! # Requests of any length
 A request is rounded up to pages, and its level is searched by shifting the unit until it is long enough. Both
steps leave the 64 bits of `size_t` for lengths that no pool could hold, and the length that is returned is an
`int` shift. This file settles, for every state of every pool, which lengths are answered by null or by a slice
that is long enough. -/

namespace RubberOS.Soundness.BuddyRequests

open Model Model.Buddy Dyadic LabelledRuns BuddyRuns

/-- Any length but zero may be asked for, and live slices are released by an allowed name. -/
def Enabled (s : State) : Event → Prop
  | .alloc len => 1 ≤ len ∧ len < 2 ^ 64
  | .dealloc entry addr len => entry ∈ s.live ∧ Names entry addr len

/-- A finite run of calls from a fresh pool. -/
abbrev Reaches (pool : BuddyBlocks) : List Event → State → Prop := Run (Guarded Enabled exec) ⟨pool, []⟩

/-- The call returns null or a slice that is long enough, and null without a change if the length is more than the
largest block has. -/
def Answers (buddy : BuddyBlocks) (len : ℕ) : Prop :=
  ∃ slice after, buddyAllocSlice buddy len = .ok (slice, after) ∧ (slice = ⟨0, 0⟩ ∨ len ≤ slice.length) ∧
    (BUDDY_UNIT * 2 ^ (buddy.bitmapsLen - 1) < len → slice = ⟨0, 0⟩ ∧ after = buddy)

/-- The levels from the fitting one on have no free block, or the fitting level has blocks of at most two gibibytes
and a level that the shift of an `int` can reach has a free block. Lengths whose rounding wraps need an exhausted
pool. -/
def Answerable (buddy : BuddyBlocks) (len : ℕ) : Prop :=
  (len ≤ 2 ^ 63 ∧ ∀ k, IsFit len k → (∀ l, k ≤ l → l < buddy.bitmapsLen → isEmpty (buddy.bitmaps l) = true) ∨
    k ≤ 19 ∧ ∃ l, k ≤ l ∧ l ≤ 31 ∧ l < buddy.bitmapsLen ∧ isEmpty (buddy.bitmaps l) = false) ∨
  2 ^ 64 < len + BUDDY_UNIT ∧ ∀ l < buddy.bitmapsLen, isEmpty (buddy.bitmaps l) = true

/-! ## One request -/

/-- What is handed out of a block of one level as a block of another: its length, and its address, which is exact
below level 19, wraps there and is that of the data area above. -/
structure Handed (pool : BuddyBlocks) (k l : ℕ) (slice : Slice) : Prop where
  length : slice.length = if k ≤ 19 then BUDDY_UNIT * 2 ^ k else 0
  ptr : ∃ i, (i + 1) * 2 ^ l ≤ pool.units ∧ (l < 19 ∧ slice.ptr = pool.dataAddr + i * (BUDDY_UNIT * 2 ^ l) ∨
    l = 19 ∧ slice.ptr = u64 (pool.dataAddr + i * 18446744071562067968) ∨ 20 ≤ l ∧ slice.ptr = pool.dataAddr)

section Requests

variable {pool buddy : BuddyBlocks} {k l len : ℕ} {slice : Slice}

private theorem Placed.dataAddr_bounds (placed : Placed pool) (bounded : pool.startAddr + pool.totalLen < 2 ^ 64) :
    BUDDY_UNIT ≤ pool.dataAddr ∧ pool.dataAddr + pool.units * BUDDY_UNIT < 2 ^ 64 + BUDDY_UNIT := by
  have front := placed.dataOffset_ge
  have tight := placed.tight
  have dataAddr : pool.dataAddr = pool.startAddr + pool.dataOffset := rfl
  omega

/-- A slice that is handed out is not null. -/
private theorem Handed.ne_null (placed : Placed pool) (bounded : pool.startAddr + pool.totalLen < 2 ^ 64) (le : k ≤ l)
    (handed : Handed pool k l slice) : slice ≠ ⟨0, 0⟩ := by
  rintro rfl
  have length := handed.length
  obtain ⟨i, _, address⟩ := handed.ptr
  have front := (Placed.dataAddr_bounds placed bounded).1
  unfold BUDDY_UNIT at front
  split_ifs at length with narrow
  · have positive : 0 < BUDDY_UNIT * 2 ^ k := Nat.mul_pos (by decide) (Nat.two_pow_pos k)
    dsimp only at length
    omega
  · dsimp only at address
    omega

/-- A level with free blocks hands out a block, if the shift of the `int` is in range. -/
private theorem takeFrom_cases (placed : Placed pool) (bounded : pool.startAddr + pool.totalLen < 2 ^ 64)
    (marked : Marked pool buddy) (le : k ≤ l) (level : l < pool.bitmapsLen)
    (some : isEmpty (buddy.bitmaps l) = false) :
    (32 ≤ l ∧ takeFrom buddy k l = .error .shiftOutOfRange) ∨
    (l ≤ 31 ∧ ∃ slice after, takeFrom buddy k l = .ok (slice, after) ∧ Marked pool after ∧
      Handed pool k l slice) := by
  obtain ⟨i, after, inside, afterMarked, ran⟩ := Marked.takeFrom k placed marked level some
  have small : u64 pool.dataAddr = pool.dataAddr := placed.dataStart bounded
  rw [ran, small]
  rcases Nat.lt_or_ge l 32 with low | high
  · obtain ⟨wanted, shifted⟩ : ∃ wanted, intShl BUDDY_UNIT k = .ok wanted := ⟨_, if_pos (by omega)⟩
    obtain ⟨whole, shiftedWhole⟩ : ∃ whole, intShl BUDDY_UNIT l = .ok whole := ⟨_, if_pos low⟩
    rw [shifted, Except.ok_bind, shiftedWhole]
    refine .inr ⟨by omega, _, _, rfl, afterMarked.setUsed _, ?_, i, inside, ?_⟩
    · rcases intShl_unit_cases shifted with ⟨_, length, _⟩ | ⟨_, length, _⟩ | ⟨_, _, length, _⟩
      · rw [if_pos (by omega), ← length]
      · rw [if_pos (by omega), ← length]
      · rw [if_neg (by omega), ← length]
    · rcases intShl_unit_cases shiftedWhole with ⟨low, _, whole⟩ | ⟨same, _, whole⟩ | ⟨high, _, _, whole⟩
      · have bytes := block_bytes inside
        have above := (Placed.dataAddr_bounds placed bounded).2
        have page : BUDDY_UNIT ≤ BUDDY_UNIT * 2 ^ l := Nat.le_mul_of_pos_right _ (Nat.two_pow_pos l)
        refine .inl ⟨low, ?_⟩
        dsimp only
        rw [whole, u64_of_lt (by omega)]
      · have length : intToSize _ = 18446744071562067968 := Nat.add_right_cancel whole
        refine .inr (.inl ⟨same, ?_⟩)
        dsimp only
        rw [length]
      · refine .inr (.inr ⟨high, ?_⟩)
        dsimp only
        rw [whole, Nat.mul_zero, Nat.add_zero, small]
  · have out : intShl BUDDY_UNIT l = .error .shiftOutOfRange := if_neg (by omega)
    refine .inl ⟨high, ?_⟩
    rcases Nat.lt_or_ge k 32 with low | high
    · obtain ⟨wanted, shifted⟩ : ∃ wanted, intShl BUDDY_UNIT k = .ok wanted := ⟨_, if_pos low⟩
      rw [shifted, Except.ok_bind, out]
      rfl
    · have out : intShl BUDDY_UNIT k = .error .shiftOutOfRange := if_neg (by omega)
      rw [out]
      rfl

/-- The answer to a request whose level was found. -/
private theorem answers_iff_of_level (placed : Placed pool) (bounded : pool.startAddr + pool.totalLen < 2 ^ 64)
    (marked : Marked pool buddy) (positive : len ≠ 0)
    (searched : bitmapIndexForSize (u64 (szdivCeil len BUDDY_UNIT * BUDDY_UNIT)) = .ok k) :
    Answers buddy len ↔ (∀ l, k ≤ l → l < buddy.bitmapsLen → isEmpty (buddy.bitmaps l) = true) ∨
      (k ≤ 19 ∧ len ≤ BUDDY_UNIT * 2 ^ k) ∧
        ∃ l, k ≤ l ∧ l ≤ 31 ∧ l < buddy.bitmapsLen ∧ isEmpty (buddy.bitmaps l) = false := by
  rw [Answers, buddyAllocSlice_eq buddy positive, searched, Except.ok_bind, marked.describes.bitmapsLen_eq]
  by_cases large : k ≥ pool.bitmapsLen
  · rw [if_pos large]
    exact iff_of_true ⟨_, _, rfl, .inl rfl, fun _ => ⟨rfl, rfl⟩⟩ (.inl fun l ge lt => by omega)
  · rw [if_neg large]
    cases first : firstLevel buddy (pool.bitmapsLen - k) k with
    | none =>
      exact iff_of_true ⟨_, _, rfl, .inl rfl, fun _ => ⟨rfl, rfl⟩⟩
        (.inl fun l ge lt => firstLevel_none first ge (by omega))
    | some l =>
      obtain ⟨ge, lt, some, earlier⟩ := firstLevel_some first
      have occupied : ¬∀ l, k ≤ l → l < pool.bitmapsLen → isEmpty (buddy.bitmaps l) = true := fun empty => by
        rw [empty l ge (by omega)] at some
        cases some
      rw [or_iff_right occupied]
      dsimp only
      rcases takeFrom_cases placed bounded marked ge (by omega) some
        with ⟨high, failed⟩ | ⟨low, slice, after, ran, _, handed⟩
      · rw [failed]
        refine iff_of_false ?_ ?_
        · rintro ⟨_, _, ⟨⟩, _⟩
        · rintro ⟨_, j, from_, until_, _, free⟩
          rw [earlier j from_ (by omega)] at free
          cases free
      · rw [ran]
        have length := handed.length
        constructor
        · rintro ⟨_, _, ⟨⟩, null | long, _⟩
          · exact (handed.ne_null placed bounded ge null).elim
          · split_ifs at length with narrow
            · exact ⟨⟨narrow, by omega⟩, l, ge, low, by omega, some⟩
            · omega
        · rintro ⟨⟨narrow, long⟩, _⟩
          rw [if_pos narrow] at length
          refine ⟨slice, after, rfl, .inr (by omega), fun longer => ?_⟩
          have largest : 2 ^ k ≤ 2 ^ (pool.bitmapsLen - 1) := Nat.pow_le_pow_right (by decide) (by omega)
          have bytes := Nat.mul_le_mul_left BUDDY_UNIT largest
          omega

/-- The code's answer to any length. -/
private theorem answers_iff (placed : Placed pool) (bounded : pool.startAddr + pool.totalLen < 2 ^ 64)
    (marked : Marked pool buddy) (positive : 1 ≤ len) (small : len < 2 ^ 64) :
    Answers buddy len ↔ Answerable buddy len := by
  obtain ⟨lower, upper⟩ := szdivCeil_bounds len (y := BUDDY_UNIT) (by decide)
  rw [Answerable]
  rcases Nat.lt_or_ge (2 ^ 64) (len + BUDDY_UNIT) with wraps | fits
  · -- the fitting level of zero is the lowest
    have searched : bitmapIndexForSize (u64 (szdivCeil len BUDDY_UNIT * BUDDY_UNIT)) = .ok 0 := by
      rw [rounded_wraps small wraps]
      exact bitmapIndexForSize_eq ⟨Nat.zero_le _, fun j lt => (Nat.not_lt_zero j lt).elim⟩ (by decide)
    rw [answers_iff_of_level placed bounded marked (by omega) searched,
      or_iff_left (fun short => by unfold BUDDY_UNIT at *; omega),
      or_iff_right (fun half => by unfold BUDDY_UNIT at *; omega)]
    exact ⟨fun empty => ⟨wraps, fun l lt => empty l (Nat.zero_le l) lt⟩, fun ⟨_, empty⟩ l _ lt => empty l lt⟩
  · have aligned : u64 (szdivCeil len BUDDY_UNIT * BUDDY_UNIT) = szdivCeil len BUDDY_UNIT * BUDDY_UNIT :=
      u64_of_lt (by omega)
    rw [or_iff_left (fun wrapped => by omega)]
    rcases Nat.lt_or_ge (2 ^ 63) len with huge | half
    · -- no shift of the unit is long enough
      refine iff_of_false ?_ (fun short => by omega)
      rintro ⟨slice, after, ran, _⟩
      rw [buddyAllocSlice_eq buddy (by omega), aligned] at ran
      simp only [Except.bind_ok_iff, bitmapIndexForSize_ok_iff] at ran
      obtain ⟨k, ⟨narrow, fit⟩, _⟩ := ran
      have largest := Nat.mul_le_mul_left BUDDY_UNIT (Nat.pow_le_pow_right (n := 2) (by decide) narrow)
      have covers := fit.covers
      unfold BUDDY_UNIT at *
      omega
    · obtain ⟨k, fit⟩ := exists_fit len
      have narrow : k ≤ 51 := fit.le_of_covers (by unfold BUDDY_UNIT; omega)
      have searched : bitmapIndexForSize (u64 (szdivCeil len BUDDY_UNIT * BUDDY_UNIT)) = .ok k := by
        rw [aligned]
        exact bitmapIndexForSize_eq fit.round narrow
      rw [answers_iff_of_level placed bounded marked (by omega) searched]
      constructor
      · intro answer
        refine ⟨half, fun j other => ?_⟩
        obtain rfl := other.unique fit
        exact answer.imp_right fun ⟨⟨low, _⟩, free⟩ => ⟨low, free⟩
      · rintro ⟨_, condition⟩
        exact (condition k fit).imp_right fun ⟨low, free⟩ => ⟨⟨low, fit.covers⟩, free⟩

end Requests

/-! ## Live slices -/

/-- The client's request against the length it got. A request whose rounding wraps has got one unit. -/
def Fits (requested k : ℕ) : Prop :=
  1 ≤ requested ∧ requested < 2 ^ 64 ∧ (requested ≤ BUDDY_UNIT * 2 ^ k ∨ k = 0 ∧ 2 ^ 64 < requested + BUDDY_UNIT)

/-- What clients hold: a block of the data area, a slice without bytes for a request of more than two gibibytes, or
a slice whose address has left the data area. -/
inductive Held (pool : BuddyBlocks) (entry : Live) : Prop
  | block {k j : ℕ} : entry.slice = pool.block k j → (j + 1) * 2 ^ k ≤ pool.units → Fits entry.requested k →
      Held pool entry
  | empty : entry.slice = ⟨pool.dataAddr, 0⟩ → 2 ^ 31 < entry.requested →
      entry.requested ≤ pool.units * BUDDY_UNIT → Held pool entry
  | outside {k i : ℕ} : entry.slice.length = BUDDY_UNIT * 2 ^ k → k ≤ 19 → 1 ≤ i → i * 2 ^ 31 ≤ pool.units * BUDDY_UNIT →
      (entry.slice.ptr + i * 2 ^ 31 = pool.dataAddr ∨ entry.slice.ptr + i * 2 ^ 31 = pool.dataAddr + 2 ^ 64) →
      Fits entry.requested k → Held pool entry

section LiveSlices

variable {pool : BuddyBlocks} {entry : Live} {addr len k l j : ℕ} {block : Selection} {slice : Slice}

/-- A name of a slice with bytes lies in it, or is the request that has wrapped. -/
private theorem Names.range (names : Names entry addr len) (length : entry.slice.length = BUDDY_UNIT * 2 ^ k)
    (fits : Fits entry.requested k) :
    (len ≠ 0 ∧ entry.slice.ptr ≤ addr ∧ addr + len ≤ entry.slice.ptr + BUDDY_UNIT * 2 ^ k) ∨
      k = 0 ∧ addr = entry.slice.ptr ∧ len < 2 ^ 64 ∧ 2 ^ 64 < len + BUDDY_UNIT := by
  obtain ⟨positive, bound, short | ⟨lowest, wraps⟩⟩ := fits
  all_goals have bytes : 0 < BUDDY_UNIT * 2 ^ k := Nat.mul_pos (by decide) (Nat.two_pow_pos k)
  all_goals cases names
  · exact .inl ⟨by omega, le_rfl, by omega⟩
  · exact .inl ⟨by omega, le_rfl, by omega⟩
  · exact .inl ⟨by omega, by omega, by omega⟩
  · exact .inr ⟨lowest, rfl, bound, wraps⟩
  · exact .inl ⟨by omega, le_rfl, by omega⟩
  · exact .inl ⟨by omega, by omega, by omega⟩

/-- The rounded end of a request that wraps is the start of its page or the next one. -/
private theorem wrapped_extent {ptr : ℕ} (front : BUDDY_UNIT ≤ ptr) (top : ptr < 2 ^ 64) (short : len < 2 ^ 64)
    (wraps : 2 ^ 64 < len + BUDDY_UNIT) :
    sub64 (u64 (uptrdivCeil (u64 (ptr + len)) BUDDY_UNIT * BUDDY_UNIT))
      (ptr / BUDDY_UNIT * BUDDY_UNIT) ≤ BUDDY_UNIT := by
  obtain ⟨above, below⟩ := uptrdivCeil_bounds (u64 (ptr + len)) (y := BUDDY_UNIT) (by decide)
  unfold BUDDY_UNIT at *
  have wrapped : u64 (ptr + len) + 2 ^ 64 = ptr + len := by
    unfold u64
    omega
  unfold sub64 u64
  unfold u64 at above below wrapped
  omega

/-- The units below a selected address, and the level of the selected range, in a block of the data area. -/
private theorem near_of_range (placed : Placed pool) (bounded : pool.startAddr + pool.totalLen < 2 ^ 64)
    (selected : Selected pool addr len block) (inside : (j + 1) * 2 ^ k ≤ pool.units)
    (range : (len ≠ 0 ∧ pool.dataAddr + j * (BUDDY_UNIT * 2 ^ k) ≤ addr ∧
        addr + len ≤ pool.dataAddr + j * (BUDDY_UNIT * 2 ^ k) + BUDDY_UNIT * 2 ^ k) ∨
      k = 0 ∧ addr = pool.dataAddr + j * (BUDDY_UNIT * 2 ^ k) ∧ len < 2 ^ 64 ∧ 2 ^ 64 < len + BUDDY_UNIT) :
    (addr / BUDDY_UNIT * BUDDY_UNIT - pool.dataAddr) / BUDDY_UNIT < (j + 1) * 2 ^ k ∧
      (block.bitmapIdxFit ≤ k ∨ block.bitmapIdxFit = k + 1 ∧
        (addr / BUDDY_UNIT * BUDDY_UNIT - pool.dataAddr) / BUDDY_UNIT < j * 2 ^ k) := by
  have shape : j * (BUDDY_UNIT * 2 ^ k) = j * 2 ^ k * BUDDY_UNIT := by ring
  have width : (j + 1) * 2 ^ k = j * 2 ^ k + 2 ^ k := by ring
  have size := block_bytes inside
  have power := Nat.two_pow_pos k
  have start := selected.start
  rw [placed.dataStart bounded] at start
  rw [shape] at size range
  rw [width]
  refine ⟨?_, ?_⟩
  · unfold BUDDY_UNIT at *
    omega
  rcases range with ⟨nonzero, lower, upper⟩ | ⟨rfl, rfl, short, wraps⟩
  · have fit := selected.extent placed bounded (by omega)
    obtain ⟨above, below⟩ := uptrdivCeil_bounds (addr + len) (y := BUDDY_UNIT) (by decide)
    have near : block.bitmapIdxFit ≤ k + 1 := by
      refine fit.le_of_covers ?_
      rw [pow_succ]
      unfold roundedExtent BUDDY_UNIT at *
      omega
    rcases Nat.lt_or_ge k block.bitmapIdxFit with higher | le
    · have long := fit.least k higher
      refine .inr ⟨by omega, ?_⟩
      unfold roundedExtent BUDDY_UNIT at *
      omega
    · exact .inl le
  · -- the wrapped end lies less than a page in front of the unit
    left
    have front := (Placed.dataAddr_bounds placed bounded).1
    have top := (Placed.dataAddr_bounds placed bounded).2
    refine selected.fit.le_of_covers ?_
    rw [pow_zero, Nat.mul_one] at size ⊢
    exact wrapped_extent (by omega) (by omega) short wraps

/-- A release of a slice that a client holds selects a block of the data area, if it selects one at all. -/
private theorem Held.inside (placed : Placed pool) (bounded : pool.startAddr + pool.totalLen < 2 ^ 64)
    (held : Held pool entry) (names : Names entry addr len) (nonzero : len ≠ 0)
    (selected : Selected pool addr len block) :
    (block.blockIndex + 1) * 2 ^ block.bitmapIdxFit ≤ pool.units := by
  obtain ⟨x, shifted, blockLen⟩ := selected.shift
  have positive := selected.positive
  have size := placed.units_lt
  cases held with
  | @block k j slice inside fits =>
    have length : entry.slice.length = BUDDY_UNIT * 2 ^ k := by rw [slice, BuddyBlocks.block]
    have range := Names.range names length fits
    rw [slice, BuddyBlocks.block] at range
    obtain ⟨below, near⟩ := near_of_range placed bounded selected inside range
    have index := selected.index
    have start := selected.start
    have short := selected.inside.trans (u64_lt _)
    rw [placed.dataStart bounded] at start index
    rw [sub64_of_le start short, blockLen] at index
    rcases intShl_unit_cases shifted with ⟨_, _, exact_⟩ | ⟨same, _, top⟩ | ⟨_, _, _, zero⟩
    · rw [index, exact_, ← Nat.div_div_eq_div_mul]
      exact (end_le_of_near below near).trans inside
    · -- the divisor is larger than the data area
      have first : block.blockIndex = 0 := by
        rw [index]
        refine Nat.div_eq_of_lt ?_
        have less := below.trans_le inside
        unfold BUDDY_UNIT at *
        omega
      have level := selected.level
      rw [placed.levels, same] at level
      rw [first, same, Nat.zero_add, Nat.one_mul]
      exact (Nat.le_log2 placed.nonempty).mp (by omega)
    · exact (positive (blockLen.trans zero)).elim
  | empty slice long short =>
    have ptr : entry.slice.ptr = pool.dataAddr := by rw [slice]
    have length : entry.slice.length = 0 := by rw [slice]
    cases names with
    | requested =>
      have fit := selected.extent placed bounded (by omega)
      obtain ⟨above, _⟩ := uptrdivCeil_bounds (entry.slice.ptr + entry.requested) (y := BUDDY_UNIT) (by decide)
      have large : 19 < block.bitmapIdxFit := by
        by_contra low
        have covers := fit.covers
        have power : 2 ^ block.bitmapIdxFit ≤ 2 ^ 19 := Nat.pow_le_pow_right (by decide) (by omega)
        unfold roundedExtent BUDDY_UNIT at *
        omega
      rcases intShl_unit_cases shifted with ⟨low, _⟩ | ⟨same, _⟩ | ⟨_, _, _, zero⟩
      · omega
      · omega
      · exact (positive (blockLen.trans zero)).elim
    | returned => exact (nonzero length).elim
    | @part _ _ k _ _ _ same =>
      have bytes : 0 < BUDDY_UNIT * 2 ^ k := Nat.mul_pos (by decide) (Nat.two_pow_pos k)
      omega
  | @outside k i length narrow far bytes address fits =>
    have power : 2 ^ k ≤ 2 ^ 19 := Nat.pow_le_pow_right (by decide) narrow
    have start := selected.start
    have inside := selected.inside
    rw [placed.dataStart bounded] at start inside
    rw [placed.dataEnd bounded] at inside
    have covers := placed.covers
    have dataAddr : pool.dataAddr = pool.startAddr + pool.dataOffset := rfl
    have near : entry.slice.ptr ≤ addr ∧ addr < entry.slice.ptr + 2 ^ 31 := by
      unfold BUDDY_UNIT at *
      rcases Names.range names length fits with range | ⟨_, rfl, _⟩
      · unfold BUDDY_UNIT at range
        omega
      · omega
    unfold BUDDY_UNIT at *
    omega

/-- A block of the data area contains the first block of every lower level. -/
private theorem first_inside (le : k ≤ l) {i : ℕ} (inside : (i + 1) * 2 ^ l ≤ pool.units) :
    (i * 2 ^ (l - k) + 1) * 2 ^ k ≤ pool.units := by
  have powers : 2 ^ (l - k) * 2 ^ k = 2 ^ l := by rw [← pow_add, Nat.sub_add_cancel le]
  have part : 2 ^ k ≤ 2 ^ l := Nat.pow_le_pow_right (by decide) le
  calc
    (i * 2 ^ (l - k) + 1) * 2 ^ k = i * 2 ^ l + 2 ^ k := by rw [Nat.add_mul, Nat.mul_assoc, powers, Nat.one_mul]
    _ ≤ i * 2 ^ l + 2 ^ l := Nat.add_le_add_left part _
    _ = (i + 1) * 2 ^ l := (Nat.succ_mul i (2 ^ l)).symm
    _ ≤ pool.units := inside

/-- A negative distance from the data area, modulo 2^64. -/
private theorem negative_address {start i bytes : ℕ} (front : start < 2 ^ 64) (short : bytes < 2 ^ 64)
    (far : i * 2 ^ 31 ≤ bytes) :
    u64 (start + i * 18446744071562067968) + i * 2 ^ 31 = start ∨
      u64 (start + i * 18446744071562067968) + i * 2 ^ 31 = start + 2 ^ 64 := by
  unfold u64
  omega

/-- A slice that a request got is one that clients hold. -/
private theorem Handed.held (placed : Placed pool) (bounded : pool.startAddr + pool.totalLen < 2 ^ 64) (le : k ≤ l)
    (handed : Handed pool k l slice) (positive : 1 ≤ len) (short : len < 2 ^ 64)
    (fit : IsFit len k ∨ k = 0 ∧ 2 ^ 64 < len + BUDDY_UNIT) : Held pool ⟨slice, len⟩ := by
  have length := handed.length
  obtain ⟨i, inside, address⟩ := handed.ptr
  have bytes := block_bytes inside
  have part := Nat.mul_le_mul_left BUDDY_UNIT (Nat.pow_le_pow_right (n := 2) (by decide) le)
  have bounds := Placed.dataAddr_bounds placed bounded
  split_ifs at length with narrow
  · have fits : Fits len k := ⟨positive, short, fit.imp_left IsFit.covers⟩
    have shape (ptr : ℕ) (same : slice.ptr = ptr) : slice = ⟨ptr, BUDDY_UNIT * 2 ^ k⟩ := by rw [← same, ← length]
    have first (same : slice.ptr = pool.dataAddr) : Held pool ⟨slice, len⟩ := by
      refine .block (k := k) (j := 0) ?_ ?_ fits
      · rw [BuddyBlocks.block, Nat.zero_mul, Nat.add_zero]
        exact shape _ same
      · have whole : 2 ^ k ≤ 2 ^ l := Nat.pow_le_pow_right (by decide) le
        have one : 2 ^ l ≤ (i + 1) * 2 ^ l := Nat.le_mul_of_pos_left _ (Nat.succ_pos i)
        omega
    rcases address with ⟨_, address⟩ | ⟨rfl, address⟩ | ⟨_, address⟩
    · refine .block (k := k) (j := i * 2 ^ (l - k)) ?_ (first_inside le inside) fits
      rw [BuddyBlocks.block, block_first le]
      exact shape _ address
    · rcases Nat.eq_zero_or_pos i with rfl | many
      · rw [Nat.zero_mul, Nat.add_zero, u64_of_lt (by unfold BUDDY_UNIT at bytes bounds; omega)] at address
        exact first address
      · have width : BUDDY_UNIT * 2 ^ 19 = 2 ^ 31 := by decide
        rw [width] at bytes
        have far : i * 2 ^ 31 ≤ pool.units * BUDDY_UNIT := (Nat.le_add_right _ _).trans bytes
        refine .outside length narrow many far ?_ fits
        rw [address]
        exact negative_address (by unfold BUDDY_UNIT at bytes bounds; omega) (by unfold BUDDY_UNIT at *; omega) far
    · exact first address
  · have high : 20 ≤ l := by omega
    have same : slice.ptr = pool.dataAddr := by omega
    have fit : IsFit len k := fit.resolve_right (by omega)
    have long := fit.least 19 (by omega)
    have covers := fit.covers
    refine .empty ?_ ?_ ?_
    · rw [← same, ← length]
    · unfold BUDDY_UNIT at long
      omega
    · dsimp only
      omega

end LiveSlices

/-! ## Runs -/

/-- The marked blocks lie in the data area, and the live slices are what the code has handed out. -/
structure Sound (pool : BuddyBlocks) (s : State) : Prop where
  marked : Marked pool s.buddy
  held : ∀ entry ∈ s.live, Held pool entry

section Runs

variable {pool : BuddyBlocks} {s t : State}

/-- A request keeps the invariant, whatever its length is. -/
private theorem Sound.alloc (placed : Placed pool) (bounded : pool.startAddr + pool.totalLen < 2 ^ 64)
    (sound : Sound pool s)
    {len : ℕ} (positive : 1 ≤ len) (short : len < 2 ^ 64) (ran : exec s (.alloc len) = .ok t) : Sound pool t := by
  simp only [exec, Except.bind_ok_iff, Except.pure_ok_iff] at ran
  obtain ⟨⟨slice, after⟩, ran, rfl⟩ := ran
  have unchanged : Sound pool ⟨s.buddy, if (⟨0, 0⟩ : Slice).ptr = 0 then s.live else ⟨⟨0, 0⟩, len⟩ :: s.live⟩ := by
    rw [if_pos rfl]
    exact sound
  rw [buddyAllocSlice_eq _ (by omega)] at ran
  simp only [Except.bind_ok_iff, bitmapIndexForSize_ok_iff] at ran
  obtain ⟨k, ⟨_, fit⟩, ran⟩ := ran
  split_ifs at ran with large
  · cases ran
    exact unchanged
  · cases first : firstLevel s.buddy (s.buddy.bitmapsLen - k) k with
    | none =>
      rw [first] at ran
      cases ran
      exact unchanged
    | some l =>
      obtain ⟨ge, lt, some, _⟩ := firstLevel_some first
      rw [first] at ran
      rw [sound.marked.describes.bitmapsLen_eq] at lt large
      rcases takeFrom_cases placed bounded sound.marked ge (by omega) some
        with ⟨_, failed⟩ | ⟨_, _, _, taken, marked, handed⟩
      · cases failed.symm.trans ran
      · cases taken.symm.trans ran
        refine ⟨marked, ?_⟩
        dsimp only
        split_ifs
        · exact sound.held
        · rintro entry (_ | ⟨_, member⟩)
          · exact handed.held placed bounded ge positive short (fit_or_wrapped short fit)
          · exact sound.held entry member

/-- The release of a live slice keeps the invariant. -/
private theorem Sound.dealloc (placed : Placed pool) (bounded : pool.startAddr + pool.totalLen < 2 ^ 64)
    (sound : Sound pool s)
    {entry : Live} {addr len : ℕ} (member : entry ∈ s.live) (names : Names entry addr len)
    (ran : exec s (.dealloc entry addr len) = .ok t) : Sound pool t := by
  simp only [exec, Except.bind_ok_iff, Except.pure_ok_iff] at ran
  obtain ⟨after, ran, rfl⟩ := ran
  refine ⟨?_, fun other rest => sound.held other (List.mem_of_mem_erase rest)⟩
  rcases eq_or_ne len 0 with rfl | nonzero
  · rw [buddyDealloc, if_pos rfl] at ran
    cases ran
    exact sound.marked
  · simp only [buddyDealloc_eq _ _ nonzero, Except.bind_ok_iff, Except.pure_ok_iff, selectedBlock_ok_iff,
      sound.marked.describes.selected_iff] at ran
    obtain ⟨block, selected, merged, ran, rfl⟩ := ran
    have inside := (sound.held entry member).inside placed bounded names nonzero selected
    exact (sound.marked.mergeUp placed inside ran).setUsed _

private theorem Sound.run (placed : Placed pool) (bounded : pool.startAddr + pool.totalLen < 2 ^ 64)
    (fresh : Marked pool pool)
    {es : List Event} (run : Reaches pool es s) : Sound pool s := by
  refine Run.invariant run ⟨fresh, fun entry none => (List.not_mem_nil none).elim⟩ ?_
  rintro t e u sound ⟨enabled, ran⟩
  cases e with
  | alloc len => exact sound.alloc placed bounded enabled.1 enabled.2 ran
  | dealloc entry addr len => exact sound.dealloc placed bounded enabled.1 enabled.2 ran

variable {memory : Memory} {bitmaps : ℕ → BlockBitmap} {startAddr totalLen : ℕ}

/-- In every state that a pool reaches, a request is answered by null or by a long enough slice, and by null alone
if it exceeds the largest block, exactly under the condition. -/
theorem answers_reached_iff (accepted : buddyInit memory bitmaps startAddr totalLen = .ok pool)
    (bounded : startAddr + totalLen < 2 ^ 64) {es : List Event} (run : Reaches pool es s) {len : ℕ} (positive : 1 ≤ len)
    (short : len < 2 ^ 64) : Answers s.buddy len ↔ Answerable s.buddy len := by
  obtain ⟨placed, shown, _, start, total⟩ := buddyInit_placed accepted (by omega)
  have addresses : pool.startAddr + pool.totalLen < 2 ^ 64 := by rwa [start, total]
  have fresh : Marked pool pool := ⟨_, shown, fun k i maximal => maximal.lt_of_bounded fun _ member => member⟩
  exact answers_iff placed addresses (Sound.run placed addresses fresh run).marked positive short

/-- The answer to the longest request in a fresh pool of two units. -/
private theorem longest_request_ran : (do
    let pool ← buddyInit (fun _ => 0) (fun _ => ⟨0, 0⟩) 65536 12288
    let (slice, after) ← buddyAllocSlice pool (2 ^ 64 - 1)
    return (slice, pool.bitmapsLen, after.used)) = .ok (⟨69632, 4096⟩, 2, 4096) := by
  rfl

/-- A page is asked for in a fresh pool of two units. -/
theorem answers_reached_iff_page : ∃ pool, Reaches pool [] ⟨pool, []⟩ ∧
    (Answers pool 4096 ↔ Answerable pool 4096) := by
  have ran := longest_request_ran
  simp only [Except.bind_ok_iff] at ran
  obtain ⟨pool, accepted, _⟩ := ran
  exact ⟨pool, .nil, answers_reached_iff accepted (by decide) .nil (by decide) (by decide)⟩

/-- The longest request gets the first page of a fresh pool of two units. -/
theorem longest_request_unanswered : ∃ pool, buddyInit (fun _ => 0) (fun _ => ⟨0, 0⟩) 65536 12288 = .ok pool ∧
    Reaches pool [] ⟨pool, []⟩ ∧ ¬Answers pool (2 ^ 64 - 1) := by
  have ran := longest_request_ran
  simp only [Except.bind_ok_iff, Except.pure_ok_iff, Prod.mk.injEq] at ran
  obtain ⟨pool, accepted, ⟨slice, after⟩, ran, rfl, _⟩ := ran
  refine ⟨pool, accepted, .nil, ?_⟩
  rintro ⟨other, last, same, null | long, _⟩
  · cases ran.symm.trans same
    cases null
  · cases ran.symm.trans same
    exact absurd long (by decide)

end Runs

end RubberOS.Soundness.BuddyRequests
