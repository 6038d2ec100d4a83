import RubberOS.Model.Dynmem
import RubberOS.Proofs.BuddyDealloc

/-! # The pages of an array list

The kernel's array list keeps the first pages of one buddy block. An operation keeps this picture
when the pages it hands back are themselves a block, since `buddy_dealloc` always gives back the
whole block around its argument.
-/

namespace RubberOS.Model.Dynmem

open Buddy MemoryMap Collections Dyadic

/-- A pool in which exactly these units are in use. -/
structure Holds (pool buddy : BuddyBlocks) (taken : Set ℕ) : Prop where
  represents : Represents pool buddy (Set.Iio pool.units \ taken)
  inside : taken ⊆ Set.Iio pool.units

/-- The units of a list with these data: none, or the first units of one block. -/
inductive Region (pool : BuddyBlocks) : Arraylist → Set ℕ → Prop
  | empty {size : ℕ} : Region pool ⟨0, size, 0⟩ ∅
  | pages {size k first count : ℕ} (nonempty : 0 < count) (fits : count ≤ 2 ^ k) (aligned : 2 ^ k ∣ first)
      (inside : first + count ≤ pool.units) :
      Region pool ⟨pool.dataAddr + first * PAGE_SIZE, size, count * PAGE_SIZE⟩ (Set.Ico first (first + count))

/-- Handing back all pages of the list but the first ones hands back one block. -/
def GivesBlock (list : Arraylist) (kept : ℕ) : Prop := ∃ j, list.capacity / PAGE_SIZE = kept + 2 ^ j ∧ 2 ^ j ∣ kept

/-- Data that a larger capacity replaces are one block. -/
def GrowsWhole (list : Arraylist) (newCapacity : ℕ) : Prop :=
  list.capacity < newCapacity → list.data ≠ 0 → GivesBlock list 0

/-- A shrink hands back nothing, or pages that are one block. -/
def ShrinksWhole (list : Arraylist) (newSize : ℕ) : Prop :=
  if newSize = 0 then list.data ≠ 0 → GivesBlock list 0
  else newSize < list.capacity →
    list.capacity / PAGE_SIZE = szdivCeil newSize PAGE_SIZE ∨ GivesBlock list (szdivCeil newSize PAGE_SIZE)

/-- The list's units are in use besides those of everyone else. -/
def Owned (pool : BuddyBlocks) (others : Set ℕ) (heap : Heap BuddyBlocks) : Prop :=
  ∃ held, Region pool heap.list held ∧ Disjoint held others ∧ Holds pool heap.allocator (others ∪ held)

variable {pool buddy after : BuddyBlocks} {taken others held : Set ℕ}

/-! ## Blocks in use -/

section Blocks

variable {k i : ℕ}

theorem Holds.unique (holds : Holds pool buddy taken) (same : Holds pool after taken) : buddy = after :=
  holds.represents.unique same.represents

/-- An allocation that is not null takes a block nobody holds. -/
theorem Holds.alloc (layout : Layout pool) (holds : Holds pool buddy taken) {len : ℕ} {slice : Slice}
    (ran : dynmemAlloc buddy len = .ok (slice, after)) :
    slice = ⟨0, 0⟩ ∧ after = buddy ∨ ∃ k i, slice = pool.block k i ∧ (i + 1) * 2 ^ k ≤ pool.units ∧
      Disjoint (dyadic k i) taken ∧ Holds pool after (taken ∪ dyadic k i) := by
  cases buddyAllocSlice_inv layout.toCompact holds.represents ran with
  | inl null => exact .inl null
  | inr block =>
    obtain ⟨k, i, answer, free, represents⟩ := block
    have inside : dyadic k i ⊆ Set.Iio pool.units := free.trans Set.sdiff_subset
    have units : (i + 1) * 2 ^ k ≤ pool.units :=
      (Nat.le_div_iff_mul_le (Nat.two_pow_pos k)).mp (dyadic_subset_Iio_iff.mp inside)
    rw [Set.sdiff_sdiff] at represents
    exact .inr ⟨k, i, answer, units, Set.disjoint_left.mpr fun u member => (free member).2,
      represents, Set.union_subset holds.inside inside⟩

/-- A release of a block in use gives its units back. -/
theorem Holds.dealloc (layout : Layout pool) (holds : Holds pool buddy taken) (used : dyadic k i ⊆ taken)
    {addr len : ℕ} (positive : len ≠ 0) (lower : (pool.block k i).ptr ≤ addr)
    (upper : addr + len ≤ (pool.block k i).ptr + (pool.block k i).length)
    (isFit : IsFit (roundedExtent addr len) k) :
    ∃ after, dynmemDealloc buddy addr len = .ok after ∧ Holds pool after (taken \ dyadic k i) := by
  have inside : dyadic k i ⊆ Set.Iio pool.units := used.trans holds.inside
  have units : (i + 1) * 2 ^ k ≤ pool.units :=
    (Nat.le_div_iff_mul_le (Nat.two_pow_pos k)).mp (dyadic_subset_Iio_iff.mp inside)
  have fresh : Disjoint (dyadic k i) (Set.Iio pool.units \ taken) :=
    Set.disjoint_left.mpr fun u member free => free.2 (used member)
  obtain ⟨given, found, represents⟩ :=
    buddyDealloc_spec layout holds.represents fresh units positive lower upper isFit
  refine ⟨given, found, ?_, Set.sdiff_subset.trans holds.inside⟩
  have rest : Set.Iio pool.units \ (taken \ dyadic k i) = Set.Iio pool.units \ taken ∪ dyadic k i := by
    ext u
    have bound : u ∈ dyadic k i → u ∈ Set.Iio pool.units := fun member => inside member
    simp only [Set.mem_sdiff, Set.mem_union]
    tauto
  rwa [rest]

/-- A length of whole pages fits the level of its page count. -/
theorem isFit_pages (j : ℕ) : IsFit (2 ^ j * PAGE_SIZE) j where
  covers := by
    rw [Nat.mul_comm]
    exact le_refl _
  least l lt := by
    rw [Nat.mul_comm]
    exact Nat.mul_lt_mul_of_pos_right (Nat.pow_lt_pow_right (by decide) lt) (by decide)

/-- Pages of the data area that form a block are released as that block. -/
theorem Holds.dealloc_pages (layout : Layout pool) (holds : Holds pool buddy taken) {first j : ℕ}
    (aligned : 2 ^ j ∣ first) (used : Set.Ico first (first + 2 ^ j) ⊆ taken) :
    ∃ after, dynmemDealloc buddy (pool.dataAddr + first * PAGE_SIZE) (2 ^ j * PAGE_SIZE) = .ok after ∧
      Holds pool after (taken \ Set.Ico first (first + 2 ^ j)) := by
  obtain ⟨i, rfl⟩ := aligned
  have page := Nat.two_pow_pos j
  have start : pool.dataAddr % BUDDY_UNIT = 0 := layout.aligned
  have block : Set.Ico (2 ^ j * i) (2 ^ j * i + 2 ^ j) = dyadic j i := by
    rw [dyadic_eq_Ico, Nat.mul_comm, Nat.succ_mul]
  have pointer : (pool.block j i).ptr = pool.dataAddr + 2 ^ j * i * PAGE_SIZE := by
    rw [BuddyBlocks.block, show PAGE_SIZE = BUDDY_UNIT from rfl]
    ring
  have length : (pool.block j i).length = 2 ^ j * PAGE_SIZE := Nat.mul_comm _ _
  have extent : roundedExtent (pool.dataAddr + 2 ^ j * i * PAGE_SIZE) (2 ^ j * PAGE_SIZE) =
      2 ^ j * PAGE_SIZE := by
    have round := uptrdivCeil_bounds (pool.dataAddr + 2 ^ j * i * PAGE_SIZE + 2 ^ j * PAGE_SIZE)
        (y := BUDDY_UNIT)
      (by decide)
    rw [roundedExtent]
    simp only [BUDDY_UNIT, PAGE_SIZE] at *
    omega
  rw [block] at used ⊢
  have positive : 2 ^ j * PAGE_SIZE ≠ 0 := Nat.mul_ne_zero page.ne' (by decide)
  apply holds.dealloc layout used positive pointer.le
  · rw [pointer, length]
  · rw [extent]
    exact isFit_pages j

end Blocks

/-! ## The data of a list -/

section Lists

variable {list : Arraylist}

private theorem Region.resize (region : Region pool list held) (size : ℕ) : Region pool { list with size } held := by
  cases region with
  | empty => exact .empty
  | pages nonempty fits aligned inside => exact .pages nonempty fits aligned inside

theorem Region.of_null (region : Region pool list held) (null : list.data = 0)
    (layout : Layout pool) : held = ∅ := by
  cases region with
  | empty => rfl
  | pages =>
    have offset := layout.offset
    have dataAddr : pool.dataAddr = pool.startAddr + pool.dataOffset := rfl
    dsimp only at null
    omega

/-- A whole-page length is not changed by rounding it to pages in 64 bits. -/
private theorem aligned_pages {count : ℕ} (small : count < 2 ^ 19) :
    u64 (szdivCeil (count * PAGE_SIZE) PAGE_SIZE * PAGE_SIZE) =
    count * PAGE_SIZE := by
  have round := szdivCeil_bounds (count * PAGE_SIZE) (y := PAGE_SIZE) (by decide)
  simp only [PAGE_SIZE] at *
  rw [u64_of_lt (by omega)]
  omega

/-- The allocator's answer is null, or new data for a list. -/
private theorem arraylistAlloc_region (layout : Layout pool) (holds : Holds pool buddy taken) {len data capacity : ℕ}
    (ran : arraylistAlloc len buddy = .ok ((data, capacity), after)) :
    data = 0 ∨ ∃ held, (∀ size, Region pool ⟨data, size, capacity⟩ held) ∧ Disjoint held taken ∧
      Holds pool after (taken ∪ held) := by
  simp only [arraylistAlloc, Except.bind_ok_iff, Except.pure_ok_iff, Prod.exists, Prod.mk.injEq] at ran
  obtain ⟨slice, given, found, ⟨rfl, rfl⟩, rfl⟩ := ran
  cases holds.alloc layout found with
  | inl null =>
    left
    rw [null.1]
  | inr block =>
    obtain ⟨k, i, rfl, inside, apart, afterHolds⟩ := block
    have range : Set.Ico (i * 2 ^ k) (i * 2 ^ k + 2 ^ k) = dyadic k i := by rw [dyadic_eq_Ico, Nat.succ_mul]
    have shape : pool.block k i = ⟨pool.dataAddr + i * 2 ^ k * PAGE_SIZE, 2 ^ k * PAGE_SIZE⟩ := by
      rw [BuddyBlocks.block, show PAGE_SIZE = BUDDY_UNIT from rfl]
      congr 1 <;> ring
    right
    refine ⟨dyadic k i, fun size => ?_, apart, afterHolds⟩
    rw [shape, ← range]
    refine .pages (Nat.two_pow_pos k) le_rfl (Nat.dvd_mul_left _ _) ?_
    rwa [← Nat.succ_mul]

/-- Data that are one block go back whole. -/
private theorem Region.dealloc (layout : Layout pool) (region : Region pool list held) (apart : Disjoint held others)
    (holds : Holds pool buddy (others ∪ held)) (data : list.data ≠ 0) (gives : GivesBlock list 0)
    (ran : arraylistDealloc list.data list.capacity buddy = .ok after) : Holds pool after others := by
  cases region with
  | empty => exact absurd rfl data
  | @pages size k first count nonempty fits aligned inside =>
    obtain ⟨j, count_eq, _⟩ := gives
    dsimp only at count_eq
    rw [Nat.mul_div_cancel _ (by decide), Nat.zero_add] at count_eq
    subst count_eq
    have level : 2 ^ j ∣ 2 ^ k := Nat.pow_dvd_pow 2 ((Nat.pow_le_pow_iff_right (by decide)).mp fits)
    obtain ⟨freed, given', given⟩ := holds.dealloc_pages layout (level.trans aligned) Set.subset_union_right
    obtain rfl := Except.ok.inj (given'.symm.trans ran)
    rwa [Set.union_sdiff_cancel_right apart.symm.le_bot] at given

/-- The last units of a range go, and the ones beside the range stay. -/
private theorem sdiff_tail {first kept gone : ℕ} (apart : Disjoint (Set.Ico first (first + (kept + gone))) others) :
    (others ∪ Set.Ico first (first + (kept + gone))) \ Set.Ico (first + kept) (first + kept + gone) =
      others ∪ Set.Ico first (first + kept) := by
  have beside : Disjoint others (Set.Ico (first + kept) (first + kept + gone)) :=
    apart.symm.mono_right (Set.Ico_subset_Ico (by omega) (by omega))
  have range : Set.Ico first (first + (kept + gone)) \ Set.Ico (first + kept) (first + kept + gone) =
      Set.Ico first (first + kept) := by
    ext u
    simp only [Set.mem_sdiff, Set.mem_Ico]
    omega
  rw [Set.union_sdiff_distrib, beside.sdiff_eq_left, range]

/-- A shrink keeps the first pages when the rest is one block. -/
private theorem Region.shrink (layout : Layout pool) (region : Region pool list held) (apart : Disjoint held others)
    (holds : Holds pool buddy (others ∪ held)) {newSize capacity : ℕ} (positive : 0 < newSize)
    (smaller : newSize < list.capacity)
    (gives : list.capacity / PAGE_SIZE = szdivCeil newSize PAGE_SIZE ∨
      GivesBlock list (szdivCeil newSize PAGE_SIZE))
    (ran : arraylistShrink list.data list.capacity newSize buddy = .ok (capacity, after)) :
    ∃ kept, (∀ size, Region pool ⟨list.data, size, capacity⟩ kept) ∧ Disjoint kept others ∧
      Holds pool after (others ∪ kept) := by
  cases region with
  | empty => exact absurd smaller (Nat.not_lt_zero _)
  | @pages size k first count nonempty fits aligned inside =>
    have round := szdivCeil_bounds newSize (y := PAGE_SIZE) (by decide)
    have few : count < 2 ^ 19 := by
      have := layout.small
      omega
    have oldAligned := aligned_pages few
    have small : pool.dataAddr + (first + count) * PAGE_SIZE < 2 ^ 64 := by
      have total := layout.total
      have bound := layout.bounded
      have dataAddr : pool.dataAddr = pool.startAddr + pool.dataOffset := rfl
      simp only [PAGE_SIZE, BUDDY_UNIT] at *
      omega
    rw [GivesBlock] at gives
    dsimp only at smaller gives ran
    rw [Nat.mul_div_cancel _ (by decide)] at gives
    simp only [arraylistShrink, oldAligned] at ran
    generalize szdivCeil newSize PAGE_SIZE = pages at *
    have page : 0 < PAGE_SIZE := by decide
    have some : 0 < pages := by
      apply Nat.pos_of_ne_zero
      rintro rfl
      omega
    have fewer : pages ≤ count := by
      by_contra more
      have := Nat.mul_le_mul_right PAGE_SIZE (Nat.lt_of_not_le more)
      rw [Nat.succ_mul] at this
      omega
    have newAligned : u64 (pages * PAGE_SIZE) = pages * PAGE_SIZE := by
      apply u64_of_lt
      simp only [PAGE_SIZE] at *
      omega
    rw [newAligned] at ran
    split_ifs at ran with same
    · cases ran
      exact ⟨_, fun size => .pages nonempty fits aligned inside, apart, holds⟩
    · simp only [Except.bind_ok_iff, Except.pure_ok_iff, Prod.mk.injEq] at ran
      obtain ⟨given, found, rfl, rfl⟩ := ran
      have proper : count ≠ pages := fun equal => same (by rw [equal])
      obtain ⟨j, rfl, block⟩ := gives.resolve_left proper
      have below : 2 ^ j ≤ 2 ^ k := (Nat.le_add_left _ _).trans fits
      have level : 2 ^ j ∣ 2 ^ k := Nat.pow_dvd_pow 2 ((Nat.pow_le_pow_iff_right (by decide)).mp below)
      have tail : u64 (pool.dataAddr + first * PAGE_SIZE + pages * PAGE_SIZE) =
          pool.dataAddr + (first + pages) * PAGE_SIZE := by
        rw [u64_of_lt (by simp only [PAGE_SIZE] at *; omega)]
        ring
      have length : sub64 ((pages + 2 ^ j) * PAGE_SIZE) (pages * PAGE_SIZE) = 2 ^ j * PAGE_SIZE := by
        rw [sub64_of_le (Nat.mul_le_mul_right _ fewer) (by simp only [PAGE_SIZE] at *; omega), ← Nat.sub_mul,
          Nat.add_sub_cancel_left]
      rw [tail, length] at found
      have members : Set.Ico (first + pages) (first + pages + 2 ^ j) ⊆ others ∪ Set.Ico first
          (first + (pages + 2 ^ j)) :=
        fun u member => .inr (by simp only [Set.mem_Ico] at *; omega)
      obtain ⟨freed, given, rest⟩ :=
        holds.dealloc_pages layout (Nat.dvd_add (level.trans aligned) block) members
      obtain rfl := Except.ok.inj (given.symm.trans found)
      refine ⟨Set.Ico first (first + pages), fun size => ?_, ?_, ?_⟩
      · exact .pages some (by omega) aligned (by omega)
      · exact apart.mono_left (Set.Ico_subset_Ico_right (by omega))
      · rwa [sdiff_tail apart] at rest

end Lists

/-! ## The operations of a list -/

section Operations

variable {heap heap' : Heap BuddyBlocks}

/-- Neither the size of a list nor the contents of its pages matter. -/
private theorem Owned.update (owned : Owned pool others heap) (size : ℕ) (memory : Memory) :
    Owned pool others ⟨{ heap.list with size }, memory, heap.allocator⟩ := by
  obtain ⟨held, region, rest⟩ := owned
  exact ⟨held, region.resize size, rest⟩

theorem Owned.init (layout : Layout pool) (owned : Owned pool others heap) (unused : heap.list.data = 0)
    {initialCapacity : ℕ} (ran : arraylistInit arraylistAllocator heap initialCapacity = .ok heap') :
    Owned pool others heap' := by
  obtain ⟨held, region, apart, holds⟩ := owned
  obtain rfl := region.of_null unused layout
  rw [arraylistInit] at ran
  split_ifs at ran with zero
  · cases ran
    subst zero
    exact ⟨∅, .empty, apart, holds⟩
  · simp only [Except.bind_ok_iff, Except.pure_ok_iff, Prod.exists, assertMsg_ok_iff] at ran
    obtain ⟨data, capacity, allocator, found, _, valid, rfl⟩ := ran
    rw [Set.union_empty] at holds
    obtain ⟨held, region, apart, holds⟩ :=
      (arraylistAlloc_region layout holds found).resolve_left (of_decide_eq_true valid)
    exact ⟨held, region 0, apart, holds⟩

/-- Growth takes new data and leaves the old to be released. -/
private theorem Owned.grow (layout : Layout pool) (owned : Owned pool others heap) {newCapacity : ℕ} {old : TaggedPtr}
    (ran : reserveWithoutCopy arraylistAllocator heap newCapacity = .ok (old, heap')) :
    old = ⟨0, 0⟩ ∧ heap' = heap ∨ old = heap.list.object ∧ heap.list.capacity < newCapacity ∧
      ∃ held, Region pool heap.list held ∧ Disjoint held others ∧ Owned pool (others ∪ held) heap' := by
  obtain ⟨held, region, apart, holds⟩ := owned
  rw [reserveWithoutCopy] at ran
  split_ifs at ran with enough
  · cases ran
    exact .inl ⟨rfl, rfl⟩
  · simp only [Except.bind_ok_iff, Except.pure_ok_iff, Prod.exists, assertMsg_ok_iff, Prod.mk.injEq] at ran
    obtain ⟨data, capacity, allocator, found, _, valid, rfl, rfl⟩ := ran
    obtain ⟨new, newRegion, newApart, newHolds⟩ :=
      (arraylistAlloc_region layout holds found).resolve_left (of_decide_eq_true valid)
    exact .inr ⟨rfl, Nat.lt_of_not_le enough, held, region, apart, new, newRegion _, newApart, newHolds⟩

/-- The release of the old data completes a growth. -/
private theorem Owned.release (layout : Layout pool) (owned : Owned pool (others ∪ held) heap')
    (region : Region pool heap.list held)
    (apart : Disjoint held others) (data : heap.list.data ≠ 0) (gives : GivesBlock heap.list 0)
    (ran : arraylistDealloc heap.list.data heap.list.capacity heap'.allocator = .ok after) :
    Owned pool others { heap' with allocator := after } := by
  obtain ⟨new, newRegion, newApart, holds⟩ := owned
  obtain ⟨fromOthers, fromHeld⟩ := Set.disjoint_union_right.mp newApart
  rw [Set.union_right_comm] at holds
  refine ⟨new, newRegion, fromOthers, region.dealloc layout ?_ holds data gives ran⟩
  exact Set.disjoint_union_right.mpr ⟨apart, fromHeld.symm⟩

theorem Owned.reserve (layout : Layout pool) (owned : Owned pool others heap) {newCapacity : ℕ}
    (whole : GrowsWhole heap.list newCapacity)
    (ran : arraylistReserve arraylistAllocator heap newCapacity = .ok heap') : Owned pool others heap' := by
  simp only [arraylistReserve, Except.bind_ok_iff, Prod.exists] at ran
  obtain ⟨old, grown, reserved, ran⟩ := ran
  cases owned.grow layout reserved with
  | inl kept =>
    obtain ⟨rfl, rfl⟩ := kept
    rw [if_neg (not_not.mpr rfl), Except.pure_ok_iff] at ran
    subst ran
    exact owned
  | inr replaced =>
    obtain ⟨rfl, less, held, region, apart, newOwned⟩ := replaced
    rcases eq_or_ne heap.list.object.ptr 0 with null | data
    · rw [if_neg (not_not.mpr null), Except.pure_ok_iff] at ran
      subst ran
      obtain rfl := region.of_null null layout
      rwa [Set.union_empty] at newOwned
    · rw [if_pos data, Except.ite_bind_ok_iff] at ran
      simp only [Except.bind_ok_iff, Except.pure_ok_iff] at ran
      obtain ⟨memory, _, allocator, given, rfl⟩ := ran
      exact (newOwned.release layout region apart data (whole less data) given).update grown.list.size memory

theorem Owned.resize (layout : Layout pool) (owned : Owned pool others heap) {newSize : ℕ}
    (whole : GrowsWhole heap.list newSize)
    (ran : arraylistResize arraylistAllocator heap newSize = .ok heap') :
    Owned pool others heap' := by
  simp only [arraylistResize, Except.ite_bind_ok_iff, Except.pure_ok_iff] at ran
  obtain ⟨grown, reserved, rfl⟩ := ran
  split_ifs at reserved with more
  · exact (owned.reserve layout (fun _ => whole more) reserved).update newSize grown.memory
  · cases reserved
    exact owned.update newSize heap.memory

theorem Owned.pushBack (layout : Layout pool) (owned : Owned pool others heap) {dataSize address : ℕ}
    (whole : GrowsWhole heap.list (u64 (heap.list.size + dataSize)))
    (ran : arraylistPushBack arraylistAllocator heap dataSize = .ok (address, heap')) :
    Owned pool others heap' := by
  simp only [arraylistPushBack, Except.bind_ok_iff, Except.pure_ok_iff, Prod.mk.injEq] at ran
  obtain ⟨grown, resized, _, rfl⟩ := ran
  exact owned.resize layout whole resized

theorem Owned.popBack (owned : Owned pool others heap) {dataSize : ℕ}
    (ran : arraylistPopBack heap dataSize = .ok heap') : Owned pool others heap' := by
  simp only [arraylistPopBack, Except.bind_ok_iff, Except.pure_ok_iff] at ran
  obtain ⟨_, _, rfl⟩ := ran
  exact owned.update _ heap.memory

theorem Owned.insert (layout : Layout pool) (owned : Owned pool others heap) {pos dataSize address : ℕ}
    (whole : GrowsWhole heap.list (u64 (heap.list.size + dataSize)))
    (ran : arraylistInsert arraylistAllocator heap pos dataSize = .ok (address, heap')) :
    Owned pool others heap' := by
  simp only [arraylistInsert, Except.bind_ok_iff, Prod.exists] at ran
  obtain ⟨_, _, old, grown, reserved, ran⟩ := ran
  cases owned.grow layout reserved with
  | inl kept =>
    obtain ⟨rfl, rfl⟩ := kept
    rw [if_neg (not_not.mpr rfl), Except.ite_bind_ok_iff] at ran
    simp only [Except.pure_ok_iff, Prod.mk.injEq] at ran
    obtain ⟨memory, _, _, rfl⟩ := ran
    exact owned.update _ memory
  | inr replaced =>
    obtain ⟨rfl, less, held, region, apart, newOwned⟩ := replaced
    rcases eq_or_ne heap.list.object.ptr 0 with null | data
    · rw [if_neg (not_not.mpr null), Except.ite_bind_ok_iff] at ran
      simp only [Except.pure_ok_iff, Prod.mk.injEq] at ran
      obtain ⟨memory, _, _, rfl⟩ := ran
      obtain rfl := region.of_null null layout
      rw [Set.union_empty] at newOwned
      exact newOwned.update _ memory
    · rw [if_pos data] at ran
      simp only [Except.bind_ok_iff, Except.pure_ok_iff, Prod.mk.injEq] at ran
      obtain ⟨memory, _, allocator, given, _, rfl⟩ := ran
      exact (newOwned.release layout region apart data (whole less data) given).update _ memory

theorem Owned.remove (owned : Owned pool others heap) {pos dataSize : ℕ}
    (ran : arraylistRemove heap pos dataSize = .ok heap') : Owned pool others heap' := by
  simp only [arraylistRemove, Except.bind_ok_iff, Except.ite_bind_ok_iff, Except.pure_ok_iff] at ran
  obtain ⟨_, _, memory, _, rfl⟩ := ran
  exact owned.update _ memory

theorem Owned.shrinkTo (layout : Layout pool) (owned : Owned pool others heap) {newSize : ℕ}
    (whole : ShrinksWhole heap.list newSize)
    (ran : arraylistShrinkTo arraylistAllocator heap newSize = .ok heap') : Owned pool others heap' := by
  obtain ⟨held, region, apart, holds⟩ := id owned
  rw [ShrinksWhole] at whole
  simp only [arraylistShrinkTo] at ran
  rcases eq_or_ne newSize 0 with zero | nonzero
  · rw [if_pos zero] at whole ran
    split_ifs at ran with data
    · simp only [Except.bind_ok_iff, Except.pure_ok_iff] at ran
      obtain ⟨allocator, given, rfl⟩ := ran
      refine ⟨∅, .empty, Set.empty_disjoint _, ?_⟩
      rw [Set.union_empty]
      exact region.dealloc layout apart holds data (whole data) given
    · cases ran
      exact owned
  · rw [if_neg nonzero] at whole ran
    rcases Nat.lt_or_ge newSize heap.list.capacity with smaller | larger
    · rw [if_pos smaller] at ran
      simp only [Except.bind_ok_iff, Except.pure_ok_iff, Prod.exists] at ran
      obtain ⟨capacity, allocator, given, rfl⟩ := ran
      obtain ⟨kept, keptRegion, keptApart, keptHolds⟩ :=
        region.shrink layout apart holds (Nat.pos_of_ne_zero nonzero) smaller (whole smaller) given
      exact ⟨kept, keptRegion _, keptApart, keptHolds⟩
    · rw [if_neg (Nat.not_lt_of_ge larger)] at ran
      cases ran
      exact owned

end Operations

end RubberOS.Model.Dynmem
