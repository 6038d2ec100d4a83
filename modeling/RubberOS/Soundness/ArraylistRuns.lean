import RubberOS.Proofs.DynmemPages
import RubberOS.Soundness.BuddyRuns

/-! # Runs of an array list in the kernel's memory

A run drives one array list over the buddy allocator, while everyone else takes and releases memory
of their own. As long as the pages that the list hands back form a block each time, its data stay
out of every free block and releasing them restores the pool. Any other shrink or growth makes
`buddy_dealloc` release pages that were not handed to it.
-/

namespace RubberOS.Soundness.ArraylistRuns

open Model Model.Buddy Model.Collections Model.Dynmem Model.MemoryMap Dyadic LabelledRuns BuddyRuns

/-- The list and the pool, with the units that everyone else holds. -/
structure State where
  heap : Heap BuddyBlocks
  others : Set ℕ

inductive Event where
  | init (initialCapacity : ℕ)
  | reserve (newCapacity : ℕ)
  | resize (newSize : ℕ)
  | shrinkTo (newSize : ℕ)
  | pushBack (dataSize : ℕ)
  | popBack (dataSize : ℕ)
  | insert (pos dataSize : ℕ)
  | remove (pos dataSize : ℕ)
  /-- Somebody else takes memory. -/
  | take (len : ℕ)
  /-- Somebody else releases the block of a level and an index. -/
  | give (k i addr len : ℕ)

def initial (pool : BuddyBlocks) (memory : Memory) : State := ⟨⟨⟨0, 0, 0⟩, memory, pool⟩, ∅⟩

/-- A list is initialised once, and everyone else releases only what they hold. -/
def Enabled (pool : BuddyBlocks) (s : State) : Event → Prop
  | .init n => s.heap.list.data = 0 ∧ n < 2 ^ 64
  | .reserve n | .resize n | .shrinkTo n | .pushBack n | .popBack n | .take n => n < 2 ^ 64
  | .insert pos n | .remove pos n => pos < 2 ^ 64 ∧ n < 2 ^ 64
  | .give k i addr len => dyadic k i ⊆ s.others ∧ len ≠ 0 ∧ (pool.block k i).ptr ≤ addr ∧
      addr + len ≤ (pool.block k i).ptr + (pool.block k i).length ∧ IsFit (roundedExtent addr len) k

/-- The pages that the call hands back, if any, are one block. -/
def Whole (s : State) : Event → Prop
  | .reserve n | .resize n => GrowsWhole s.heap.list n
  | .pushBack n | .insert _ n => GrowsWhole s.heap.list (u64 (s.heap.list.size + n))
  | .shrinkTo n => ShrinksWhole s.heap.list n
  | _ => True

/-- One call. -/
def exec (pool : BuddyBlocks) (s : State) : Event → Result State
  | .init n => return { s with heap := ← arraylistInit arraylistAllocator s.heap n }
  | .reserve n => return { s with heap := ← arraylistReserve arraylistAllocator s.heap n }
  | .resize n => return { s with heap := ← arraylistResize arraylistAllocator s.heap n }
  | .shrinkTo n => return { s with heap := ← arraylistShrinkTo arraylistAllocator s.heap n }
  | .pushBack n => return { s with heap := (← arraylistPushBack arraylistAllocator s.heap n).2 }
  | .popBack n => return { s with heap := ← arraylistPopBack s.heap n }
  | .insert pos n => return { s with heap := (← arraylistInsert arraylistAllocator s.heap pos n).2 }
  | .remove pos n => return { s with heap := ← arraylistRemove s.heap pos n }
  | .take len => do
    let (slice, buddy) ← dynmemAlloc s.heap.allocator len
    return ⟨{ s.heap with allocator := buddy }, s.others ∪ {u | Covers pool slice u}⟩
  | .give k i addr len => do
    let buddy ← dynmemDealloc s.heap.allocator addr len
    return ⟨{ s.heap with allocator := buddy }, s.others \ dyadic k i⟩

/-- A finite run of calls from a fresh pool in which every release is of whole blocks. -/
abbrev Steps (pool : BuddyBlocks) : State → Event → State → Prop :=
  Guarded (fun s e => Enabled pool s e ∧ Whole s e) (exec pool)

section Runs

variable {pool : BuddyBlocks} {s t u : State} {e : Event}

/-- Memory that somebody else takes is not the list's. -/
private theorem take_owned {others : Set ℕ} {heap : Heap BuddyBlocks} (layout : Layout pool)
    (owned : Owned pool others heap) {len : ℕ} {slice : Slice} {buddy : BuddyBlocks}
    (ran : dynmemAlloc heap.allocator len = .ok (slice, buddy)) :
    Owned pool (others ∪ {u | Covers pool slice u}) { heap with allocator := buddy } := by
  obtain ⟨held, region, apart, holds⟩ := owned
  cases holds.alloc layout ran with
  | inl null =>
    obtain ⟨rfl, rfl⟩ := null
    have nothing : {u | Covers pool ⟨0, 0⟩ u} = ∅ := by
      ext u
      simp [Covers]
    rw [nothing, Set.union_empty]
    exact ⟨held, region, apart, holds⟩
  | inr block =>
    obtain ⟨k, i, rfl, _, free, after⟩ := block
    have units : {u | Covers pool (pool.block k i) u} = dyadic k i := Set.ext fun u => covers_block
    rw [units]
    refine ⟨held, region, Set.disjoint_union_right.mpr ⟨apart, ?_⟩, ?_⟩
    · exact (free.mono_right Set.subset_union_right).symm
    · rwa [Set.union_right_comm]

/-- A block that somebody else releases is not the list's. -/
private theorem give_owned {others : Set ℕ} {heap : Heap BuddyBlocks} (layout : Layout pool)
    (owned : Owned pool others heap)
    {k i addr len : ℕ} {buddy : BuddyBlocks} (used : dyadic k i ⊆ others) (positive : len ≠ 0)
    (lower : (pool.block k i).ptr ≤ addr)
    (upper : addr + len ≤ (pool.block k i).ptr + (pool.block k i).length)
    (isFit : IsFit (roundedExtent addr len) k) (ran : dynmemDealloc heap.allocator addr len = .ok buddy) :
    Owned pool (others \ dyadic k i) { heap with allocator := buddy } := by
  obtain ⟨held, region, apart, holds⟩ := owned
  obtain ⟨freed, given, after⟩ :=
    holds.dealloc layout (used.trans Set.subset_union_left) positive lower upper isFit
  obtain rfl := Except.ok.inj (given.symm.trans ran)
  refine ⟨held, region, apart.mono_right Set.sdiff_subset, ?_⟩
  rwa [Set.union_sdiff_distrib, (apart.mono_right used).sdiff_eq_left] at after

private theorem step_owned (layout : Layout pool) (owned : Owned pool s.others s.heap) (step : Steps pool s e t) :
    Owned pool t.others t.heap := by
  obtain ⟨⟨enabled, whole⟩, ran⟩ := step
  cases e with
  | init n =>
    simp only [exec, Except.bind_ok_iff, Except.pure_ok_iff] at ran
    obtain ⟨heap, found, rfl⟩ := ran
    exact owned.init layout enabled.1 found
  | reserve n =>
    simp only [exec, Except.bind_ok_iff, Except.pure_ok_iff] at ran
    obtain ⟨heap, found, rfl⟩ := ran
    exact owned.reserve layout whole found
  | resize n =>
    simp only [exec, Except.bind_ok_iff, Except.pure_ok_iff] at ran
    obtain ⟨heap, found, rfl⟩ := ran
    exact owned.resize layout whole found
  | shrinkTo n =>
    simp only [exec, Except.bind_ok_iff, Except.pure_ok_iff] at ran
    obtain ⟨heap, found, rfl⟩ := ran
    exact owned.shrinkTo layout whole found
  | pushBack n =>
    simp only [exec, Except.bind_ok_iff, Except.pure_ok_iff, Prod.exists] at ran
    obtain ⟨address, heap, found, rfl⟩ := ran
    exact owned.pushBack layout whole found
  | popBack n =>
    simp only [exec, Except.bind_ok_iff, Except.pure_ok_iff] at ran
    obtain ⟨heap, found, rfl⟩ := ran
    exact owned.popBack found
  | insert pos n =>
    simp only [exec, Except.bind_ok_iff, Except.pure_ok_iff, Prod.exists] at ran
    obtain ⟨address, heap, found, rfl⟩ := ran
    exact owned.insert layout whole found
  | remove pos n =>
    simp only [exec, Except.bind_ok_iff, Except.pure_ok_iff] at ran
    obtain ⟨heap, found, rfl⟩ := ran
    exact owned.remove found
  | take len =>
    simp only [exec, Except.bind_ok_iff, Except.pure_ok_iff, Prod.exists] at ran
    obtain ⟨slice, buddy, found, rfl⟩ := ran
    exact take_owned layout owned found
  | give k i addr len =>
    simp only [exec, Except.bind_ok_iff, Except.pure_ok_iff] at ran
    obtain ⟨buddy, found, rfl⟩ := ran
    obtain ⟨used, positive, lower, upper, isFit⟩ := enabled
    exact give_owned layout owned used positive lower upper isFit found

/-- The list's data are whole pages of the data area. -/
structure Placed (pool : BuddyBlocks) (list : Arraylist) : Prop where
  nonempty : 0 < list.capacity
  lower : pool.dataAddr ≤ list.data
  upper : list.data + list.capacity ≤ pool.dataAddr + pool.units * BUDDY_UNIT
  grid : (list.data - pool.dataAddr) % BUDDY_UNIT = 0
  whole : list.capacity % BUDDY_UNIT = 0

private theorem region_placed {list : Arraylist} {held : Set ℕ} (region : Region pool list held)
    (data : list.data ≠ 0) :
    Placed pool list ∧ ∀ u, Covers pool ⟨list.data, list.capacity⟩ u ↔ u ∈ held := by
  cases region with
  | empty => exact absurd rfl data
  | @pages size k first count nonempty fits aligned inside =>
    refine ⟨⟨Nat.mul_pos nonempty (by decide), Nat.le_add_right _ _, ?_, ?_, Nat.mul_mod_left _ _⟩,
      fun u => ?_⟩
    · simp only [PAGE_SIZE, BUDDY_UNIT]
      omega
    · rw [Nat.add_sub_cancel_left]
      exact Nat.mul_mod_left _ _
    · simp only [Covers, Set.mem_Ico, PAGE_SIZE, BUDDY_UNIT]
      omega

/-- Two slices of whole units without a common unit are disjoint ranges of addresses. -/
private theorem apart_of_units {list : Arraylist} {k i : ℕ} (placed : Placed pool list)
    (apart : ∀ u, Covers pool ⟨list.data, list.capacity⟩ u → u ∉ dyadic k i) :
    (pool.block k i).ptr + (pool.block k i).length ≤ list.data ∨
      list.data + list.capacity ≤ (pool.block k i).ptr := by
  have own := apart (i * 2 ^ k)
  have other := apart ((list.data - pool.dataAddr) / BUDDY_UNIT)
  have shape : i * (BUDDY_UNIT * 2 ^ k) = i * 2 ^ k * BUDDY_UNIT := by ring
  have width : (i + 1) * 2 ^ k = i * 2 ^ k + 2 ^ k := by ring
  obtain ⟨nonempty, lower, _, grid, whole⟩ := placed
  have page := Nat.two_pow_pos k
  rw [mem_dyadic_iff, Covers, width] at own other
  rw [BuddyBlocks.block, shape]
  simp only [BUDDY_UNIT] at *
  omega

/-- What everyone who uses the list relies on: its pages are in the data area, nobody else holds
them, no free block covers them, and the allocator never hands them out. -/
def DataHeld (pool : BuddyBlocks) (s : State) : Prop :=
  s.heap.list.data ≠ 0 →
  let list := s.heap.list
  let buddy := s.heap.allocator
  Placed pool list ∧
    (∀ u, Covers pool ⟨list.data, list.capacity⟩ u → u ∉ s.others ∧
      ∀ k < buddy.bitmapsLen, u / 2 ^ k < 8 * bitsLen pool.units k → buddy.levelBit k (u / 2 ^ k) = false) ∧
    ∀ len slice after, dynmemAlloc buddy len = .ok (slice, after) → slice.ptr ≠ 0 →
      slice.ptr + slice.length ≤ list.data ∨ list.data + list.capacity ≤ slice.ptr

private theorem owned_dataHeld (layout : Layout pool) (owned : Owned pool s.others s.heap) : DataHeld pool s := by
  intro data list buddy
  obtain ⟨held, region, apart, holds⟩ := owned
  obtain ⟨placed, covers⟩ := region_placed region data
  refine ⟨placed, fun u covered => ?_, fun len slice after ran address => ?_⟩
  · have member := (covers u).mp covered
    refine ⟨Set.disjoint_left.mp apart member, fun k level bits => ?_⟩
    have shown := holds.represents.shown
    have inPool : k < pool.bitmapsLen := shown.bitmapsLen_eq ▸ level
    rw [← Bool.not_eq_true, shown.bit k _ ⟨inPool, by omega⟩]
    intro maximal
    exact (maximal.1 rfl).2 (.inr member)
  · cases holds.alloc layout ran with
    | inl null => exact absurd (congrArg Slice.ptr null.1) address
    | inr block =>
      obtain ⟨k, i, rfl, _, free, _⟩ := block
      exact apart_of_units placed fun u covered member =>
        Set.disjoint_left.mp free member (.inr ((covers u).mp covered))

variable {memory listMemory : Memory} {bitmaps : ℕ → BlockBitmap} {region : PoolRegion} {es : List Event}

private theorem initial_owned (accepted : buddyInit memory bitmaps region.startAddr region.totalLen = .ok pool) :
    Layout pool ∧ Owned pool (initial pool listMemory).others (initial pool listMemory).heap := by
  obtain ⟨layout, shown, used, _, _⟩ := buddyInit_ok accepted region.alignedStart region.alignedLen
    region.small region.bounded
  refine ⟨layout, ∅, .empty, Set.empty_disjoint _, ?_, by simp [initial]⟩
  rw [initial, Set.union_empty, Set.sdiff_empty]
  refine ⟨shown, fun _ member => member, ?_⟩
  rw [used, Set.ncard_Iio_nat, Nat.zero_add]

private theorem steps_owned (accepted : buddyInit memory bitmaps region.startAddr region.totalLen = .ok pool)
    (run : Run (Steps pool) (initial pool listMemory) es s) : Layout pool ∧ Owned pool s.others s.heap := by
  obtain ⟨layout, owned⟩ := @initial_owned _ _ listMemory _ _ accepted
  have kept : ∀ t e u, Owned pool t.others t.heap → Steps pool t e u → Owned pool u.others u.heap :=
    fun _ _ _ owned step => step_owned layout owned step
  exact ⟨layout, run.invariant (I := fun t => Owned pool t.others t.heap) owned kept⟩

/-- In every run that hands back whole blocks, the list's data are held in every state reached, and
releasing all of them leaves the pool as it was before the list's first allocation, with the memory
of everyone else as it was then. -/
theorem arraylist_pages_held (accepted : buddyInit memory bitmaps region.startAddr region.totalLen = .ok pool)
    (run : Run (Steps pool) (initial pool listMemory) es s) :
    DataHeld pool s ∧
    ∀ fs t u, s.heap.list.data = 0 → Run (Steps pool) s fs t → Steps pool t (.shrinkTo 0) u → u.others = s.others →
      u.heap.list.data = 0 ∧ u.heap.allocator = s.heap.allocator := by
  obtain ⟨layout, owned⟩ := steps_owned accepted run
  refine ⟨owned_dataHeld layout owned, fun fs t u unused more shrunk same => ?_⟩
  have data : u.heap.list.data = 0 := by
    have ran := shrunk.2
    simp only [exec, Except.bind_ok_iff, Except.pure_ok_iff, arraylistShrinkTo, if_pos] at ran
    obtain ⟨heap, found, rfl⟩ := ran
    split_ifs at found with held
    · simp only [Except.bind_ok_iff, Except.pure_ok_iff] at found
      obtain ⟨_, _, rfl⟩ := found
      rfl
    · cases found
      exact not_not.mp held
  obtain ⟨_, held, heldRegion, _, holds⟩ := steps_owned accepted (run.append (more.snoc shrunk))
  obtain ⟨before, beforeRegion, _, beforeHolds⟩ := owned
  obtain rfl := heldRegion.of_null data layout
  obtain rfl := beforeRegion.of_null unused layout
  rw [same] at holds
  exact ⟨data, holds.unique beforeHolds⟩

private theorem startAddr_fivePages : 65536 % BUDDY_UNIT = 0 := rfl

/-- A region of five pages: one for the metadata and four units. -/
def fivePages : PoolRegion := ⟨65536, 20480, startAddr_fivePages, rfl, by decide, by decide⟩

/-- A list of two pages shrinks to one and then to none. -/
private theorem five_pages_run : ∃ pool s t u,
    buddyInit (fun _ => 0) (fun _ => ⟨0, 0⟩) fivePages.startAddr fivePages.totalLen = .ok pool ∧
      exec pool (initial pool fun _ => 0) (.init 8192) = .ok s ∧ exec pool s (.shrinkTo 100) = .ok t ∧
      exec pool t (.shrinkTo 0) = .ok u ∧ s.heap.list = ⟨69632, 0, 8192⟩ ∧
        t.heap.list = ⟨69632, 0, 4096⟩ := by
  have computed : (do
      let pool ← buddyInit (fun _ => 0) (fun _ => ⟨0, 0⟩) fivePages.startAddr fivePages.totalLen
      let s ← exec pool (initial pool fun _ => 0) (.init 8192)
      let t ← exec pool s (.shrinkTo 100)
      let u ← exec pool t (.shrinkTo 0)
      return (s.heap.list, t.heap.list, u.heap.list) : Result _) =
        .ok (⟨69632, 0, 8192⟩, ⟨69632, 0, 4096⟩, ⟨0, 0, 0⟩) := by
    decide +kernel
  simp only [Except.bind_ok_iff, Except.pure_ok_iff, Prod.mk.injEq] at computed
  obtain ⟨pool, accepted, s, taken, t, shrunk, u, released, first, second, _⟩ := computed
  exact ⟨pool, s, t, u, accepted, taken, shrunk, released, first, second⟩

theorem arraylist_pages_held_two : ∃ pool s t u,
    exec pool (initial pool fun _ => 0) (.init 8192) = .ok s ∧ exec pool s (.shrinkTo 100) = .ok t ∧
      exec pool t (.shrinkTo 0) = .ok u ∧ DataHeld pool t ∧ u.heap.allocator = pool := by
  obtain ⟨pool, s, t, u, accepted, taken, shrunk, released, first, second⟩ := five_pages_run
  have init : Steps pool (initial pool fun _ => 0) (.init 8192) s := ⟨⟨⟨rfl, by decide⟩, trivial⟩, taken⟩
  have shrink : Steps pool s (.shrinkTo 100) t := by
    refine ⟨⟨show 100 < 2 ^ 64 by decide, ?_⟩, shrunk⟩
    rw [Whole, first]
    exact fun _ => .inr ⟨0, rfl, by decide⟩
  have release : Steps pool t (.shrinkTo 0) u := by
    refine ⟨⟨show 0 < 2 ^ 64 by decide, ?_⟩, released⟩
    rw [Whole, second]
    exact fun _ => ⟨0, rfl, by decide⟩
  have run := (Run.single init).append (Run.single shrink)
  refine ⟨pool, s, t, u, taken, shrunk, released, (arraylist_pages_held accepted run).1, ?_⟩
  have others : u.others = (initial pool fun _ => 0).others := by
    simp only [exec, Except.bind_ok_iff, Except.pure_ok_iff] at taken shrunk released
    obtain ⟨_, _, rfl⟩ := taken
    obtain ⟨_, _, rfl⟩ := shrunk
    obtain ⟨_, _, rfl⟩ := released
    rfl
  exact ((arraylist_pages_held accepted (.nil (s := initial pool fun _ => 0))).2 _ t u rfl run release others).2

/-- Shrinking a list of four pages to one releases the page that it keeps: its only page is free in
the pool, and the next allocation returns it. -/
theorem shrink_releases_kept_page : ∃ pool s t,
    buddyInit (fun _ => 0) (fun _ => ⟨0, 0⟩) fivePages.startAddr fivePages.totalLen = .ok pool ∧
      Guarded (Enabled pool) (exec pool) (initial pool fun _ => 0) (.init 16384) s ∧
      Guarded (Enabled pool) (exec pool) s (.shrinkTo 4096) t ∧ t.heap.list = ⟨69632, 0, 4096⟩ ∧
      (Covers pool ⟨69632, 4096⟩ 0 ∧ t.heap.allocator.levelBit 2 (0 / 2 ^ 2) = true) ∧
      ∃ after, dynmemAlloc t.heap.allocator 4096 = .ok (⟨69632, 4096⟩, after) := by
  have computed : (do
      let pool ← buddyInit (fun _ => 0) (fun _ => ⟨0, 0⟩) fivePages.startAddr fivePages.totalLen
      let s ← exec pool (initial pool fun _ => 0) (.init 16384)
      let t ← exec pool s (.shrinkTo 4096)
      let (slice, _) ← dynmemAlloc t.heap.allocator 4096
      return (t.heap.list, decide (Covers pool ⟨69632, 4096⟩ 0),
        t.heap.allocator.levelBit 2 (0 / 2 ^ 2), slice) :
        Result _) = .ok (⟨69632, 0, 4096⟩, true, true, ⟨69632, 4096⟩) := by
    decide +kernel
  simp only [Except.bind_ok_iff, Except.pure_ok_iff, Prod.mk.injEq, Prod.exists, decide_eq_true_eq]
    at computed
  obtain ⟨pool, accepted, s, taken, t, shrunk, slice, after, answered, list, covers, bit, rfl⟩ := computed
  have small : Enabled pool s (.shrinkTo 4096) := show 4096 < 2 ^ 64 by decide
  exact ⟨pool, s, t, accepted, ⟨⟨rfl, by decide⟩, taken⟩, ⟨small, shrunk⟩, list, ⟨covers, bit⟩,
    after, answered⟩

end Runs

end RubberOS.Soundness.ArraylistRuns
