import RubberOS.Proofs.BuddyInit
import RubberOS.Proofs.DynmemPages
import RubberOS.Proofs.PageRegistry

/-! # The buddy allocator as a supply of table pages

A pool that lies in the window over dynamic memory supplies pages for tables, whatever else is in use
in it.
-/

namespace RubberOS.Model.PageTable

open Buddy MemoryMap Mmio Dynmem Dyadic

/-- The page of a unit. -/
def unitPage (pool : BuddyBlocks) (u : ℕ) : ℕ := pool.dataAddr + u * PAGE_SIZE

/-- Apart from what others have in use, these pages are in use. -/
def PoolOwned (pool : BuddyBlocks) (others : Set ℕ) (buddy : BuddyBlocks) (held : Set ℕ) : Prop :=
  ∃ units, held = unitPage pool '' units ∧ Disjoint others units ∧ Holds pool buddy (others ∪ units)

variable {pool buddy : BuddyBlocks} {others taken units : Set ℕ}

theorem unitPage_injective (pool : BuddyBlocks) : Function.Injective (unitPage pool) := by
  intro u v same
  simp only [unitPage, PAGE_SIZE] at same
  omega

/-- A page is allocated as one unit. -/
private theorem alloc_unit (layout : Layout pool) (holds : Holds pool buddy taken) :
    ∃ slice after, dynmemAlloc buddy PAGE_SIZE = .ok (slice, after) ∧
      (slice.ptr = 0 ∨ ∃ u, slice.ptr = unitPage pool u ∧ u ∉ taken ∧ Holds pool after (taken ∪ {u})) := by
  have fit : IsFit PAGE_SIZE 0 := by simpa using isFit_pages 0
  rcases buddyAllocSlice_spec layout.toCompact holds.represents (by decide) (by decide) fit with
    ⟨i, after, ran, free, represents⟩ | ⟨ran, _⟩
  · have single : dyadic 0 i = {i} := by
      rw [dyadic_eq_Ico]
      ext u
      simp only [pow_zero, Nat.mul_one, Set.mem_Ico, Set.mem_singleton_iff]
      omega
    rw [single] at free represents
    have own := free rfl
    refine ⟨_, after, ran, .inr ⟨i, ?_, own.2, ?_, ?_⟩⟩
    · rw [BuddyBlocks.block, unitPage, pow_zero, Nat.mul_one]
      rfl
    · rwa [Set.sdiff_sdiff] at represents
    · exact Set.union_subset holds.inside (Set.singleton_subset_iff.mpr own.1)
  · exact ⟨_, buddy, ran, .inl rfl⟩

/-- A unit in use is given back as one page. -/
theorem dealloc_unit (layout : Layout pool) (holds : Holds pool buddy taken) {u : ℕ} (used : u ∈ taken) :
    ∃ after, dynmemDealloc buddy (unitPage pool u) PAGE_SIZE = .ok after ∧
      Holds pool after (taken \ {u}) := by
  have unit : Set.Ico u (u + 2 ^ 0) = {u} := by
    ext v
    simp only [pow_zero, Set.mem_Ico, Set.mem_singleton_iff]
    omega
  have given := holds.dealloc_pages layout (show 2 ^ 0 ∣ u from one_dvd u)
  rw [unit, pow_zero, Nat.one_mul] at given
  exact given (Set.singleton_subset_iff.mpr used)

private theorem supply_of_pool (layout : Layout pool) :
    Supply (unitPage pool '' Set.Iio pool.units) (PoolOwned pool others) where
  inside := by
    rintro buddy held ⟨units, rfl, _, holds⟩
    exact Set.image_mono (Set.subset_union_right.trans holds.inside)
  alloc := by
    rintro buddy held ⟨units, rfl, apart, holds⟩
    obtain ⟨slice, after, ran, answer⟩ := alloc_unit layout holds
    refine ⟨slice, after, ran, answer.imp_right ?_⟩
    rintro ⟨u, page, free, owned⟩
    rw [Set.mem_union, not_or] at free
    rw [page]
    refine ⟨?_, insert u units, (Set.image_insert_eq ..).symm, ?_, ?_⟩
    · rintro ⟨v, member, same⟩
      exact free.2 (unitPage_injective pool same ▸ member)
    · exact Set.disjoint_insert_right.mpr ⟨free.1, apart⟩
    · rwa [Set.union_assoc, Set.union_singleton] at owned
  dealloc := by
    rintro buddy held table ⟨units, rfl, apart, holds⟩ ⟨u, member, rfl⟩
    obtain ⟨after, ran, owned⟩ := dealloc_unit layout holds (.inr member)
    refine ⟨after, ran, units \ {u}, ?_, apart.mono_right Set.sdiff_subset, ?_⟩
    · rw [Set.image_sdiff (unitPage_injective pool), Set.image_singleton]
    · have rest : (others ∪ units) \ {u} = others ∪ units \ {u} := by
        rw [Set.union_sdiff_distrib, Set.sdiff_singleton_eq_self]
        exact fun other => Set.disjoint_left.mp apart other member
      rwa [rest] at owned
  used := by
    rintro buddy other held ⟨units, rfl, _, holds⟩ ⟨units', same, _, holdsOther⟩
    rw [(unitPage_injective pool).image_injective same] at holds
    rw [holds.unique holdsOther]

/-- A new pool has given out no page. -/
theorem poolOwned_init {memory : Memory} {bitmaps : ℕ → BlockBitmap} {startAddr totalLen : ℕ}
    (accepted : buddyInit memory bitmaps startAddr totalLen = .ok pool)
    (alignedStart : startAddr % BUDDY_UNIT = 0)
    (alignedLen : totalLen % BUDDY_UNIT = 0) (small : totalLen ≤ 2 ^ 31)
    (bounded : startAddr + totalLen < 2 ^ 64) :
    PoolOwned pool ∅ pool ∅ := by
  obtain ⟨_, shown, used, _, _⟩ := buddyInit_ok accepted alignedStart alignedLen small bounded
  refine ⟨∅, (Set.image_empty _).symm, Set.disjoint_empty _, ?_, by simp⟩
  rw [Set.union_empty, Set.sdiff_empty]
  refine ⟨shown, fun _ member => member, ?_⟩
  rw [used, Set.ncard_Iio_nat, Nat.zero_add]

/-- The pages of a pool in the window. -/
theorem dynPage_unit {mmapDyn : Mmap} (layout : Layout pool) (lower : DYNMEM_START_VIRT ≤ pool.dataAddr)
    (upper : pool.dataAddr + pool.units * PAGE_SIZE ≤ DYNMEM_START_VIRT +
      windowOffset mmapDyn mmapDyn.len) {u : ℕ}
    (inside : u < pool.units) : DynPage mmapDyn (unitPage pool u) := by
  have aligned : pool.dataAddr % BUDDY_UNIT = 0 := layout.aligned
  simp only [BUDDY_UNIT, PAGE_SIZE] at aligned upper
  constructor <;> simp only [unitPage, PAGE_SIZE] <;> omega

/-- The kernel with a buddy pool in the window over dynamic memory. -/
def KernelPages.ofPool {mmapDyn : Mmap} {gPagetable pdpt : ℕ} (boot : ℕ → ℕ → ℕ) (others : Set ℕ) (layout : Layout pool)
    (map : PhysicalMap mmapDyn) (lower : DYNMEM_START_VIRT ≤ pool.dataAddr)
    (upper : pool.dataAddr + pool.units * PAGE_SIZE ≤ DYNMEM_START_VIRT + windowOffset mmapDyn mmapDyn.len)
    (rootPage : ImagePage gPagetable) (pdptPage : ImagePage pdpt) (distinct : gPagetable ≠ pdpt)
    (link : boot (virtToPhysKernel gPagetable) 511 = virtToPhysKernel pdpt ||| KERNEL_PAGE_FLAG)
    (vacant : ∀ i < 508, isPresent (boot (virtToPhysKernel pdpt) i) = false)
    (elsewhere : ∀ virt, Canonical virt → ¬ InIomap virt →
      ∀ cell ∈ walkCells boot virt 3 (virtToPhysKernel gPagetable),
        (cell.1 = virtToPhysKernel pdpt → 508 ≤ cell.2) ∧ ∀ u < pool.units, frameOf mmapDyn (unitPage pool u) ≠ cell.1) :
    KernelPages where
  mmapDyn := mmapDyn
  gPagetable := gPagetable
  pdpt := pdpt
  boot := boot
  pool := unitPage pool '' Set.Iio pool.units
  Owned := PoolOwned pool others
  map := map
  rootPage := rootPage
  pdptPage := pdptPage
  distinct := distinct
  pages := by
    rintro table ⟨u, inside, rfl⟩
    exact dynPage_unit layout lower upper inside
  supply := supply_of_pool layout
  link := link
  vacant := vacant
  elsewhere := by
    intro virt canonical outside cell member
    obtain ⟨static, dynamic⟩ := elsewhere virt canonical outside cell member
    refine ⟨static, ?_⟩
    rintro table ⟨u, inside, rfl⟩
    exact dynamic u inside

end RubberOS.Model.PageTable
