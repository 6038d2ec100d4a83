import RubberOS.Proofs.PageSupply
import RubberOS.Proofs.PageWalks
import RubberOS.ToMathlib.LabelledRuns

/-! # Mapping and unmapping device ranges

Runs of `pagetable_mmio_map` on ranges apart from the live ones and of `pagetable_mmio_unmap` on live
ranges. The pages of the window that the processor finds are those of the live ranges, in every state
of every run.
-/

namespace RubberOS.Soundness.PageTables

open Model Model.Buddy Model.PageTable Model.PageTable.KernelPages Model.MemoryMap Model.Mmio LabelledRuns

/-- A range of virtual addresses. -/
structure DeviceRange where
  beginVirt : ℕ
  endVirt : ℕ
deriving DecidableEq, Repr

namespace DeviceRange

variable (range other : DeviceRange)

def Contains (virt : ℕ) : Prop := range.beginVirt ≤ virt ∧ virt < range.endVirt

/-- Neither range starts before the other ends. -/
def Apart : Prop := range.endVirt ≤ other.beginVirt ∨ other.endVirt ≤ range.beginVirt

/-- A range of whole pages of the window. -/
structure Placed : Prop where
  alignedBegin : range.beginVirt % PAGE_SIZE = 0
  alignedEnd : range.endVirt % PAGE_SIZE = 0
  ordered : range.beginVirt ≤ range.endVirt
  lower : IOMAP_START_VIRT ≤ range.beginVirt
  upper : range.endVirt ≤ IOMAP_START_VIRT + IOMAP_VIRT_SIZE

/-- The number of the first page. -/
def first : ℕ := (range.beginVirt - IOMAP_START_VIRT) / PAGE_SIZE

/-- The number of the first page behind the range. -/
def limit : ℕ := (range.endVirt - IOMAP_START_VIRT) / PAGE_SIZE

/-- The number of page directories and page tables for the pages of the range. -/
def tables : ℕ := tablesFor range.first range.limit

end DeviceRange

/-- A call of one of the two functions. -/
inductive Event where
  | map (range : DeviceRange) (phys flags : ℕ)
  | unmap (range : DeviceRange)

/-- The page tables with the ranges that are mapped. -/
structure State where
  memory : PageMemory
  live : List DeviceRange

def exec (kernel : KernelPages) (s : State) : Event → Result State
  | .map range phys flags => do
    let memory ← pagetableMmioMap kernel.gPagetable range.beginVirt range.endVirt phys flags kernel.mmapDyn s.memory
    return ⟨memory, range :: s.live⟩
  | .unmap range => do
    let memory ← pagetableMmioUnmap kernel.gPagetable range.beginVirt range.endVirt kernel.mmapDyn s.memory
    return ⟨memory, s.live.erase range⟩

/-- A new range is apart from the live ones; only a live range is unmapped. -/
def Enabled (s : State) : Event → Prop
  | .map range _ flags => range.Placed ∧ (∀ other ∈ s.live, range.Apart other) ∧ Plain flags
  | .unmap range => range ∈ s.live

/-- The state in which the kernel starts: no range is mapped and no page is taken for tables. -/
structure Starts (kernel : KernelPages) (s : State) : Prop where
  frames : s.memory.frames = kernel.boot
  owned : kernel.Owned s.memory.buddy ∅
  live : s.live = []

/-! ## Pages of ranges -/

namespace DeviceRange

variable {range other : DeviceRange} {page virt : ℕ}

/-- The page lies in the range. -/
def Holds (range : DeviceRange) (page : ℕ) : Prop := range.first ≤ page ∧ page < range.limit

theorem Placed.beginVirt_eq (placed : range.Placed) : range.beginVirt = pageAddress range.first := by
  obtain ⟨aligned, _, _, lower, _⟩ := placed
  simp only [first, pageAddress, IOMAP_START_VIRT, PAGE_SIZE] at *
  omega

theorem Placed.endVirt_eq (placed : range.Placed) : range.endVirt = pageAddress range.limit := by
  obtain ⟨_, aligned, ordered, lower, _⟩ := placed
  simp only [limit, pageAddress, IOMAP_START_VIRT, PAGE_SIZE] at *
  omega

private theorem Placed.first_le (placed : range.Placed) : range.first ≤ range.limit := by
  have ordered := placed.ordered
  exact Nat.div_le_div_right (Nat.sub_le_sub_right ordered _)

theorem Placed.limit_le (placed : range.Placed) : range.limit ≤ windowPages := by
  have upper := placed.upper
  simp only [limit, windowPages, IOMAP_START_VIRT, IOMAP_VIRT_SIZE, PAGE_SIZE] at *
  omega

theorem Placed.contains_iff (placed : range.Placed) {offset : ℕ} (small : offset < PAGE_SIZE) :
    range.Contains (pageAddress page + offset) ↔ range.Holds page := by
  rw [Contains, Holds, placed.beginVirt_eq, placed.endVirt_eq]
  simp only [pageAddress, PAGE_SIZE] at *
  omega

private theorem Apart.symm (apart : range.Apart other) : other.Apart range := Or.symm apart

private theorem Apart.not_holds (apart : range.Apart other) (placed : range.Placed) (placedOther : other.Placed)
    (inside : range.Holds page) : ¬ other.Holds page := by
  rw [Apart, placed.beginVirt_eq, placed.endVirt_eq, placedOther.beginVirt_eq,
    placedOther.endVirt_eq] at apart
  simp only [pageAddress, PAGE_SIZE, Holds] at *
  omega

end DeviceRange

/-- An address of the window lies in one page. -/
theorem exists_page {virt : ℕ} (inside : InIomap virt) :
    ∃ page offset, page < windowPages ∧ offset < PAGE_SIZE ∧ virt = pageAddress page + offset := by
  refine ⟨(virt - IOMAP_START_VIRT) / PAGE_SIZE, virt % PAGE_SIZE, ?_, Nat.mod_lt _ (by decide), ?_⟩
  · simp only [InIomap, windowPages, IOMAP_START_VIRT, IOMAP_VIRT_SIZE, PAGE_SIZE] at *
    omega
  · simp only [InIomap, pageAddress, IOMAP_START_VIRT, PAGE_SIZE] at *
    omega

/-! ## The invariant -/

/-- The tables are in place, the window shows the live ranges, and no block reaches out of its range. -/
structure Sound (kernel : KernelPages) (s : State) (tables : Registry) : Prop where
  shape : kernel.Shape s.memory tables
  placed : ∀ range ∈ s.live, range.Placed
  apart : s.live.Pairwise DeviceRange.Apart
  view : ∀ page, page < windowPages → (kernel.view s.memory tables page ≠ none ↔ ∃ range ∈ s.live, range.Holds page)
  blocks : ∀ range ∈ s.live, ∀ page leaf, range.Holds page → kernel.view s.memory tables page = some leaf →
    leaf.level = 1 → range.first ≤ page / 512 * 512 ∧ page / 512 * 512 + 512 ≤ range.limit

variable {kernel : KernelPages} {s t : State} {tables : Registry} {range : DeviceRange} {phys flags : ℕ} {events : List Event}

/-- A registry without tables, over memory as it was at the start. -/
theorem Starts.sound (start : Starts kernel s) : Sound kernel s fun _ => none := by
  have none : held (fun _ => none) = ∅ := by
    refine Set.eq_empty_of_forall_notMem fun table held => ?_
    obtain ⟨_, registered⟩ := held
    cases registered
  have registered : Registered fun _ => Option.none := by
    constructor
    · intro _ _ registered
      cases registered
    · intro _ _ _ registered
      cases registered
    · intro _ _ registered
      cases registered
  refine ⟨⟨registered, none ▸ start.owned, fun id valid above placed => ?_, fun _ _ _ => by rw [start.frames]⟩,
    ?_, ?_, fun page inside => ?_, ?_⟩
  · cases id with
    | directory i =>
      have vacant := kernel.vacant i valid
      obtain rfl : kernel.pdpt = above := Option.some.inj placed
      intro present
      rw [TableId.slot, KernelPages.read, start.frames, pdpt_frame, vacant] at present
      exact absurd present (by decide)
    | leaf b => cases placed
  · rw [start.live]
    exact fun _ member => absurd member List.not_mem_nil
  · rw [start.live]
    exact .nil
  · rw [start.live]
    refine iff_of_false (fun shown => shown rfl) ?_
    rintro ⟨_, member, _⟩
    exact absurd member List.not_mem_nil
  · rw [start.live]
    exact fun _ member => absurd member List.not_mem_nil

/-- The pages of a range apart from the live ones are vacant. -/
theorem Sound.vacant (sound : Sound kernel s tables) (placed : range.Placed)
    (apart : ∀ other ∈ s.live, range.Apart other)
    (page : ℕ) (inside : range.Holds page) : kernel.view s.memory tables page = none := by
  by_contra shown
  have window : page < windowPages := Nat.lt_of_lt_of_le inside.2 placed.limit_le
  obtain ⟨other, member, holds⟩ := (sound.view page window).mp shown
  exact (apart other member).not_holds placed (sound.placed other member) inside holds

/-- A live range is mapped as a whole. -/
private theorem Sound.whole (sound : Sound kernel s tables) (member : range ∈ s.live) :
    kernel.Whole s.memory tables range.first range.limit where
  mapped page start stop := by
    have window : page < windowPages := Nat.lt_of_lt_of_le stop (sound.placed range member).limit_le
    exact (sound.view page window).mpr ⟨range, member, start, stop⟩
  blocks page leaf start stop := sound.blocks range member page leaf ⟨start, stop⟩

/-- A mapping call keeps the invariant, or the pool has too few pages left for its tables. -/
theorem Sound.map (sound : Sound kernel s tables) (enabled : Enabled s (.map range phys flags)) :
    exec kernel s (.map range phys flags) = .error .nullDereference ∧ RunsOut range.tables s.memory.buddy ∨
      ∃ t tables', exec kernel s (.map range phys flags) = .ok t ∧ Sound kernel t tables' ∧
        t.live = range :: s.live ∧
        kernel.Mapped s.memory tables range.first range.limit phys flags range.limit t.memory tables' := by
  obtain ⟨placed, apart, plain⟩ := enabled
  have vacant (page : ℕ) (start : range.first ≤ page) (stop : page < range.limit) :
      kernel.view s.memory tables page = none := sound.vacant placed apart page ⟨start, stop⟩
  rw [exec, placed.beginVirt_eq, placed.endVirt_eq]
  rcases pagetableMmioMap_spec phys sound.shape plain placed.first_le placed.limit_le vacant with
    ⟨failed, out⟩ | ⟨after, tables', ran, mapped⟩
  · left
    refine ⟨?_, out⟩
    rw [failed]
    rfl
  · right
    rw [ran]
    refine ⟨⟨after, range :: s.live⟩, tables', rfl, ?_, rfl, mapped⟩
    refine ⟨mapped.shape, ?_, ?_, fun page inside => ?_, ?_⟩
    · exact List.forall_mem_cons.mpr ⟨placed, sound.placed⟩
    · exact List.pairwise_cons.mpr ⟨apart, sound.apart⟩
    · simp only [mapped.view, List.mem_cons, exists_eq_or_imp]
      by_cases own : range.first ≤ page ∧ page < range.limit
      · rw [if_pos own]
        exact iff_of_true nofun (.inl own)
      · rw [if_neg own, sound.view page inside]
        exact (or_iff_right own).symm
    · rw [List.forall_mem_cons]
      constructor
      · intro page leaf inside shown block
        have own : range.first ≤ page ∧ page < range.limit := inside
        rw [mapped.view, if_pos own, mappedLeaf] at shown
        split_ifs at shown with wide
        · exact ⟨wide.2.1, wide.2.2⟩
        · cases shown
          exact absurd block Nat.zero_ne_one
      · intro other member page leaf inside shown block
        have apartOther : ¬ (range.first ≤ page ∧ page < range.limit) :=
          (apart other member).symm.not_holds (sound.placed other member) placed inside
        rw [mapped.view, if_neg apartOther] at shown
        exact sound.blocks other member page leaf inside shown block

/-- An unmapping call keeps the invariant and never fails. -/
theorem Sound.unmap (sound : Sound kernel s tables) (member : range ∈ s.live) :
    ∃ t tables', exec kernel s (.unmap range) = .ok t ∧ Sound kernel t tables' ∧ t.live = s.live.erase range ∧
      kernel.Removed s.memory tables range.first range.limit t.memory tables' := by
  have placed := sound.placed range member
  obtain ⟨after, tables', ran, removed⟩ :=
    pagetableMmioUnmap_spec sound.shape placed.first_le placed.limit_le (sound.whole member)
  have rest := (List.perm_cons_erase member).pairwise_iff
    (fun apart => DeviceRange.Apart.symm apart) |>.mp sound.apart
  rw [List.pairwise_cons] at rest
  rw [exec, placed.beginVirt_eq, placed.endVirt_eq, ran]
  refine ⟨⟨after, s.live.erase range⟩, tables', rfl, ?_, rfl, removed⟩
  refine ⟨removed.shape, ?_, rest.2, fun page inside => ?_, ?_⟩
  · exact fun other found => sound.placed other (List.mem_of_mem_erase found)
  · rw [removed.view]
    by_cases own : range.first ≤ page ∧ page < range.limit
    · rw [if_pos own]
      refine iff_of_false (fun shown => shown rfl) ?_
      rintro ⟨other, found, holds⟩
      exact (rest.1 other found).not_holds placed (sound.placed other (List.mem_of_mem_erase found)) own holds
    · rw [if_neg own, sound.view page inside]
      constructor
      · rintro ⟨other, found, holds⟩
        have different : other ≠ range := by
          rintro rfl
          exact own holds
        exact ⟨other, (List.mem_erase_of_ne different).mpr found, holds⟩
      · rintro ⟨other, found, holds⟩
        exact ⟨other, List.mem_of_mem_erase found, holds⟩
  · intro other found page leaf inside shown block
    have live := List.mem_of_mem_erase found
    have apart : ¬ (range.first ≤ page ∧ page < range.limit) :=
      (rest.1 other found).symm.not_holds (sound.placed other live) placed inside
    rw [removed.view, if_neg apart] at shown
    exact sound.blocks other live page leaf inside shown block

abbrev Steps (kernel : KernelPages) := Guarded Enabled (exec kernel)

private theorem Sound.step (sound : Sound kernel s tables) {event : Event} (step : Steps kernel s event t) :
    ∃ tables', Sound kernel t tables' := by
  obtain ⟨enabled, ran⟩ := step
  cases event with
  | map range phys flags =>
    rcases sound.map enabled with ⟨failed, _⟩ | ⟨after, tables', found, kept, _⟩
    · exact absurd (failed.symm.trans ran) nofun
    · obtain rfl := Except.ok.inj (found.symm.trans ran)
      exact ⟨tables', kept⟩
  | unmap range =>
    obtain ⟨after, tables', found, kept, _⟩ := sound.unmap enabled
    obtain rfl := Except.ok.inj (found.symm.trans ran)
    exact ⟨tables', kept⟩

theorem run_sound (start : Starts kernel s) (run : Run (Steps kernel) s events t) :
    ∃ tables, Sound kernel t tables :=
  run.invariant (I := fun t => ∃ tables, Sound kernel t tables) ⟨_, start.sound⟩ fun _ _ _ ⟨_,
    sound⟩ step => sound.step step

/-! ## Mapped pages -/

/-- In every state of every run no assertion fires: an unmapping call returns, and a mapping call
returns unless the pool runs out within as many pages as there are tables for the range. The processor finds an
address of the window exactly if a live range contains it, and an unmapping call leaves every address outside its
range alone. -/
theorem mmio_pages_mapped (start : Starts kernel s) (run : Run (Steps kernel) s events t) :
    (∀ range phys flags, Enabled t (.map range phys flags) →
      exec kernel t (.map range phys flags) = .error .nullDereference ∧ RunsOut range.tables t.memory.buddy ∨
        ∃ u, exec kernel t (.map range phys flags) = .ok u) ∧
    (∀ virt, InIomap virt → ((walk t.memory.frames kernel.root virt).isSome ↔ ∃ range ∈ t.live, range.Contains virt)) ∧
    ∀ range, Enabled t (.unmap range) → ∃ u, exec kernel t (.unmap range) = .ok u ∧
      ∀ virt, Canonical virt → ¬ range.Contains virt →
        walk u.memory.frames kernel.root virt = walk t.memory.frames kernel.root virt := by
  obtain ⟨tables, sound⟩ := run_sound start run
  refine ⟨fun range phys flags enabled => ?_, fun virt inside => ?_, fun range member => ?_⟩
  · exact (sound.map enabled).imp_right fun ⟨u, _, ran, _⟩ => ⟨u, ran⟩
  · obtain ⟨page, offset, window, small, rfl⟩ := exists_page inside
    rw [sound.shape.walk_eq_view window small, Option.isSome_iff_ne_none, sound.view page window]
    refine exists_congr fun range => and_congr_right fun member => ?_
    exact ((sound.placed range member).contains_iff small).symm
  · obtain ⟨u, tables', ran, kept, _, removed⟩ := sound.unmap member
    refine ⟨u, ran, fun virt canonical outside => ?_⟩
    by_cases inside : InIomap virt
    · obtain ⟨page, offset, window, small, rfl⟩ := exists_page inside
      rw [(sound.placed range member).contains_iff small] at outside
      have apart : ¬ (range.first ≤ page ∧ page < range.limit) := outside
      rw [kept.shape.walk_eq_view window small, sound.shape.walk_eq_view window small, removed.view,
        if_neg apart]
    · rw [kept.shape.walk_elsewhere canonical inside, sound.shape.walk_elsewhere canonical inside]

/-! ## A small kernel -/

/-- One range of 32 pages of dynamic memory. -/
def smallMmap : Mmap := ⟨1, fun _ => ⟨0x00800000, 0x20000, MMAP_ENTRY_AVAILABLE⟩⟩

def smallRoot : ℕ := KERNEL_START_VIRT + 0x1000

def smallPdpt : ℕ := KERNEL_START_VIRT + 0x2000

/-- Memory in which the root's entry for the window is the only entry. -/
def smallBoot (frame index : ℕ) : ℕ := if frame = 0x201000 ∧ index = 511 then 0x202000 ||| KERNEL_PAGE_FLAG else 0

private theorem smallMmap_physical : PhysicalMap smallMmap where
  available _ _ := rfl
  base _ _ := show DYNMEM_START_PHYS_MINIMUM ≤ 0x00800000 ∧ 0x00800000 % PAGE_SIZE = 0 by decide
  length _ _ := show 0x20000 ≠ 0 ∧ 0x20000 % PAGE_SIZE = 0 by decide
  bound _ _ := show 0x00800000 + 0x20000 < 2 ^ 64 by decide
  ascending i j lt inside := by
    simp only [smallMmap] at inside
    omega
  nonempty := by decide
  small _ _ := show 0x00800000 + 0x20000 ≤ 2 ^ 52 by decide

private theorem smallBoot_zero {frame index : ℕ} (other : ¬ (frame = 0x201000 ∧ index = 511)) :
    smallBoot frame index = 0 :=
  if_neg other

/-- Outside the window a walk reads the root and at most the upper entries of the window's table. -/
private theorem smallBoot_cells {virt : ℕ} (canonical : Canonical virt) (outside : ¬ InIomap virt) :
    ∀ cell ∈ walkCells smallBoot virt 3 0x201000, cell.1 < DYNMEM_START_PHYS_MINIMUM ∧
      (cell.1 = 0x202000 → 508 ≤ cell.2) := by
  intro cell member
  have rootLow : 0x201000 < DYNMEM_START_PHYS_MINIMUM := by decide
  have rootApart : ¬ 0x201000 = 0x202000 := by decide
  by_cases top : tableIndex 3 virt = 511
  · have third : 508 ≤ tableIndex 2 virt := by
      simp only [tableIndex, Canonical, InIomap, IOMAP_START_VIRT, IOMAP_VIRT_SIZE] at *
      omega
    have link : smallBoot 0x201000 511 = 0x202003 := by decide
    have vacant : smallBoot 0x202000 (tableIndex 2 virt) = 0 := smallBoot_zero (by omega)
    rw [walkCells, top, link] at member
    rw [if_pos (by decide), walkCells, show 0x202003 &&& PAGE_MASK_ADDR = 0x202000 by decide, vacant,
      if_neg (by decide)] at member
    simp only [List.mem_cons, List.not_mem_nil, or_false] at member
    rcases member with rfl | rfl
    · exact ⟨rootLow, fun same => absurd same rootApart⟩
    · exact ⟨show 0x202000 < DYNMEM_START_PHYS_MINIMUM by decide, fun _ => third⟩
  · have vacant : smallBoot 0x201000 (tableIndex 3 virt) = 0 := smallBoot_zero (by omega)
    rw [walkCells, vacant, if_neg (by decide)] at member
    simp only [List.mem_cons, List.not_mem_nil, or_false] at member
    subst member
    exact ⟨rootLow, fun same => absurd same rootApart⟩

section Small

variable {pool : BuddyBlocks} (accepted : buddyInit (fun _ => 0) (fun _ => ⟨0, 0⟩) 0x203000 0x1d000 = .ok pool)
include accepted

private theorem smallPool_window : DYNMEM_START_VIRT ≤ pool.dataAddr ∧
    pool.dataAddr + pool.units * PAGE_SIZE ≤ DYNMEM_START_VIRT + windowOffset smallMmap smallMmap.len := by
  obtain ⟨layout, _, _, start, total⟩ := buddyInit_ok accepted rfl rfl (by decide) (by decide)
  have sum := layout.total
  have window : windowOffset smallMmap smallMmap.len = 0x20000 := rfl
  rw [window]
  simp only [BuddyBlocks.dataAddr, DYNMEM_START_VIRT, PAGE_SIZE, BUDDY_UNIT] at *
  omega

def smallKernel : KernelPages :=
  have layout := (buddyInit_ok accepted rfl rfl (by decide) (by decide)).1
  have window := smallPool_window accepted
  @KernelPages.ofPool pool smallMmap smallRoot smallPdpt smallBoot ∅ layout smallMmap_physical window.1 window.2
    ⟨by decide, by decide, by decide⟩ ⟨by decide, by decide, by decide⟩ (by decide) (by decide) (fun i small => by
      rw [show smallBoot (virtToPhysKernel smallPdpt) i = 0 from if_neg fun own => absurd own.1 (by decide)]
      rfl) fun virt canonical outside cell member => by
        obtain ⟨low, static⟩ := smallBoot_cells canonical outside cell member
        refine ⟨static, fun u inside same => ?_⟩
        have high := ((dynPage_unit layout window.1 window.2 inside).reaches smallMmap_physical).2.2
        omega

theorem smallKernel_root : (smallKernel accepted).root = 0x201000 := by
  show virtToPhysKernel smallRoot = 0x201000
  decide

theorem smallKernel_starts : Starts (smallKernel accepted) ⟨⟨smallBoot, pool⟩, []⟩ :=
  ⟨rfl, poolOwned_init accepted rfl rfl (by decide) (by decide), rfl⟩

theorem small_map_ran {range : DeviceRange} {phys flags : ℕ} {memory : PageMemory}
    (ran : pagetableMmioMap smallRoot range.beginVirt range.endVirt phys flags smallMmap ⟨smallBoot, pool⟩ =
      .ok memory) :
    exec (smallKernel accepted) ⟨⟨smallBoot, pool⟩, []⟩ (.map range phys flags) = .ok ⟨memory, [range]⟩ := by
  rw [exec]
  exact Except.bind_ok_iff.mpr ⟨memory, ran, rfl⟩

end Small

/-- The last page of the window's first block and the whole second block. -/
def smallRange : DeviceRange := ⟨IOMAP_START_VIRT + 0x1ff000, IOMAP_START_VIRT + 0x400000⟩

theorem small_map_enabled {memory : PageMemory} :
    Enabled ⟨memory, []⟩ (.map smallRange 0xfe1ff000 KERNEL_PAGE_FLAG) :=
  ⟨⟨rfl, rfl, by decide, by decide, by decide⟩, fun _ member => absurd member List.not_mem_nil, plain_kernel⟩

theorem small_range_mapped : ∃ pool, ∃ accepted : buddyInit (fun _ => 0) (fun _ => ⟨0, 0⟩) 0x203000 0x1d000 = .ok pool,
    ∃ memory, exec (smallKernel accepted) ⟨⟨smallBoot, pool⟩, []⟩ (.map smallRange 0xfe1ff000 KERNEL_PAGE_FLAG) =
      .ok ⟨memory, [smallRange]⟩ := by
  have computed : (do
      let pool ← buddyInit (fun _ => 0) (fun _ => ⟨0, 0⟩) 0x203000 0x1d000
      let memory ← pagetableMmioMap smallRoot smallRange.beginVirt smallRange.endVirt 0xfe1ff000 KERNEL_PAGE_FLAG
        smallMmap ⟨smallBoot, pool⟩
      return () : Result Unit) = .ok () := by
    decide +kernel
  simp only [Except.bind_ok_iff] at computed
  obtain ⟨pool, accepted, memory, ran, _⟩ := computed
  exact ⟨pool, accepted, memory, small_map_ran accepted ran⟩

theorem mmio_pages_mapped_two : ∃ pool, ∃ accepted : buddyInit (fun _ => 0) (fun _ => ⟨0, 0⟩) 0x203000 0x1d000 = .ok pool,
    ∃ t u, exec (smallKernel accepted) ⟨⟨smallBoot, pool⟩, []⟩ (.map smallRange 0xfe1ff000 KERNEL_PAGE_FLAG) = .ok t ∧
      (walk t.memory.frames (smallKernel accepted).root (IOMAP_START_VIRT + 0x200000)).isSome ∧
      exec (smallKernel accepted) t (.unmap smallRange) = .ok u := by
  obtain ⟨pool, accepted, memory, mapped⟩ := small_range_mapped
  obtain ⟨_, found, unmapped⟩ :=
    mmio_pages_mapped (smallKernel_starts accepted) (Run.single ⟨small_map_enabled, mapped⟩)
  obtain ⟨u, gone, _⟩ := unmapped smallRange (List.mem_singleton_self _)
  refine ⟨pool, accepted, _, u, mapped, ?_, gone⟩
  exact (found _ (by unfold InIomap; decide)).mpr ⟨smallRange, List.mem_singleton_self _,
    by unfold DeviceRange.Contains; decide⟩

end RubberOS.Soundness.PageTables
