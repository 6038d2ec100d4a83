import RubberOS.Proofs.WindowCells
import RubberOS.Soundness.BuddyMetadata
import RubberOS.Soundness.KernelMemory
import RubberOS.Soundness.MemoryMap
import RubberOS.Soundness.TablePages

/-! # From boot to the allocators

`memory_init` turns the boot map into the memory that the allocators and the device mappings run on:
the tables show the image, the stack and every page of the map, and the pool lies behind the table
pages. What is known about runs over such memory then holds from boot on.
-/

namespace RubberOS.Soundness.BootMemory

open Model LabelledRuns Model.Buddy Model.KernelMemory Model.MemoryMap Model.Mmio Model.PageConstruct
  Model.PageConstruct.FreshKernel Model.PageTable Model.Slab Soundness.MemoryMap KernelHeap KernelMemory TablePages

/-- What `memory_init` relies on, for the map that it constructs: the linker's layout, at most two
gibibytes of pages, table pages below four gibibytes, and no stale entry in the first three pages. -/
structure Ready (layout : KernelLayout) (mmapDyn : Mmap) (frames : Frames) : Prop where
  placed : Placement layout
  stackBlock : layout.kstackStartPhys % HUGE_SIZE = 0
  stackInside : layout.kstackStartPhys < DYNMEM_START_PHYS_MINIMUM
  cleared : ClearedTables layout frames
  three : 3 ≤ pageCount mmapDyn
  most : pageCount mmapDyn ≤ 2 ^ 19
  small : ∀ i < mmapDyn.len, (mmapDyn.entries i).base + (mmapDyn.entries i).length ≤ 2 ^ 52
  low : ∀ m, 3 ≤ m → m < tableCount (pageCount mmapDyn + 511) → pagePhys mmapDyn m < 2 ^ 32
  clean : ∀ j < 3, ∀ k, isPresent (frames (pagePhys mmapDyn j) k) = false

variable {layout : KernelLayout} {mmapDyn : Mmap} {frames : Frames} {virt : ℕ}

private theorem paged (ready : Ready layout mmapDyn frames) (dynMap : DynMap mmapDyn) : PagedMap mmapDyn where
  toAscendingMap := dynMap.ascendingMap
  aligned i inside := (dynMap.base i inside).2
  whole i inside := (dynMap.length i inside).2
  small := ready.small

/-- The kernel behind `pagetable_construct_kernel`. -/
def fresh (ready : Ready layout mmapDyn frames) (dynMap : DynMap mmapDyn) : FreshKernel where
  layout := layout
  mmapDyn := mmapDyn
  boot := pagetableConstructKernel layout frames
  map := paged ready dynMap
  three := ready.three
  limit := by
    have most := ready.most
    omega
  rootPage := ready.placed.rootPage
  stackAligned := ready.placed.stackAligned
  stackLow := ready.placed.stackLow
  stackApart := ready.placed.stackApart.1
  vacant index small := by rw [constructKernel_root ready.placed ready.cleared, if_neg (by omega)]

section Fresh

variable (ready : Ready layout mmapDyn frames) (dynMap : DynMap mmapDyn)
include ready dynMap

/-- The static tables are no pages of dynamic memory. -/
private theorem image_apart {table i : ℕ} (page : ImagePage table) (inside : i < pageCount mmapDyn) :
    pagePhys mmapDyn i ≠ virtToPhysKernel table := by
  have low := page.bounds.2
  have high := ((paged ready dynMap).pagePhys_bounds inside).2.1
  omega

private theorem fresh_boot : (fresh ready dynMap).boot = pagetableConstructKernel layout frames := rfl

private theorem fresh_phys (i : ℕ) : (fresh ready dynMap).phys i = pagePhys mmapDyn i := rfl

private theorem fresh_clean : (fresh ready dynMap).Clean := by
  intro j small k
  have inside : j < pageCount mmapDyn := small.trans_le ready.three
  have root := image_apart ready dynMap ready.placed.rootPage inside
  have pdpt := image_apart ready dynMap ready.placed.pdptPage inside
  have pdt := image_apart ready dynMap ready.placed.pdtPage inside
  have kept : pagetableConstructKernel layout frames (pagePhys mmapDyn j) k = frames (pagePhys mmapDyn j) k := by
    rw [pagetableConstructKernel]
    simp only [Frames.write_apply, show pagePhys mmapDyn j ≠ layout.root from root, pdpt, pdt, false_and, if_false]
  rw [fresh_boot, fresh_phys, kept]
  exact ready.clean j small k

variable {after : Frames}

/-- The construction leaves the static tables alone, but for the lower half of the root. -/
private theorem image_after (full : (fresh ready dynMap).Full (pageCount mmapDyn + 511) after) :
    ImageTables layout after := by
  have placed := ready.placed
  have most := ready.most
  have apart {table : ℕ} (page : ImagePage table) (root : virtToPhysKernel table ≠ layout.root)
      (stack : layout.tmpPhys ≠ virtToPhysKernel table) :
      after (virtToPhysKernel table) = pagetableConstructKernel layout frames (virtToPhysKernel table) := by
    have free : ¬ (fresh ready dynMap).Written (virtToPhysKernel table) := by
      rintro (same | same | ⟨i, inside, same⟩)
      · exact root same
      · exact stack same.symm
      · exact image_apart ready dynMap page inside same
    rw [full.rest _ free, fresh_boot]
  obtain ⟨pdpt, pdt, _⟩ := placed.frames_apart
  refine (constructKernel_image placed ready.cleared).congr (fun i lower upper => ?_)
    (apart placed.pdptPage pdpt placed.stackApart.2.1) (apart placed.pdtPage pdt placed.stackApart.2.2)
  have built := full.built 3 le_rfl i (Nat.zero_le i) (by rw [Nat.div_eq_of_lt upper]; exact Nat.zero_le _)
  have digit : i % 512 = i := Nat.mod_eq_of_lt upper
  rw [frameAt_root, digit, FreshKernel.cell, if_neg (by omega), FreshKernel.blank,
    if_pos (by rw [Nat.div_eq_of_lt upper]; rfl), frameAt_root, digit] at built
  rwa [fresh_boot] at built

/-- The tables take the first pages of the window, and the rest is for the allocator. -/
def tablePages (mmapDyn : Mmap) : ℕ := tableCount (pageCount mmapDyn + 511)

private theorem tablePages_le :
    tablePages mmapDyn ≤ pageCount mmapDyn := (tableCount_small (fresh ready dynMap) ready.low).1

private theorem constructed : ∃ result after, pagetableConstruct layout mmapDyn frames = .ok (result, after) ∧
    (fresh ready dynMap).Full (pageCount mmapDyn + 511) after ∧
    dynmemRegion result =
      (DYNMEM_START_VIRT + tablePages mmapDyn * PAGE_SIZE, (pageCount mmapDyn - tablePages mmapDyn) * PAGE_SIZE) := by
  obtain ⟨result, factory, after, ran, steady, total, length⟩ := @pagetableConstructDyn_spec (fresh ready dynMap) ready.low
  obtain ⟨within, small⟩ := tableCount_small (fresh ready dynMap) ready.low
  have most := ready.most
  have count : factory.metapageCount = tablePages mmapDyn := steady.metapages
  change tablePages mmapDyn ≤ pageCount mmapDyn at within
  change tablePages mmapDyn * PAGE_SIZE < 2 ^ 32 at small
  change result.dynTotalLen = pageCount mmapDyn * PAGE_SIZE at total
  rw [count, u32_of_lt small] at length
  have bound : result.dynTotalLen < 2 ^ 64 := by
    simp only [total, PAGE_SIZE]
    omega
  have fits : result.dynPagetableLen ≤ result.dynTotalLen := by
    rw [length, total]
    exact Nat.mul_le_mul_right _ within
  refine ⟨result, after, ran, steady.stage, Prod.ext ?_ ?_⟩
  · rw [dynmemRegion_start (by rw [length]; exact small), length]
  · rw [dynmemRegion, sub64_of_le fits bound, length, total, Nat.sub_mul]

end Fresh

/-! ## The pool -/

section Pool

variable {mmapDyn₀ mmapBoot : Mmap} {memory : Memory} {bitmaps : ℕ → BlockBitmap} {meminfo : Meminfo PageMemory} {pool : BuddyBlocks}

/-- Whatever map has been constructed is one of dynamic memory. -/
private theorem dynMap_of_made (made : constructMmapDyn mmapDyn₀ mmapBoot = .ok mmapDyn) : DynMap mmapDyn := by
  have fits : mmapBoot.len ≤ BOOTINFO_MMAP_MAXLEN := by
    by_contra beyond
    rw [constructMmapDyn, if_pos (Nat.lt_of_not_le beyond)] at made
    cases made
  obtain ⟨found, again, dynMap, _⟩ := constructMmapDyn_dynMap mmapDyn₀ fits
  obtain rfl := Except.ok.inj (again.symm.trans made)
  exact dynMap

/-- A successful start is a map, the tables over it and an accepted pool. -/
private theorem memoryInit_stages (boots : memoryInit layout mmapDyn₀ mmapBoot frames memory bitmaps = .ok (mmapDyn, meminfo)) :
    DynMap mmapDyn ∧ ∃ result after pool, pagetableConstruct layout mmapDyn frames = .ok (result, after) ∧
      buddyInit memory bitmaps (dynmemRegion result).1 (dynmemRegion result).2 = .ok pool ∧
      meminfo = ⟨mmioFreelistInit, ⟨after, pool⟩⟩ := by
  simp only [memoryInit, Except.bind_ok_iff, Except.pure_ok_iff] at boots
  obtain ⟨map, made, ⟨result, after⟩, built, pool, accepted, same⟩ := boots
  obtain ⟨rfl, rfl⟩ := Prod.mk.inj same
  refine ⟨?_, result, after, pool, built, accepted, rfl⟩
  exact dynMap_of_made made

/-- The pool is the window behind the table pages. -/
private theorem pool_placed (ready : Ready layout mmapDyn frames) (dynMap : DynMap mmapDyn)
    (accepted : buddyInit memory bitmaps (DYNMEM_START_VIRT + tablePages mmapDyn * PAGE_SIZE)
      ((pageCount mmapDyn - tablePages mmapDyn) * PAGE_SIZE) = .ok pool) :
    Layout pool ∧ Dynmem.Holds pool pool ∅ ∧ DYNMEM_START_VIRT + tablePages mmapDyn * PAGE_SIZE ≤ pool.dataAddr ∧
      pool.dataAddr + pool.units * PAGE_SIZE = DYNMEM_START_VIRT + pageCount mmapDyn * PAGE_SIZE := by
  have within := tablePages_le ready dynMap
  have most := ready.most
  have aligned : (DYNMEM_START_VIRT + tablePages mmapDyn * PAGE_SIZE) % BUDDY_UNIT = 0 := by
    simp only [DYNMEM_START_VIRT, PAGE_SIZE, BUDDY_UNIT]
    omega
  have whole : (pageCount mmapDyn - tablePages mmapDyn) * PAGE_SIZE % BUDDY_UNIT = 0 := Nat.mul_mod_left _ _
  have small : (pageCount mmapDyn - tablePages mmapDyn) * PAGE_SIZE ≤ 2 ^ 31 := by
    simp only [PAGE_SIZE]
    omega
  have bounded : DYNMEM_START_VIRT + tablePages mmapDyn * PAGE_SIZE +
      (pageCount mmapDyn - tablePages mmapDyn) * PAGE_SIZE < 2 ^ 64 := by
    simp only [DYNMEM_START_VIRT, PAGE_SIZE]
    omega
  obtain ⟨placed, _, _, start, total⟩ := buddyInit_ok accepted aligned whole small bounded
  obtain ⟨units, none, _, owned⟩ := poolOwned_init accepted aligned whole small bounded
  obtain rfl : units = ∅ := Set.image_eq_empty.mp none.symm
  rw [Set.union_empty] at owned
  have area := placed.total
  refine ⟨placed, owned, ?_, ?_⟩
  · rw [BuddyBlocks.dataAddr, start]
    exact Nat.le_add_right _ _
  · rw [BuddyBlocks.dataAddr, start]
    simp only [BUDDY_UNIT, PAGE_SIZE] at *
    omega

end Pool

/-! ## The tables -/

section Tables

variable {after : Frames} {pool : BuddyBlocks}

/-- A unit of the pool is a page of the window behind the table pages. -/
private theorem unit_page {u : ℕ} (lower : DYNMEM_START_VIRT + tablePages mmapDyn * PAGE_SIZE ≤ pool.dataAddr)
    (upper : pool.dataAddr + pool.units * PAGE_SIZE = DYNMEM_START_VIRT + pageCount mmapDyn * PAGE_SIZE)
    (aligned : pool.dataAddr % PAGE_SIZE = 0) (inside : u < pool.units) :
    ∃ m, tablePages mmapDyn ≤ m ∧ m < pageCount mmapDyn ∧ unitPage pool u = pageVirt m := by
  have last : (u + 1) * PAGE_SIZE ≤ pool.units * PAGE_SIZE := Nat.mul_le_mul_right _ inside
  have start : unitPage pool u % PAGE_SIZE = 0 := by
    rw [unitPage, Nat.add_mul_mod_self_right, aligned]
  have front : DYNMEM_START_VIRT + tablePages mmapDyn * PAGE_SIZE ≤ unitPage pool u := lower.trans (Nat.le_add_right _ _)
  have back : unitPage pool u < DYNMEM_START_VIRT + pageCount mmapDyn * PAGE_SIZE := by
    rw [← upper, unitPage]
    simp only [PAGE_SIZE] at *
    omega
  obtain ⟨m, o, first, count, _, address, offset⟩ := page_of_region front back
  obtain rfl : o = 0 := offset.symm.trans start
  exact ⟨m, first, count, address⟩

private theorem window_length (ready : Ready layout mmapDyn frames) (dynMap : DynMap mmapDyn) :
    windowOffset mmapDyn mmapDyn.len = pageCount mmapDyn * PAGE_SIZE := by
  have aligned := (paged ready dynMap).offset_aligned le_rfl
  simp only [pageCount, PAGE_SIZE] at *
  omega

private theorem frameOf_page (ready : Ready layout mmapDyn frames) (dynMap : DynMap mmapDyn) {m : ℕ}
    (inside : m < pageCount mmapDyn) :
    frameOf mmapDyn (pageVirt m) = pagePhys mmapDyn m := by
  have found := (paged ready dynMap).virtToPhys_page inside
  have low := (paged ready dynMap).pageVirt_lt inside
  have positive : 0 < pageVirt m := Nat.lt_of_lt_of_le (by decide) (Nat.le_add_right DYNMEM_START_VIRT _)
  rw [frameOf, tableFrame, if_neg positive.ne', if_neg (Nat.not_le_of_lt low), found]

/-- The memory that `memory_init` leaves. -/
private theorem booted (ready : Ready layout mmapDyn frames) (dynMap : DynMap mmapDyn)
    (full : (fresh ready dynMap).Full (pageCount mmapDyn + 511) after) (placed : Layout pool)
    (unused : Dynmem.Holds pool pool ∅) (lower : DYNMEM_START_VIRT + tablePages mmapDyn * PAGE_SIZE ≤ pool.dataAddr)
    (upper : pool.dataAddr + pool.units * PAGE_SIZE = DYNMEM_START_VIRT + pageCount mmapDyn * PAGE_SIZE) :
    ∃ kernel : Booted, kernel.mmapDyn = mmapDyn ∧ kernel.gPagetable = layout.gPagetable ∧ kernel.pdpt = layout.pdpt ∧
      kernel.meminfo = ⟨mmioFreelistInit, ⟨after, pool⟩⟩ := by
  have three := ready.three
  have most := ready.most
  have image := image_after ready dynMap full
  have statics := ready.placed
  have window := window_length ready dynMap
  have reached := WindowTables.reached_all (fresh ready dynMap)
  have aligned : pool.dataAddr % PAGE_SIZE = 0 := placed.aligned
  have page {u : ℕ} (inside : u < pool.units) := unit_page lower upper aligned inside
  have bounds {m : ℕ} (inside : m < pageCount mmapDyn) := (paged ready dynMap).pagePhys_bounds inside
  refine ⟨{
    mmapDyn := mmapDyn
    gPagetable := layout.gPagetable
    pdpt := layout.pdpt
    boot := after
    pool := pool
    layout := placed
    fresh := unused
    map := { dynMap with
      nonempty := fun none => ?nonempty
      small := ready.small }
    lower := (Nat.le_add_right _ _).trans lower
    upper := by rw [upper, window]
    half := ?half
    rootPage := statics.rootPage
    pdptPage := statics.pdptPage
    distinct := statics.pdptApart.symm
    link := image.top
    vacant := fun i small => image.secondVacant i (by omega)
    elsewhere := ?elsewhere
    translated := ?translated }, rfl, rfl, rfl, rfl⟩
  case nonempty =>
    rw [pageCount, none] at three
    simp [windowOffset, PAGE_SIZE] at three
  case half =>
    rw [window]
    simp only [DYNMEM_START_VIRT, PAGE_SIZE]
    omega
  case elsewhere =>
    intro virt canonical outside cell member
    obtain ⟨rootLow, pdptLow, pdtLow⟩ := And.intro statics.rootPage.bounds.2 (And.intro statics.pdptPage.bounds.2 statics.pdtPage.bounds.2)
    have high {u : ℕ} (inside : u < pool.units) : DYNMEM_START_PHYS_MINIMUM ≤ frameOf mmapDyn (unitPage pool u) := by
      obtain ⟨m, _, count, same⟩ := page inside
      rw [same, frameOf_page ready dynMap count]
      exact (bounds count).2.1
    obtain ⟨pdptRoot, pdtRoot, pdtPdpt⟩ := statics.frames_apart
    rcases canonical with half | ⟨half, word⟩
    · rcases full.walkCells_window reached (fresh_clean ready dynMap) half cell member with root | ⟨m, table, frame⟩
      · refine ⟨fun same => absurd (same.symm.trans root) pdptRoot, fun u inside same => ?_⟩
        have above := high inside
        have low : frameOf mmapDyn (unitPage pool u) < DYNMEM_START_PHYS_MINIMUM := by rw [same, root]; exact rootLow
        omega
      · have used : m < tablePages mmapDyn := table
        have within := tablePages_le ready dynMap
        have frame' : cell.1 = pagePhys mmapDyn m := frame
        refine ⟨fun same => ?_, fun u inside same => ?_⟩
        · have above := (bounds (used.trans_le within)).2.1
          rw [← frame', same] at above
          omega
        · obtain ⟨n, behind, count, address⟩ := page inside
          rw [address, frameOf_page ready dynMap count, frame'] at same
          have equal := (paged ready dynMap).pagePhys_injective count (used.trans_le within) same
          omega
    · have stack : layout.kstackStartPhys < 2 ^ 52 := by
        have low := ready.stackInside
        simp only [DYNMEM_START_PHYS_MINIMUM] at low
        omega
      obtain ⟨_, cells⟩ := image.upper statics ready.stackBlock stack half word outside
      have apart {frame : ℕ} (low : frame < DYNMEM_START_PHYS_MINIMUM) (same : cell.1 = frame) :
          ∀ u < pool.units, frameOf mmapDyn (unitPage pool u) ≠ cell.1 := by
        intro u inside equal
        have above := high inside
        omega
      rcases cells cell member with root | ⟨pdpt, index⟩ | pdt
      · exact ⟨fun same => absurd (same.symm.trans root) pdptRoot, apart rootLow root⟩
      · exact ⟨fun _ => index, apart pdptLow pdpt⟩
      · exact ⟨fun same => absurd (pdt.symm.trans same) pdtPdpt, apart pdtLow pdt⟩
  case translated =>
    intro u inside i small
    obtain ⟨m, _, count, same⟩ := page inside
    rw [same, frameOf_page ready dynMap count]
    exact full.linked.translateVirt_byte reached (show m + 512 ≤ pageCount mmapDyn + 511 by omega) small

/-- Every address has one meaning: a byte of the window over dynamic memory, of the image, of the stack, or none. -/
def addressOf (layout : KernelLayout) (mmapDyn : Mmap) (virt : ℕ) : Option ℕ :=
  if DYNMEM_START_VIRT ≤ virt ∧ virt < DYNMEM_START_VIRT + windowOffset mmapDyn mmapDyn.len then
    (virtToPhysDynmem virt mmapDyn).toOption
  else imageAddress layout virt

/-- The tables show the window, the image and the stack, each byte once, and nothing else. -/
private theorem full_translates (ready : Ready layout mmapDyn frames) (dynMap : DynMap mmapDyn)
    (full : (fresh ready dynMap).Full (pageCount mmapDyn + 511) after) (canonical : Canonical virt) (outside : ¬ InIomap virt) :
    translateVirt after layout.root virt = addressOf layout mmapDyn virt := by
  have most := ready.most
  have three := ready.three
  have length := window_length ready dynMap
  have reached := WindowTables.reached_all (fresh ready dynMap)
  rw [addressOf, length]
  rcases canonical with half | ⟨half, word⟩
  · have noImage : imageAddress layout virt = none := by
      rw [imageAddress, if_neg, if_neg]
      · simp only [InStack, KSTACK_START_VIRT]
        omega
      · simp only [InImage, KERNEL_START_VIRT]
        omega
    split_ifs with window
    · have lower : DYNMEM_START_VIRT + 0 * PAGE_SIZE ≤ virt := by omega
      obtain ⟨m, o, _, count, small, address, _⟩ := page_of_region lower window.2
      rw [address, (paged ready dynMap).virtToPhys_byte count small]
      exact full.linked.translateVirt_byte reached (show m + 512 ≤ pageCount mmapDyn + 511 by omega) small
    · rw [noImage, translateVirt]
      rcases Nat.lt_or_ge virt DYNMEM_START_VIRT with below | behind
      · rw [show walk after layout.root virt = none from full.walk_below reached (fresh_clean ready dynMap) below]
        rfl
      · have above : pageCount mmapDyn + 511 < virt / PAGE_SIZE := by
          simp only [DYNMEM_START_VIRT, PAGE_SIZE] at *
          omega
        have top : virt / PAGE_SIZE / 512 ^ (3 + 1) = 0 := by
          simp only [PAGE_SIZE]
          omega
        have absent := full.walkFrom_unmapped 3 reached virt above
          (fun level root _ => (fresh_clean ready dynMap).blank root fun same => by
            rw [same]
            simp only [PAGE_SIZE]
            omega) le_rfl (by rw [top]; exact Nat.zero_le _)
        rw [top, frameAt_root] at absent
        rw [walk, show walkFrom after virt 3 layout.root = none from absent]
        rfl
  · have stack : layout.kstackStartPhys < 2 ^ 52 := by
      have low := ready.stackInside
      simp only [DYNMEM_START_PHYS_MINIMUM] at low
      omega
    have image := image_after ready dynMap full
    rw [if_neg, (image.upper ready.placed ready.stackBlock stack half word outside).1]
    simp only [DYNMEM_START_VIRT, PAGE_SIZE]
    omega

end Tables

/-! ## A small machine -/

/-- Thirty-two pages of memory. -/
def smallBootMap : Mmap := ⟨1, fun _ => ⟨0x00800000, 0x20000, MMAP_ENTRY_AVAILABLE⟩⟩

def noMap : Mmap := ⟨0, fun _ => ⟨0, 0, 0⟩⟩

section Small

variable {mmapDyn : Mmap} (single : mmapDyn.len = 1) (entry : mmapDyn.entries 0 = ⟨0x00800000, 0x20000, MMAP_ENTRY_AVAILABLE⟩)
include single entry

private theorem small_window : windowOffset mmapDyn mmapDyn.len = 0x20000 := by
  rw [single, windowOffset, Finset.sum_range_one, entry]

private theorem small_pages : pageCount mmapDyn = 32 := by
  rw [pageCount, small_window single entry]
  rfl

private theorem small_ready : Ready WindowTables.sampleLayout mmapDyn fun _ _ => 0 where
  placed := by
    refine ⟨⟨?_, ?_, ?_⟩, ⟨?_, ?_, ?_⟩, ⟨?_, ?_, ?_⟩, ?_, ⟨?_, ?_⟩, ?_, ?_, ?_, ?_, ?_⟩
    all_goals decide
  stackBlock := by decide
  stackInside := by decide
  cleared := ⟨fun _ => rfl, fun _ => rfl, fun _ => rfl⟩
  three := by
    rw [small_pages single entry]
    decide
  most := by
    rw [small_pages single entry]
    decide
  small i inside := by
    obtain rfl : i = 0 := by omega
    rw [entry]
    decide
  low m bootstrapped inside := by
    have three : tableCount (32 + 511) = 3 := by decide
    rw [small_pages single entry, three] at inside
    omega
  clean _ _ _ := rfl

end Small

/-- The machine starts, sets up a slab, and hands out two slices. -/
private theorem small_run : ∃ mmapDyn meminfo slab s t entry,
    (mmapDyn.len = 1 ∧ mmapDyn.entries 0 = ⟨0x00800000, 0x20000, MMAP_ENTRY_AVAILABLE⟩) ∧
      memoryInit WindowTables.sampleLayout noMap smallBootMap (fun _ _ => 0) (fun _ => 0) (fun _ => ⟨0, 0⟩) =
        .ok (mmapDyn, meminfo) ∧
      Accepted (fun _ : Unit => slab) ∧
      Run (Steps WindowTables.sampleLayout.gPagetable mmapDyn fun _ : Unit => slab) (initial meminfo fun _ => slab) [.alloc 1] s ∧
      s.Holds (.slice entry) ∧
      Run (Steps WindowTables.sampleLayout.gPagetable mmapDyn fun _ : Unit => slab) s [.alloc 1] t := by
  have computed : (do
      let started ← memoryInit WindowTables.sampleLayout noMap smallBootMap (fun _ _ => 0) (fun _ => 0) (fun _ => ⟨0, 0⟩)
      let _ ← slabInit SlabRuns.unset 64 (2 ^ 3)
      let answer ← Dynmem.dynmemAlloc started.2.tables.buddy 1
      let _ ← Dynmem.dynmemAlloc answer.2 1
      return decide (started.1.len = 1 ∧ started.1.entries 0 = ⟨0x00800000, 0x20000, MMAP_ENTRY_AVAILABLE⟩ ∧ answer.1.ptr ≠ 0) :
        Result Bool) = .ok true := by
    decide +kernel
  simp only [Except.bind_ok_iff] at computed
  obtain ⟨⟨mmapDyn, meminfo⟩, boots, slab, accepted, ⟨slice, buddy⟩, first, ⟨other, after⟩, second, checked⟩ := computed
  obtain ⟨single, entry, nonnull⟩ := of_decide_eq_true (Except.ok.inj checked)
  have ran := exec_alloc WindowTables.sampleLayout.gPagetable mmapDyn (s := initial meminfo fun _ : Unit => slab) first
  rw [if_neg nonnull] at ran
  have again := exec_alloc WindowTables.sampleLayout.gPagetable mmapDyn
    (s := { (initial meminfo fun _ : Unit => slab).withBuddy buddy with slices := [⟨slice, 1⟩] }) second
  exact ⟨mmapDyn, meminfo, slab, _, _, ⟨slice, 1⟩, ⟨single, entry⟩, boots, fun _ => ⟨_, _, _, accepted⟩,
    Run.single ⟨⟨by decide, by decide⟩, ran⟩, List.mem_singleton_self _, Run.single ⟨⟨by decide, by decide⟩, again⟩⟩

/-! ## From boot on -/

section Boot

variable {mmapDyn₀ mmapBoot : Mmap} {memory : Memory} {bitmaps : ℕ → BlockBitmap} {meminfo : Meminfo PageMemory}

private theorem memoryInit_booted (ready : Ready layout mmapDyn frames)
    (boots : memoryInit layout mmapDyn₀ mmapBoot frames memory bitmaps = .ok (mmapDyn, meminfo)) :
    ∃ kernel : Booted, kernel.mmapDyn = mmapDyn ∧ kernel.gPagetable = layout.gPagetable ∧ kernel.meminfo = meminfo ∧
      ∀ virt, Canonical virt → ¬ InIomap virt → translateVirt kernel.boot layout.root virt = addressOf layout mmapDyn virt := by
  obtain ⟨dynMap, result, after, pool, built, accepted, rfl⟩ := memoryInit_stages boots
  obtain ⟨result', after', again, full, region⟩ := constructed ready dynMap
  obtain ⟨rfl, rfl⟩ := Prod.mk.inj (Except.ok.inj (again.symm.trans built))
  rw [region] at accepted
  obtain ⟨placed, unused, lower, upper⟩ := pool_placed ready dynMap accepted
  obtain ⟨kernel, map, root, _, left⟩ := booted ready dynMap full placed unused lower upper
  have boot : kernel.boot = after' := congrArg (fun meminfo => meminfo.tables.frames) left
  refine ⟨kernel, map, root, left, fun virt canonical outside => ?_⟩
  rw [boot]
  exact full_translates ready dynMap full canonical outside

/-- `memory_init` returns for every boot map that leaves three pages behind the tables, except for the sizes
of a pool whose metadata fills its pages, where an assertion fails. -/
theorem memory_init_returns_iff (mmapDyn₀ : Mmap) (memory : Memory) (bitmaps : ℕ → BlockBitmap)
    (made : constructMmapDyn mmapDyn₀ mmapBoot = .ok mmapDyn) (ready : Ready layout mmapDyn frames)
    (room : tablePages mmapDyn + 3 ≤ pageCount mmapDyn) :
    ((∃ meminfo, memoryInit layout mmapDyn₀ mmapBoot frames memory bitmaps = .ok (mmapDyn, meminfo)) ↔
        ¬ BuddyMetadata.FillsPages (pageCount mmapDyn - tablePages mmapDyn)) ∧
      (BuddyMetadata.FillsPages (pageCount mmapDyn - tablePages mmapDyn) →
        memoryInit layout mmapDyn₀ mmapBoot frames memory bitmaps =
          .error (.panic "assertion failed : buddy->metadata_len < data_offset")) := by
  have dynMap := dynMap_of_made made
  obtain ⟨result, after, built, _, region⟩ := constructed ready dynMap
  have eq : memoryInit layout mmapDyn₀ mmapBoot frames memory bitmaps = (do
      let buddy ← buddyInit memory bitmaps (DYNMEM_START_VIRT + tablePages mmapDyn * PAGE_SIZE)
        ((pageCount mmapDyn - tablePages mmapDyn) * PAGE_SIZE)
      return (mmapDyn, ⟨mmioFreelistInit, ⟨after, buddy⟩⟩)) := by
    rw [memoryInit, made, Except.ok_bind, built, Except.ok_bind]
    dsimp only
    rw [region]
  have most := ready.most
  have stops (full : BuddyMetadata.FillsPages (pageCount mmapDyn - tablePages mmapDyn)) :
      memoryInit layout mmapDyn₀ mmapBoot frames memory bitmaps =
        .error (.panic "assertion failed : buddy->metadata_len < data_offset") := by
    rw [eq, show PAGE_SIZE = BUDDY_UNIT from rfl, BuddyMetadata.rejected_of_fillsPages full]
    rfl
  refine ⟨⟨?_, fun other => ?_⟩, stops⟩
  · rintro ⟨meminfo, ran⟩ full
    rw [stops full] at ran
    cases ran
  · obtain ⟨pool, accepted, _⟩ := BuddyMetadata.accepted_of_not_fillsPages memory bitmaps
      (DYNMEM_START_VIRT + tablePages mmapDyn * PAGE_SIZE) (by omega) (by omega) other
    rw [show BUDDY_UNIT = PAGE_SIZE from rfl] at accepted
    rw [eq, accepted]
    exact ⟨_, rfl⟩

/-- Thirty-two pages are enough. -/
theorem memory_init_returns_small : ∃ mmapDyn, ((∃ meminfo,
    memoryInit WindowTables.sampleLayout noMap smallBootMap (fun _ _ => 0) (fun _ => 0) (fun _ => ⟨0, 0⟩) = .ok (mmapDyn, meminfo)) ↔
      ¬ BuddyMetadata.FillsPages 29) ∧
    (BuddyMetadata.FillsPages 29 →
      memoryInit WindowTables.sampleLayout noMap smallBootMap (fun _ _ => 0) (fun _ => 0) (fun _ => ⟨0, 0⟩) =
        .error (.panic "assertion failed : buddy->metadata_len < data_offset")) := by
  obtain ⟨mmapDyn, _, _, _, _, _, ⟨single, entry⟩, boots, _⟩ := small_run
  simp only [memoryInit, Except.bind_ok_iff, Except.pure_ok_iff] at boots
  obtain ⟨map, made, _, _, _, _, same⟩ := boots
  obtain rfl := (Prod.mk.inj same).1
  have tables : tablePages map = 3 := by
    rw [tablePages, small_pages single entry]
    decide
  have returns := memory_init_returns_iff noMap (fun _ => 0) (fun _ => ⟨0, 0⟩) made (small_ready single entry)
    (by rw [tables, small_pages single entry]; decide)
  rw [tables, small_pages single entry] at returns
  exact ⟨map, returns⟩

variable {κ : Type} [DecidableEq κ] {slabs : κ → SlabAllocator} {t u : State κ} {es fs : List (Event κ)}

/-- In every state that the clients reach, a call of any of them returns; only a device mapping may find no room, no
node or no page for a table. -/
theorem calls_return (ready : Ready layout mmapDyn frames)
    (boots : memoryInit layout mmapDyn₀ mmapBoot frames memory bitmaps = .ok (mmapDyn, meminfo))
    (accepted : Accepted slabs) (run : Run (Steps layout.gPagetable mmapDyn slabs) (initial meminfo slabs) es t)
    (e : Event κ) (enabled : Enabled slabs t e) :
    (∃ fault, OutOfRoom e fault ∧ exec layout.gPagetable mmapDyn t e = .error fault) ∨
      ∃ u, exec layout.gPagetable mmapDyn t e = .ok u := by
  obtain ⟨kernel, rfl, root, rfl, _⟩ := memoryInit_booted ready boots
  rw [← root] at run ⊢
  obtain ⟨pages, tables, sound⟩ := run_sound accepted run
  exact (sound.step enabled).imp_right fun ⟨u, _, _, ran, _⟩ => ⟨u, ran⟩

theorem calls_return_small : ∃ mmapDyn meminfo slab s, ∃ u : State Unit,
    memoryInit WindowTables.sampleLayout noMap smallBootMap (fun _ _ => 0) (fun _ => 0) (fun _ => ⟨0, 0⟩) = .ok (mmapDyn, meminfo) ∧
      Run (Steps WindowTables.sampleLayout.gPagetable mmapDyn fun _ => slab) (initial meminfo fun _ => slab) [.alloc 1] s ∧
      exec WindowTables.sampleLayout.gPagetable mmapDyn s (.slabAlloc ()) = .ok u := by
  obtain ⟨mmapDyn, meminfo, slab, s, _, _, ⟨single, entry⟩, boots, accepted, run, _⟩ := small_run
  rcases calls_return (small_ready single entry) boots accepted run (.slabAlloc ()) trivial with ⟨fault, impossible, _⟩ | ⟨u, ran⟩
  · cases impossible
  · exact ⟨mmapDyn, meminfo, slab, s, u, boots, run, ran⟩

/-- In every state that the clients reach, the live slices and objects are apart from each other and from the
bitmaps, each of their bytes is a byte of its own of the memory that the map lists, and no walk of the page tables
goes through it. -/
theorem blocks_exclusive (ready : Ready layout mmapDyn frames)
    (boots : memoryInit layout mmapDyn₀ mmapBoot frames memory bitmaps = .ok (mmapDyn, meminfo))
    (accepted : Accepted slabs) (run : Run (Steps layout.gPagetable mmapDyn slabs) (initial meminfo slabs) es t) :
    (∀ block other, t.Holds block → t.Holds other → block ≠ other → Disjoint (block.bytes slabs) (other.bytes slabs)) ∧
      (∀ block, t.Holds block → ∀ a ∈ block.bytes slabs, a ∉ Metadata meminfo.tables.buddy ∧
        ∃ phys, translateVirt t.meminfo.tables.frames layout.root a = some phys ∧ InEntries mmapDyn phys ∧
          ∀ virt, Canonical virt → ∀ cell ∈ walkCells t.meminfo.tables.frames virt 3 layout.root,
            phys / PAGE_SIZE * PAGE_SIZE ≠ cell.1) ∧
      ∀ block other, t.Holds block → t.Holds other → ∀ a ∈ block.bytes slabs, ∀ b ∈ other.bytes slabs,
        translateVirt t.meminfo.tables.frames layout.root a = translateVirt t.meminfo.tables.frames layout.root b → a = b := by
  obtain ⟨kernel, rfl, root, rfl, _⟩ := memoryInit_booted ready boots
  rw [KernelLayout.root, ← root] at *
  obtain ⟨pages, tables, sound⟩ := run_sound accepted run
  refine ⟨fun block other holds holdsOther distinct => sound.blocks_disjoint holds holdsOther distinct,
    fun block holds a inside => ⟨sound.not_metadata holds inside, ?_⟩,
    fun block other holds holdsOther a inside b insideOther same => ?_⟩
  · obtain ⟨u, unit, bytes, free⟩ := sound.block_page holds inside
    obtain ⟨_, _, i, small, rfl⟩ := kernel.unit_address unit bytes
    have aligned := ((kernel.dynPage unit).reaches kernel.map).1.aligned
    rw [sound.translate_unit unit bytes, Nat.add_sub_cancel_left]
    refine ⟨_, rfl, (kernel.dynPage unit).inEntries kernel.map small, fun virt canonical cell member same => ?_⟩
    refine sound.cell_apart unit free canonical cell member ?_
    rw [← same]
    simp only [PAGE_SIZE] at aligned small ⊢
    omega
  · obtain ⟨u, unit, bytes, _⟩ := sound.block_page holds inside
    obtain ⟨v, unitOther, bytesOther, _⟩ := sound.block_page holdsOther insideOther
    obtain ⟨_, _, i, small, rfl⟩ := kernel.unit_address unit bytes
    obtain ⟨_, _, j, smallOther, rfl⟩ := kernel.unit_address unitOther bytesOther
    rw [sound.translate_unit unit bytes, sound.translate_unit unitOther bytesOther, Nat.add_sub_cancel_left,
      Nat.add_sub_cancel_left] at same
    exact kernel.frame_injective unit unitOther small smallOther (Option.some.inj same)

theorem blocks_exclusive_small : ∃ mmapDyn meminfo slab, ∃ s : State Unit, ∃ entry,
    memoryInit WindowTables.sampleLayout noMap smallBootMap (fun _ _ => 0) (fun _ => 0) (fun _ => ⟨0, 0⟩) = .ok (mmapDyn, meminfo) ∧
      s.Holds (.slice entry) ∧ ∀ a ∈ Block.bytes (fun _ : Unit => slab) (.slice entry), ∃ phys,
        translateVirt s.meminfo.tables.frames WindowTables.sampleLayout.root a = some phys ∧ InEntries mmapDyn phys := by
  obtain ⟨mmapDyn, meminfo, slab, s, _, entry, ⟨single, first⟩, boots, accepted, run, holds, _⟩ := small_run
  obtain ⟨_, backed, _⟩ := blocks_exclusive (small_ready single first) boots accepted run
  refine ⟨mmapDyn, meminfo, slab, s, entry, boots, holds, fun a inside => ?_⟩
  obtain ⟨_, phys, shown, listed, _⟩ := backed _ holds a inside
  exact ⟨phys, shown, listed⟩

/-- Whatever the clients do, a live slice or object stays live with the same bytes until it is given back or written to. -/
theorem contents_kept (ready : Ready layout mmapDyn frames)
    (boots : memoryInit layout mmapDyn₀ mmapBoot frames memory bitmaps = .ok (mmapDyn, meminfo))
    (accepted : Accepted slabs) (run : Run (Steps layout.gPagetable mmapDyn slabs) (initial meminfo slabs) es t)
    {block : Block κ} (holds : t.Holds block) (goes : Run (Steps layout.gPagetable mmapDyn slabs) t fs u)
    (spares : ∀ e ∈ fs, ¬ Touches slabs e block) :
    u.Holds block ∧ ∀ a ∈ block.bytes slabs, u.buddy.memory a = t.buddy.memory a := by
  obtain ⟨kernel, rfl, root, rfl, _⟩ := memoryInit_booted ready boots
  rw [← root] at run goes
  obtain ⟨pages, tables, sound⟩ := run_sound accepted run
  obtain ⟨_, held, bytes⟩ := sound.untouched holds goes spares
  exact ⟨held, bytes⟩

theorem contents_kept_small : ∃ mmapDyn meminfo slab, ∃ s t : State Unit, ∃ entry,
    memoryInit WindowTables.sampleLayout noMap smallBootMap (fun _ _ => 0) (fun _ => 0) (fun _ => ⟨0, 0⟩) = .ok (mmapDyn, meminfo) ∧
      Run (Steps WindowTables.sampleLayout.gPagetable mmapDyn fun _ => slab) s [.alloc 1] t ∧ s.Holds (.slice entry) ∧
      t.Holds (.slice entry) ∧ ∀ a ∈ Block.bytes (fun _ : Unit => slab) (.slice entry), t.buddy.memory a = s.buddy.memory a := by
  obtain ⟨mmapDyn, meminfo, slab, s, t, entry, ⟨single, first⟩, boots, accepted, run, holds, goes⟩ := small_run
  have kept := contents_kept (small_ready single first) boots accepted run holds goes fun e member touches => by
    obtain rfl := List.mem_singleton.mp member
    cases touches
  exact ⟨mmapDyn, meminfo, slab, s, t, entry, boots, goes, holds, kept⟩

/-- In every state that the clients reach, the address space is the window over dynamic memory, the image, the stack
and the live device mappings, and nothing else. -/
theorem address_space (ready : Ready layout mmapDyn frames)
    (boots : memoryInit layout mmapDyn₀ mmapBoot frames memory bitmaps = .ok (mmapDyn, meminfo))
    (accepted : Accepted slabs) (run : Run (Steps layout.gPagetable mmapDyn slabs) (initial meminfo slabs) es t)
    (virt : ℕ) (canonical : Canonical virt) :
    (¬ InIomap virt → translateVirt t.meminfo.tables.frames layout.root virt = addressOf layout mmapDyn virt) ∧
      (InIomap virt → ((walk t.meminfo.tables.frames layout.root virt).isSome ↔
        ∃ range ∈ t.ranges, range.1 ≤ virt ∧ virt < range.2)) := by
  obtain ⟨kernel, rfl, root, rfl, shown⟩ := memoryInit_booted ready boots
  rw [KernelLayout.root, ← root] at *
  obtain ⟨pages, tables, sound⟩ := run_sound accepted run
  have shape := sound.mappings.tables.shape
  constructor
  · intro outside
    have early := shown virt canonical outside
    rw [translateVirt] at early ⊢
    rw [show walk t.meminfo.tables.frames (virtToPhysKernel kernel.gPagetable) virt = _ from
      shape.walk_elsewhere canonical outside]
    exact early
  · intro inside
    obtain ⟨page, offset, window, small, rfl⟩ := PageTables.exists_page inside
    rw [show walk t.meminfo.tables.frames (virtToPhysKernel kernel.gPagetable) _ = _ from shape.walk_eq_view window small,
      Option.isSome_iff_ne_none, sound.mappings.tables.view page window]
    constructor
    · rintro ⟨range, member, holds⟩
      obtain ⟨pair, live, rfl⟩ := List.mem_map.mp member
      exact ⟨pair, live, ((sound.mappings.tables.placed _ member).contains_iff small).mpr holds⟩
    · rintro ⟨pair, live, contains⟩
      have member := List.mem_map_of_mem (f := KernelMappings.asRange) live
      exact ⟨_, member, ((sound.mappings.tables.placed _ member).contains_iff small).mp contains⟩

/-- The first byte of the image keeps its place. -/
theorem address_space_small : ∃ mmapDyn meminfo slab, ∃ s : State Unit,
    memoryInit WindowTables.sampleLayout noMap smallBootMap (fun _ _ => 0) (fun _ => 0) (fun _ => ⟨0, 0⟩) = .ok (mmapDyn, meminfo) ∧
      Run (Steps WindowTables.sampleLayout.gPagetable mmapDyn fun _ => slab) (initial meminfo fun _ => slab) [.alloc 1] s ∧
      translateVirt s.meminfo.tables.frames WindowTables.sampleLayout.root KERNEL_START_VIRT = some KERNEL_START_PHYS := by
  obtain ⟨mmapDyn, meminfo, slab, s, _, _, ⟨single, entry⟩, boots, accepted, run, _⟩ := small_run
  have canonical : Canonical KERNEL_START_VIRT := .inr (by decide)
  have shown := (address_space (small_ready single entry) boots accepted run KERNEL_START_VIRT canonical).1
    (by unfold InIomap; decide)
  rw [addressOf, small_window single entry] at shown
  exact ⟨mmapDyn, meminfo, slab, s, boots, run, shown⟩

end Boot

end RubberOS.Soundness.BootMemory
