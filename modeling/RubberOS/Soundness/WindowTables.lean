import RubberOS.Proofs.PageBootstrap

/-! # The window over dynamic memory

After the construction the processor finds every page of the map at its place in the window, and
nothing behind the last one. Two conditions are needed, and the code checks neither. The pages that
hold tables lie below four gibibytes, since the address of a new table passes through a `uint32_t`. And
the pages of the three bootstrap tables, which are not cleared, show no stale entry behind the last
page.
-/

namespace RubberOS.Soundness.WindowTables

open Model Model.MemoryMap Model.PageTable Model.PageConstruct Model.PageConstruct.FreshKernel

/-- The page with number `i` of the map's entries, one after the other. -/
def IsPage (mmapDyn : Mmap) (i phys : ℕ) : Prop :=
  ∃ j, PageOf mmapDyn i j ∧ phys = (mmapDyn.entries j).base + (PAGE_SIZE * i - windowOffset mmapDyn j)

/-- In the lower half, the processor finds exactly the pages of the map, each where `virt_to_phys_dynmem`
says. -/
def ShowsMap (kernel : FreshKernel) (frames : Frames) : Prop :=
  ∀ i, pageVirt i < 2 ^ 47 →
    ((walk frames kernel.layout.root (pageVirt i)).isSome ↔ i < pageCount kernel.mmapDyn) ∧
    (i < pageCount kernel.mmapDyn → ∃ phys, IsPage kernel.mmapDyn i phys ∧
      virtToPhysDynmem (pageVirt i) kernel.mmapDyn = .ok phys ∧
      translateVirt frames kernel.layout.root (pageVirt i) = some phys)

/-- The slots of the three bootstrap tables that the construction leaves alone hold no present entry. -/
structure StaleFree (kernel : FreshKernel) : Prop where
  pt0 : ∀ k < 512, pageCount kernel.mmapDyn ≤ k → isPresent (kernel.boot (kernel.phys 2) k) = false
  pdt0 : ∀ k < 512, pageCount kernel.mmapDyn + 512 ≤ k * 512 → isPresent (kernel.boot (kernel.phys 1) k) = false
  pdpt0 : ∀ k < 512, pageCount kernel.mmapDyn + 512 ≤ k * 512 ^ 2 → isPresent (kernel.boot (kernel.phys 0) k) = false

/-- The pages that hold tables lie below four gibibytes. -/
def TablePagesLow (kernel : FreshKernel) : Prop := kernel.TablesLow (pageCount kernel.mmapDyn + 511)

variable {kernel : FreshKernel} {factory : DynpageFactory} {frames : Frames} {i level : ℕ}

theorem pageVirt_div (i : ℕ) : pageVirt i / PAGE_SIZE = 512 + i := by
  simp only [pageVirt, DYNMEM_START_VIRT, PAGE_SIZE]
  omega

theorem reached_all (kernel : FreshKernel) : kernel.Reached (pageCount kernel.mmapDyn + 511) := by
  have three := kernel.three
  exact ⟨by omega, by omega⟩

/-- Behind the last page, the entries on the way of a walk are empty. -/
private theorem StaleFree.blank (clean : StaleFree kernel) (small : i + 512 < 2 ^ 35) (root : level ≤ 3)
    (empty : (pageCount kernel.mmapDyn + 511) / 512 ^ level < (512 + i) / 512 ^ level) :
    isPresent (kernel.blank level ((512 + i) / 512 ^ level)) = false := by
  have three := kernel.three
  rw [FreshKernel.blank]
  split_ifs with first
  · rw [first]
    interval_cases level
    · exact clean.pt0 _ (Nat.mod_lt _ (by decide)) (by simp only [firstEntry] at first; omega)
    · exact clean.pdt0 _ (Nat.mod_lt _ (by decide)) (by simp only [firstEntry] at first; omega)
    · exact clean.pdpt0 _ (Nat.mod_lt _ (by decide)) (by simp only [firstEntry] at first; omega)
    · rw [frameAt_root, kernel.vacant _ (by omega)]
      rfl
  · rfl

/-- The construction succeeds and shows the map, for every memory that is clean and keeps the tables low. -/
theorem construct_shows_map (kernel : FreshKernel) (low : TablePagesLow kernel) (clean : StaleFree kernel) :
    ∃ result frames, pagetableConstructDyn kernel.layout kernel.mmapDyn kernel.boot = .ok (result, frames) ∧
      ShowsMap kernel frames := by
  obtain ⟨result, factory, frames, ran, steady, _⟩ := pagetableConstructDyn_spec low
  have reached := reached_all kernel
  have limit := kernel.limit
  refine ⟨result, frames, ran, fun i lowerHalf => ?_⟩
  have small : i + 512 < 2 ^ 35 := by
    simp only [pageVirt, DYNMEM_START_VIRT, PAGE_SIZE] at lowerHalf
    omega
  have number := pageVirt_div i
  have top : (512 + i) / 512 ^ (3 + 1) = 0 := by omega
  constructor
  · constructor
    · intro found
      by_contra outside
      have absent := steady.stage.walkFrom_unmapped 3 reached (pageVirt i) (by omega)
        (fun level root => number ▸ clean.blank small root) le_rfl (by rw [number, top]; exact Nat.zero_le _)
      rw [number, top, frameAt_root] at absent
      rw [walk, absent] at found
      exact absurd found (by decide)
    · intro inside
      have present := steady.stage.linked.walkFrom_mapped 3 reached (pageVirt i) (by omega) (by omega) le_rfl
      rw [number, top, frameAt_root] at present
      rw [walk, present]
      rfl
  · intro inside
    obtain ⟨j, page⟩ := kernel.map.exists_pageOf inside
    refine ⟨kernel.phys i, ⟨j, page, page.pagePhys_eq kernel.map⟩, kernel.map.virtToPhys_page inside, ?_⟩
    exact steady.stage.linked.translateVirt reached (by omega)

/-- A stale entry that the construction leaves in the table of the first pages shows a page behind the
last one. -/
theorem stale_page_found (kernel : FreshKernel) (low : TablePagesLow kernel) {k : ℕ}
    (behind : pageCount kernel.mmapDyn ≤ k)
    (small : k < 512) (stale : isPresent (kernel.boot (kernel.phys 2) k) = true) :
    ∃ result frames, pagetableConstructDyn kernel.layout kernel.mmapDyn kernel.boot = .ok (result, frames) ∧
      (walk frames kernel.layout.root (pageVirt k)).isSome := by
  obtain ⟨result, factory, frames, ran, steady, _⟩ := pagetableConstructDyn_spec low
  have reached := reached_all kernel
  have three := kernel.three
  have number := pageVirt_div k
  have top := steady.stage.linked.walkFrom_filled 2 reached (pageVirt k) (by omega) le_rfl (by omega)
  have third := steady.stage.linked.walkFrom_filled 1 reached (pageVirt k) (by omega) (by decide) (by omega)
  have second := steady.stage.linked.walkFrom_filled 0 reached (pageVirt k) (by omega) (by decide) (by omega)
  have entry := steady.stage.tableIndex_entry 0 (pageVirt k) (by omega) (by decide) (by omega)
  have place : (512 + k) / 512 = 1 := by omega
  have index : (512 + k) % 512 = k := by omega
  have own : kernel.frameAt 0 1 = kernel.phys 2 := rfl
  rw [number, pow_zero, Nat.div_one, Nat.div_one, cell, if_neg (by omega), FreshKernel.blank, place,
    if_pos (show 1 = firstEntry (0 + 1) from rfl), index, own] at entry
  rw [number, frameAt_root] at top
  refine ⟨result, frames, ran, ?_⟩
  rw [walk, top, ← number, third, second, walkFrom, number, entry, stale]
  rfl

/-! ## Small kernels -/

/-- The root in the first pages of the image, and `tmptable` in the last page of the stack. -/
def sampleLayout : KernelLayout where
  gPagetable := KERNEL_START_VIRT + 0x1000
  pdpt := KERNEL_START_VIRT + 0x2000
  pdt := KERNEL_START_VIRT + 0x3000
  kstackStartPhys := 0x00600000
  tmptable := KSTACK_START_VIRT + 0x1ff000

/-- A kernel that starts in cleared memory. -/
def clearedKernel (mmapDyn : Mmap) (map : PagedMap mmapDyn) (three : 3 ≤ pageCount mmapDyn)
    (limit : pageCount mmapDyn + 512 ≤ 2 ^ 35) : FreshKernel where
  layout := sampleLayout
  mmapDyn := mmapDyn
  boot := fun _ _ => 0
  map := map
  three := three
  limit := limit
  rootPage := ⟨by decide, by decide, by decide⟩
  stackAligned := by decide
  stackLow := by decide
  stackApart := by decide
  vacant _ _ := rfl

/-- The three pages that the bootstrap needs. -/
def threePages : Mmap := ⟨1, fun _ => ⟨0x00800000, 0x3000, MMAP_ENTRY_AVAILABLE⟩⟩

private theorem threePages_map : PagedMap threePages where
  floor _ _ := show DYNMEM_START_PHYS_MINIMUM ≤ 0x00800000 by decide
  bound _ _ := show 0x00800000 + 0x3000 < 2 ^ 64 by decide
  ascending i j lt inside := by
    simp only [threePages] at inside
    omega
  aligned _ _ := show 0x00800000 % PAGE_SIZE = 0 by decide
  whole _ _ := show 0x3000 % PAGE_SIZE = 0 by decide
  small _ _ := show 0x00800000 + 0x3000 ≤ 2 ^ 52 by decide

theorem threePages_count : pageCount threePages = 3 := by decide

def threeKernel : FreshKernel :=
  clearedKernel threePages threePages_map threePages_count.ge (by rw [threePages_count]; decide)

theorem threeKernel_low : TablePagesLow threeKernel := by
  intro m bootstrapped inside
  have count : tableCount (pageCount threePages + 511) = 3 := by decide
  change m < tableCount (pageCount threePages + 511) at inside
  omega

theorem construct_shows_map_three : ∃ result frames,
    pagetableConstructDyn sampleLayout threePages (fun _ _ => 0) = .ok (result, frames) ∧
      (∃ phys, virtToPhysDynmem (pageVirt 2) threePages = .ok phys ∧
        translateVirt frames sampleLayout.root (pageVirt 2) = some phys) ∧
      walk frames sampleLayout.root (pageVirt 3) = none := by
  obtain ⟨result, frames, ran, shows⟩ := construct_shows_map threeKernel threeKernel_low
    ⟨fun _ _ _ => isPresent_zero, fun _ _ _ => isPresent_zero, fun _ _ _ => isPresent_zero⟩
  have count : pageCount threeKernel.mmapDyn = 3 := threePages_count
  refine ⟨result, frames, ran, ?_, ?_⟩
  · obtain ⟨phys, _, shown⟩ := (shows 2 (by decide)).2 (by omega)
    exact ⟨phys, shown⟩
  · have outside := (shows 3 (by decide)).1
    rw [count] at outside
    exact Option.not_isSome_iff_eq_none.mp fun found => absurd (outside.mp found) (by decide)

/-! ## The truncated address -/

/-- The entry for a new table of the last level goes behind the filled ones of its level, and the page itself into the
new table. -/
private theorem opened_entries {last c : ℕ} (count : last + 1 = 512 ^ 1 * c) (inner : ¬ 512 ^ 2 ∣ last + 1)
    (tracks : kernel.Tracks factory (fun level => last / 512 ^ level) (topsBelow last 1)) :
    (factory.nextIndices 2 = c % 512 ∧ factory.tables 2 = kernel.pointerAt 1 (c / 512)) ∧
      factory.nextIndices 3 = 0 ∧ factory.tables 3 = kernel.pointerAt 0 c := by
  have entry : (last + 1) / 512 ^ 1 = c := by omega
  have table : last / 512 ^ 2 = c / 512 := by omega
  have upper : factory.nextIndices 2 + 512 * topsBelow last 1 1 = last / 512 ^ 1 + 1 := tracks.indices 1 (by decide)
  have upperTable := tracks.tables 1 (by decide)
  have lower : factory.nextIndices 3 + 512 * topsBelow last 1 0 = last / 512 ^ 0 + 1 := tracks.indices 0 (by decide)
  have lowerTable := tracks.tables 0 (by decide)
  rw [topsBelow, if_neg (by decide), table] at upper upperTable
  rw [topsBelow, if_pos (by decide), entry] at lower lowerTable
  exact ⟨⟨by omega, upperTable⟩, by omega, lowerTable⟩

/-- The walk of the table's first page goes to the truncated frame. -/
private theorem walk_truncated {last c : ℕ} (reached : kernel.Reached last)
    (count : last + 1 = 512 ^ 1 * c) (inner : ¬ 512 ^ 2 ∣ last + 1) (table : tableCount last < pageCount kernel.mmapDyn)
    (linked : kernel.Linked last frames)
    (link : frames (kernel.frameAt 1 (c / 512)) (c % 512) = u32 (kernel.phys (tableCount last)) ||| KERNEL_PAGE_FLAG) :
    walk frames kernel.layout.root (pageVirt (last + 1 - 512)) =
      walkFrom frames (pageVirt (last + 1 - 512)) 0 (u32 (kernel.phys (tableCount last))) := by
  have started := reached.started
  have number : pageVirt (last + 1 - 512) / PAGE_SIZE = last + 1 := by
    rw [pageVirt_div]
    omega
  have top := linked.walkFrom_filled 2 reached (pageVirt (last + 1 - 512)) (by omega) le_rfl (by omega)
  have third := linked.walkFrom_filled 1 reached (pageVirt (last + 1 - 512)) (by omega) (by decide) (by omega)
  have slot : tableIndex (0 + 1) (pageVirt (last + 1 - 512)) = c % 512 := by
    rw [tableIndex_eq, number, show (last + 1) / 512 ^ (0 + 1) = c by omega]
  have aligned := (@phys_bounds kernel (tableCount last) table).1
  rw [number, frameAt_root] at top
  rw [number, show (last + 1) / 512 ^ (1 + 1) = c / 512 by omega] at third
  rw [walk, top, third, walkFrom_link plain_kernel (slot ▸ link)]
  · simp only [u32, PAGE_SIZE] at *
    omega
  · exact (Nat.mod_lt _ (by decide)).trans (by decide)

/-- Where the address of a new table does not fit into a `uint32_t`, the processor looks for the table's
first page in the truncated frame. -/
private theorem truncated_table {last : ℕ} (steady : kernel.Steady last factory frames)
    (reached : kernel.Reached last)
    (next : last + 1 < pageCount kernel.mmapDyn + 512) (boundary : 512 ^ 1 ∣ last + 1)
    (inner : ¬ 512 ^ 2 ∣ last + 1) :
    ∃ factory' frames', dynpageFactoryNext kernel.layout kernel.mmapDyn
    (kernel.phys (last + 1 - 512)) factory frames =
        .ok (factory', frames') ∧
      walk frames' kernel.layout.root (pageVirt (last + 1 - 512)) =
        walkFrom frames' (pageVirt (last + 1 - 512)) 0 (u32 (kernel.phys (tableCount last))) ∧
      ∀ frame, ¬ kernel.Written frame → frames' frame = kernel.boot frame := by
  have started := reached.started
  obtain ⟨opening, page, opened, cleared, ranOpen, stage, tracks, _⟩ :=
    @openTable_boundary kernel last 0 _ _ reached
      (by decide) boundary steady.stage steady.tracks steady.metapages
  obtain ⟨c, count⟩ := boundary
  have entry : (last + 1) / 512 ^ 1 = c := by omega
  have useLink : InUse (last + 1) 1 (c / 512) := ⟨by decide, by simp only [firstEntry]; omega, by omega⟩
  have useTable : InUse (last + 1) 0 c := ⟨by decide, by simp only [firstEntry]; omega, by omega⟩
  have mapped := reached.tablePage_le useTable (by decide)
  rw [steady.metapages, zero_add, entry] at page
  have found : virtToPhysDynmem factory.nextTable kernel.mmapDyn = .ok (kernel.phys (tableCount last)) := by
    rw [steady.tracks.nextTable, steady.metapages]
    exact kernel.map.virtToPhys_page (by omega)
  obtain ⟨⟨upper, upperTable⟩, lower, lowerTable⟩ := opened_entries count inner tracks
  have linked := stage.linked.write reached useLink (by omega)
    (u32 (kernel.phys (tableCount last)) ||| KERNEL_PAGE_FLAG)
  have ranLink := appendEntry_eq stage.linked reached useLink upperTable upper (Nat.mod_lt _ (by decide))
    (u32 (kernel.phys (tableCount last)))
  have ranLast := @appendEntry_eq kernel last 0 c 0 _
    (opened.counted 2 (c % 512 + 1)) linked reached useTable lowerTable
    lower (by decide) (kernel.phys (last + 1 - 512))
  have entryTable : (last + 1) / 512 = c := by omega
  have index : (last + 1) % 512 = 0 := by omega
  have complete := @Linked.write kernel last 0 (last + 1) _ linked reached
    (entryTable.symm ▸ useTable) (by omega) (kernel.phys (last + 1 - 512) ||| KERNEL_PAGE_FLAG)
  rw [entryTable, index] at complete
  obtain ⟨frames', stored⟩ : ∃ frames', frames' = (cleared.write (kernel.frameAt 1 (c / 512)) (c % 512)
      (u32 (kernel.phys (tableCount last)) ||| KERNEL_PAGE_FLAG)).write (kernel.frameAt 0 c) 0
        (kernel.phys (last + 1 - 512) ||| KERNEL_PAGE_FLAG) := ⟨_, rfl⟩
  rw [← stored] at ranLast complete
  have link : frames' (kernel.frameAt 1 (c / 512)) (c % 512) =
      u32 (kernel.phys (tableCount last)) ||| KERNEL_PAGE_FLAG := by
    rw [stored, Frames.write_of_ne fun same => absurd
      (reached.frameAt_injective useLink useTable same.1).1 (by decide),
      Frames.write_self]
  refine ⟨(opened.counted 2 (c % 512 + 1)).counted 3 1, frames', ?_,
    walk_truncated reached count inner (by omega) complete link, fun frame free => ?_⟩
  · rw [dynpageFactoryNext, steady.tracks.bootstrapped, if_neg (Nat.lt_irrefl 3), dynpageFactoryNextRecur,
      if_pos (show factory.nextIndices 3 ≥ PAGETABLE_LENGTH from opening.ge)]
    have room : dynpageFactoryNextRecur kernel.layout kernel.mmapDyn 2
      (u32 (kernel.phys (tableCount last))) opened cleared =
        appendEntry kernel.layout 2 (u32 (kernel.phys (tableCount last))) opened cleared := by
      rw [dynpageFactoryNextRecur, if_neg]
      simp only [upper, PAGETABLE_LENGTH]
      omega
    exact Except.bind_ok_iff.mpr ⟨_, ranOpen, Except.bind_ok_iff.mpr ⟨_, found,
      Except.bind_ok_iff.mpr ⟨_, room.trans ranLink, ranLast⟩⟩⟩
  · have upperApart : frame ≠ kernel.frameAt 1 (c / 512) := by
      rintro rfl
      exact free (reached.written useLink)
    have lowerApart : frame ≠ kernel.frameAt 0 c := by
      rintro rfl
      exact free (reached.written useTable)
    rw [stored, Frames.write, Function.update_of_ne lowerApart, Frames.write,
      Function.update_of_ne upperApart, stage.rest frame free]

/-- Three pages, a range from four gibibytes up, and one page more. -/
def highPages : Mmap where
  len := 3
  entries
    | 0 => ⟨0x00800000, 0x3000, MMAP_ENTRY_AVAILABLE⟩
    | 1 => ⟨0x100000000, 0x1fd000, MMAP_ENTRY_AVAILABLE⟩
    | _ => ⟨0x200000000, 0x1000, MMAP_ENTRY_AVAILABLE⟩

private theorem highPages_map : PagedMap highPages where
  floor i inside := by
    change i < 3 at inside
    interval_cases i <;> decide
  bound i inside := by
    change i < 3 at inside
    interval_cases i <;> decide
  ascending i j lt inside := by
    change j < 3 at inside
    interval_cases j <;> interval_cases i <;> decide
  aligned i inside := by
    change i < 3 at inside
    interval_cases i <;> decide
  whole i inside := by
    change i < 3 at inside
    interval_cases i <;> decide
  small i inside := by
    change i < 3 at inside
    interval_cases i <;> decide

private theorem highPages_count : pageCount highPages = 513 := by decide

def highKernel : FreshKernel :=
  clearedKernel highPages highPages_map (by rw [highPages_count]; decide) (by rw [highPages_count]; decide)

private theorem highKernel_low : highKernel.TablesLow 1023 := by
  intro m bootstrapped inside
  have count : tableCount 1023 = 3 := by decide
  omega

private theorem highKernel_written : ¬ highKernel.Written 0 := by
  rintro (root | stack | ⟨i, inside, page⟩)
  · exact absurd root (by decide)
  · exact absurd stack (by decide)
  · have high := (phys_bounds inside).2.1
    rw [page] at high
    exact absurd high (by decide)

/-- The address of the fourth table page is four gibibytes, which a `uint32_t` truncates to zero: the
processor does not find the page that follows. -/
private theorem high_tables_lost : ∃ result frames,
    pagetableConstructDyn sampleLayout highPages (fun _ _ => 0) = .ok (result, frames) ∧
      walk frames sampleLayout.root (pageVirt 512) = none := by
  have progress₀ : highKernel.Progress (windowOffset highPages 0 / PAGE_SIZE)
      ⟨dynpageFactoryCreate sampleLayout, 0, fun _ _ => 0⟩ :=
    progress_start
  obtain ⟨st₁, ran₁, progress₁⟩ := progress₀.wholeEntry (by decide) (highKernel_low.mono (by decide))
  obtain ⟨st₂, ran₂, progress₂⟩ := progress₁.wholeEntry (by decide) (highKernel_low.mono (by decide))
  have steady : highKernel.Steady 1023 st₂.factory st₂.frames := progress₂.late (by decide)
  obtain ⟨factory, frames, ran, found, rest⟩ :=
    truncated_table steady ⟨by decide, by decide⟩ (by decide) (by decide) (by decide)
  have address : highKernel.phys (1023 + 1 - 512) = 0x200000000 := by decide +kernel
  have table : u32 (highKernel.phys (tableCount 1023)) = 0 := by decide +kernel
  rw [address] at ran
  have ran₃ : constructEntry sampleLayout highPages (u64 (0x200000000 + 0x1000))
    (0x1000 / PAGE_SIZE + 2) 0x200000000 st₂ =
      .ok ⟨factory, u64 (st₂.pages + 1), frames⟩ := by
    rw [constructEntry, if_pos (by decide)]
    exact Except.bind_ok_iff.mpr ⟨_, ran, rfl⟩
  refine ⟨_, frames, Except.bind_ok_iff.mpr
    ⟨_, Except.bind_ok_iff.mpr ⟨st₁, ran₁, Except.bind_ok_iff.mpr ⟨st₂, ran₂,
    Except.bind_ok_iff.mpr ⟨_, ran₃, rfl⟩⟩⟩, rfl⟩, ?_⟩
  rw [table, walkFrom, rest 0 highKernel_written] at found
  exact found

theorem construct_misses_page : ¬ ∃ result frames,
    pagetableConstructDyn sampleLayout highPages (fun _ _ => 0) = .ok (result, frames) ∧ ShowsMap highKernel frames := by
  rintro ⟨result, frames, ran, shows⟩
  obtain ⟨result', frames', ran', lost⟩ := high_tables_lost
  obtain rfl : frames' = frames := (Prod.ext_iff.mp (Except.ok.inj (ran'.symm.trans ran))).2
  have count : pageCount highKernel.mmapDyn = 513 := highPages_count
  have found := (shows 512 (by decide)).1.mpr (by omega)
  change (walk frames' sampleLayout.root (pageVirt 512)).isSome at found
  rw [lost] at found
  exact absurd found (by decide)

end RubberOS.Soundness.WindowTables
