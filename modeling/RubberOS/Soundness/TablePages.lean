import RubberOS.Soundness.WindowTables

/-! # Tables in the memory they map
 The tables of dynamic memory are kept in the first pages of its window. Every access to one of them goes through a
mapping that exists already, since a table is opened long after its page has been handed out. What is left of the
window is mapped and holds no table, and this is the region that the buddy allocator gets. -/

namespace RubberOS.Soundness.TablePages

open Model Model.MemoryMap Model.PageTable Model.PageConstruct Model.PageConstruct.FreshKernel WindowTables

/-- The number of the table that holds an address's entry on a level: a page table, a directory or a pointer table. -/
def tableNumber (level virt : ℕ) : ℕ := virt / PAGE_SIZE / 512 ^ (level + 1)

/-- The tables of a level that the first `n` pages of the window need. -/
def tablesNeeded (n level : ℕ) : Finset ℕ := (Finset.range n).image fun i => tableNumber level (pageVirt i)

section Counts

variable {n level : ℕ}

private theorem tablesNeeded_eq (positive : 0 < n) :
    tablesNeeded n level = Finset.Icc (512 / 512 ^ (level + 1)) ((n + 511) / 512 ^ (level + 1)) := by
  have power : 0 < 512 ^ (level + 1) := Nat.pow_pos (by decide)
  ext c
  simp only [tablesNeeded, tableNumber, pageVirt_div, Finset.mem_image, Finset.mem_range, Finset.mem_Icc]
  constructor
  · rintro ⟨i, inside, rfl⟩
    exact ⟨Nat.div_le_div_right (by omega), Nat.div_le_div_right (by omega)⟩
  · rintro ⟨lower, upper⟩
    rcases Nat.le_total (c * 512 ^ (level + 1)) 512 with before | after
    · have first : c = 512 / 512 ^ (level + 1) := Nat.le_antisymm ((Nat.le_div_iff_mul_le power).mpr before) lower
      exact ⟨0, positive, first.symm⟩
    · have last := (Nat.le_div_iff_mul_le power).mp upper
      refine ⟨c * 512 ^ (level + 1) - 512, by omega, ?_⟩
      rw [Nat.add_sub_cancel' after, Nat.mul_div_cancel c power]

/-- The factory's count is the number of needed tables on the three levels. -/
private theorem tableCount_eq_card (positive : 0 < n) :
    tableCount (n + 511) = (tablesNeeded n 0).card + (tablesNeeded n 1).card + (tablesNeeded n 2).card := by
  simp only [tablesNeeded_eq positive, Nat.card_Icc, tableCount]
  omega

end Counts

variable {kernel : FreshKernel}

/-- Tables in low pages are few enough for their size to be a `uint32_t`. -/
theorem tableCount_small (kernel : FreshKernel) (low : TablePagesLow kernel) :
    tableCount (pageCount kernel.mmapDyn + 511) ≤ pageCount kernel.mmapDyn ∧
      tableCount (pageCount kernel.mmapDyn + 511) * PAGE_SIZE < 2 ^ 32 := by
  have three := kernel.three
  obtain ⟨count, counted⟩ : ∃ count, count = tableCount (pageCount kernel.mmapDyn + 511) := ⟨_, rfl⟩
  rw [← counted]
  have within : count ≤ pageCount kernel.mmapDyn := by
    rw [counted, tableCount]
    omega
  refine ⟨within, ?_⟩
  rcases Nat.lt_or_ge 3 count with more | few
  · have last := low (count - 1) (by omega) (by omega)
    have below := kernel.map.pagePhys_ge (i := count - 1) (by omega)
    rw [FreshKernel.phys] at last
    simp only [DYNMEM_START_PHYS_MINIMUM, PAGE_SIZE] at *
    omega
  · simp only [PAGE_SIZE]
    omega

section Region

variable {result : PagetableConstructResult} {first n virt : ℕ}

theorem dynmemRegion_start (small : result.dynPagetableLen < 2 ^ 32) :
    (dynmemRegion result).1 = DYNMEM_START_VIRT + result.dynPagetableLen := by
  rw [dynmemRegion]
  refine u64_of_lt ?_
  simp only [DYNMEM_START_VIRT]
  omega

private theorem dynmemRegion_stop (fits : result.dynPagetableLen ≤ result.dynTotalLen)
    (small : result.dynPagetableLen < 2 ^ 32) (bound : result.dynTotalLen < 2 ^ 64) :
    (dynmemRegion result).1 + (dynmemRegion result).2 = DYNMEM_START_VIRT + result.dynTotalLen := by
  have length : (dynmemRegion result).2 = result.dynTotalLen - result.dynPagetableLen := sub64_of_le fits bound
  rw [dynmemRegion_start small, length]
  omega

/-- An address behind the first pages of the window is a byte of one of the others. -/
theorem page_of_region (lower : DYNMEM_START_VIRT + first * PAGE_SIZE ≤ virt)
    (upper : virt < DYNMEM_START_VIRT + n * PAGE_SIZE) :
    ∃ m o, first ≤ m ∧ m < n ∧ o < PAGE_SIZE ∧ virt = pageVirt m + o ∧ virt % PAGE_SIZE = o := by
  refine ⟨(virt - DYNMEM_START_VIRT) / PAGE_SIZE, virt % PAGE_SIZE, ?_, ?_, Nat.mod_lt _ (by decide), ?_, rfl⟩
  all_goals
    simp only [pageVirt, DYNMEM_START_VIRT, PAGE_SIZE] at *
    omega

end Region

/-- The construction clears and writes the table pages only through mappings that exist at that moment, of pages
that have been handed out; the table pages are the first ones of the window, as many as are needed, and never more
than have been handed out; and the region of the buddy allocator is mapped and holds no table page. -/
theorem construct_tables_first (kernel : FreshKernel) (low : TablePagesLow kernel) :
    ∃ result st log,
      pagetableConstructDynLogged kernel.layout kernel.mmapDyn kernel.boot = .ok (result, st, log) ∧
      pagetableConstructDyn kernel.layout kernel.mmapDyn kernel.boot = .ok (result, st.frames) ∧
      (∀ access ∈ log, access.table = kernel.layout.gPagetable ∨
        ∃ m < st.factory.metapageCount, kernel.Hits access m) ∧
      (∀ m < st.factory.metapageCount, ∃ access ∈ log, kernel.Hits access m) ∧
      (∀ access ∈ log, access.metapageCount ≤ access.pages) ∧
      st.factory.metapageCount ≤ pageCount kernel.mmapDyn ∧
      st.factory.metapageCount = (tablesNeeded (pageCount kernel.mmapDyn) 0).card +
        (tablesNeeded (pageCount kernel.mmapDyn) 1).card + (tablesNeeded (pageCount kernel.mmapDyn) 2).card ∧
      (dynmemRegion result).1 = DYNMEM_START_VIRT + st.factory.metapageCount * PAGE_SIZE ∧
      (dynmemRegion result).1 + (dynmemRegion result).2 = DYNMEM_START_VIRT + pageCount kernel.mmapDyn * PAGE_SIZE ∧
      ∀ virt, (dynmemRegion result).1 ≤ virt → virt < (dynmemRegion result).1 + (dynmemRegion result).2 →
        ∃ m, st.factory.metapageCount ≤ m ∧ m < pageCount kernel.mmapDyn ∧
          translateVirt st.frames kernel.layout.root virt = some (kernel.phys m + virt % PAGE_SIZE) ∧
          kernel.phys m ≠ kernel.layout.root ∧ ∀ t < st.factory.metapageCount, kernel.phys t ≠ kernel.phys m := by
  obtain ⟨result, st, log, ran, steady, total, tables, records⟩ := pagetableConstructDynLogged_spec low
  obtain ⟨within, small⟩ := tableCount_small kernel low
  have three := kernel.three
  have limit := kernel.limit
  have reached := reached_all kernel
  have count := steady.metapages
  rw [← count] at within small
  rw [u32_of_lt small] at tables
  have start : (dynmemRegion result).1 = DYNMEM_START_VIRT + st.factory.metapageCount * PAGE_SIZE := by
    rw [dynmemRegion_start (tables ▸ small), tables]
  have stop : (dynmemRegion result).1 + (dynmemRegion result).2 =
      DYNMEM_START_VIRT + pageCount kernel.mmapDyn * PAGE_SIZE := by
    have fits : result.dynPagetableLen ≤ result.dynTotalLen := by
      rw [tables, total]
      exact Nat.mul_le_mul_right _ within
    have bound : result.dynTotalLen < 2 ^ 64 := by
      simp only [total, PAGE_SIZE]
      omega
    rw [dynmemRegion_stop fits (tables ▸ small) bound, total]
  refine ⟨result, st, log, ran, ?_, fun access member => ?_, fun m inside => records.used m (Nat.zero_le m) inside,
    fun access member => (records.accesses access member).2.count, within, ?_, start, stop,
    fun virt lower upper => ?_⟩
  · rw [← pagetableConstructDynLogged_fst, ran]
    rfl
  · obtain ⟨before, backed⟩ := records.accesses access member
    refine backed.place.imp_right fun hit => ?_
    obtain ⟨m, table, hits⟩ := hit
    refine ⟨m, ?_, hits⟩
    rw [count]
    exact table.trans_le (tableCount_mono (by omega))
  · rw [count]
    exact tableCount_eq_card (by omega)
  · rw [stop] at upper
    rw [start] at lower
    obtain ⟨m, o, first, last, offset, address, own⟩ := page_of_region lower upper
    refine ⟨m, first, last, ?_, ?_, fun t table same => ?_⟩
    · rw [own, address]
      exact steady.stage.linked.translateVirt_byte reached (by omega) offset
    · have high := (phys_bounds last).2.1
      have low := kernel.root_low.2
      exact (Nat.lt_of_lt_of_le low high).ne'
    · have equal := kernel.map.pagePhys_injective (by omega) last same
      omega

/-- Three pages of memory hold the three tables, and nothing is left. -/
theorem construct_tables_first_three : ∃ result st log,
    pagetableConstructDynLogged sampleLayout threePages (fun _ _ => 0) = .ok (result, st, log) ∧
      st.factory.metapageCount = 3 ∧ (∀ m < 3, ∃ access ∈ log, threeKernel.Hits access m) := by
  obtain ⟨result, st, log, ran, _, _, used, _, _, count, _⟩ := construct_tables_first threeKernel threeKernel_low
  have pages : pageCount threeKernel.mmapDyn = 3 := threePages_count
  have needed : (tablesNeeded 3 0).card + (tablesNeeded 3 1).card + (tablesNeeded 3 2).card = 3 := by decide +kernel
  rw [pages, needed] at count
  rw [count] at used
  exact ⟨result, st, log, ran, count, used⟩

end RubberOS.Soundness.TablePages
