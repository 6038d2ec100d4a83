import RubberOS.Model.KernelMemory
import RubberOS.Soundness.MmioAddresses
import RubberOS.Soundness.PageTables

/-! # Device mappings over the kernel's page tables

`mmio_alloc_mapping` and `mmio_dealloc_mapping` with the page tables that they edit: the free list
hands out ranges that the tables do not show yet, and gets back ranges that they show as a whole.
-/

namespace RubberOS.Soundness.KernelMappings

open Model Model.KernelMemory Model.MemoryMap Model.Mmio Model.PageTable SpacedRanges PageTables

def asRange (range : ℕ × ℕ) : DeviceRange := ⟨range.1, range.2⟩

/-- The free list and the tables agree on the live ranges, which consist of whole pages. -/
structure Sound (kernel : KernelPages) (meminfo : Meminfo PageMemory) (ranges : List (ℕ × ℕ)) (tables : Registry) :
    Prop where
  tables : PageTables.Sound kernel ⟨meminfo.tables, ranges.map asRange⟩ tables
  book : MmioRuns.Sound ⟨meminfo, ranges⟩
  aligned : ∀ range ∈ ranges, PAGE_SIZE ∣ range.1 ∧ PAGE_SIZE ∣ range.2

/-- Why a mapping call stops: no free range is long enough, or no page is left for a table. -/
inductive MapFault : Fault → Prop
  | window : MapFault (.panic "mmio virtual memory space is run out : link != ((void *)0)")
  | page : MapFault .nullDereference

/-- Why the release of a live range stops: no free range lies above it, or no node is left. -/
inductive UnmapFault : Fault → Prop
  | top : UnmapFault (.panic "invalid mmio address : link != ((void *)0)")
  | nodes : UnmapFault tooFragmented

section Calls

variable {kernel : KernelPages} {meminfo : Meminfo PageMemory} {ranges : List (ℕ × ℕ)} {tables : Registry}

private theorem asRange_injective : Function.Injective asRange := by
  rintro ⟨a, b⟩ ⟨c, d⟩ same
  cases same
  rfl

private theorem Sound.partition (sound : Sound kernel meminfo ranges tables) :
    ∃ order, Ordered meminfo.mmioFreelist order ∧
    ∀ point, covering (ranges ++ order.map meminfo.mmioFreelist.range) point =
      if IOMAP_START_VIRT ≤ point ∧ point < iomapEnd then 1 else 0 := sound.book.partition

private theorem Sound.within (sound : Sound kernel meminfo ranges tables) {range : ℕ × ℕ} (member : range ∈ ranges) :
    range.1 < range.2 ∧ IOMAP_START_VIRT ≤ range.1 ∧ range.2 ≤ iomapEnd := by
  obtain ⟨order, ordered, covered⟩ := sound.partition
  have nonempty := sound.book.live range member
  exact ⟨nonempty,
    MmioRuns.within_window nonempty (MmioRuns.live_apart (s := ⟨meminfo, ranges⟩) ordered covered member nonempty).1⟩

private theorem Sound.tidy (sound : Sound kernel meminfo ranges tables) :
    MmioAddresses.wordSized ⟨meminfo, ranges⟩ = ⟨meminfo, ranges⟩ ∧ MmioAddresses.Tidy ⟨meminfo, ranges⟩ := by
  have same : MmioAddresses.wordSized ⟨meminfo, ranges⟩ = ⟨meminfo, ranges⟩ := by
    rw [MmioAddresses.wordSized]
    congr 1
    rw [List.filter_eq_self]
    intro range member
    have upper := (sound.within member).2.2
    have small := iomapEnd_lt
    exact decide_eq_true (by omega)
  refine ⟨same, ?_, ?_⟩
  · rw [same]
    exact sound.book
  · rw [same]
    exact sound.aligned

/-- A reservation is a scan of the free list, the check that it found a range, and the edit of the tables. -/
private theorem mmioAllocMapping_eq {σ : Type} (edit : PageTables σ) (meminfo : Meminfo σ) {beginPhys endPhys len : ℕ}
    {order : List NodeIndex} (ordered : Ordered meminfo.mmioFreelist order)
    (length : u64 (uptrdivCeil (sub64 endPhys (beginPhys / PAGE_SIZE * PAGE_SIZE)) PAGE_SIZE * PAGE_SIZE) = len) :
    mmioAllocMapping edit meminfo beginPhys endPhys = (do
      let found ← allocFrom meminfo.mmioFreelist len 25 none order.head?
      let (begin, freelist) ← assertSome found "mmio virtual memory space is run out" "link != ((void *)0)"
      let tables ← edit.mmioMap begin (u64 (begin + len)) (beginPhys / PAGE_SIZE * PAGE_SIZE) meminfo.tables
      return (begin, { mmioFreelist := freelist, tables })) := by
  have head : meminfo.mmioFreelist.list none = order.head? := ordered.chain.next_eq
  rw [mmioAllocMapping]
  dsimp only
  rw [length, head]

/-- A point that the free list gives away lies in no live range. -/
private theorem apart_of_moved {freelist : MmioFreelist} {order order' : List NodeIndex} {result : MmioFreelist}
    {begin len : ℕ}
    (covered : ∀ point, covering (ranges ++ order.map freelist.range) point =
      if IOMAP_START_VIRT ≤ point ∧ point < iomapEnd then 1 else 0)
    (moved : ∀ point, covering ((begin, begin + len) :: order'.map result.range) point =
      covering (order.map freelist.range) point)
    {range : ℕ × ℕ} (member : range ∈ ranges) (nonempty : range.1 < range.2) (positive : 0 < len) :
    begin + len ≤ range.1 ∨ range.2 ≤ begin := by
  by_contra meets
  -- the larger of the two first points lies in both
  have twice := covered (max range.1 begin)
  rw [covering_append, ← moved, covering_cons, if_pos (by omega)] at twice
  have own : 0 < covering ranges (max range.1 begin) :=
    List.countP_pos_iff.mpr ⟨range, member, decide_eq_true (by omega)⟩
  split_ifs at twice
  all_goals omega

private theorem map_failed {begin limit phys : ℕ} {live : List DeviceRange} {fault : Fault}
    (failed : exec kernel ⟨meminfo.tables, live⟩ (.map (asRange (begin, limit)) phys KERNEL_PAGE_FLAG) = .error fault)
    {β : Type} {next : PageMemory → Result β} :
    ((kernelPageTables kernel.gPagetable kernel.mmapDyn).mmioMap begin limit phys meminfo.tables >>= next) =
      .error fault := by
  rw [exec] at failed
  change (pagetableMmioMap kernel.gPagetable begin limit phys KERNEL_PAGE_FLAG kernel.mmapDyn meminfo.tables >>= next) = _
  dsimp only [asRange] at failed
  cases ran : pagetableMmioMap kernel.gPagetable begin limit phys KERNEL_PAGE_FLAG kernel.mmapDyn meminfo.tables with
  | error other =>
    rw [ran] at failed
    exact congrArg Except.error (Except.error.inj failed)
  | ok memory =>
    rw [ran] at failed
    cases failed

private theorem map_ran {begin limit phys : ℕ} {live : List DeviceRange} {t : PageTables.State}
    (ran : exec kernel ⟨meminfo.tables, live⟩ (.map (asRange (begin, limit)) phys KERNEL_PAGE_FLAG) = .ok t) :
    ∃ after, (kernelPageTables kernel.gPagetable kernel.mmapDyn).mmioMap begin limit phys meminfo.tables = .ok after ∧
      t = ⟨after, asRange (begin, limit) :: live⟩ := by
  simp only [exec, Except.bind_ok_iff, Except.pure_ok_iff] at ran
  obtain ⟨after, edited, rfl⟩ := ran
  exact ⟨after, edited, rfl⟩

private theorem unmap_ran {range : ℕ × ℕ} {live : List DeviceRange} {t : PageTables.State}
    (ran : exec kernel ⟨meminfo.tables, live⟩ (.unmap (asRange range)) = .ok t) :
    ∃ after, (kernelPageTables kernel.gPagetable kernel.mmapDyn).mmioUnmap range.1 range.2 meminfo.tables = .ok after ∧
      t = ⟨after, live.erase (asRange range)⟩ := by
  simp only [exec, Except.bind_ok_iff, Except.pure_ok_iff] at ran
  obtain ⟨after, edited, rfl⟩ := ran
  exact ⟨after, edited, rfl⟩

/-- A mapping call adds a range that was free and shows it, or it stops for want of room. -/
theorem Sound.alloc (sound : Sound kernel meminfo ranges tables) {beginPhys endPhys : ℕ}
    (nonempty : beginPhys < endPhys) (small : endPhys < 2 ^ 64)
    (fits : MmioRuns.roundedLen beginPhys endPhys < 2 ^ 64) :
    (∃ fault, MapFault fault ∧ mmioAllocMapping (kernelPageTables kernel.gPagetable kernel.mmapDyn) meminfo
      beginPhys endPhys = .error fault) ∨
    ∃ begin after tables', mmioAllocMapping (kernelPageTables kernel.gPagetable kernel.mmapDyn) meminfo
        beginPhys endPhys = .ok (begin, after) ∧
      Sound kernel after ((begin, begin + MmioRuns.roundedLen beginPhys endPhys) :: ranges) tables' := by
  obtain ⟨same, tidy⟩ := sound.tidy
  obtain ⟨order, ordered, covered⟩ := sound.partition
  have live (range : ℕ × ℕ) (member : range ∈ ranges) := (sound.within member).1
  obtain ⟨length, positive⟩ := MmioRuns.alignedLen_eq nonempty small fits
  have listed : Ordered meminfo.mmioFreelist ([] ++ order) := ordered
  have alignedLen : PAGE_SIZE ∣ MmioRuns.roundedLen beginPhys endPhys := Nat.dvd_mul_left _ _
  have eq := mmioAllocMapping_eq (kernelPageTables kernel.gPagetable kernel.mmapDyn) meminfo ordered length
  rcases allocFrom_spec listed positive (MmioRuns.Ordered.length_lt ordered) with none |
    ⟨node, member, result, order', hit, inside, kept, moved⟩
  · refine .inl ⟨_, .window, ?_⟩
    rw [eq, show allocFrom meminfo.mmioFreelist _ 25 Option.none order.head? = .ok Option.none from none, Except.ok_bind]
    rfl
  · have bounds := ordered.inside node member
    have first : PAGE_SIZE ∣ (meminfo.mmioFreelist.nodes node).begin := by
      refine tidy.begin_aligned ordered (fun point => ?_) member
      rw [same]
      exact covered point
    have found : allocFrom meminfo.mmioFreelist (MmioRuns.roundedLen beginPhys endPhys) 25 Option.none order.head? =
      .ok (some ((meminfo.mmioFreelist.nodes node).begin, result)) := hit
    rw [found, Except.ok_bind, show assertSome (some ((meminfo.mmioFreelist.nodes node).begin, result)) _ _ = .ok _ from rfl,
      Except.ok_bind] at eq
    dsimp only at eq
    generalize (meminfo.mmioFreelist.nodes node).begin = begin at *
    generalize MmioRuns.roundedLen beginPhys endPhys = len at *
    have word := inside.trans_lt iomapEnd_lt
    have placed : (asRange (begin, begin + len)).Placed := by
      refine ⟨Nat.mod_eq_zero_of_dvd first, Nat.mod_eq_zero_of_dvd ((Nat.dvd_add_right first).mpr alignedLen),
        Nat.le_add_right _ _, bounds.1, inside⟩
    have apart : ∀ other ∈ ranges.map asRange, (asRange (begin, begin + len)).Apart other := by
      intro other listed
      obtain ⟨range, member, rfl⟩ := List.mem_map.mp listed
      exact apart_of_moved covered moved member (live range member) positive
    have enabled : Enabled ⟨meminfo.tables, ranges.map asRange⟩
        (.map (asRange (begin, begin + len)) (beginPhys / PAGE_SIZE * PAGE_SIZE) KERNEL_PAGE_FLAG) :=
      ⟨placed, apart, plain_kernel⟩
    rw [u64_of_lt word] at eq
    rcases sound.tables.map enabled with ⟨failed, _⟩ | ⟨t, tables', ran, kept', live', _⟩
    · refine .inl ⟨_, .page, ?_⟩
      rw [eq]
      exact map_failed failed
    · obtain ⟨after, edited, rfl⟩ := map_ran ran
      refine .inr ⟨begin, ⟨result, after⟩, tables', ?_, kept', ⟨⟨order', kept, fun point => ?_⟩, ?_⟩, ?_⟩
      · rw [eq, edited]
        rfl
      · have change' := moved point
        rw [covering_cons, List.nil_append] at change'
        rw [← covered point, List.cons_append, covering_cons, covering_append, covering_append, ← change']
        dsimp only
        omega
      · exact List.forall_mem_cons.mpr ⟨Nat.lt_add_of_pos_right positive, live⟩
      · exact List.forall_mem_cons.mpr ⟨⟨first, (Nat.dvd_add_right first).mpr alignedLen⟩, sound.aligned⟩

/-- The release of a live range removes it from the tables and makes it free, or the free list refuses it. -/
theorem Sound.dealloc (sound : Sound kernel meminfo ranges tables) {range : ℕ × ℕ} {beginVirt endVirt : ℕ}
    (member : range ∈ ranges) (names : MmioRuns.Names range beginVirt endVirt) :
    (∃ fault, UnmapFault fault ∧ mmioDeallocMapping (kernelPageTables kernel.gPagetable kernel.mmapDyn) meminfo
      beginVirt endVirt = .error fault) ∨
    ∃ after tables', mmioDeallocMapping (kernelPageTables kernel.gPagetable kernel.mmapDyn) meminfo
        beginVirt endVirt = .ok after ∧ Sound kernel after (ranges.erase range) tables' := by
  obtain ⟨nonempty, lower, upper⟩ := sound.within member
  obtain ⟨order, ordered, covered⟩ := sound.partition
  have bound := upper.trans_lt iomapEnd_lt
  have eq := names.dealloc_eq (kernelPageTables kernel.gPagetable kernel.mmapDyn) meminfo.mmioFreelist meminfo.tables
    nonempty bound
  rcases MmioRuns.scan_outcome (s := ⟨meminfo, ranges⟩) ordered covered member nonempty with ⟨none, _⟩ | ⟨_, stopped | ⟨result, hit, _⟩⟩
  · refine .inl ⟨_, .top, ?_⟩
    rw [eq, none, Except.ok_bind]
    rfl
  · refine .inl ⟨_, .nodes, ?_⟩
    rw [eq, stopped]
    rfl
  · obtain ⟨t, tables', ran, kept, live', _⟩ := sound.tables.unmap (List.mem_map_of_mem (f := asRange) member)
    obtain ⟨after, edited, rfl⟩ := unmap_ran ran
    have done : mmioDeallocMapping (kernelPageTables kernel.gPagetable kernel.mmapDyn) meminfo beginVirt endVirt =
        .ok ⟨result, after⟩ := by
      rw [eq, hit, Except.ok_bind, show assertSome (some result) _ _ = .ok result from rfl, Except.ok_bind, edited]
      rfl
    refine .inr ⟨⟨result, after⟩, tables', done, ?_, ?_, fun other found => sound.aligned other (List.mem_of_mem_erase found)⟩
    · rw [List.map_erase asRange_injective]
      exact kept
    · exact sound.book.dealloc member names (Except.bind_ok_iff.mpr ⟨_, done, rfl⟩)

end Calls

end RubberOS.Soundness.KernelMappings
