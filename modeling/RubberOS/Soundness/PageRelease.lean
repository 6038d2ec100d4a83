import RubberOS.Soundness.PageTables

/-! # Giving table pages back

`pagetable_mmio_unmap` examines a table only when it leaves the table's last page. In a run where every
unmapping call either leaves that way each table it empties, or leaves something mapped below it, every
table has something mapped below it, and so none is left once no range is.
-/

namespace RubberOS.Soundness.PageTables

open Model Model.Buddy Model.PageTable Model.PageTable.KernelPages Model.MemoryMap Model.Mmio LabelledRuns

/-- The range has an address in a region. -/
def DeviceRange.Touches (range : DeviceRange) (start size : ℕ) : Prop :=
  range.beginVirt < range.endVirt ∧ range.beginVirt < start + size ∧ start < range.endVirt

/-- Of each region of one table or directory that an unmapped range touches, the range contains the end,
or another live range touches it as well. -/
def Releasing (s : State) : Event → Prop
  | .map _ _ _ => True
  | .unmap range => ∀ size ∈ [HUGE_SIZE, 512 * HUGE_SIZE], ∀ start, start % size = 0 → range.Touches start size →
      start + size ≤ range.endVirt ∨ ∃ other ∈ s.live.erase range, other.Touches start size

/-! ## Regions of tables -/

/-- The address of the first page below a table. -/
def regionStart : TableId → ℕ
  | .directory i => pageAddress (i * 512 * 512)
  | .leaf b => pageAddress (b * 512)

/-- The number of bytes below a table. -/
def regionSize : TableId → ℕ
  | .directory _ => 512 * HUGE_SIZE
  | .leaf _ => HUGE_SIZE

variable {kernel : KernelPages} {s t : State} {tables tables' : Registry} {range : DeviceRange} {phys flags : ℕ}
  {events : List Event} {id : TableId} {page : ℕ}

private theorem regionStart_aligned (id : TableId) : regionStart id % regionSize id = 0 := by
  cases id <;> simp only [regionStart, regionSize, pageAddress, IOMAP_START_VIRT, PAGE_SIZE,
    HUGE_SIZE] <;> omega

private theorem regionSize_mem (id : TableId) : regionSize id ∈ [HUGE_SIZE, 512 * HUGE_SIZE] := by
  cases id <;> simp [regionSize]

private theorem regionEnd_le_iff (placed : range.Placed) : regionStart id + regionSize id ≤ range.endVirt ↔
      id.last < range.limit := by
  rw [placed.endVirt_eq]
  cases id <;> simp only [regionStart, regionSize, TableId.last, pageAddress, PAGE_SIZE, HUGE_SIZE] <;> omega

/-- A range touches a table's region if a page of the range lies below the table. -/
private theorem touches_of_holds (placed : range.Placed) (covers : id.Covers page) (inside : range.Holds page) :
    range.Touches (regionStart id) (regionSize id) := by
  rw [DeviceRange.Touches, placed.beginVirt_eq, placed.endVirt_eq]
  obtain ⟨lower, upper⟩ := inside
  cases id <;> simp only [TableId.Covers, regionStart, regionSize, pageAddress, PAGE_SIZE,
    HUGE_SIZE] at * <;> omega

private theorem exists_page_of_touches (placed : range.Placed)
    (touches : range.Touches (regionStart id) (regionSize id)) :
    ∃ page, id.Covers page ∧ range.Holds page := by
  rw [DeviceRange.Touches, placed.beginVirt_eq, placed.endVirt_eq] at touches
  cases id with
  | directory i =>
    refine ⟨max range.first (i * 512 * 512), ?_⟩
    simp only [TableId.Covers, DeviceRange.Holds, regionStart, regionSize, pageAddress, PAGE_SIZE,
      HUGE_SIZE] at *
    omega
  | leaf b =>
    refine ⟨max range.first (b * 512), ?_⟩
    simp only [TableId.Covers, DeviceRange.Holds, regionStart, regionSize, pageAddress, PAGE_SIZE,
      HUGE_SIZE] at *
    omega

private theorem covers_lt (valid : id.Valid) (covers : id.Covers page) : page < windowPages := by
  cases id <;>
    simp only [TableId.Valid, TableId.Covers, windowPages, IOMAP_VIRT_SIZE, PAGE_SIZE] at * <;> omega

/-! ## Tables in use -/

/-- A mapping call takes pages only for tables it maps something below. -/
private theorem Mapped.tidy (mapped : kernel.Mapped s.memory tables range.first range.limit phys flags range.limit t.memory tables')
    (tidy : kernel.Tidy s.memory tables) : kernel.Tidy t.memory tables' := by
  intro id stays
  rcases mapped.grown id stays with old | ⟨page, start, stop, covers⟩
  · obtain ⟨page, covers, shown⟩ := tidy id old
    refine ⟨page, covers, ?_⟩
    rw [mapped.view]
    split_ifs
    · exact nofun
    · exact shown
  · refine ⟨page, covers, ?_⟩
    rw [mapped.view, if_pos ⟨start, stop⟩]
    exact nofun

/-- An unmapping call that examines what it empties leaves no empty table. -/
private theorem Removed.tidy_of_releasing
    (removed : kernel.Removed s.memory tables range.first range.limit t.memory tables')
    (before : Sound kernel s tables) (after : Sound kernel t tables') (live : t.live = s.live.erase range)
    (member : range ∈ s.live) (releasing : Releasing s (.unmap range)) (tidy : kernel.Tidy s.memory tables) :
    kernel.Tidy t.memory tables' := by
  intro id stays
  have placed := before.placed range member
  have old : tables id ≠ none := by
    rcases removed.fewer id with same | gone
    · rwa [← same]
    · exact absurd gone stays
  obtain ⟨table, registered⟩ := Option.ne_none_iff_exists'.mp old
  have valid := before.shape.registry.valid id table registered
  by_cases ends : id.last < range.limit
  · exact removed.tidy tidy id stays ends
  · by_cases touched : range.Touches (regionStart id) (regionSize id)
    · have choice := releasing _ (regionSize_mem id) _ (regionStart_aligned id) touched
      rw [regionEnd_le_iff placed] at choice
      obtain ⟨other, found, touches⟩ := choice.resolve_left ends
      rw [← live] at found
      obtain ⟨page, covers, holds⟩ := exists_page_of_touches (after.placed other found) touches
      exact ⟨page, covers, (after.view page (covers_lt valid covers)).mpr ⟨other, found, holds⟩⟩
    · obtain ⟨page, covers, shown⟩ := tidy id old
      refine ⟨page, covers, ?_⟩
      rw [removed.view, if_neg]
      · exact shown
      · exact fun inside => touched (touches_of_holds placed covers inside)

/-- In a run whose unmapping calls all meet the condition, every page that was taken for a table is given
back once no range is mapped. -/
theorem table_pages_returned (start : Starts kernel s)
    (run : Run (Guarded (fun s e => Enabled s e ∧ Releasing s e) (exec kernel)) s events t) (unmapped : t.live = []) :
    kernel.Owned t.memory.buddy ∅ ∧ t.memory.buddy.used = s.memory.buddy.used := by
  have initial : ∃ tables, Sound kernel s tables ∧ kernel.Tidy s.memory tables :=
    ⟨_, start.sound, fun _ stays => absurd rfl stays⟩
  have kept : ∀ u e v, (∃ tables, Sound kernel u tables ∧ kernel.Tidy u.memory tables) →
      Guarded (fun s e => Enabled s e ∧ Releasing s e) (exec kernel) u e v →
      ∃ tables, Sound kernel v tables ∧ kernel.Tidy v.memory tables := by
    rintro u e v ⟨tables, sound, tidy⟩ ⟨⟨enabled, releasing⟩, ran⟩
    cases e with
    | map range phys flags =>
      rcases sound.map enabled with ⟨failed, _⟩ | ⟨after, tables', found, soundAfter, _, mapped⟩
      · exact absurd (failed.symm.trans ran) nofun
      · obtain rfl := Except.ok.inj (found.symm.trans ran)
        exact ⟨tables', soundAfter, Mapped.tidy mapped tidy⟩
    | unmap range =>
      obtain ⟨after, tables', found, soundAfter, live, removed⟩ := sound.unmap enabled
      obtain rfl := Except.ok.inj (found.symm.trans ran)
      exact ⟨tables', soundAfter, Removed.tidy_of_releasing removed sound soundAfter live enabled releasing tidy⟩
  obtain ⟨tables, sound, tidy⟩ :=
    run.invariant (I := fun u => ∃ tables, Sound kernel u tables ∧ kernel.Tidy u.memory tables) initial kept
  have none : held tables = ∅ := by
    apply Set.eq_empty_of_forall_notMem
    rintro table ⟨id, registered⟩
    obtain ⟨page, covers, shown⟩ := tidy id (by simp [registered])
    have window := covers_lt (sound.shape.registry.valid id table registered) covers
    obtain ⟨range, member, _⟩ := (sound.view page window).mp shown
    rw [unmapped] at member
    exact absurd member List.not_mem_nil
  have owned := sound.shape.owned
  rw [none] at owned
  exact ⟨owned, kernel.supply.used owned start.owned⟩

/-- A range that ends with a directory ends with every region it touches. -/
private theorem releasing_of_aligned (aligned : range.endVirt % (512 * HUGE_SIZE) = 0) :
    Releasing s (.unmap range) := by
  intro size member start startAligned touches
  left
  have divides : size ∣ range.endVirt := by
    simp only [List.mem_cons, List.not_mem_nil, or_false] at member
    rcases member with rfl | rfl
    · exact (Nat.dvd_mul_left _ _).trans (Nat.dvd_of_mod_eq_zero aligned)
    · exact Nat.dvd_of_mod_eq_zero aligned
  obtain ⟨k, ends⟩ := divides
  obtain ⟨j, starts⟩ := Nat.dvd_of_mod_eq_zero startAligned
  have before := touches.2.2
  rw [ends, starts] at before ⊢
  exact Nat.mul_le_mul_left size (Nat.lt_of_mul_lt_mul_left before)

/-- The last page of the window's first directory. -/
def lastRange : DeviceRange := ⟨IOMAP_START_VIRT + 0x3ffff000, IOMAP_START_VIRT + 0x40000000⟩

theorem table_pages_returned_last : ∃ pool, ∃ accepted : buddyInit (fun _ => 0) (fun _ => ⟨0, 0⟩) 0x203000 0x1d000 = .ok pool,
    ∃ t u, exec (smallKernel accepted) ⟨⟨smallBoot, pool⟩, []⟩ (.map lastRange 0xfee00000 KERNEL_PAGE_FLAG) = .ok t ∧
      t.memory.buddy.used = 0x2000 ∧ exec (smallKernel accepted) t (.unmap lastRange) = .ok u ∧
      u.memory.buddy.used = pool.used := by
  have computed : (do
      let pool ← buddyInit (fun _ => 0) (fun _ => ⟨0, 0⟩) 0x203000 0x1d000
      let memory ← pagetableMmioMap smallRoot lastRange.beginVirt lastRange.endVirt 0xfee00000 KERNEL_PAGE_FLAG
        smallMmap ⟨smallBoot, pool⟩
      let rest ← pagetableMmioUnmap smallRoot lastRange.beginVirt lastRange.endVirt smallMmap memory
      return memory.buddy.used : Result ℕ) = .ok 0x2000 := by
    decide +kernel
  simp only [Except.bind_ok_iff, Except.pure_ok_iff] at computed
  obtain ⟨pool, accepted, memory, ranMap, rest, ranUnmap, used⟩ := computed
  have mapped := small_map_ran accepted ranMap
  have unmapped : exec (smallKernel accepted) ⟨memory, [lastRange]⟩ (.unmap lastRange) = .ok ⟨rest, []⟩ := by
    rw [exec]
    exact Except.bind_ok_iff.mpr ⟨rest, ranUnmap, by rw [List.erase_cons_head]; rfl⟩
  have enabled : Enabled ⟨⟨smallBoot, pool⟩, []⟩ (.map lastRange 0xfee00000 KERNEL_PAGE_FLAG) :=
    ⟨⟨rfl, rfl, by decide, by decide, by decide⟩, fun _ member => absurd member List.not_mem_nil,
      plain_kernel⟩
  have taken : Run (Guarded (fun s e => Enabled s e ∧ Releasing s e) (exec (smallKernel accepted))) _ _ _ :=
    .single ⟨⟨enabled, trivial⟩, mapped⟩
  have run := taken.snoc ⟨⟨List.mem_singleton_self _, releasing_of_aligned rfl⟩, unmapped⟩
  exact ⟨pool, accepted, _, _, mapped, used, unmapped,
    (table_pages_returned (smallKernel_starts accepted) run rfl).2⟩

/-- One page of the window. -/
def onePage : DeviceRange := ⟨IOMAP_START_VIRT, IOMAP_START_VIRT + PAGE_SIZE⟩

/-- One page is mapped and unmapped: both tables that were taken for it stay taken. -/
theorem table_pages_leak : ∃ pool, ∃ accepted : buddyInit (fun _ => 0) (fun _ => ⟨0, 0⟩) 0x203000 0x1d000 = .ok pool,
    ∃ t u, Steps (smallKernel accepted) ⟨⟨smallBoot, pool⟩, []⟩ (.map onePage 0xfee00000 KERNEL_PAGE_FLAG) t ∧
      Steps (smallKernel accepted) t (.unmap onePage) u ∧ u.live = [] ∧ u.memory.buddy.used = pool.used + 2 * PAGE_SIZE := by
  have computed : (do
      let pool ← buddyInit (fun _ => 0) (fun _ => ⟨0, 0⟩) 0x203000 0x1d000
      let memory ← pagetableMmioMap smallRoot onePage.beginVirt onePage.endVirt 0xfee00000 KERNEL_PAGE_FLAG
        smallMmap ⟨smallBoot, pool⟩
      let rest ← pagetableMmioUnmap smallRoot onePage.beginVirt onePage.endVirt smallMmap memory
      return decide (rest.buddy.used = pool.used + 2 * PAGE_SIZE) : Result Bool) = .ok true := by
    decide +kernel
  simp only [Except.bind_ok_iff, Except.pure_ok_iff, decide_eq_true_eq] at computed
  obtain ⟨pool, accepted, memory, ranMap, rest, ranUnmap, used⟩ := computed
  refine ⟨pool, accepted, ⟨memory, [onePage]⟩, ⟨rest, []⟩, ⟨?_, ?_⟩, ⟨?_, ?_⟩, rfl, used⟩
  · exact ⟨⟨rfl, rfl, by decide, by decide, by decide⟩,
      fun _ member => absurd member List.not_mem_nil, plain_kernel⟩
  · exact small_map_ran accepted ranMap
  · exact List.mem_singleton_self _
  · rw [exec]
    exact Except.bind_ok_iff.mpr ⟨rest, ranUnmap, by rw [List.erase_cons_head]; rfl⟩

end RubberOS.Soundness.PageTables
