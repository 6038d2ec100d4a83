import RubberOS.Soundness.PageTables

/-! # The physical addresses behind a mapping

A small leaf shows the physical page of its own virtual page. A block entry does so only if virtual
and physical addresses agree within a block, since the processor takes a block's frame from the upper
bits. `pagetable_mmio_map` looks at the virtual side alone when it chooses between the two.
-/

namespace RubberOS.Soundness.PageTables

open Model Model.Buddy Model.PageTable Model.PageTable.KernelPages Model.MemoryMap Model.Mmio LabelledRuns BitFields

/-- The directory entry over an address, if there is a directory. -/
def directoryEntry (frames : ℕ → ℕ → ℕ) (root virt : ℕ) : Option ℕ :=
  let top := frames root (tableIndex 3 virt)
  let third := frames (top &&& PAGE_MASK_ADDR) (tableIndex 2 virt)
  if isPresent top && isPresent third && !isHuge third then
    some (frames (third &&& PAGE_MASK_ADDR) (tableIndex 1 virt))
  else none

/-- The directory entry over the address is present. -/
def directoryPresent (frames : ℕ → ℕ → ℕ) (root virt : ℕ) : Bool := (directoryEntry frames root virt).any isPresent

/-! ## Leaves -/

section Leaves

variable {first phys flags page virt : ℕ}

private theorem field_entryAt (plain : Plain flags) {k n : ℕ} (lower : 12 ≤ k) (upper : k + n ≤ 52) :
    field (entryAt first phys flags page) k n = field (u64 (phys + (page - first) * PAGE_SIZE)) k n := by
  rw [entryAt, field_or, plain.field_zero lower upper, Nat.or_zero]

private theorem physical_page (plain : Plain flags) :
    (⟨entryAt first phys flags page, 0⟩ : Leaf).physical virt =
      some ((phys + (page - first) * PAGE_SIZE) % 2 ^ 52 / 2 ^ 12 * 2 ^ 12 + virt % 2 ^ 12) := by
  have address : entryAt first phys flags page / 2 ^ 12 % 2 ^ 40 =
      (phys + (page - first) * PAGE_SIZE) % 2 ^ 52 / 2 ^ 12 := by
    change field (entryAt first phys flags page) 12 40 = _
    rw [field_entryAt plain (by decide) (by decide), field, u64]
    omega
  rw [Leaf.physical, if_neg (fun block => block.1 rfl)]
  dsimp only
  rw [show 12 + 9 * 0 = 12 from rfl, show 52 - 12 = 40 from rfl, address]

/-- A block entry is good only where its address is one of a block. -/
private theorem physical_block (plain : Plain flags) :
    (⟨entryAt first phys flags page ||| PAGE_FLAG_HUGE, 1⟩ : Leaf).physical virt =
      if (phys + (page - first) * PAGE_SIZE) / 2 ^ 13 % 2 ^ 8 ≠ 0 then none
      else some ((phys + (page - first) * PAGE_SIZE) % 2 ^ 52 / 2 ^ 21 * 2 ^ 21 + virt % 2 ^ 21) := by
  have address : (entryAt first phys flags page ||| PAGE_FLAG_HUGE) / 2 ^ 21 % 2 ^ 31 =
      (phys + (page - first) * PAGE_SIZE) % 2 ^ 52 / 2 ^ 21 := by
    change field (entryAt first phys flags page ||| PAGE_FLAG_HUGE) 21 31 = _
    rw [field_or, field_entryAt plain (by decide) (by decide),
      show field PAGE_FLAG_HUGE 21 31 = 0 from rfl, Nat.or_zero,
      field, u64]
    omega
  have reserved : (entryAt first phys flags page ||| PAGE_FLAG_HUGE) / 2 ^ 13 % 2 ^ 8 =
      (phys + (page - first) * PAGE_SIZE) / 2 ^ 13 % 2 ^ 8 := by
    change field (entryAt first phys flags page ||| PAGE_FLAG_HUGE) 13 8 = _
    rw [field_or, field_entryAt plain (by decide) (by decide),
      show field PAGE_FLAG_HUGE 13 8 = 0 from rfl, Nat.or_zero,
      field, u64]
    omega
  rw [Leaf.physical]
  dsimp only
  rw [show 12 + 9 * 1 = 21 from rfl, show 52 - 21 = 31 from rfl, show 21 - 13 = 8 from rfl, address, reserved]
  simp

end Leaves

/-! ## Translations of a new mapping -/

variable {kernel : KernelPages} {s t : State} {tables tables' : Registry} {range : DeviceRange} {phys flags : ℕ}
  {events : List Event} {st : PageMemory} {page : ℕ}

/-- Where nothing is mapped, the directory entry is present exactly if the block has a table. -/
private theorem directoryPresent_iff (shape : kernel.Shape st tables) (inside : page < windowPages)
    (vacant : kernel.view st tables page = none) :
    directoryPresent st.frames kernel.root (pageAddress page) = true ↔
      tables (.leaf (page / 512)) ≠ none := by
  obtain ⟨top, third, second, _⟩ := tableIndex_page 0 inside (by decide)
  rw [Nat.add_zero] at top third second
  have valid := valid_directory inside
  have root := shape.root_pointsTo
  have link := shape.links (.directory (page / 512 / 512)) valid kernel.pdpt rfl
  simp only [TableId.slot, KernelPages.read] at link
  rw [directoryPresent, directoryEntry, top, third, second, root.address]
  cases grounded : tables (.directory (page / 512 / 512)) with
  | none =>
    rw [grounded] at link
    have absent : isPresent (st.frames (kernel.frame kernel.pdpt) (page / 512 / 512)) = false :=
      shape.absent_directory valid grounded
    have childless : tables (.leaf (page / 512)) = none := shape.registry.childless grounded
    rw [absent, childless]
    simp
  | some directory =>
    rw [grounded] at link
    rw [root.present, link.present, link.small, link.address]
    simp only [Bool.and_self, Bool.not_false, if_true, Option.any_some]
    cases found : tables (.leaf (page / 512)) with
    | none =>
      have absent : isPresent (st.frames (kernel.frame directory) (page / 512 % 512)) = false :=
        absent_of_vacant grounded found vacant
      rw [absent]
      simp
    | some table =>
      have points := (shape.pointsTo (.leaf (page / 512)) found grounded).present
      exact iff_of_true points (Option.some_ne_none _)

/-- A block of virtual addresses starts at a multiple of 512 pages. -/
private theorem exists_block {block : ℕ} (aligned : block % HUGE_SIZE = 0) (lower : IOMAP_START_VIRT ≤ block) :
    ∃ b, block = pageAddress (b * 512) := by
  refine ⟨(block - IOMAP_START_VIRT) / HUGE_SIZE, ?_⟩
  simp only [pageAddress, HUGE_SIZE, IOMAP_START_VIRT, PAGE_SIZE] at *
  omega

/-- The blocks that the mapping maps as such are those inside the range without a directory entry. -/
private theorem narrow_iff (sound : Sound kernel s tables) (enabled : Enabled s (.map range phys flags)) :
    (∀ b, ¬ Wide tables range.first range.limit b) ↔
      ∀ block, block % HUGE_SIZE = 0 → range.beginVirt ≤ block → block + HUGE_SIZE ≤ range.endVirt →
        directoryPresent s.memory.frames kernel.root block = true := by
  obtain ⟨placed, apart, _⟩ := enabled
  have within := placed.limit_le
  have bytes (b : ℕ) : range.first ≤ b * 512 ∧ b * 512 + 512 ≤ range.limit ↔
      range.beginVirt ≤ pageAddress (b * 512) ∧ pageAddress (b * 512) + HUGE_SIZE ≤ range.endVirt := by
    rw [placed.beginVirt_eq, placed.endVirt_eq]
    simp only [pageAddress, PAGE_SIZE, HUGE_SIZE]
    omega
  have present (b : ℕ) (room : range.first ≤ b * 512 ∧ b * 512 + 512 ≤ range.limit) :
      directoryPresent s.memory.frames kernel.root (pageAddress (b * 512)) = true ↔
          tables (.leaf b) ≠ none := by
    have vacant := sound.vacant placed apart (b * 512) ⟨room.1, by omega⟩
    have meaning := directoryPresent_iff sound.shape (by omega) vacant
    rwa [show b * 512 / 512 = b by omega] at meaning
  constructor
  · intro narrow block aligned start stop
    obtain ⟨b, rfl⟩ := exists_block aligned (Nat.le_trans placed.lower start)
    have room := (bytes b).mpr ⟨start, stop⟩
    exact (present b room).mpr fun vacant => narrow b ⟨vacant, room⟩
  · rintro all b ⟨vacant, room⟩
    obtain ⟨start, stop⟩ := (bytes b).mp room
    refine (present b room).mp (all _ ?_ start stop) vacant
    simp only [pageAddress, HUGE_SIZE, IOMAP_START_VIRT, PAGE_SIZE]
    omega

/-- What the processor finds behind an address of the new mapping. -/
private theorem translate_mapped (mapped : kernel.Mapped s.memory tables range.first range.limit phys flags range.limit t.memory tables')
    (inside : range.Holds page) (within : range.limit ≤ windowPages) {offset : ℕ}
    (small : offset < PAGE_SIZE) :
    translateVirt t.memory.frames kernel.root (pageAddress page + offset) =
      (mappedLeaf tables range.first range.limit phys flags page).physical (pageAddress page + offset) := by
  have own : range.first ≤ page ∧ page < range.limit := inside
  rw [translateVirt, mapped.shape.walk_eq_view (by omega) small, mapped.view, if_pos own, Option.bind_some]

section Leaf

variable {first limit offset : ℕ}

/-- Below the end of physical memory a small leaf shows the page it was made for. -/
private theorem physical_narrow (plain : Plain flags) (narrow : ¬ Wide tables first limit (page / 512))
    (aligned : phys % PAGE_SIZE = 0) (small : offset < PAGE_SIZE)
    (bound : phys + (page - first) * PAGE_SIZE < 2 ^ 52) :
    (mappedLeaf tables first limit phys flags page).physical (pageAddress page + offset) =
      some (phys + ((page - first) * PAGE_SIZE + offset)) := by
  rw [mappedLeaf, if_neg narrow, physical_page plain]
  congr 1
  simp only [pageAddress, IOMAP_START_VIRT, PAGE_SIZE] at *
  omega

/-- A block that agrees with its physical addresses shows them. -/
private theorem physical_wide (plain : Plain flags) (wide : Wide tables first limit (page / 512))
    (agree : phys % HUGE_SIZE = pageAddress first % HUGE_SIZE) (small : offset < PAGE_SIZE)
    (bound : phys + (page - first) * PAGE_SIZE < 2 ^ 52) :
    (mappedLeaf tables first limit phys flags page).physical (pageAddress page + offset) =
      some (phys + ((page - first) * PAGE_SIZE + offset)) := by
  have start := wide.2.1
  have good : ¬ (phys + (page / 512 * 512 - first) * PAGE_SIZE) / 2 ^ 13 % 2 ^ 8 ≠ 0 := by
    simp only [pageAddress, HUGE_SIZE, IOMAP_START_VIRT, PAGE_SIZE] at *
    omega
  rw [mappedLeaf, if_pos wide, physical_block plain, if_neg good]
  congr 1
  simp only [pageAddress, HUGE_SIZE, IOMAP_START_VIRT, PAGE_SIZE] at *
  omega

/-- A block shows the right address for its start only where the two sides agree. -/
private theorem agree_of_wide (plain : Plain flags) {b : ℕ} (wide : Wide tables first limit b)
    (right : (mappedLeaf tables first limit phys flags (b * 512)).physical (pageAddress (b * 512) + 0) =
      some (phys + ((b * 512 - first) * PAGE_SIZE + 0))) :
    phys % HUGE_SIZE = pageAddress first % HUGE_SIZE := by
  have block : b * 512 / 512 = b := by omega
  have start := wide.2.1
  rw [mappedLeaf, block, if_pos wide, physical_block plain] at right
  split_ifs at right with reserved
  have same := Option.some.inj right
  simp only [pageAddress, HUGE_SIZE, IOMAP_START_VIRT, PAGE_SIZE] at *
  omega

/-- Every translation ends below the end of physical memory. -/
private theorem physical_lt (plain : Plain flags) {virt found : ℕ}
    (right : (mappedLeaf tables first limit phys flags page).physical virt = some found) :
    found < 2 ^ 52 := by
  rw [mappedLeaf] at right
  split_ifs at right with wide
  · rw [physical_block plain] at right
    split_ifs at right
    have same := Option.some.inj right
    omega
  · rw [physical_page plain] at right
    have same := Option.some.inj right
    omega

end Leaf

/-- In every state of every run a new mapping translates each address of its range as asked exactly if
the physical range ends in time, and either the two sides agree within blocks or no block inside the
range lacks a directory entry. -/
theorem map_translates_iff (start : Starts kernel s) (run : Run (Steps kernel) s events t)
    (enabled : Enabled t (.map range phys flags)) (nonempty : range.beginVirt < range.endVirt)
    (aligned : phys % PAGE_SIZE = 0) {u : State} (ran : exec kernel t (.map range phys flags) = .ok u) :
    (∀ o < range.endVirt - range.beginVirt,
        translateVirt u.memory.frames kernel.root (range.beginVirt + o) = some (phys + o)) ↔
      phys + (range.endVirt - range.beginVirt) ≤ 2 ^ 52 ∧
      (phys % HUGE_SIZE = range.beginVirt % HUGE_SIZE ∨
        ∀ block, block % HUGE_SIZE = 0 → range.beginVirt ≤ block → block + HUGE_SIZE ≤ range.endVirt →
          directoryPresent t.memory.frames kernel.root block = true) := by
  obtain ⟨tables, sound⟩ := run_sound start run
  obtain ⟨placed, apart, plain⟩ := id enabled
  rcases sound.map enabled with ⟨failed, _⟩ | ⟨after, tables', found, kept, _, mapped⟩
  · exact absurd (failed.symm.trans ran) nofun
  obtain rfl := Except.ok.inj (found.symm.trans ran)
  have within := placed.limit_le
  have begins := placed.beginVirt_eq
  have ends := placed.endVirt_eq
  have length : range.endVirt - range.beginVirt = (range.limit - range.first) * PAGE_SIZE := by
    rw [begins, ends]
    simp only [pageAddress, PAGE_SIZE]
    omega
  -- the address of a page of the range, as an offset from the start
  have address (page offset : ℕ) (lower : range.first ≤ page) :
      pageAddress page + offset = range.beginVirt + ((page - range.first) * PAGE_SIZE + offset) := by
    rw [begins]
    simp only [pageAddress, PAGE_SIZE]
    omega
  rw [← narrow_iff sound enabled, length]
  constructor
  · intro right
    have at' (page offset : ℕ) (inside : range.Holds page) (small : offset < PAGE_SIZE) :
        (mappedLeaf tables range.first range.limit phys flags page).physical (pageAddress page + offset) =
          some (phys + ((page - range.first) * PAGE_SIZE + offset)) := by
      have bound : (page - range.first) * PAGE_SIZE + offset < (range.limit - range.first) * PAGE_SIZE := by
        have lower := inside.1
        have upper := inside.2
        simp only [PAGE_SIZE] at *
        omega
      rw [← translate_mapped mapped inside within small, address page offset inside.1]
      exact right _ bound
    constructor
    · have pages : range.first < range.limit := by
        rw [begins, ends] at nonempty
        simp only [pageAddress, PAGE_SIZE] at nonempty
        omega
      have last := physical_lt plain (at' (range.limit - 1) (PAGE_SIZE - 1) ⟨by omega, by omega⟩ (by decide))
      simp only [PAGE_SIZE] at *
      omega
    · by_contra neither
      rw [not_or, not_forall] at neither
      obtain ⟨disagree, b, wide⟩ := neither
      rw [not_not] at wide
      have inside : range.Holds (b * 512) := ⟨wide.2.1, Nat.lt_of_lt_of_le (by omega) wide.2.2⟩
      rw [begins] at disagree
      exact disagree (agree_of_wide plain wide (at' (b * 512) 0 inside (by decide)))
  · rintro ⟨top, choice⟩ o small
    have split : ∃ page offset, range.Holds page ∧ offset < PAGE_SIZE ∧
        o = (page - range.first) * PAGE_SIZE + offset := by
      refine ⟨range.first + o / PAGE_SIZE, o % PAGE_SIZE, ⟨Nat.le_add_right _ _, ?_⟩,
        Nat.mod_lt _ (by decide), ?_⟩
      · simp only [PAGE_SIZE] at *
        omega
      · rw [Nat.add_sub_cancel_left]
        exact (Nat.div_add_mod' o PAGE_SIZE).symm
    obtain ⟨page, offset, inside, inPage, rfl⟩ := split
    have bound : phys + (page - range.first) * PAGE_SIZE < 2 ^ 52 := by omega
    rw [← address page offset inside.1, translate_mapped mapped inside within inPage]
    by_cases wide : Wide tables range.first range.limit (page / 512)
    · have agree := choice.resolve_right fun narrow => narrow _ wide
      rw [begins] at agree
      exact physical_wide plain wide agree inPage bound
    · exact physical_narrow plain wide aligned inPage bound

theorem map_translates_small : ∃ pool, ∃ accepted : buddyInit (fun _ => 0) (fun _ => ⟨0, 0⟩) 0x203000 0x1d000 = .ok pool,
    ∃ t, exec (smallKernel accepted) ⟨⟨smallBoot, pool⟩, []⟩ (.map smallRange 0xfe1ff000 KERNEL_PAGE_FLAG) = .ok t ∧
      translateVirt t.memory.frames (smallKernel accepted).root (smallRange.beginVirt + 0x1234) = some (0xfe1ff000 + 0x1234) := by
  obtain ⟨pool, accepted, memory, mapped⟩ := small_range_mapped
  have right := map_translates_iff (smallKernel_starts accepted) .nil small_map_enabled (by decide) rfl mapped
  have agree : 0xfe1ff000 % HUGE_SIZE = smallRange.beginVirt % HUGE_SIZE := by decide
  exact ⟨pool, accepted, _, mapped, right.mpr ⟨by decide, .inl agree⟩ 0x1234 (by decide)⟩

/-- One block of the window. -/
def blockRange : DeviceRange := ⟨IOMAP_START_VIRT, IOMAP_START_VIRT + 0x200000⟩

/-- A block of device registers that does not start at a block of physical memory is mapped by one entry
with a reserved bit set, and the processor translates none of it. -/
theorem map_misaligned_block : ∃ pool, ∃ accepted : buddyInit (fun _ => 0) (fun _ => ⟨0, 0⟩) 0x203000 0x1d000 = .ok pool,
    ∃ t, Enabled ⟨⟨smallBoot, pool⟩, []⟩ (.map blockRange 0xfed00000 KERNEL_PAGE_FLAG) ∧
      exec (smallKernel accepted) ⟨⟨smallBoot, pool⟩, []⟩ (.map blockRange 0xfed00000 KERNEL_PAGE_FLAG) = .ok t ∧
      walk t.memory.frames (smallKernel accepted).root blockRange.beginVirt =
        some ⟨0xfed00000 ||| KERNEL_PAGE_FLAG ||| PAGE_FLAG_HUGE, 1⟩ ∧
      translateVirt t.memory.frames (smallKernel accepted).root (blockRange.beginVirt + 0) ≠ some (0xfed00000 + 0) := by
  have computed : (do
      let pool ← buddyInit (fun _ => 0) (fun _ => ⟨0, 0⟩) 0x203000 0x1d000
      let memory ← pagetableMmioMap smallRoot blockRange.beginVirt blockRange.endVirt 0xfed00000 KERNEL_PAGE_FLAG
        smallMmap ⟨smallBoot, pool⟩
      return (walk memory.frames 0x201000 blockRange.beginVirt,
        translateVirt memory.frames 0x201000 blockRange.beginVirt) :
        Result _) = .ok (some ⟨0xfed00000 ||| KERNEL_PAGE_FLAG ||| PAGE_FLAG_HUGE, 1⟩, none) := by
    decide +kernel
  simp only [Except.bind_ok_iff, Except.pure_ok_iff, Prod.mk.injEq] at computed
  obtain ⟨pool, accepted, memory, ran, leaf, fault⟩ := computed
  refine ⟨pool, accepted, ⟨memory, [blockRange]⟩, ?_, ?_, ?_⟩
  · exact ⟨⟨rfl, rfl, by decide, by decide, by decide⟩,
      fun _ member => absurd member List.not_mem_nil, plain_kernel⟩
  · exact small_map_ran accepted ran
  · rw [smallKernel_root, Nat.add_zero, fault]
    exact ⟨leaf, (Option.some_ne_none _).symm⟩

end RubberOS.Soundness.PageTables
