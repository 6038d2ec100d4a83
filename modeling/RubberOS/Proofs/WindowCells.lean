import RubberOS.Proofs.PageBootstrap
import RubberOS.Proofs.PageRegistry

/-! # The cells behind a walk

After the construction a walk of the lower half reads the root and the table pages of the window, and a
walk of the upper half the three tables of the kernel image. No walk reads a page of the window that
holds no table.
-/

namespace RubberOS.Model.PageConstruct

open MemoryMap Mmio PageTable BitFields

namespace FreshKernel

variable {kernel : FreshKernel} {last level c t virt : ℕ} {frames : Frames}

/-- No entry is present in the three pages of the first tables, which the construction does not clear. -/
def Clean (kernel : FreshKernel) : Prop := ∀ j < 3, ∀ k, isPresent (kernel.boot (kernel.phys j) k) = false

/-- The tables are filled exactly up to page `last`. -/
abbrev Full (kernel : FreshKernel) (last : ℕ) (frames : Frames) : Prop :=
  kernel.Stage last frames (fun level => last / 512 ^ level) (fun level => last / 512 ^ (level + 1))

theorem Clean.blank (clean : kernel.Clean) (root : level ≤ 3) (half : level = 3 → c < 256) :
    isPresent (kernel.blank level c) = false := by
  rw [FreshKernel.blank]
  split_ifs with first
  · rw [first]
    interval_cases level
    · exact clean 2 (by decide) _
    · exact clean 1 (by decide) _
    · exact clean 0 (by decide) _
    · rw [frameAt_root, kernel.vacant _ (by have := half rfl; omega)]
      rfl
  · rfl

/-- A table in use is the root or one of the first pages of the window. -/
private theorem InUse.frameAt_cases (use : InUse last level t) (started : 512 ≤ last) :
    kernel.frameAt level t = kernel.layout.root ∨ ∃ m < tableCount last, kernel.frameAt level t = kernel.phys m := by
  rcases Nat.lt_or_eq_of_le use.root with below | rfl
  · exact .inr ⟨_, use.tablePage_lt (by omega) started, frameAt_below (by omega)⟩
  · exact .inl frameAt_root

private theorem Reached.use_succ (use : InUse last level t) : InUse (last + 1) level t :=
  ⟨use.root, use.lower, use.upper.trans (Nat.div_le_div_right (Nat.le_succ last))⟩

/-- The entry below which a walk goes on leads to another table in use. -/
private theorem Stage.walkCells_lower (stage : kernel.Full last frames) (reached : kernel.Reached last)
    (clean : kernel.Clean)
    (half : virt < 2 ^ 47) (use : InUse last level (virt / PAGE_SIZE / 512 ^ (level + 1))) :
    ∀ cell ∈ walkCells frames virt level (kernel.frameAt level (virt / PAGE_SIZE / 512 ^ (level + 1))),
      ∃ other t, InUse last other t ∧ cell.1 = kernel.frameAt other t := by
  induction level with
  | zero =>
    intro cell member
    obtain rfl := List.mem_singleton.mp member
    exact ⟨0, _, use, rfl⟩
  | succ level ih =>
    intro cell member
    rw [walkCells, List.mem_cons] at member
    rcases member with rfl | member
    · exact ⟨level + 1, _, use, rfl⟩
    · have root := use.root
      have upper := use.upper
      have entry : frames (kernel.frameAt (level + 1) (virt / PAGE_SIZE / 512 ^ (level + 1 + 1))) (tableIndex (level + 1) virt) =
          frames (kernel.frameAt (level + 1) (virt / PAGE_SIZE / 512 ^ (level + 1) / 512))
            (virt / PAGE_SIZE / 512 ^ (level + 1) % 512) := by
        rw [tableIndex_eq, div_pow_succ]
      rw [entry] at member
      rw [div_pow_succ _ (level + 1)] at upper
      -- the entry is the one below the window, one that leads to a table, or one behind the last
      rcases Nat.lt_or_ge (virt / PAGE_SIZE / 512 ^ (level + 1)) (firstEntry (level + 1)) with before | lower
      · obtain rfl : level = 0 := by
          by_contra above
          have zero : firstEntry (level + 1) = 0 := by
            have small : level = 1 ∨ level = 2 := by omega
            rcases small with rfl | rfl <;> rfl
          rw [zero] at before
          exact Nat.not_lt_zero _ before
        have first : virt / PAGE_SIZE / 512 ^ (0 + 1) = 0 := Nat.lt_one_iff.mp before
        rw [first, show kernel.frameAt (0 + 1) (0 / 512) = kernel.frameAt 1 0 from rfl, stage.early,
          show kernel.frameAt 1 0 = kernel.phys 1 from rfl, clean 1 (by decide)] at member
        cases member
      · have built := stage.built (level + 1) root _ lower upper
        rw [built, FreshKernel.cell] at member
        split_ifs at member with filled present present
        · have next : InUse last level (virt / PAGE_SIZE / 512 ^ (level + 1)) := ⟨by omega, lower, filled⟩
          obtain ⟨aligned, bound⟩ := reached.frameAt_bounds (Reached.use_succ next)
          rw [targetOf, address_or plain_kernel aligned bound] at member
          exact ih next cell member
        · cases member
        · have number : level + 1 = 3 → virt / PAGE_SIZE / 512 ^ (level + 1) < 256 := by
            intro top
            rw [top]
            simp only [PAGE_SIZE]
            omega
          rw [clean.blank root number] at present
          cases present
        · cases member

/-- A walk of the lower half reads the root and table pages only. -/
theorem Stage.walkCells_window (stage : kernel.Full last frames) (reached : kernel.Reached last) (clean : kernel.Clean)
    (half : virt < 2 ^ 47) : ∀ cell ∈ walkCells frames virt 3 kernel.layout.root,
      cell.1 = kernel.layout.root ∨ ∃ m < tableCount last, cell.1 = kernel.phys m := by
  intro cell member
  have started := reached.started
  have top : virt / PAGE_SIZE / 512 ^ (3 + 1) = 0 := by
    simp only [PAGE_SIZE]
    omega
  have use : InUse last 3 (virt / PAGE_SIZE / 512 ^ (3 + 1)) := ⟨le_rfl, by rw [top]; decide, by rw [top]; exact Nat.zero_le _⟩
  have cells := stage.walkCells_lower reached clean half use
  rw [top, frameAt_root] at cells
  obtain ⟨other, t, used, same⟩ := cells cell member
  rw [same]
  exact InUse.frameAt_cases used (by omega)

/-- The first entries on the upper levels lead to the first tables. -/
private theorem Linked.first_link (linked : kernel.Linked last frames) (low : 1 ≤ level) (root : level ≤ 2) :
    frames (kernel.frameAt (level + 1) 0) 0 = kernel.frameAt level 0 ||| KERNEL_PAGE_FLAG := by
  have zero : firstEntry (level + 1) ≤ 0 := by
    rcases (show level = 1 ∨ level = 2 by omega) with rfl | rfl
    · decide
    · decide
  have link := linked (level + 1) (by omega) 0 zero (Nat.zero_le _)
  rwa [Nat.zero_div, Nat.zero_mod, targetOf] at link

/-- Below the window nothing is mapped. -/
theorem Stage.walk_below (stage : kernel.Full last frames) (reached : kernel.Reached last) (clean : kernel.Clean)
    (below : virt < DYNMEM_START_VIRT) : walk frames kernel.layout.root virt = none := by
  have digits : tableIndex 3 virt = 0 ∧ tableIndex 2 virt = 0 ∧ tableIndex 1 virt = 0 := by
    simp only [tableIndex, DYNMEM_START_VIRT] at *
    omega
  obtain ⟨third, second, first⟩ := digits
  have bounds (level : ℕ) (low : 1 ≤ level) (root : level ≤ 2) :
      kernel.frameAt level 0 % PAGE_SIZE = 0 ∧ kernel.frameAt level 0 < 2 ^ 52 := by
    refine reached.frameAt_bounds ⟨by omega, ?_, Nat.zero_le _⟩
    interval_cases level <;> decide
  have top : frames kernel.layout.root (tableIndex 3 virt) = kernel.frameAt 2 0 ||| KERNEL_PAGE_FLAG := by
    rw [third, ← frameAt_root]
    exact stage.linked.first_link (by decide) le_rfl
  have upper : frames (kernel.frameAt 2 0) (tableIndex 2 virt) = kernel.frameAt 1 0 ||| KERNEL_PAGE_FLAG := by
    rw [second]
    exact stage.linked.first_link le_rfl (by decide)
  have absent : isPresent (frames (kernel.frameAt 1 0) (tableIndex 1 virt)) = false := by
    rw [first, stage.early]
    exact clean 1 (by decide) 0
  obtain ⟨aligned₂, bound₂⟩ := bounds 2 (by decide) le_rfl
  obtain ⟨aligned₁, bound₁⟩ := bounds 1 le_rfl (by decide)
  rw [walk, walkFrom_link plain_kernel top aligned₂ bound₂, walkFrom_link plain_kernel upper aligned₁ bound₁,
    walkFrom_absent absent]

end FreshKernel

/-! ## The tables of the kernel image -/

/-- The entries that `pagetable_construct_kernel` leaves in the upper half: the image and the stack in
blocks of the one directory. -/
structure ImageTables (layout : KernelLayout) (frames : Frames) : Prop where
  top : frames layout.root 511 = virtToPhysKernel layout.pdpt ||| KERNEL_PAGE_FLAG
  topVacant : ∀ i, 256 ≤ i → i < 511 → isPresent (frames layout.root i) = false
  second : frames (virtToPhysKernel layout.pdpt) 510 = virtToPhysKernel layout.pdt ||| KERNEL_PAGE_FLAG
  secondVacant : ∀ i, i ≠ 510 → isPresent (frames (virtToPhysKernel layout.pdpt) i) = false
  image : ∀ i < 2, frames (virtToPhysKernel layout.pdt) i =
    (KERNEL_START_PHYS + i * 2 ^ 21) ||| PAGE_FLAG_HUGE ||| KERNEL_PAGE_FLAG
  stack : frames (virtToPhysKernel layout.pdt) 0x78 = layout.kstackStartPhys ||| PAGE_FLAG_HUGE ||| KERNEL_PAGE_FLAG
  vacant : ∀ i, 2 ≤ i → i ≠ 0x78 → isPresent (frames (virtToPhysKernel layout.pdt) i) = false

/-- What the linker and the compiler see to: static tables in the image, `tmptable` on the stack, and
pages of their own for each. -/
structure Placement (layout : KernelLayout) : Prop where
  rootPage : ImagePage layout.gPagetable
  pdptPage : ImagePage layout.pdpt
  pdtPage : ImagePage layout.pdt
  pdptApart : layout.pdpt ≠ layout.gPagetable
  pdtApart : layout.pdt ≠ layout.gPagetable ∧ layout.pdt ≠ layout.pdpt
  stackAligned : layout.tmpPhys % PAGE_SIZE = 0
  stackLow : layout.tmpPhys < DYNMEM_START_PHYS_MINIMUM
  stackApart : layout.tmpPhys ≠ layout.root ∧ layout.tmpPhys ≠ virtToPhysKernel layout.pdpt ∧
    layout.tmpPhys ≠ virtToPhysKernel layout.pdt

/-- The static tables are zero when the kernel starts. -/
structure ClearedTables (layout : KernelLayout) (frames : Frames) : Prop where
  root : ∀ i, frames layout.root i = 0
  pdpt : ∀ i, frames (virtToPhysKernel layout.pdpt) i = 0
  pdt : ∀ i, frames (virtToPhysKernel layout.pdt) i = 0

section Image

variable {layout : KernelLayout} {frames after : Frames} {virt i : ℕ}

/-- Pages of the image at different addresses are different frames. -/
private theorem imageFrame_injective {table other : ℕ} (page : ImagePage table) (pageOther : ImagePage other)
    (same : virtToPhysKernel table = virtToPhysKernel other) : table = other := by
  rw [page.virtToPhys_eq, pageOther.virtToPhys_eq] at same
  have lower := page.lower
  have lowerOther := pageOther.lower
  omega

theorem Placement.frames_apart (placed : Placement layout) : virtToPhysKernel layout.pdpt ≠ layout.root ∧
    virtToPhysKernel layout.pdt ≠ layout.root ∧ virtToPhysKernel layout.pdt ≠ virtToPhysKernel layout.pdpt :=
  ⟨fun same => placed.pdptApart (imageFrame_injective placed.pdptPage placed.rootPage same),
    fun same => placed.pdtApart.1 (imageFrame_injective placed.pdtPage placed.rootPage same),
    fun same => placed.pdtApart.2 (imageFrame_injective placed.pdtPage placed.pdptPage same)⟩

theorem constructKernel_root (placed : Placement layout) (cleared : ClearedTables layout frames) (i : ℕ) :
    pagetableConstructKernel layout frames layout.root i =
      if i = 511 then virtToPhysKernel layout.pdpt ||| KERNEL_PAGE_FLAG else 0 := by
  obtain ⟨pdpt, pdt, _⟩ := placed.frames_apart
  simp only [pagetableConstructKernel, Frames.write_apply, pdpt.symm, pdt.symm, false_and, true_and, if_false]
  split_ifs
  · rfl
  · exact cleared.root i

private theorem constructKernel_pdpt (placed : Placement layout) (cleared : ClearedTables layout frames) (i : ℕ) :
    pagetableConstructKernel layout frames (virtToPhysKernel layout.pdpt) i =
      if i = 510 then virtToPhysKernel layout.pdt ||| KERNEL_PAGE_FLAG else 0 := by
  obtain ⟨pdpt, _, pdt⟩ := placed.frames_apart
  simp only [pagetableConstructKernel, Frames.write_apply, pdpt, pdt.symm, false_and, true_and, if_false]
  split_ifs
  · rfl
  · exact cleared.pdpt i

private theorem constructKernel_pdt (placed : Placement layout) (cleared : ClearedTables layout frames) (i : ℕ) :
    pagetableConstructKernel layout frames (virtToPhysKernel layout.pdt) i =
      if i = 0x78 then layout.kstackStartPhys ||| PAGE_FLAG_HUGE ||| KERNEL_PAGE_FLAG
      else if i < 2 then (KERNEL_START_PHYS + i * 2 ^ 21) ||| PAGE_FLAG_HUGE ||| KERNEL_PAGE_FLAG else 0 := by
  obtain ⟨_, root, pdpt⟩ := placed.frames_apart
  simp only [pagetableConstructKernel, Frames.write_apply, root, pdpt, false_and, true_and, if_false]
  by_cases stack : i = 0x78
  · rw [if_pos stack, if_pos stack]
  · rw [if_neg stack, if_neg stack]
    by_cases second : i = 1
    · subst second
      rfl
    · by_cases first : i = 0
      · subst first
        rfl
      · rw [if_neg second, if_neg first, if_neg (by omega)]
        exact cleared.pdt i

/-- `pagetable_construct_kernel` on static tables. -/
theorem constructKernel_image (placed : Placement layout) (cleared : ClearedTables layout frames) :
    ImageTables layout (pagetableConstructKernel layout frames) where
  top := by rw [constructKernel_root placed cleared, if_pos rfl]
  topVacant i _ upper := by
    rw [constructKernel_root placed cleared, if_neg upper.ne]
    rfl
  second := by rw [constructKernel_pdpt placed cleared, if_pos rfl]
  secondVacant i other := by
    rw [constructKernel_pdpt placed cleared, if_neg other]
    rfl
  image i small := by rw [constructKernel_pdt placed cleared, if_neg (by omega), if_pos small]
  stack := by rw [constructKernel_pdt placed cleared, if_pos rfl]
  vacant i lower other := by
    rw [constructKernel_pdt placed cleared, if_neg other, if_neg (by omega)]
    rfl

/-- The tables of the image in frames that agree with others on them. -/
theorem ImageTables.congr (image : ImageTables layout frames)
    (root : ∀ i, 256 ≤ i → i < 512 → after layout.root i = frames layout.root i)
    (pdpt : after (virtToPhysKernel layout.pdpt) = frames (virtToPhysKernel layout.pdpt))
    (pdt : after (virtToPhysKernel layout.pdt) = frames (virtToPhysKernel layout.pdt)) : ImageTables layout after where
  top := by rw [root 511 (by decide) (by decide), image.top]
  topVacant i lower upper := by rw [root i lower (by omega), image.topVacant i lower upper]
  second := by rw [pdpt, image.second]
  secondVacant i other := by rw [pdpt, image.secondVacant i other]
  image i small := by rw [pdt, image.image i small]
  stack := by rw [pdt, image.stack]
  vacant i lower other := by rw [pdt, image.vacant i lower other]

/-! ### Walks of the upper half -/

/-- The address lies in the kernel image. -/
def InImage (virt : ℕ) : Prop := KERNEL_START_VIRT ≤ virt ∧ virt < KERNEL_START_VIRT + KERNEL_SIZE

/-- The address lies on the kernel stack. -/
def InStack (virt : ℕ) : Prop := KSTACK_START_VIRT ≤ virt ∧ virt < KSTACK_START_VIRT + HUGE_SIZE

instance : DecidablePred InImage := fun _ => inferInstanceAs (Decidable (_ ∧ _))

instance : DecidablePred InStack := fun _ => inferInstanceAs (Decidable (_ ∧ _))

/-- What the tables of the image show in the upper half, besides the device mappings. -/
def imageAddress (layout : KernelLayout) (virt : ℕ) : Option ℕ :=
  if InImage virt then some (virt - KERNEL_START_VIRT + KERNEL_START_PHYS)
  else if InStack virt then some (virt - KSTACK_START_VIRT + layout.kstackStartPhys)
  else none

private theorem inImage_iff (half : 2 ^ 64 - 2 ^ 47 ≤ virt) (word : virt < 2 ^ 64) :
    InImage virt ↔ tableIndex 3 virt = 511 ∧ tableIndex 2 virt = 510 ∧ tableIndex 1 virt < 2 := by
  simp only [InImage, tableIndex, KERNEL_START_VIRT, KERNEL_SIZE]
  omega

private theorem inStack_iff (half : 2 ^ 64 - 2 ^ 47 ≤ virt) (word : virt < 2 ^ 64) :
    InStack virt ↔ tableIndex 3 virt = 511 ∧ tableIndex 2 virt = 510 ∧ tableIndex 1 virt = 0x78 := by
  simp only [InStack, tableIndex, KSTACK_START_VIRT, HUGE_SIZE]
  omega

/-- A block entry reads back as present, huge and at its address. -/
private theorem block_entry {base : ℕ} (aligned : base % HUGE_SIZE = 0) (bound : base < 2 ^ 52) :
    isPresent (base ||| PAGE_FLAG_HUGE ||| KERNEL_PAGE_FLAG) = true ∧
      isHuge (base ||| PAGE_FLAG_HUGE ||| KERNEL_PAGE_FLAG) = true ∧
      ∀ virt, (⟨base ||| PAGE_FLAG_HUGE ||| KERNEL_PAGE_FLAG, 1⟩ : Leaf).physical virt = some (base + virt % HUGE_SIZE) := by
  have part (k n : ℕ) : field (base ||| PAGE_FLAG_HUGE ||| KERNEL_PAGE_FLAG) k n =
      field base k n ||| field PAGE_FLAG_HUGE k n ||| field KERNEL_PAGE_FLAG k n := by
    rw [field_or, field_or]
  simp only [HUGE_SIZE] at aligned
  refine ⟨isPresent_or plain_kernel, isHuge_iff.mpr ?_, fun virt => ?_⟩
  · have bit : field (base ||| PAGE_FLAG_HUGE) 7 1 = 1 := field_or_one (by decide)
    rw [field_or, bit]
    rfl
  · have frame := part 21 31
    have reserved := part 13 8
    rw [show field PAGE_FLAG_HUGE 21 31 = 0 from rfl, show field KERNEL_PAGE_FLAG 21 31 = 0 from rfl, Nat.or_zero,
      Nat.or_zero, field, field] at frame
    rw [show field PAGE_FLAG_HUGE 13 8 = 0 from rfl, show field KERNEL_PAGE_FLAG 13 8 = 0 from rfl, Nat.or_zero,
      Nat.or_zero, field, field] at reserved
    rw [Leaf.physical]
    dsimp only
    rw [show 12 + 9 * 1 = 21 from rfl, show 52 - 21 = 31 from rfl, show 21 - 13 = 8 from rfl, frame, reserved,
      if_neg (by omega), HUGE_SIZE]
    congr 1
    omega

private theorem image_base (small : i < 2) :
    (KERNEL_START_PHYS + i * 2 ^ 21) % HUGE_SIZE = 0 ∧ KERNEL_START_PHYS + i * 2 ^ 21 < 2 ^ 52 := by
  simp only [KERNEL_START_PHYS, HUGE_SIZE]
  omega

/-- The last levels of a walk of the upper half. -/
private theorem ImageTables.walkFrom_pdt (image : ImageTables layout frames)
    (aligned : layout.kstackStartPhys % HUGE_SIZE = 0)
    (bound : layout.kstackStartPhys < 2 ^ 52) (virt : ℕ) :
    walkFrom frames virt 1 (virtToPhysKernel layout.pdt) =
      (if tableIndex 1 virt < 2 then
        some ⟨(KERNEL_START_PHYS + tableIndex 1 virt * 2 ^ 21) ||| PAGE_FLAG_HUGE ||| KERNEL_PAGE_FLAG, 1⟩
      else if tableIndex 1 virt = 0x78 then some ⟨layout.kstackStartPhys ||| PAGE_FLAG_HUGE ||| KERNEL_PAGE_FLAG, 1⟩
      else none) ∧
    walkCells frames virt 1 (virtToPhysKernel layout.pdt) = [(virtToPhysKernel layout.pdt, tableIndex 1 virt)] := by
  rw [walkFrom, walkCells, Nat.zero_add]
  by_cases low : tableIndex 1 virt < 2
  · obtain ⟨present, huge, _⟩ := block_entry (image_base low).1 (image_base low).2
    rw [if_pos low, image.image _ low, present, huge]
    exact ⟨rfl, rfl⟩
  · rw [if_neg low]
    by_cases stack : tableIndex 1 virt = 0x78
    · obtain ⟨present, huge, _⟩ := block_entry aligned bound
      rw [if_pos stack, stack, image.stack, present, huge]
      exact ⟨rfl, rfl⟩
    · rw [if_neg stack, image.vacant _ (by omega) stack]
      exact ⟨rfl, rfl⟩

private theorem walkCells_link {level table base : ℕ}
    (entry : frames table (tableIndex (level + 1) virt) = base ||| KERNEL_PAGE_FLAG)
    (aligned : base % PAGE_SIZE = 0) (bound : base < 2 ^ 52) :
    walkCells frames virt (level + 1) table = (table, tableIndex (level + 1) virt) :: walkCells frames virt level base := by
  rw [walkCells, entry, isPresent_or plain_kernel, isHuge_or plain_kernel aligned, address_or plain_kernel aligned bound]
  rfl

private theorem walkCells_absent {level table : ℕ}
    (absent : isPresent (frames table (tableIndex (level + 1) virt)) = false) :
    walkCells frames virt (level + 1) table = [(table, tableIndex (level + 1) virt)] := by
  rw [walkCells, absent]
  rfl

/-- Outside the device mappings, the upper half shows the image and the stack, through the static tables. -/
theorem ImageTables.upper (image : ImageTables layout frames) (placed : Placement layout)
    (aligned : layout.kstackStartPhys % HUGE_SIZE = 0) (bound : layout.kstackStartPhys < 2 ^ 52)
    (half : 2 ^ 64 - 2 ^ 47 ≤ virt) (word : virt < 2 ^ 64) (outside : ¬ InIomap virt) :
    translateVirt frames layout.root virt = imageAddress layout virt ∧
      ∀ cell ∈ walkCells frames virt 3 layout.root, cell.1 = layout.root ∨
        cell.1 = virtToPhysKernel layout.pdpt ∧ 508 ≤ cell.2 ∨ cell.1 = virtToPhysKernel layout.pdt := by
  have pdptBounds := placed.pdptPage.bounds
  have pdtBounds := placed.pdtPage.bounds
  simp only [DYNMEM_START_PHYS_MINIMUM] at pdptBounds pdtBounds
  have apart : ¬ (IOMAP_START_VIRT ≤ virt ∧ virt < IOMAP_START_VIRT + IOMAP_VIRT_SIZE) := outside
  simp only [IOMAP_START_VIRT, IOMAP_VIRT_SIZE] at apart
  have isImage := inImage_iff half word
  have isStack := inStack_iff half word
  rw [translateVirt, walk, imageAddress]
  by_cases top : tableIndex 3 virt = 511
  · have link : frames layout.root (tableIndex 3 virt) = virtToPhysKernel layout.pdpt ||| KERNEL_PAGE_FLAG := by
      rw [top, image.top]
    have third : 508 ≤ tableIndex 2 virt := by
      simp only [tableIndex] at top ⊢
      omega
    rw [walkFrom_link plain_kernel link pdptBounds.1 (by omega), walkCells_link link pdptBounds.1 (by omega)]
    by_cases second : tableIndex 2 virt = 510
    · have link' : frames (virtToPhysKernel layout.pdpt) (tableIndex 2 virt) =
          virtToPhysKernel layout.pdt ||| KERNEL_PAGE_FLAG := by rw [second, image.second]
      obtain ⟨found, cells⟩ := image.walkFrom_pdt aligned bound virt
      rw [walkFrom_link plain_kernel link' pdtBounds.1 (by omega), walkCells_link link' pdtBounds.1 (by omega), found, cells]
      constructor
      · by_cases low : tableIndex 1 virt < 2
        · have inside := isImage.mpr ⟨top, second, low⟩
          rw [if_pos low, if_pos inside, Option.bind_some, (block_entry (image_base low).1 (image_base low).2).2.2]
          simp only [InImage, tableIndex, KERNEL_START_VIRT, KERNEL_START_PHYS, KERNEL_SIZE, HUGE_SIZE] at inside ⊢
          exact congrArg some (by omega)
        · rw [if_neg low, if_neg fun inside => low (isImage.mp inside).2.2]
          by_cases high : tableIndex 1 virt = 0x78
          · have inside := isStack.mpr ⟨top, second, high⟩
            rw [if_pos high, if_pos inside, Option.bind_some, (block_entry aligned bound).2.2]
            simp only [InStack, KSTACK_START_VIRT, HUGE_SIZE] at inside ⊢
            exact congrArg some (by omega)
          · rw [if_neg high, if_neg fun inside => high (isStack.mp inside).2.2]
            rfl
      · intro cell member
        simp only [List.mem_cons, List.not_mem_nil, or_false] at member
        rcases member with rfl | rfl | rfl
        · exact .inl rfl
        · exact .inr (.inl ⟨rfl, third⟩)
        · exact .inr (.inr rfl)
    · have absent := image.secondVacant _ second
      rw [walkFrom_absent absent, walkCells_absent absent, if_neg fun inside => second (isImage.mp inside).2.1,
        if_neg fun inside => second (isStack.mp inside).2.1]
      refine ⟨rfl, fun cell member => ?_⟩
      simp only [List.mem_cons, List.not_mem_nil, or_false] at member
      rcases member with rfl | rfl
      · exact .inl rfl
      · exact .inr (.inl ⟨rfl, third⟩)
  · have lower : 256 ≤ tableIndex 3 virt ∧ tableIndex 3 virt < 512 := by
      simp only [tableIndex]
      omega
    have absent := image.topVacant _ lower.1 (by omega)
    rw [walkFrom_absent absent, walkCells_absent absent, if_neg fun inside => top (isImage.mp inside).1,
      if_neg fun inside => top (isStack.mp inside).1]
    refine ⟨rfl, fun cell member => ?_⟩
    rw [List.mem_singleton.mp member]
    exact .inl rfl

end Image

end RubberOS.Model.PageConstruct
