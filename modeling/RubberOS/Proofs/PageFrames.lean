import RubberOS.Proofs.MemoryMap
import RubberOS.Proofs.PageEntries

/-! # Pages that hold tables

A table lies in the kernel image or in dynamic memory. Either way the pointer and the physical page
determine each other, which is what lets the kernel follow the physical addresses in the entries.
-/

namespace RubberOS.Model.PageTable

open MemoryMap Mmio

/-- The map of dynamic memory on a processor whose physical addresses have 52 bits. -/
structure PhysicalMap (mmapDyn : Mmap) : Prop extends DynMap mmapDyn where
  nonempty : mmapDyn.len ≠ 0
  small : ∀ i < mmapDyn.len, (mmapDyn.entries i).base + (mmapDyn.entries i).length ≤ 2 ^ 52

/-- The start of a page in the window over dynamic memory. -/
structure DynPage (mmapDyn : Mmap) (table : ℕ) : Prop where
  aligned : table % PAGE_SIZE = 0
  lower : DYNMEM_START_VIRT ≤ table
  upper : table < DYNMEM_START_VIRT + windowOffset mmapDyn mmapDyn.len

/-- The start of a page in the kernel image. -/
structure ImagePage (table : ℕ) : Prop where
  aligned : table % PAGE_SIZE = 0
  lower : KERNEL_START_VIRT ≤ table
  upper : table < KERNEL_START_VIRT + KERNEL_SIZE

/-- The pointer and the page of a table belong to each other. -/
structure Reaches (mmapDyn : Mmap) (table frame : ℕ) : Prop where
  forth : tableFrame mmapDyn table = .ok frame
  back : physToVirt frame mmapDyn = .ok table
  aligned : frame % PAGE_SIZE = 0
  bound : frame < 2 ^ 52

/-- The physical page of a table. -/
def frameOf (mmapDyn : Mmap) (table : ℕ) : ℕ :=
  match tableFrame mmapDyn table with
  | .ok frame => frame
  | .error _ => 0

variable {mmapDyn : Mmap} {table other frame : ℕ}

theorem Reaches.frameOf (reaches : Reaches mmapDyn table frame) :
    PageTable.frameOf mmapDyn table = frame := by
  rw [PageTable.frameOf, reaches.forth]

theorem windowOffset_aligned (whole : ∀ i < mmapDyn.len, (mmapDyn.entries i).length % PAGE_SIZE = 0) {i : ℕ}
    (le : i ≤ mmapDyn.len) : windowOffset mmapDyn i % PAGE_SIZE = 0 := by
  induction i with
  | zero => rfl
  | succ i ih =>
    have last := whole i le
    have before := ih (by omega)
    rw [windowOffset_succ]
    simp only [PAGE_SIZE] at *
    omega

/-- A page of dynamic memory lies above the kernel image. -/
theorem DynPage.reaches (map : PhysicalMap mmapDyn) (page : DynPage mmapDyn table) :
    Reaches mmapDyn table (frameOf mmapDyn table) ∧
      virtToPhysDynmem table mmapDyn = .ok (frameOf mmapDyn table) ∧
      DYNMEM_START_PHYS_MINIMUM ≤ frameOf mmapDyn table := by
  have ascending := map.ascendingMap
  obtain ⟨offset, rfl⟩ := Nat.exists_eq_add_of_le page.lower
  obtain ⟨j, inside, start, stop⟩ := exists_window_entry (Nat.lt_of_add_lt_add_left page.upper)
  have length := windowOffset_succ mmapDyn j
  have hit := virtToPhysDynmem_hit ascending inside start stop
  have back := @physToVirt_hit _ ((mmapDyn.entries j).base +
    (offset - windowOffset mmapDyn j)) _ ascending inside
    (by omega) (by omega)
  have aligned := windowOffset_aligned (fun i inside => (map.length i inside).2) (Nat.le_of_lt inside)
  have base := map.base j inside
  have top := map.small j inside
  have whole := page.aligned
  have grows := ascending.offset_le_base inside
  have reaches : Reaches mmapDyn (DYNMEM_START_VIRT + offset)
      ((mmapDyn.entries j).base + (offset - windowOffset mmapDyn j)) := by
    constructor
    · rw [tableFrame, if_neg, if_neg, hit]
      · simp only [KERNEL_START_VIRT, DYNMEM_START_VIRT, DYNMEM_START_PHYS_MINIMUM] at *
        omega
      · simp only [DYNMEM_START_VIRT]
        omega
    · rw [back]
      congr 1
      omega
    · simp only [PAGE_SIZE, DYNMEM_START_VIRT] at *
      omega
    · omega
  rw [reaches.frameOf]
  exact ⟨reaches, hit, by omega⟩

/-- The bytes of the page are memory that the map lists. -/
theorem DynPage.inEntries (map : PhysicalMap mmapDyn) (page : DynPage mmapDyn table) {i : ℕ} (small : i < PAGE_SIZE) :
    InEntries mmapDyn (frameOf mmapDyn table + i) := by
  have ascending := map.ascendingMap
  have found := (page.reaches map).2.1
  obtain ⟨aligned, lower, upper⟩ := page
  obtain ⟨offset, rfl⟩ := Nat.exists_eq_add_of_le lower
  obtain ⟨j, inside, start, stop⟩ := exists_window_entry (Nat.lt_of_add_lt_add_left upper)
  have length := windowOffset_succ mmapDyn j
  have whole := (map.length j inside).2
  have front := windowOffset_aligned (fun i inside => (map.length i inside).2) (Nat.le_of_lt inside)
  have hit := virtToPhysDynmem_hit ascending inside start stop
  rw [Except.ok.inj (found.symm.trans hit)]
  refine ⟨j, inside, ?_, ?_⟩
  · omega
  · simp only [PAGE_SIZE, DYNMEM_START_VIRT] at *
    omega

theorem ImagePage.virtToPhys_eq (page : ImagePage table) :
    virtToPhysKernel table = table - KERNEL_START_VIRT + KERNEL_START_PHYS := by
  have upper := page.upper
  have top : table < 2 ^ 64 := by
    simp only [KERNEL_START_VIRT, KERNEL_SIZE] at upper
    omega
  rw [virtToPhysKernel, sub64_of_le page.lower top, u64_of_lt]
  simp only [KERNEL_START_VIRT, KERNEL_START_PHYS]
  omega

/-- The image lies below dynamic memory. -/
theorem ImagePage.bounds (page : ImagePage table) :
    virtToPhysKernel table % PAGE_SIZE = 0 ∧ virtToPhysKernel table < DYNMEM_START_PHYS_MINIMUM := by
  obtain ⟨aligned, lower, upper⟩ := page
  rw [ImagePage.virtToPhys_eq ⟨aligned, lower, upper⟩]
  simp only [KERNEL_START_VIRT, KERNEL_START_PHYS, KERNEL_SIZE, DYNMEM_START_PHYS_MINIMUM, PAGE_SIZE] at *
  omega

theorem ImagePage.reaches (map : PhysicalMap mmapDyn) (page : ImagePage table) :
    Reaches mmapDyn table (virtToPhysKernel table) ∧ virtToPhysKernel table < DYNMEM_START_PHYS_MINIMUM := by
  obtain ⟨whole, image⟩ := page.bounds
  have phys := page.virtToPhys_eq
  obtain ⟨aligned, lower, upper⟩ := page
  have floor := (map.base 0 (Nat.pos_of_ne_zero map.nonempty)).1
  refine ⟨⟨?_, ?_, whole, ?_⟩, image⟩
  · have nonzero : table ≠ 0 := by
      simp only [KERNEL_START_VIRT] at lower
      omega
    rw [tableFrame, if_neg nonzero, if_pos lower]
  · have inImage : KERNEL_START_PHYS ≤ virtToPhysKernel table ∧
        virtToPhysKernel table < KERNEL_START_PHYS + KERNEL_SIZE := by
      omega
    rw [physToVirt, if_neg (by omega), if_pos inImage, physToVirtKernel, phys]
    simp only [KERNEL_START_VIRT, KERNEL_START_PHYS, KERNEL_SIZE] at *
    rw [sub64_of_le (Nat.le_add_left _ _) (by omega), Nat.add_sub_cancel, Nat.sub_add_cancel lower,
      u64_of_lt (by omega)]
  · simp only [DYNMEM_START_PHYS_MINIMUM] at image
    omega

/-- Different tables have different pages. -/
theorem Reaches.injective (first : Reaches mmapDyn table frame) (second : Reaches mmapDyn other frame) :
    table = other := Except.ok.inj (first.back.symm.trans second.back)

section Accesses

variable {st : PageMemory} {index entry : ℕ}

theorem Reaches.load (reaches : Reaches mmapDyn table frame) :
    st.load mmapDyn table index = .ok (st.frames frame index) := by
  rw [PageMemory.load, reaches.forth]
  rfl

theorem Reaches.store (reaches : Reaches mmapDyn table frame) :
    st.store mmapDyn table index entry =
      .ok { st with
        frames := Function.update st.frames frame (Function.update (st.frames frame) index entry) } := by
  rw [PageMemory.store, reaches.forth]
  rfl

theorem Reaches.clear (reaches : Reaches mmapDyn table frame) :
    st.clear mmapDyn table = .ok { st with frames := Function.update st.frames frame fun _ => 0 } := by
  rw [PageMemory.clear, reaches.forth]
  rfl

end Accesses

end RubberOS.Model.PageTable
