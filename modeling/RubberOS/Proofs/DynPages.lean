import RubberOS.Model.PageConstruct
import RubberOS.Proofs.PageFrames

/-! # The pages of the window in order

The window over a map of whole pages numbers them, and their physical addresses ascend with the
numbers.
-/

namespace RubberOS.Model.PageConstruct

open MemoryMap PageTable

/-- A map of whole pages on a processor whose physical addresses have 52 bits. -/
structure PagedMap (mmapDyn : Mmap) : Prop extends AscendingMap mmapDyn where
  aligned : ∀ i < mmapDyn.len, (mmapDyn.entries i).base % PAGE_SIZE = 0
  whole : ∀ i < mmapDyn.len, (mmapDyn.entries i).length % PAGE_SIZE = 0
  small : ∀ i < mmapDyn.len, (mmapDyn.entries i).base + (mmapDyn.entries i).length ≤ 2 ^ 52

/-- The number of pages in the map. -/
def pageCount (mmapDyn : Mmap) : ℕ := windowOffset mmapDyn mmapDyn.len / PAGE_SIZE

/-- Where the window shows page `i`. -/
def pageVirt (i : ℕ) : ℕ := DYNMEM_START_VIRT + PAGE_SIZE * i

/-- The physical address of page `i`. -/
def pagePhys (mmapDyn : Mmap) (i : ℕ) : ℕ :=
  match virtToPhysDynmem (pageVirt i) mmapDyn with
  | .ok phys => phys
  | .error _ => 0

/-- The page with this number in entry `j`. -/
structure PageOf (mmapDyn : Mmap) (i j : ℕ) : Prop where
  inside : j < mmapDyn.len
  lower : windowOffset mmapDyn j ≤ PAGE_SIZE * i
  upper : PAGE_SIZE * i + PAGE_SIZE ≤ windowOffset mmapDyn (j + 1)

variable {mmapDyn : Mmap} {i j k : ℕ}

theorem PagedMap.offset_aligned (map : PagedMap mmapDyn) (le : j ≤ mmapDyn.len) :
    windowOffset mmapDyn j % PAGE_SIZE = 0 := windowOffset_aligned map.whole le

theorem PagedMap.exists_pageOf (map : PagedMap mmapDyn) (inside : i < pageCount mmapDyn) :
    ∃ j, PageOf mmapDyn i j := by
  have start : PAGE_SIZE * i < windowOffset mmapDyn mmapDyn.len := by
    simp only [pageCount, PAGE_SIZE] at *
    omega
  obtain ⟨j, entry, lower, upper⟩ := exists_window_entry start
  have aligned := map.offset_aligned (show j + 1 ≤ mmapDyn.len from entry)
  refine ⟨j, entry, lower, ?_⟩
  simp only [PAGE_SIZE] at *
  omega

theorem PageOf.lt_pageCount (page : PageOf mmapDyn i j) : i < pageCount mmapDyn := by
  have within := windowOffset_mono mmapDyn (show j + 1 ≤ mmapDyn.len from page.inside)
  have upper := page.upper
  simp only [pageCount, PAGE_SIZE] at *
  omega

private theorem PageOf.hit (page : PageOf mmapDyn i j) (map : PagedMap mmapDyn) :
    virtToPhysDynmem (pageVirt i) mmapDyn =
      .ok ((mmapDyn.entries j).base + (PAGE_SIZE * i - windowOffset mmapDyn j)) := by
  have upper := page.upper
  apply virtToPhysDynmem_hit map.toAscendingMap page.inside page.lower
  simp only [PAGE_SIZE] at *
  omega

theorem PageOf.pagePhys_eq (page : PageOf mmapDyn i j) (map : PagedMap mmapDyn) :
    pagePhys mmapDyn i = (mmapDyn.entries j).base + (PAGE_SIZE * i - windowOffset mmapDyn j) := by
  rw [pagePhys, page.hit map]

namespace PagedMap

variable (map : PagedMap mmapDyn)
include map

theorem virtToPhys_page (inside : i < pageCount mmapDyn) :
    virtToPhysDynmem (pageVirt i) mmapDyn = .ok (pagePhys mmapDyn i) := by
  obtain ⟨j, page⟩ := map.exists_pageOf inside
  rw [page.hit map, page.pagePhys_eq map]

/-- Every byte of a page goes to the same byte of its physical page. -/
theorem virtToPhys_byte (inside : i < pageCount mmapDyn) {o : ℕ} (small : o < PAGE_SIZE) :
    virtToPhysDynmem (pageVirt i + o) mmapDyn = .ok (pagePhys mmapDyn i + o) := by
  obtain ⟨j, page⟩ := map.exists_pageOf inside
  have lower := page.lower
  have upper := page.upper
  have hit := @virtToPhysDynmem_hit _ (PAGE_SIZE * i + o) _ map.toAscendingMap page.inside (by omega) (by omega)
  rw [pageVirt, Nat.add_assoc, hit, page.pagePhys_eq map]
  exact congrArg Except.ok (by omega)

/-- A page is aligned, above the kernel image and inside the physical address space. -/
theorem pagePhys_bounds (inside : i < pageCount mmapDyn) :
    pagePhys mmapDyn i % PAGE_SIZE = 0 ∧ DYNMEM_START_PHYS_MINIMUM ≤ pagePhys mmapDyn i ∧
      pagePhys mmapDyn i < 2 ^ 52 := by
  obtain ⟨j, page⟩ := map.exists_pageOf inside
  have length := windowOffset_succ mmapDyn j
  have base := map.aligned j page.inside
  have offset := map.offset_aligned (Nat.le_of_lt page.inside)
  have floor := map.floor j page.inside
  have small := map.small j page.inside
  have lower := page.lower
  have upper := page.upper
  rw [page.pagePhys_eq map]
  simp only [PAGE_SIZE] at *
  omega

/-- The pages in front of a page lie below it. -/
theorem pagePhys_ge (inside : i < pageCount mmapDyn) :
    DYNMEM_START_PHYS_MINIMUM + PAGE_SIZE * i ≤ pagePhys mmapDyn i := by
  obtain ⟨j, page⟩ := map.exists_pageOf inside
  have grows := map.offset_le_base page.inside
  have lower := page.lower
  rw [page.pagePhys_eq map]
  omega

/-- The physical addresses ascend with the page numbers. -/
private theorem pagePhys_lt (lt : i < k) (inside : k < pageCount mmapDyn) :
    pagePhys mmapDyn i < pagePhys mmapDyn k := by
  obtain ⟨j, page⟩ := map.exists_pageOf (lt.trans inside)
  obtain ⟨l, other⟩ := map.exists_pageOf inside
  have lengthFirst := windowOffset_succ mmapDyn j
  have lower := page.lower
  have upper := page.upper
  have lowerOther := other.lower
  have upperOther := other.upper
  rw [page.pagePhys_eq map, other.pagePhys_eq map]
  rcases Nat.lt_trichotomy j l with before | rfl | after
  · have apart := map.ascending j l before other.inside
    simp only [PAGE_SIZE] at *
    omega
  · simp only [PAGE_SIZE] at *
    omega
  · have order := windowOffset_mono mmapDyn (show l + 1 ≤ j from after)
    simp only [PAGE_SIZE] at *
    omega

theorem pagePhys_injective (inside : i < pageCount mmapDyn) (insideOther : k < pageCount mmapDyn)
    (same : pagePhys mmapDyn i = pagePhys mmapDyn k) : i = k := by
  rcases Nat.lt_trichotomy i k with less | equal | greater
  · have := map.pagePhys_lt less insideOther
    omega
  · exact equal
  · have := map.pagePhys_lt greater inside
    omega

/-- The window ends below the upper half of the address space. -/
theorem pageVirt_lt (inside : i < pageCount mmapDyn) : pageVirt i < KERNEL_START_VIRT := by
  obtain ⟨j, page⟩ := map.exists_pageOf inside
  have grows := map.offset_le_base page.inside
  have small := map.small j page.inside
  have length := windowOffset_succ mmapDyn j
  have upper := page.upper
  simp only [pageVirt, DYNMEM_START_VIRT, DYNMEM_START_PHYS_MINIMUM, KERNEL_START_VIRT, PAGE_SIZE] at *
  omega

end PagedMap

end RubberOS.Model.PageConstruct
