import RubberOS.Model.Mmio
import RubberOS.Model.PageTable
import RubberOS.ToMathlib.BitFields

/-! # Entries and indices of the device mapping window

An entry is an aligned address with flags, and each part of it reads back. The pages of the window
are numbered from its start; the iterator of a page and the walk's indices are digits of its number.
-/

namespace RubberOS.Model.PageTable

open MemoryMap Mmio BitFields

/-! ## Entries -/

private theorem isPresent_iff {entry : ℕ} : isPresent entry = true ↔ field entry 0 1 = 1 := by
  rw [isPresent, decide_eq_true_iff]
  exact and_bit_ne_zero

theorem isHuge_iff {entry : ℕ} : isHuge entry = true ↔ field entry 7 1 = 1 := by
  rw [isHuge, decide_eq_true_iff]
  exact and_bit_ne_zero

private theorem maskAddr_eq (entry : ℕ) : entry &&& PAGE_MASK_ADDR = field entry 12 40 * 2 ^ 12 :=
  and_mask (k := 12) (n := 40)

@[simp] theorem isPresent_zero : isPresent 0 = false := rfl

/-- Flags that make an entry present and leave its address and its size to the code. -/
structure Plain (flags : ℕ) : Prop where
  present : isPresent flags = true
  small : isHuge flags = false
  apart : flags &&& PAGE_MASK_ADDR = 0

theorem plain_kernel : Plain KERNEL_PAGE_FLAG := ⟨rfl, rfl, rfl⟩

section Flags

variable {base flags k n : ℕ}

/-- The flags do not reach into the address bits. -/
theorem Plain.field_zero (plain : Plain flags) (lower : 12 ≤ k) (upper : k + n ≤ 52) :
    field flags k n = 0 := by
  have apart := plain.apart
  rw [maskAddr_eq] at apart
  have none : flags / 2 ^ 12 % 2 ^ 40 = 0 := by
    rw [field] at apart
    omega
  obtain ⟨d, rfl⟩ := Nat.exists_eq_add_of_le lower
  have tail : 2 ^ 40 = 2 ^ d * 2 ^ n * 2 ^ (40 - d - n) := by
    rw [← pow_add, ← pow_add]
    congr 1
    omega
  obtain ⟨q, multiple⟩ := Nat.dvd_of_mod_eq_zero none
  rw [field, pow_add, ← Nat.div_div_eq_div_mul, multiple, tail]
  have shape : 2 ^ d * 2 ^ n * 2 ^ (40 - d - n) * q = 2 ^ (40 - d - n) * q * 2 ^ n * 2 ^ d := by ring
  rw [shape, Nat.mul_div_cancel _ (Nat.two_pow_pos d), Nat.mul_mod_left]

theorem isPresent_or (plain : Plain flags) : isPresent (base ||| flags) = true := by
  exact isPresent_iff.mpr (field_or_one (isPresent_iff.mp plain.present))

/-- An entry for a table reads back as present, small and at its address. -/
theorem isHuge_or (plain : Plain flags) (aligned : base % PAGE_SIZE = 0) :
    isHuge (base ||| flags) = false := by
  have small : ¬ field flags 7 1 = 1 := fun one => by simpa [plain.small] using isHuge_iff.mpr one
  have zero : field base 7 1 = 0 := by
    rw [field, ← Nat.div_add_mod base PAGE_SIZE, aligned]
    simp only [PAGE_SIZE]
    omega
  rw [Bool.eq_false_iff, Ne, isHuge_iff, field_or, zero, Nat.zero_or]
  exact small

theorem address_or (plain : Plain flags) (aligned : base % PAGE_SIZE = 0) (bound : base < 2 ^ 52) :
    (base ||| flags) &&& PAGE_MASK_ADDR = base := by
  rw [maskAddr_eq, field_or, plain.field_zero (by decide) (by decide), Nat.or_zero, field]
  simp only [PAGE_SIZE] at aligned
  omega

/-- A small leaf stands for its page. -/
theorem physical_or (plain : Plain flags) (aligned : base % PAGE_SIZE = 0) (bound : base < 2 ^ 52)
    (virt : ℕ) :
    (⟨base ||| flags, 0⟩ : Leaf).physical virt = some (base + virt % PAGE_SIZE) := by
  have address := address_or plain aligned bound
  rw [maskAddr_eq, field] at address
  rw [Leaf.physical, if_neg (fun block => block.1 rfl)]
  dsimp only
  rw [show 12 + 9 * 0 = 12 from rfl, show 52 - 12 = 40 from rfl, address]
  rfl

theorem isPresent_huge (plain : Plain flags) : isPresent (base ||| flags ||| PAGE_FLAG_HUGE) = true := by
  rw [isPresent_iff, field_or, isPresent_iff.mp (isPresent_or plain)]
  rfl

theorem isHuge_huge : isHuge (base ||| PAGE_FLAG_HUGE) = true := by
  exact isHuge_iff.mpr (field_or_one rfl)

/-! ## One level of a walk -/

variable {frames : ℕ → ℕ → ℕ} {virt level table : ℕ}

theorem walkFrom_absent (absent : isPresent (frames table (tableIndex (level + 1) virt)) = false) :
    walkFrom frames virt (level + 1) table = none := by
  rw [walkFrom]
  simp [absent]

/-- The walk goes on to the table that an entry leads to. -/
theorem walkFrom_link (plain : Plain flags)
    (entry : frames table (tableIndex (level + 1) virt) = base ||| flags)
    (aligned : base % PAGE_SIZE = 0) (bound : base < 2 ^ 52) :
    walkFrom frames virt (level + 1) table = walkFrom frames virt level base := by
  rw [walkFrom, entry]
  simp only [isPresent_or plain, isHuge_or plain aligned, address_or plain aligned bound]
  rfl

end Flags

/-! ## Pages of the window -/

/-- The pages of the window. -/
def windowPages : ℕ := IOMAP_VIRT_SIZE / PAGE_SIZE

/-- The address of a page of the window. -/
def pageAddress (page : ℕ) : ℕ := IOMAP_START_VIRT + page * PAGE_SIZE

/-- The iterator at a page of the window. -/
def iteratorAt (page : ℕ) : PageIterator := ⟨511, page / 512 / 512, page / 512 % 512, page % 512⟩

section Iterators

variable (page : ℕ)

theorem iteratorAt_pl4i : (iteratorAt page).pl4i = 511 := rfl

theorem iteratorAt_pdpi : (iteratorAt page).pdpi = page / 512 / 512 := rfl

theorem iteratorAt_pdti : (iteratorAt page).pdti = page / 512 % 512 := rfl

theorem iteratorAt_ptei : (iteratorAt page).ptei = page % 512 := rfl

end Iterators

private theorem pageIteratorFromVirt_eq (virt : ℕ) :
    pageIteratorFromVirt virt = ⟨tableIndex 3 virt, tableIndex 2 virt, tableIndex 1 virt,
      tableIndex 0 virt⟩ := by
  have digit (k : ℕ) : u16 ((virt &&& (2 ^ 9 - 1) * 2 ^ k) >>> k) = virt / 2 ^ k % 512 := by
    have small : field virt k 9 < 2 ^ 9 := field_lt
    rw [and_mask, Nat.shiftRight_eq_div_pow, Nat.mul_div_cancel _ (Nat.two_pow_pos k), u16_of_lt (by omega)]
    rfl
  have top := digit 39
  have third := digit 30
  have second := digit 21
  have first := digit 12
  rw [pageIteratorFromVirt]
  simp only [tableIndex, PageIterator.mk.injEq]
  exact ⟨top, third, second, first⟩

section Pages

variable {page : ℕ}

theorem tableIndex_page (offset : ℕ) (inside : page < windowPages) (small : offset < PAGE_SIZE) :
    tableIndex 3 (pageAddress page + offset) = 511 ∧ tableIndex 2 (pageAddress page + offset) =
      page / 512 / 512 ∧
      tableIndex 1 (pageAddress page + offset) = page / 512 % 512 ∧
        tableIndex 0 (pageAddress page + offset) = page % 512 := by
  simp only [tableIndex, pageAddress, windowPages, IOMAP_START_VIRT, IOMAP_VIRT_SIZE, PAGE_SIZE] at *
  omega

theorem pageIteratorFromVirt_page (inside : page < windowPages) :
    pageIteratorFromVirt (pageAddress page) = iteratorAt page := by
  obtain ⟨top, third, second, first⟩ := tableIndex_page 0 inside (by decide)
  rw [pageIteratorFromVirt_eq]
  exact PageIterator.mk.injEq .. ▸ ⟨top, third, second, first⟩

/-- The next directory entry is 512 pages on. -/
theorem pageIteratorNextPdti_at (inside : page < windowPages) :
    pageIteratorNextPdti (iteratorAt page) = .ok (iteratorAt (page + 512)) := by
  have second : page / 512 % 512 < 512 := Nat.mod_lt _ (by decide)
  have third : page / 512 / 512 + 1 < 512 := by
    simp only [windowPages, IOMAP_VIRT_SIZE, PAGE_SIZE] at inside
    omega
  simp only [pageIteratorNextPdti, iteratorAt, u16_of_lt (n := page / 512 % 512 + 1) (by omega)]
  by_cases within : page / 512 % 512 + 1 < 512
  · rw [if_pos within]
    apply congrArg Except.ok
    ext <;> dsimp only <;> omega
  · simp only [if_neg within, pageIteratorNextPdpi,
      u16_of_lt (n := page / 512 / 512 + 1) (by omega), if_pos third]
    apply congrArg Except.ok
    ext <;> dsimp only <;> omega

theorem pageIteratorNext_at (inside : page < windowPages) :
    pageIteratorNext (iteratorAt page) = .ok (iteratorAt (page + 1)) := by
  have digit : page % 512 < 512 := Nat.mod_lt _ (by decide)
  simp only [pageIteratorNext, iteratorAt, u16_of_lt (n := page % 512 + 1) (by omega)]
  by_cases within : page % 512 + 1 < 512
  · rw [if_pos within]
    apply congrArg Except.ok
    ext <;> dsimp only <;> omega
  · -- the last page of a block: the carry goes on from the block's first page
    have first : (⟨511, page / 512 / 512, page / 512 % 512, 0⟩ : PageIterator) = iteratorAt (page - 511) := by
      ext <;> simp only [iteratorAt] <;> omega
    have next : page + 1 = page - 511 + 512 := by omega
    rw [if_neg within, next, first, pageIteratorNextPdti_at (by omega)]
    rfl

end Pages

end RubberOS.Model.PageTable
