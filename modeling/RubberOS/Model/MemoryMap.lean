import RubberOS.Model.Freec
import RubberOS.Model.Sort

/-! # The memory map of dynamic memory

`construct_mmap_dyn` turns the boot loader's memory map into `g_mmap_dyn`, and the address functions
translate between the window at `DYNMEM_START_VIRT`, where the entries appear one after the other,
and physical memory. Both follow the loops of the kernel, with the remaining entries as counter.
-/

namespace RubberOS.Model.MemoryMap

def PAGE_SIZE : ℕ := 0x1000
def DYNMEM_START_PHYS_MINIMUM : ℕ := 0x00800000
def DYNMEM_START_VIRT : ℕ := 0x00200000
def KERNEL_SIZE : ℕ := 0x00400000
def KERNEL_START_PHYS : ℕ := 0x00200000
def KERNEL_START_VIRT : ℕ := 0xffffffff80000000

def MMAP_ENTRY_AVAILABLE : ℕ := 1
def MMAP_ENTRY_RESERVED : ℕ := 2
def BOOTINFO_MMAP_MAXLEN : ℕ := 128

/-- `struct mmap_entry`. -/
structure MmapEntry where
  base : ℕ
  length : ℕ
  type : ℕ
deriving DecidableEq, Repr

/-- `sizeof(struct mmap_entry)`, with its padding. -/
def mmapEntrySize : ℕ := 24

/-- `struct mmap`, with its flexible array as a function. -/
structure Mmap where
  len : ℕ
  entries : ℕ → MmapEntry

/-! ## Construction -/

def compMmapEntry (a b : MmapEntry) : ℤ :=
  if a.base > b.base then 1 else if a.base < b.base then -1 else 0

/-- The clipping loop, from entry `i` with the running `prev_end`. -/
def clipEntries : ℕ → ℕ → ℕ → (ℕ → MmapEntry) → (ℕ → MmapEntry)
  | 0, _, _, entries => entries
  | rest + 1, i, prevEnd, entries =>
    let entry := entries i
    if entry.type ≠ MMAP_ENTRY_AVAILABLE then clipEntries rest (i + 1) prevEnd entries
    else
      let startAligned := u64 (szdivCeil entry.base PAGE_SIZE * PAGE_SIZE)
      let endAligned := u64 (entry.base + entry.length) / PAGE_SIZE * PAGE_SIZE
      let startAligned := if startAligned < prevEnd then prevEnd else startAligned
      if startAligned ≥ endAligned then
        clipEntries rest (i + 1) prevEnd
          (Function.update entries i { entry with type := MMAP_ENTRY_RESERVED })
      else
        clipEntries rest (i + 1) endAligned
          (Function.update entries i
            { entry with base := startAligned, length := sub64 endAligned startAligned })

/-- The compaction loop, from entry `i` with the running `removal_end`. -/
def compactEntries : ℕ → ℕ → ℕ → (ℕ → MmapEntry) → ℕ × (ℕ → MmapEntry)
  | 0, _, removalEnd, entries => (removalEnd, entries)
  | rest + 1, i, removalEnd, entries =>
    if (entries i).type = MMAP_ENTRY_AVAILABLE then
      compactEntries rest (i + 1) (removalEnd + 1) (Function.update entries removalEnd (entries i))
    else compactEntries rest (i + 1) removalEnd entries

/-- `construct_mmap_dyn`, from the previous contents of `g_mmap_dyn`. -/
def constructMmapDyn (mmapDyn mmapBoot : Mmap) : Result Mmap := do
  if mmapBoot.len > BOOTINFO_MMAP_MAXLEN then
    -- `memcpy` past the end of the buffer
    throw .outOfBounds
  let entries := fun i => if i < mmapBoot.len then mmapBoot.entries i else mmapDyn.entries i
  let entries ← Sort.sort entries mmapBoot.len mmapEntrySize compMmapEntry
  let entries := clipEntries mmapBoot.len 0 DYNMEM_START_PHYS_MINIMUM entries
  let (removalEnd, entries) := compactEntries mmapBoot.len 0 0 entries
  return { len := removalEnd, entries }

/-! ## Translation -/

def virtToPhysKernel (virt : ℕ) : ℕ := u64 (sub64 virt KERNEL_START_VIRT + KERNEL_START_PHYS)

def physToVirtKernel (phys : ℕ) : ℕ := u64 (sub64 phys KERNEL_START_PHYS + KERNEL_START_VIRT)

/-- The loop of `virt_to_phys_dynmem`, from entry `i` with the running `sum`. -/
def virtToPhysFrom (mmapDyn : Mmap) (offset : ℕ) : ℕ → ℕ → ℕ → Result ℕ
  | 0, _, _ => panic "dynmem: invalid virtual address"
  | rest + 1, i, sum =>
    let entry := mmapDyn.entries i
    let endOffset := u64 (sum + entry.length)
    if offset < endOffset then .ok (u64 (entry.base + sub64 offset sum))
    else virtToPhysFrom mmapDyn offset rest (i + 1) endOffset

def virtToPhysDynmem (virt : ℕ) (mmapDyn : Mmap) : Result ℕ :=
  virtToPhysFrom mmapDyn (sub64 virt DYNMEM_START_VIRT) mmapDyn.len 0 0

/-- The loop of `phys_to_virt_dynmem`, from entry `i` with the running `sum`. -/
def physToVirtFrom (mmapDyn : Mmap) (phys : ℕ) : ℕ → ℕ → ℕ → Result ℕ
  | 0, _, _ => panic "dynmem: invalid physical address"
  | rest + 1, i, sum =>
    let entry := mmapDyn.entries i
    if entry.base ≤ phys ∧ phys < u64 (entry.base + entry.length) then
      .ok (u64 (u64 (DYNMEM_START_VIRT + sum) + sub64 phys entry.base))
    else physToVirtFrom mmapDyn phys rest (i + 1) (u64 (sum + entry.length))

def physToVirtDynmem (phys : ℕ) (mmapDyn : Mmap) : Result ℕ := physToVirtFrom mmapDyn phys mmapDyn.len 0 0

def physToVirt (phys : ℕ) (mmapDyn : Mmap) : Result ℕ :=
  if phys ≥ (mmapDyn.entries 0).base then physToVirtDynmem phys mmapDyn
  else if KERNEL_START_PHYS ≤ phys ∧ phys < KERNEL_START_PHYS + KERNEL_SIZE then .ok (physToVirtKernel phys)
  else panic "dynmem: invalid physical address"

end RubberOS.Model.MemoryMap
