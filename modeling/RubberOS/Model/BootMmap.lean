import RubberOS.Model.MemoryMap

/-! # The memory map of the boot loader
 `mbi_mmap` in the boot code copies the entries of a Multiboot2 memory-map tag into `bootinfo_mmap`. The registers
it uses are those of a 32-bit processor without paging, and `times 6 movsd` moves an entry. A read outside the tag
or a write outside the entries of the buffer is a fault. -/

namespace RubberOS.Model.BootMmap

open MemoryMap

/-- A `dword` in memory, least significant byte first. -/
def load32 (memory : Memory) (address : ℕ) : ℕ :=
  (memory address).toNat + 2 ^ 8 * (memory (address + 1)).toNat + 2 ^ 16 * (memory (address + 2)).toNat +
    2 ^ 24 * (memory (address + 3)).toNat

def store32 (memory : Memory) (address value : ℕ) : Memory := fun a =>
  if address ≤ a ∧ a < address + 4 then BitVec.ofNat 8 (value / 2 ^ (8 * (a - address))) else memory a

/-- The tag at `ebx` up to its end, and the physical address of `bootinfo_mmap`. -/
structure CopyRegions where
  ebx : ℕ
  tagEnd : ℕ
  bootinfoMmap : ℕ

/-- Where the entries of `bootinfo_mmap` start and end. -/
def CopyRegions.entries (regions : CopyRegions) : ℕ := regions.bootinfoMmap + 8

def CopyRegions.entriesEnd (regions : CopyRegions) : ℕ := regions.entries + mmapEntrySize * BOOTINFO_MMAP_MAXLEN

structure CopyState where
  esi : ℕ
  edi : ℕ
  ecx : ℕ
  memory : Memory

/-- `movsd` with the direction flag clear. -/
def movsd (regions : CopyRegions) (s : CopyState) : Result CopyState :=
  if regions.ebx ≤ s.esi ∧ s.esi + 4 ≤ regions.tagEnd ∧ regions.entries ≤ s.edi ∧ s.edi + 4 ≤ regions.entriesEnd then
    .ok { s with
      esi := u32 (s.esi + 4)
      edi := u32 (s.edi + 4)
      memory := fun a => if s.edi ≤ a ∧ a < s.edi + 4 then s.memory (s.esi + (a - s.edi)) else s.memory a }
  else .error .outOfBounds

/-- `times n movsd`. -/
def movsds (regions : CopyRegions) : ℕ → CopyState → Result CopyState
  | 0, s => .ok s
  | n + 1, s => do
    let s ← movsd regions s
    movsds regions n s

/-- From `.loop` to `.done`, with the end of the tag in `edx`. -/
def mmapLoop (regions : CopyRegions) (edx : ℕ) : ℕ → CopyState → Result CopyState
  | 0, _ => .error .nonterminating
  | fuel + 1, s => do
    let eax := u32 (s.esi + load32 s.memory (u32 (regions.ebx + 8)))
    if eax ≥ edx then return s
    let moved ← movsds regions 6 s
    let s := { moved with esi := eax, ecx := u32 (moved.ecx + 1) }
    if s.ecx < BOOTINFO_MMAP_MAXLEN then mmapLoop regions edx fuel s
    else return s

def mbiMmap (memory : Memory) (ebx bootinfoMmap : ℕ) : Result Memory := do
  let size := load32 memory (u32 (ebx + 4))
  let regions := ⟨ebx, ebx + size, bootinfoMmap⟩
  let s ← mmapLoop regions (u32 (size + ebx)) (BOOTINFO_MMAP_MAXLEN + 1)
    { esi := u32 (ebx + 16), edi := u32 (bootinfoMmap + 8), ecx := 0, memory }
  return store32 s.memory bootinfoMmap s.ecx

end RubberOS.Model.BootMmap
