import RubberOS.Model.BootMmap

/-! # The tags of the boot information

From `mbi_loop` to `mbi_done` the boot code goes through the tags of the Multiboot2 information and copies what the
kernel needs of them to `g_bootinfo_arch`, on the same 32-bit processor as `BootMmap`.
-/

namespace RubberOS.Model.BootMmap

def BOOTINFO_CMD_MAXLEN : ℕ := 256

/-- The physical addresses of `bootinfo_cmd`, `bootinfo_fb` and `bootinfo_mmap`, with that of `g_bootinfo_arch`. -/
structure BootinfoArch where
  base : ℕ

def BootinfoArch.cmd (arch : BootinfoArch) : ℕ := arch.base

/-- Behind `bootinfo_ptr_mmap`. -/
def BootinfoArch.fb (arch : BootinfoArch) : ℕ := arch.base + BOOTINFO_CMD_MAXLEN + 8

def BootinfoArch.mmap (arch : BootinfoArch) : ℕ := arch.fb + 24

def BootinfoArch.stop (arch : BootinfoArch) : ℕ :=
  arch.mmap + 8 + MemoryMap.mmapEntrySize * MemoryMap.BOOTINFO_MMAP_MAXLEN

/-- From `.loop` of `mbi_cmd`, with `ecx - edx` turns left. -/
def cmdLoop : ℕ → ℕ → ℕ → Memory → Memory
  | 0, _, _, memory => memory
  | turns + 1, esi, edi, memory =>
    let al := memory esi
    if al = 0 then memory else cmdLoop turns (u32 (esi + 1)) (u32 (edi + 1)) (Function.update memory edi al)

def mbiCmd (arch : BootinfoArch) (memory : Memory) (ebx : ℕ) : Memory :=
  let ecx := BitVec.ofNat 32 (load32 memory (u32 (ebx + 4))) - 8
  let eax : BitVec 32 := BitVec.ofNat 32 (BOOTINFO_CMD_MAXLEN - 1)
  -- `cmovg` and `jge` compare with sign
  let ecx := if eax.slt ecx then eax else ecx
  cmdLoop ecx.toInt.toNat (u32 (ebx + 8)) arch.cmd memory

def mbiFb (arch : BootinfoArch) (memory : Memory) (ebx : ℕ) : Memory :=
  let edi := arch.fb
  let memory := store32 memory edi (load32 memory (u32 (ebx + 8)))
  let memory := store32 memory (edi + 4) (load32 memory (u32 (ebx + 16)))
  let memory := store32 memory (edi + 8) (load32 memory (u32 (ebx + 20)))
  let memory := store32 memory (edi + 12) (load32 memory (u32 (ebx + 24)))
  store16 memory (edi + 16) (load16 memory (u32 (ebx + 28)))

/-- The branch over the type of a tag. -/
def mbiTag (arch : BootinfoArch) (memory : Memory) (ebx : ℕ) : Result Memory :=
  let eax := load32 memory ebx
  if eax = 1 then .ok (mbiCmd arch memory ebx)
  else if eax = 6 then mbiMmap memory ebx arch.mmap
  else if eax = 8 then .ok (mbiFb arch memory ebx)
  else .ok memory

/-- `mbi_cont` up to the comparison: the next multiple of eight. -/
def mbiCont (memory : Memory) (ebx : ℕ) : ℕ :=
  let ebx := u32 (ebx + load32 memory (u32 (ebx + 4)))
  u32 (ebx + 7) / 8 * 8

def mbiLoop (arch : BootinfoArch) (ebp : ℕ) : ℕ → ℕ → Memory → Result Memory
  | 0, _, _ => .error .nonterminating
  | fuel + 1, ebx, memory => do
    let memory ← mbiTag arch memory ebx
    let ebx := mbiCont memory ebx
    if ebx < ebp then mbiLoop arch ebp fuel ebx memory else return memory

/-- The copy of the information at `ebx`. -/
def mbi (arch : BootinfoArch) (fuel : ℕ) (memory : Memory) (ebx : ℕ) : Result Memory :=
  let ebp := u32 (ebx + load32 memory ebx)
  mbiLoop arch ebp fuel (u32 (ebx + 8)) memory

end RubberOS.Model.BootMmap
