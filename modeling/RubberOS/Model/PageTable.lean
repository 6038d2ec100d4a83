import RubberOS.Model.Dynmem

/-! # The page tables of the device mapping window

`pagetable_mmio_map` and `pagetable_mmio_unmap` edit four-level tables in place. A table is one page
of physical memory, and the kernel reaches it through a pointer of its image or of the window over
dynamic memory. The processor's walk reads the same pages by their physical addresses.
-/

namespace RubberOS.Model.PageTable

open Buddy MemoryMap Dynmem

def PAGETABLE_LENGTH : ℕ := 512
def PAGE_FLAG_PRESENT : ℕ := 2 ^ 0
def PAGE_FLAG_WRITABLE : ℕ := 2 ^ 1
def PAGE_FLAG_HUGE : ℕ := 2 ^ 7
def PAGE_MASK_ADDR : ℕ := 0x000ffffffffff000
def KERNEL_PAGE_FLAG : ℕ := PAGE_FLAG_PRESENT ||| PAGE_FLAG_WRITABLE

/-- The bytes under one entry of a page directory. -/
def HUGE_SIZE : ℕ := 0x00200000

/-- Page table pages by physical address and index, and the allocator that supplies them. -/
structure PageMemory where
  frames : ℕ → ℕ → ℕ
  buddy : BuddyBlocks

def isPresent (entry : ℕ) : Bool := entry &&& PAGE_FLAG_PRESENT ≠ 0

def isHuge (entry : ℕ) : Bool := entry &&& PAGE_FLAG_HUGE ≠ 0

/-! ## Memory accesses of the kernel -/

/-- The physical page behind a pointer to a table. -/
def tableFrame (mmapDyn : Mmap) (table : ℕ) : Result ℕ :=
  if table = 0 then .error .nullDereference
  else if table ≥ KERNEL_START_VIRT then .ok (virtToPhysKernel table)
  else virtToPhysDynmem table mmapDyn

/-- `(*table)[index]`. -/
def PageMemory.load (st : PageMemory) (mmapDyn : Mmap) (table index : ℕ) : Result ℕ := do
  let frame ← tableFrame mmapDyn table
  return st.frames frame index

/-- `(*table)[index] = entry`. -/
def PageMemory.store (st : PageMemory) (mmapDyn : Mmap) (table index entry : ℕ) : Result PageMemory := do
  let frame ← tableFrame mmapDyn table
  return { st with frames := Function.update st.frames frame (Function.update (st.frames frame) index entry) }

/-- `memset(table, 0, PAGE_SIZE)`. -/
def PageMemory.clear (st : PageMemory) (mmapDyn : Mmap) (table : ℕ) : Result PageMemory := do
  let frame ← tableFrame mmapDyn table
  return { st with frames := Function.update st.frames frame fun _ => 0 }

/-! ## The processor's walk -/

/-- The index that a virtual address has into a table of a level; level 3 is the root. -/
def tableIndex (level virt : ℕ) : ℕ := virt / 2 ^ (12 + 9 * level) % 512

/-- The entry that ends a walk, and its level. -/
structure Leaf where
  entry : ℕ
  level : ℕ
deriving DecidableEq, Repr

/-- The walk from a table of a level. Only the levels below the root have huge entries. -/
def walkFrom (frames : ℕ → ℕ → ℕ) (virt : ℕ) : ℕ → ℕ → Option Leaf
  | 0, table =>
    let entry := frames table (tableIndex 0 virt)
    if isPresent entry then some ⟨entry, 0⟩ else none
  | level + 1, table =>
    let entry := frames table (tableIndex (level + 1) virt)
    if !isPresent entry then none
    else if isHuge entry then if level + 1 < 3 then some ⟨entry, level + 1⟩ else none
    else walkFrom frames virt level (entry &&& PAGE_MASK_ADDR)

def walk (frames : ℕ → ℕ → ℕ) (root virt : ℕ) : Option Leaf := walkFrom frames virt 3 root

/-- The physical address under a leaf. The address bits of a huge entry above its flags and below its
frame are reserved, except for one attribute bit, and the processor faults where one is set. -/
def Leaf.physical (leaf : Leaf) (virt : ℕ) : Option ℕ :=
  let shift := 12 + 9 * leaf.level
  if leaf.level ≠ 0 ∧ leaf.entry / 2 ^ 13 % 2 ^ (shift - 13) ≠ 0 then none
  else some (leaf.entry / 2 ^ shift % 2 ^ (52 - shift) * 2 ^ shift + virt % 2 ^ shift)

def translateVirt (frames : ℕ → ℕ → ℕ) (root virt : ℕ) : Option ℕ :=
  (walk frames root virt).bind fun leaf => leaf.physical virt

/-! ## Page iterators -/

/-- `struct page_iterator`. -/
@[ext]
structure PageIterator where
  pl4i : ℕ
  pdpi : ℕ
  pdti : ℕ
  ptei : ℕ
deriving DecidableEq, Repr

def pageIteratorFromVirt (virt : ℕ) : PageIterator where
  pl4i := u16 ((virt &&& 0x0000ff8000000000) >>> 39)
  pdpi := u16 ((virt &&& 0x0000007fc0000000) >>> 30)
  pdti := u16 ((virt &&& 0x000000003fe00000) >>> 21)
  ptei := u16 ((virt &&& 0x00000000001ff000) >>> 12)

def pageIteratorNextPl4i (it : PageIterator) : Result PageIterator :=
  let it := { it with pl4i := u16 (it.pl4i + 1) }
  if it.pl4i < 512 then .ok it else panic "page_iterator overflow"

def pageIteratorNextPdpi (it : PageIterator) : Result PageIterator :=
  let it := { it with pdpi := u16 (it.pdpi + 1) }
  if it.pdpi < 512 then .ok it else pageIteratorNextPl4i { it with pdpi := 0 }

def pageIteratorNextPdti (it : PageIterator) : Result PageIterator :=
  let it := { it with pdti := u16 (it.pdti + 1) }
  if it.pdti < 512 then .ok it else pageIteratorNextPdpi { it with pdti := 0 }

def pageIteratorNext (it : PageIterator) : Result PageIterator :=
  let it := { it with ptei := u16 (it.ptei + 1) }
  if it.ptei < 512 then .ok it else pageIteratorNextPdti { it with ptei := 0 }

/-! ## Tables -/

def pageGetOrAlloc (upper index flags : ℕ) (mmapDyn : Mmap) (st : PageMemory) : Result (ℕ × PageMemory) := do
  let entry ← st.load mmapDyn upper index
  if isPresent entry then
    let table ← physToVirt (entry &&& PAGE_MASK_ADDR) mmapDyn
    return (table, st)
  else
    let (t, buddy) ← dynmemAlloc st.buddy PAGE_SIZE
    let st ← { st with buddy }.clear mmapDyn t.ptr
    let phys ← virtToPhysDynmem t.ptr mmapDyn
    let st ← st.store mmapDyn upper index (phys ||| flags)
    return (t.ptr, st)

def pageGetAssert (upper index : ℕ) (mmapDyn : Mmap) (st : PageMemory) : Result ℕ := do
  let entry ← st.load mmapDyn upper index
  assert (isPresent entry) "(*upper)[index] & ((page_entry_t)1 << 0)"
  physToVirt (entry &&& PAGE_MASK_ADDR) mmapDyn

def pagetableIsEmpty (table : ℕ) (mmapDyn : Mmap) (st : PageMemory) : Result Bool := do
  let frame ← tableFrame mmapDyn table
  return (List.range PAGETABLE_LENGTH).all fun i => !isPresent (st.frames frame i)

/-- The loop body of `pagetable_mmio_map`: the next iterator and offset. -/
def mapEntry (beginVirt endVirt phys flags : ℕ) (mmapDyn : Mmap) (pdt : ℕ) (it : PageIterator) (offset : ℕ)
    (st : PageMemory) : Result (PageIterator × ℕ × PageMemory) := do
  let entry ← st.load mmapDyn pdt it.pdti
  if !isPresent entry ∧ it.ptei = 0 ∧ sub64 (sub64 endVirt beginVirt) offset ≥ HUGE_SIZE then
    let st ← st.store mmapDyn pdt it.pdti (u64 (phys + offset) ||| flags ||| PAGE_FLAG_HUGE)
    let it ← pageIteratorNextPdti it
    return (it, u64 (offset + HUGE_SIZE), st)
  else
    let (pt, st) ← pageGetOrAlloc pdt it.pdti flags mmapDyn st
    let leaf ← st.load mmapDyn pt it.ptei
    assert (!isPresent leaf) "!((*pt)[it.ptei] & ((page_entry_t)1 << 0))"
    let st ← st.store mmapDyn pt it.ptei (u64 (phys + offset) ||| flags)
    let it ← pageIteratorNext it
    return (it, u64 (offset + PAGE_SIZE), st)

/-- The loop of `pagetable_mmio_map`. -/
def mapFrom (gPagetable beginVirt endVirt phys flags : ℕ) (mmapDyn : Mmap) :
    ℕ → PageIterator → ℕ → PageMemory → Result PageMemory
  | 0, _, _, _ => .error .nonterminating
  | fuel + 1, it, offset, st =>
    if u64 (beginVirt + offset) < endVirt then do
      let (pdpt, st) ← pageGetOrAlloc gPagetable it.pl4i flags mmapDyn st
      let (pdt, st) ← pageGetOrAlloc pdpt it.pdpi flags mmapDyn st
      let (it, offset, st) ← mapEntry beginVirt endVirt phys flags mmapDyn pdt it offset st
      mapFrom gPagetable beginVirt endVirt phys flags mmapDyn fuel it offset st
    else .ok st

/-- More iterations than a loop over the pages of the range makes. -/
def loopBound (beginVirt endVirt : ℕ) : ℕ := sub64 endVirt beginVirt / PAGE_SIZE + 2

def pagetableMmioMap (gPagetable beginVirt endVirt phys flags : ℕ) (mmapDyn : Mmap) (st : PageMemory) :
    Result PageMemory := do
  assert (isPresent flags) "flags & ((page_entry_t)1 << 0)"
  mapFrom gPagetable beginVirt endVirt phys flags mmapDyn (loopBound beginVirt endVirt)
    (pageIteratorFromVirt beginVirt) 0 st

/-- Clearing one leaf: the small table if there is one, the step, and the next iterator. -/
def clearLeaf (mmapDyn : Mmap) (pdt : ℕ) (it : PageIterator) (st : PageMemory) :
    Result (ℕ × ℕ × PageIterator × PageMemory) := do
  let entry ← st.load mmapDyn pdt it.pdti
  assert (isPresent entry) "(*pdt)[it.pdti] & ((page_entry_t)1 << 0)"
  if isHuge entry then
    assert (it.ptei = 0) "it.ptei == 0"
    let st ← st.store mmapDyn pdt it.pdti 0
    let next ← pageIteratorNextPdti it
    return (0, HUGE_SIZE, next, st)
  else
    let pt ← pageGetAssert pdt it.pdti mmapDyn st
    let st ← st.store mmapDyn pt it.ptei 0
    let next ← pageIteratorNext it
    return (pt, PAGE_SIZE, next, st)

/-- Where an index wraps around, its table goes back to the allocator if it is empty. -/
def releaseEmpty (index nextIndex table upper upperIndex : ℕ) (mmapDyn : Mmap) (st : PageMemory) :
    Result PageMemory := do
  if index > nextIndex then
    let empty ← pagetableIsEmpty table mmapDyn st
    if empty then
      let buddy ← dynmemDealloc st.buddy table PAGE_SIZE
      { st with buddy }.store mmapDyn upper upperIndex 0
    else return st
  else return st

/-- The loop body of `pagetable_mmio_unmap`: the step and the next iterator. -/
def unmapEntry (gPagetable : ℕ) (mmapDyn : Mmap) (it : PageIterator) (st : PageMemory) :
    Result (ℕ × PageIterator × PageMemory) := do
  let pdpt ← pageGetAssert gPagetable it.pl4i mmapDyn st
  let pdt ← pageGetAssert pdpt it.pdpi mmapDyn st
  let (pt, step, next, st) ← clearLeaf mmapDyn pdt it st
  let st ← releaseEmpty it.ptei next.ptei pt pdt it.pdti mmapDyn st
  let st ← releaseEmpty it.pdti next.pdti pdt pdpt it.pdpi mmapDyn st
  let st ← releaseEmpty it.pdpi next.pdpi pdpt gPagetable it.pl4i mmapDyn st
  return (step, next, st)

/-- The loop of `pagetable_mmio_unmap`. -/
def unmapFrom (gPagetable beginVirt endVirt : ℕ) (mmapDyn : Mmap) :
    ℕ → PageIterator → ℕ → PageMemory → Result PageMemory
  | 0, _, _, _ => .error .nonterminating
  | fuel + 1, it, offset, st =>
    if u64 (beginVirt + offset) < endVirt then do
      let (step, next, st) ← unmapEntry gPagetable mmapDyn it st
      unmapFrom gPagetable beginVirt endVirt mmapDyn fuel next (u64 (offset + step)) st
    else .ok st

def pagetableMmioUnmap (gPagetable beginVirt endVirt : ℕ) (mmapDyn : Mmap) (st : PageMemory) : Result PageMemory :=
  unmapFrom gPagetable beginVirt endVirt mmapDyn (loopBound beginVirt endVirt) (pageIteratorFromVirt beginVirt) 0 st

end RubberOS.Model.PageTable
