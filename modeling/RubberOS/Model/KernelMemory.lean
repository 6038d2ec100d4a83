import RubberOS.Model.Dynmem
import RubberOS.Model.Mmio
import RubberOS.Model.PageAccesses
import RubberOS.Model.Slab

/-! # The memory of the kernel

`memory_init` builds the map of dynamic memory, the page tables over it, the buddy allocator behind
the table pages and the free list of the I/O window. From then on slab allocators take their pages
from the buddy allocator, and so do the tables below device mappings. The bytes of the pool are those
of `buddy.memory`, whoever writes them.
-/

namespace RubberOS.Model.KernelMemory

open Buddy Dynmem MemoryMap Mmio PageConstruct PageTable Slab

/-- `memory_init`, from the frames of the tables and from whatever lies in the memory of the pool:
`g_mmap_dyn`, and `g_meminfo` with the page tables. -/
def memoryInit (layout : KernelLayout) (mmapDyn mmapBoot : Mmap) (frames : Frames) (memory : Memory)
    (bitmaps : ℕ → BlockBitmap) : Result (Mmap × Meminfo PageMemory) := do
  let mmapDyn ← constructMmapDyn mmapDyn mmapBoot
  let (r, frames) ← pagetableConstruct layout mmapDyn frames
  let buddy ← buddyInit memory bitmaps (dynmemRegion r).1 (dynmemRegion r).2
  return (mmapDyn, ⟨mmioFreelistInit, ⟨frames, buddy⟩⟩)

/-! ## Slabs -/

def slabPageAlloc (buddy : BuddyBlocks) : Result (ℕ × BuddyBlocks) := do
  let (slice, buddy) ← dynmemAlloc buddy SLAB_PAGE
  return (slice.ptr, buddy)

def slabPageDealloc (page : ℕ) (buddy : BuddyBlocks) : Result BuddyBlocks := dynmemDealloc buddy page SLAB_PAGE

/-- What `g_slab_page_allocator` does for a call; `slab_alloc` gets its answer before. -/
def serve (buddy : BuddyBlocks) : PageCall → Result BuddyBlocks
  | .alloc _ => .ok buddy
  | .dealloc page => slabPageDealloc page buddy

/-- `slab_alloc` with `g_slab_page_allocator`, which is asked when no page has a free slot. -/
def slabAllocFrom (slab : SlabAllocator) (buddy : BuddyBlocks) : Result (ℕ × SlabAllocator × BuddyBlocks) := do
  let (answer, buddy) ← if Linkedlist.isEmpty slab.partialList then slabPageAlloc buddy else pure (0, buddy)
  let (ptr, outcome) ← slabAlloc slab buddy.memory answer
  return (ptr, outcome.slab, { buddy with memory := outcome.memory })

/-- `slab_dealloc` with `g_slab_page_allocator`, whose call is its last step. -/
def slabDeallocTo (slab : SlabAllocator) (buddy : BuddyBlocks) (ptr : ℕ) : Result (SlabAllocator × BuddyBlocks) := do
  let outcome ← slabDealloc slab buddy.memory ptr
  let buddy ← outcome.calls.foldlM serve { buddy with memory := outcome.memory }
  return (outcome.slab, buddy)

/-! ## Device mappings -/

/-- The functions that `mmio_alloc_mapping` and `mmio_dealloc_mapping` edit the page tables with. -/
def kernelPageTables (gPagetable : ℕ) (mmapDyn : Mmap) : PageTables PageMemory where
  mmioMap beginVirt endVirt phys st := pagetableMmioMap gPagetable beginVirt endVirt phys KERNEL_PAGE_FLAG mmapDyn st
  mmioUnmap beginVirt endVirt st := pagetableMmioUnmap gPagetable beginVirt endVirt mmapDyn st

end RubberOS.Model.KernelMemory
