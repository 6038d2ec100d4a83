import RubberOS.Model.Arraylist
import RubberOS.Model.Buddy
import RubberOS.Model.MemoryMap

/-! # The kernel's memory on top of the buddy allocator

`dynmem_alloc` and `dynmem_dealloc` are the buddy allocator under a lock, which a sequential model
leaves out. The array list's allocator rounds lengths to pages and gives a tail back when it shrinks.
-/

namespace RubberOS.Model.Dynmem

open Buddy MemoryMap Collections

def dynmemAlloc (buddy : BuddyBlocks) (len : ℕ) : Result (Slice × BuddyBlocks) := buddyAllocSlice buddy len

def dynmemDealloc (buddy : BuddyBlocks) (ptr len : ℕ) : Result BuddyBlocks := buddyDealloc buddy ptr len

def arraylistAlloc (len : ℕ) (buddy : BuddyBlocks) : Result ((ℕ × ℕ) × BuddyBlocks) := do
  let aligned := u64 (szdivCeil len PAGE_SIZE * PAGE_SIZE)
  let (s, buddy) ← dynmemAlloc buddy aligned
  return ((s.ptr, s.length), buddy)

def arraylistDealloc (ptr len : ℕ) (buddy : BuddyBlocks) : Result BuddyBlocks := dynmemDealloc buddy ptr len

def arraylistShrink (ptr oldLen newLen : ℕ) (buddy : BuddyBlocks) : Result (ℕ × BuddyBlocks) :=
  let alignedOld := u64 (szdivCeil oldLen PAGE_SIZE * PAGE_SIZE)
  let alignedNew := u64 (szdivCeil newLen PAGE_SIZE * PAGE_SIZE)
  if alignedOld = alignedNew then .ok (alignedOld, buddy)
  else do
    let buddy ← dynmemDealloc buddy (u64 (ptr + alignedNew)) (sub64 alignedOld alignedNew)
    return (alignedNew, buddy)

/-- `g_arraylist_allocator`. -/
def arraylistAllocator : Allocator BuddyBlocks := ⟨arraylistAlloc, arraylistDealloc, arraylistShrink⟩

end RubberOS.Model.Dynmem
