import RubberOS.Model.Freec
import RubberOS.Model.LinkLists

/-! # The slab allocator

A page starts with `struct page`, followed by slots of one size. Everything a page holds lies in
memory, apart from its link, which is kept with the list. The page allocator is code outside the
library: a call of `slab_alloc` takes the answer its `alloc` would give, and the calls made to it
are returned. Half words need not be aligned, as on the target: with an alignment of one the source
puts slots at odd addresses.
-/

namespace RubberOS.Model.Slab

def SLAB_PAGE : ℕ := 4096
def REDZONE_SIZE : ℕ := 16
def EMPTY_MAGIC : ℕ := 0x3a49
def OBJECT_MAGIC : ℕ := 0x6b5c
def REDZONE_FILL : BitVec 8 := 0xe3
def UNUSED_FILL : BitVec 8 := 0xf2
def UINT16_MAX : ℕ := 0xffff

/-- `sizeof(struct page)`: a link of two pointers, two half words and the padding. -/
def sizeofPage : ℕ := 24

/-- `sizeof(struct slot)`. -/
def sizeofSlot : ℕ := 4

/-- `alignof(struct slot)`. -/
def alignofSlot : ℕ := 2

/-- `struct slab_allocator` without the page allocator. -/
structure SlabAllocator where
  partialList : Linkedlist.Links ℕ
  objectSize : ℕ
  objectAlign : ℕ
  payloadOffset : ℕ
  slotSize : ℕ

/-- A call of the page allocator, with the answer of `alloc`, where zero is null. -/
inductive PageCall where
  | alloc (answer : ℕ)
  | dealloc (page : ℕ)
deriving DecidableEq, Repr

/-! ## Fields -/

/-- The address of `page->free_index`. -/
def freeIndexAt (page : ℕ) : ℕ := page + 16

/-- The address of `page->alloc_count`. -/
def allocCountAt (page : ℕ) : ℕ := page + 18

/-- The address of `slot->magic`. -/
def magicAt (slot : ℕ) : ℕ := slot

/-- The address of `slot->next`. -/
def nextAt (slot : ℕ) : ℕ := slot + 2

/-! ## Geometry -/

def alignCeil (x align : ℕ) : ℕ :=
  let mask := sub64 align 1
  u64 (x + mask) &&& (2 ^ 64 - 1 ^^^ mask)

def slotAlignof (objectAlign : ℕ) : ℕ := if objectAlign > alignofSlot then objectAlign else alignofSlot

def slotRedzone1Offset : ℕ := sizeofSlot

def slotPayloadOffset (slab : SlabAllocator) : ℕ := alignCeil (slotRedzone1Offset + REDZONE_SIZE) slab.objectAlign

def slotRedzone1Size (slab : SlabAllocator) : ℕ := sub64 slab.payloadOffset slotRedzone1Offset

def slotRedzone2Offset (slab : SlabAllocator) : ℕ := slab.payloadOffset + slab.objectSize

def slotSizeof (slab : SlabAllocator) : ℕ := alignCeil (slotRedzone2Offset slab + REDZONE_SIZE) slab.objectAlign

def slotRedzone2Size (slab : SlabAllocator) : ℕ := sub64 slab.slotSize (slotRedzone2Offset slab)

def slotRedzone1 (slot : ℕ) : ℕ := slot + slotRedzone1Offset

def slotPayload (slot : ℕ) (slab : SlabAllocator) : ℕ := slot + slab.payloadOffset

def slotRedzone2 (slot : ℕ) (slab : SlabAllocator) : ℕ := slot + slotRedzone2Offset slab

def pageObjectOffset (objectAlign : ℕ) : ℕ := alignCeil sizeofPage (slotAlignof objectAlign)

def objectInfoIsValid (slab : SlabAllocator) : Bool := pageObjectOffset slab.objectAlign + slab.slotSize ≤ SLAB_PAGE

/-! ## Slots -/

def slotInit (memory : Memory) (slot : ℕ) (slab : SlabAllocator) : Memory :=
  let memory := store16 memory (magicAt slot) EMPTY_MAGIC
  let memory := store16 memory (nextAt slot) 0
  let memory := memset memory (slotRedzone1 slot) REDZONE_FILL (slotRedzone1Size slab)
  let memory := memset memory (slotPayload slot slab) UNUSED_FILL slab.objectSize
  memset memory (slotRedzone2 slot slab) REDZONE_FILL (slotRedzone2Size slab)

def slotCheckRedzone (memory : Memory) (slot : ℕ) (slab : SlabAllocator) : Bool :=
  memchrNot memory (slotRedzone1 slot) REDZONE_FILL (slotRedzone1Size slab) = none ∧
    memchrNot memory (slotRedzone2 slot slab) REDZONE_FILL (slotRedzone2Size slab) = none

def slotCheckUnused (memory : Memory) (slot : ℕ) (slab : SlabAllocator) : Bool :=
  memchrNot memory (slotPayload slot slab) UNUSED_FILL slab.objectSize = none

def slotWriteUnused (memory : Memory) (slot : ℕ) (slab : SlabAllocator) (b : BitVec 8) : Memory :=
  memset memory (slotPayload slot slab) b slab.objectSize

def slotOnAlloc (memory : Memory) (slot : ℕ) (slab : SlabAllocator) : Result Memory := do
  assertMsg (load16 memory (magicAt slot) = EMPTY_MAGIC ∧ load16 memory (nextAt slot) = 0) "slab is poisoned"
    "slot->magic == 0x3a49 && slot->next == 0"
  assertMsg (slotCheckRedzone memory slot slab) "redzone is corrupted" "slot_check_redzone(slot, slab)"
  assertMsg (slotCheckUnused memory slot slab) "slab is poisoned" "slot_check_unused(slot, slab)"
  let memory := store16 memory (magicAt slot) OBJECT_MAGIC
  return slotWriteUnused memory slot slab 0

def slotOnDealloc (memory : Memory) (slot : ℕ) (slab : SlabAllocator) : Result Memory := do
  assertMsg (load16 memory (magicAt slot) = OBJECT_MAGIC ∧ load16 memory (nextAt slot) = 0)
    "try to deallocate an object that is not allocated" "slot->magic == 0x6b5c && slot->next == 0"
  assertMsg (slotCheckRedzone memory slot slab) "redzone is corrupted" "slot_check_redzone(slot, slab)"
  let memory := store16 memory (magicAt slot) EMPTY_MAGIC
  return slotWriteUnused memory slot slab UNUSED_FILL

/-! ## Pages -/

def pageFromSlot (slot : ℕ) : ℕ := slot &&& (2 ^ 64 - 1 ^^^ (SLAB_PAGE - 1))

/-- The loop of `page_init`. -/
def threadSlots (slab : SlabAllocator) (page : ℕ) : ℕ → ℕ → Memory → Result Memory
  | 0, _, _ => .error .nonterminating
  | fuel + 1, offset, memory =>
    let slot := page + offset
    let memory := slotInit memory slot slab
    let nextOffset := offset + slab.slotSize
    if nextOffset + slab.slotSize < SLAB_PAGE then
      threadSlots slab page fuel nextOffset (store16 memory (nextAt slot) nextOffset)
    else .ok (store16 memory (nextAt slot) 0)

def pageInit (memory : Memory) (page : ℕ) (slab : SlabAllocator) : Result Memory :=
  let offset := pageObjectOffset slab.objectAlign
  let memory := store16 memory (freeIndexAt page) offset
  let memory := store16 memory (allocCountAt page) 0
  threadSlots slab page SLAB_PAGE offset memory

/-- `page_pop_front`: the slot, whether the page is now full, and the memory. -/
def pagePopFront (memory : Memory) (page : ℕ) : Result (ℕ × Bool × Memory) := do
  assertMsg (load16 memory (freeIndexAt page) ≠ 0) "slab is corrupted: try to pop object from an fully-allocated page"
    "page->free_index != 0"
  let front := page + load16 memory (freeIndexAt page)
  let next := load16 memory (nextAt front)
  let memory := store16 memory (freeIndexAt page) next
  let memory := store16 memory (nextAt front) 0
  let memory := store16 memory (allocCountAt page) (load16 memory (allocCountAt page) + 1)
  return (front, next = 0, memory)

def pagePushFront (memory : Memory) (page slot : ℕ) : Memory :=
  let memory := store16 memory (nextAt slot) (load16 memory (freeIndexAt page))
  let memory := store16 memory (freeIndexAt page) (sub64 slot page)
  store16 memory (allocCountAt page) (sub64 (load16 memory (allocCountAt page)) 1)

/-! ## The allocator -/

def slabInit (slab : SlabAllocator) (size align : ℕ) : Result SlabAllocator := do
  assertMsg (size ≤ UINT16_MAX ∧ align ≤ UINT16_MAX) "object is too big" "size <= 0xffff && align <= 0xffff"
  let slab := { slab with objectSize := size, objectAlign := align }
  let payloadOffset := slotPayloadOffset slab
  assertMsg (payloadOffset ≤ UINT16_MAX) "object is too big" "payload_offset <= 0xffff"
  let slab := { slab with payloadOffset }
  let slotSize := slotSizeof slab
  assertMsg (slotSize ≤ UINT16_MAX) "object is too big" "slot_size <= 0xffff"
  let slab := { slab with slotSize }
  assertMsg (objectInfoIsValid slab) "object is too big" "object_info_is_valid(slab)"
  return { slab with partialList := Linkedlist.init slab.partialList }

/-- `slab_alloc_page`; no page is returned when the page allocator's answer is null. -/
def slabAllocPage (slab : SlabAllocator) (memory : Memory) (answer : ℕ) : Result (Option ℕ × SlabAllocator × Memory) :=
  if answer = 0 then .ok (none, slab, memory)
  else do
    let memory ← pageInit memory answer slab
    let slab := { slab with partialList := Linkedlist.init slab.partialList }
    let slab := { slab with partialList := Linkedlist.pushFront slab.partialList answer }
    return (some answer, slab, memory)

/-- The page that `slab_alloc` takes a slot from, with the call made to get it. -/
def pickPage (slab : SlabAllocator) (memory : Memory) (answer : ℕ) :
    Result (Option ℕ × SlabAllocator × Memory × List PageCall) :=
  if Linkedlist.isEmpty slab.partialList then do
    let (page, slab, memory) ← slabAllocPage slab memory answer
    return (page, slab, memory, [.alloc answer])
  else match Linkedlist.head slab.partialList with
    | some page => .ok (page, slab, memory, [])
    | none => .error .outOfBounds

/-- What a call of the allocator leaves behind, with the calls it made to the page allocator. -/
structure Outcome where
  slab : SlabAllocator
  memory : Memory
  calls : List PageCall

/-- The part of `slab_alloc` after it has a page. -/
def takeSlot (slab : SlabAllocator) (memory : Memory) (page : ℕ) (calls : List PageCall) : Result (ℕ × Outcome) := do
  let (slot, full, memory) ← pagePopFront memory page
  let slab := if full then { slab with partialList := Linkedlist.remove slab.partialList page } else slab
  let memory ← slotOnAlloc memory slot slab
  return (slotPayload slot slab, { slab, memory, calls })

/-- `slab_alloc`: the object's address, or zero. -/
def slabAlloc (slab : SlabAllocator) (memory : Memory) (answer : ℕ) : Result (ℕ × Outcome) := do
  let (page, slab, memory, calls) ← pickPage slab memory answer
  match page with
  | none => return (0, { slab, memory, calls })
  | some page => takeSlot slab memory page calls

/-- What `slab_dealloc` does with the page after the slot is back on its chain. -/
def settlePage (slab : SlabAllocator) (memory : Memory) (page : ℕ) (wasFull : Bool) : SlabAllocator × List PageCall :=
  if load16 memory (allocCountAt page) = 0 then
    let slab := if wasFull then slab else { slab with partialList := Linkedlist.remove slab.partialList page }
    (slab, [.dealloc page])
  else if wasFull then ({ slab with partialList := Linkedlist.pushBack slab.partialList page }, [])
  else (slab, [])

def slabDealloc (slab : SlabAllocator) (memory : Memory) (ptr : ℕ) : Result Outcome := do
  let slot := sub64 ptr (slotPayloadOffset slab)
  let memory ← slotOnDealloc memory slot slab
  let page := pageFromSlot slot
  let wasFull := load16 memory (freeIndexAt page) = 0
  let memory := pagePushFront memory page slot
  let (slab, calls) := settlePage slab memory page wasFull
  return { slab, memory, calls }

end RubberOS.Model.Slab
