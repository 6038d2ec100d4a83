import RubberOS.Model.Freec

/-! # The array list of libcoll

The list is a byte buffer with a size and a capacity, over an allocator that is a parameter: `σ` is
what the allocator keeps. A copy is checked against the two objects it runs over, so a copy that
leaves its object is a fault and never a write.
-/

namespace RubberOS.Model.Collections

/-- `struct arraylist_allocator`. -/
structure Allocator (σ : Type) where
  /-- The pointer, which is zero on failure, and `*allocated_len`. -/
  alloc : ℕ → σ → Result ((ℕ × ℕ) × σ)
  dealloc : (ptr len : ℕ) → σ → Result σ
  shrink : (ptr oldLen newLen : ℕ) → σ → Result (ℕ × σ)

/-- `struct arraylist` without its allocator. -/
structure Arraylist where
  data : ℕ
  size : ℕ
  capacity : ℕ
deriving DecidableEq, Repr

/-- A list with the memory and the allocator it works on. -/
structure Heap (σ : Type) where
  list : Arraylist
  memory : Memory
  allocator : σ

/-- `struct tagged_ptr`: an object's address and length. -/
structure TaggedPtr where
  ptr : ℕ
  len : ℕ
deriving DecidableEq, Repr

/-- The range lies in the object. -/
def TaggedPtr.holds (object : TaggedPtr) (address count : ℕ) : Bool :=
  object.ptr ≤ address ∧ address + count ≤ object.ptr + object.len

/-- A copy between two objects by one of the functions of `string.c`. -/
def copy (function : Memory → ℕ → ℕ → ℕ → Memory) (memory : Memory) (into source : TaggedPtr) (dest src count : ℕ) :
    Result Memory :=
  if into.holds dest count && source.holds src count then .ok (function memory dest src count) else .error .outOfBounds

def Arraylist.object (list : Arraylist) : TaggedPtr := ⟨list.data, list.capacity⟩

section Operations

variable {σ : Type} (pa : Allocator σ)

def arraylistInit (heap : Heap σ) (initialCapacity : ℕ) : Result (Heap σ) :=
  if initialCapacity = 0 then .ok { heap with list := ⟨0, 0, initialCapacity⟩ }
  else do
    let ((data, capacity), allocator) ← pa.alloc initialCapacity heap.allocator
    assertMsg (data ≠ 0) "arraylist: init allocation failed" "list->data"
    return { heap with list := ⟨data, 0, capacity⟩, allocator }

/-- `reserve_without_copy`: the old data, or null when nothing is to be copied and released. -/
def reserveWithoutCopy (heap : Heap σ) (newCapacity : ℕ) : Result (TaggedPtr × Heap σ) :=
  if newCapacity ≤ heap.list.capacity then .ok (⟨0, 0⟩, heap)
  else do
    let ((newData, allocatedLen), allocator) ← pa.alloc newCapacity heap.allocator
    assertMsg (newData ≠ 0) "arraylist: out of memory" "new_data"
    return (heap.list.object, { heap with list := { heap.list with data := newData, capacity := allocatedLen }, allocator })

def arraylistReserve (heap : Heap σ) (newCapacity : ℕ) : Result (Heap σ) := do
  let (oldData, heap) ← reserveWithoutCopy pa heap newCapacity
  if oldData.ptr ≠ 0 then do
    let list := heap.list
    let memory ← if list.size > 0 then copy memcpy heap.memory list.object oldData list.data oldData.ptr list.size
      else .ok heap.memory
    let allocator ← pa.dealloc oldData.ptr oldData.len heap.allocator
    return { list, memory, allocator }
  else return heap

def capacityForSize (newSize oldCapacity : ℕ) : ℕ :=
  if newSize > u64 (oldCapacity * 2) then newSize else u64 (oldCapacity * 2)

def arraylistResize (heap : Heap σ) (newSize : ℕ) : Result (Heap σ) := do
  let heap ← if newSize > heap.list.capacity then
      arraylistReserve pa heap (capacityForSize newSize heap.list.capacity)
    else .ok heap
  return { heap with list := { heap.list with size := newSize } }

def arraylistShrinkTo (heap : Heap σ) (newSize : ℕ) : Result (Heap σ) :=
  let list := heap.list
  if newSize = 0 then
    if list.data ≠ 0 then do
      let allocator ← pa.dealloc list.data list.capacity heap.allocator
      return { heap with list := ⟨0, 0, 0⟩, allocator }
    else .ok heap
  else if newSize < list.capacity then do
    let (capacity, allocator) ← pa.shrink list.data list.capacity newSize heap.allocator
    return { heap with list := ⟨list.data, if newSize < list.size then newSize else list.size, capacity⟩, allocator }
  else .ok heap

/-- `arraylist_push_back`: the address of the new bytes. -/
def arraylistPushBack (heap : Heap σ) (dataSize : ℕ) : Result (ℕ × Heap σ) := do
  let size := heap.list.size
  let heap ← arraylistResize pa heap (u64 (size + dataSize))
  return (u64 (heap.list.data + size), heap)

def arraylistPopBack (heap : Heap σ) (dataSize : ℕ) : Result (Heap σ) := do
  assertMsg (dataSize ≤ heap.list.size) "arraylist: pop_back out of bounds" "data_size <= list->size"
  return { heap with list := { heap.list with size := sub64 heap.list.size dataSize } }

/-- The two copies of `arraylist_insert` into new data, around the gap. -/
def copyAround (memory : Memory) (list : Arraylist) (oldData : TaggedPtr) (pos inserted dataSize : ℕ) : Result Memory := do
  let memory ← if pos > 0 then copy memcpy memory list.object oldData list.data oldData.ptr pos else .ok memory
  if list.size > pos then
    copy memcpy memory list.object oldData (u64 (inserted + dataSize)) (oldData.ptr + pos) (list.size - pos)
  else return memory

/-- `arraylist_insert`: the address of the gap. -/
def arraylistInsert (heap : Heap σ) (pos dataSize : ℕ) : Result (ℕ × Heap σ) := do
  assertMsg (pos ≤ heap.list.size) "arraylist: insert out of bounds" "pos <= list->size"
  let (oldData, heap) ← reserveWithoutCopy pa heap (u64 (heap.list.size + dataSize))
  let list := heap.list
  let inserted := u64 (list.data + pos)
  let grown := { list with size := u64 (list.size + dataSize) }
  if oldData.ptr ≠ 0 then do
    let memory ← copyAround heap.memory list oldData pos inserted dataSize
    let allocator ← pa.dealloc oldData.ptr oldData.len heap.allocator
    return (inserted, { list := grown, memory, allocator })
  else do
    let memory ← if list.size > pos then
        copy memmove heap.memory list.object list.object (u64 (inserted + dataSize)) inserted (list.size - pos)
      else .ok heap.memory
    return (inserted, { heap with list := grown, memory })

def arraylistRemove (heap : Heap σ) (pos dataSize : ℕ) : Result (Heap σ) := do
  let list := heap.list
  assertMsg (u64 (pos + dataSize) ≤ list.size) "arraylist: remove out of bounds" "pos + data_size <= list->size"
  let memory ← if u64 (pos + dataSize) < list.size then
      copy memmove heap.memory list.object list.object (u64 (list.data + pos)) (u64 (list.data + pos + dataSize))
        (sub64 (sub64 list.size pos) dataSize)
    else .ok heap.memory
  return { heap with list := { list with size := sub64 list.size dataSize }, memory }

end Operations

end RubberOS.Model.Collections
