import RubberOS.Model.Arraylist
import RubberOS.ToMathlib.Windows

/-! # What the operations of an array list compute

An operation that has to grow asks the allocator once. With an answer that is large enough and does
not wrap, every copy stays in its object, and the results below are the operations' exact effects.
-/

namespace RubberOS.Model.Collections

variable {σ : Type} {pa : Allocator σ} {heap : Heap σ} {need data capacity newSize pos n : ℕ} {after : σ}

/-! ## The allocator's answers -/

/-- The release of data that have been replaced. -/
def releaseData (pa : Allocator σ) (list : Arraylist) (allocator : σ) : Result σ :=
  if list.data ≠ 0 then pa.dealloc list.data list.capacity allocator else .ok allocator

/-- The allocator answers with new data for a list, and takes the old ones back. -/
structure Growth (pa : Allocator σ) (heap : Heap σ) (need data capacity : ℕ) (after : σ) : Prop where
  answered : ∃ taken, pa.alloc need heap.allocator = .ok ((data, capacity), taken) ∧
    releaseData pa heap.list taken = .ok after
  valid : data ≠ 0
  enough : need ≤ capacity
  space : data + capacity ≤ 2 ^ 64

/-- The allocator answers with a null pointer. -/
def OutOfMemory (pa : Allocator σ) (heap : Heap σ) (need : ℕ) : Prop :=
  ∃ capacity taken, pa.alloc need heap.allocator = .ok ((0, capacity), taken)

/-! ## Copies -/

variable {function : Memory → ℕ → ℕ → ℕ → Memory} {memory : Memory} {into source : TaggedPtr} {dest src count : ℕ}

private theorem copy_of (inside : into.ptr ≤ dest ∧ dest + count ≤ into.ptr + into.len)
    (inside' : source.ptr ≤ src ∧ src + count ≤ source.ptr + source.len) :
    copy function memory into source dest src count = .ok (function memory dest src count) := by
  refine if_pos ?_
  rw [Bool.and_eq_true]
  exact ⟨decide_eq_true inside, decide_eq_true inside'⟩

theorem copy_outside (outside : ¬(into.ptr ≤ dest ∧ dest + count ≤ into.ptr + into.len)) :
    copy function memory into source dest src count = .error .outOfBounds := by
  refine if_neg ?_
  rw [Bool.and_eq_true]
  exact fun both => outside (of_decide_eq_true both.1)

/-- A copy within the data of a list. -/
theorem copy_within {list : Arraylist} (inside : list.data ≤ dest ∧ dest + count ≤ list.data + list.capacity)
    (inside' : list.data ≤ src ∧ src + count ≤ list.data + list.capacity) :
    copy function memory list.object list.object dest src count = .ok (function memory dest src count) :=
  copy_of inside inside'

@[simp] theorem memmove_zero : memmove memory dest src 0 = memory := by
  rw [memmove]
  split_ifs
  · rfl
  · rfl

/-! ## Growing -/

theorem reserveWithoutCopy_keep (pa : Allocator σ) (enough : need ≤ heap.list.capacity) :
    reserveWithoutCopy pa heap need = .ok (⟨0, 0⟩, heap) := if_pos enough

private theorem reserveWithoutCopy_grow {taken : σ} (less : heap.list.capacity < need) (valid : data ≠ 0)
    (ran : pa.alloc need heap.allocator = .ok ((data, capacity), taken)) :
    reserveWithoutCopy pa heap need =
      .ok (heap.list.object, ⟨⟨data, heap.list.size, capacity⟩, heap.memory, taken⟩) := by
  rw [reserveWithoutCopy, if_neg (Nat.not_le_of_lt less), ran, Except.ok_bind]
  dsimp only
  rw [assertMsg_of (decide_eq_true valid)]
  rfl

private theorem reserveWithoutCopy_null (less : heap.list.capacity < need) (null : OutOfMemory pa heap need) :
    reserveWithoutCopy pa heap need = .error (.panic "arraylist: out of memory : new_data") := by
  obtain ⟨capacity, taken, ran⟩ := null
  rw [reserveWithoutCopy, if_neg (Nat.not_le_of_lt less), ran]
  rfl

/-- The contents of new data after `arraylist_reserve`. -/
def moved (memory : Memory) (list : Arraylist) (data : ℕ) : Memory :=
  if list.data ≠ 0 then memcpy memory data list.data list.size else memory

theorem arraylistReserve_grow (fits : heap.list.size ≤ heap.list.capacity) (less : heap.list.capacity < need)
    (growth : Growth pa heap need data capacity after) : arraylistReserve pa heap need =
      .ok ⟨⟨data, heap.list.size, capacity⟩, moved heap.memory heap.list data, after⟩ := by
  obtain ⟨⟨taken, ran, released⟩, valid, enough, _⟩ := growth
  rw [arraylistReserve, reserveWithoutCopy_grow less valid ran, Except.ok_bind]
  rw [releaseData] at released
  rw [moved]
  dsimp only [Arraylist.object]
  by_cases old : heap.list.data = 0
  · rw [if_neg (not_not.mpr old)] at released ⊢
    rw [if_neg (not_not.mpr old)]
    cases released
    rfl
  · rw [if_pos old] at released ⊢
    rw [if_pos old]
    by_cases some : heap.list.size > 0
    · have inside : copy memcpy heap.memory ⟨data, capacity⟩ ⟨heap.list.data, heap.list.capacity⟩ data
          heap.list.data heap.list.size = .ok (memcpy heap.memory data heap.list.data heap.list.size) :=
        copy_of ⟨Nat.le_refl _, by dsimp only; omega⟩ ⟨Nat.le_refl _, by dsimp only; omega⟩
      rw [if_pos some, inside, Except.ok_bind, released]
      rfl
    · have none : heap.list.size = 0 := by omega
      rw [if_neg some, Except.ok_bind, released, none]
      rfl

theorem arraylistReserve_null (less : heap.list.capacity < need) (null : OutOfMemory pa heap need) :
    arraylistReserve pa heap need = .error (.panic "arraylist: out of memory : new_data") := by
  rw [arraylistReserve, reserveWithoutCopy_null less null]
  rfl

theorem capacityForSize_ge (newSize capacity : ℕ) : newSize ≤ capacityForSize newSize capacity := by
  rw [capacityForSize]
  split_ifs with more
  · exact Nat.le_refl _
  · omega

theorem arraylistResize_keep (enough : newSize ≤ heap.list.capacity) :
    arraylistResize pa heap newSize = .ok { heap with list := { heap.list with size := newSize } } := by
  rw [arraylistResize, if_neg (Nat.not_lt_of_le enough)]
  rfl

theorem arraylistResize_grow (fits : heap.list.size ≤ heap.list.capacity) (less : heap.list.capacity < newSize)
    (growth : Growth pa heap (capacityForSize newSize heap.list.capacity) data capacity after) :
    arraylistResize pa heap newSize =
      .ok ⟨⟨data, newSize, capacity⟩, moved heap.memory heap.list data, after⟩ := by
  have more := capacityForSize_ge newSize heap.list.capacity
  rw [arraylistResize, if_pos less, arraylistReserve_grow fits (Nat.lt_of_lt_of_le less more) growth]
  rfl

theorem arraylistResize_null (less : heap.list.capacity < newSize)
    (null : OutOfMemory pa heap (capacityForSize newSize heap.list.capacity)) :
    arraylistResize pa heap newSize = .error (.panic "arraylist: out of memory : new_data") := by
  have more := capacityForSize_ge newSize heap.list.capacity
  rw [arraylistResize, if_pos less, arraylistReserve_null (Nat.lt_of_lt_of_le less more) null]
  rfl

/-! ## Insertion -/

/-- The contents of new data after `arraylist_insert`. -/
def opened (memory : Memory) (list : Arraylist) (data pos n : ℕ) : Memory :=
  if list.data ≠ 0 then
    memcpy (memcpy memory data list.data pos) (data + pos + n) (list.data + pos) (list.size - pos)
  else memmove memory (data + pos + n) (data + pos) (list.size - pos)

private theorem copyAround_of (memory : Memory) (list : Arraylist) (old : TaggedPtr) (inPos : pos ≤ list.size)
    (fits : list.size ≤ old.len)
    (enough : list.size + n ≤ list.capacity) (space : list.data + list.capacity ≤ 2 ^ 64) :
    copyAround memory list old pos (u64 (list.data + pos)) n =
      .ok (memcpy (memcpy memory list.data old.ptr pos) (list.data + pos + n) (old.ptr + pos) (list.size - pos)) := by
  have front : (if pos > 0 then copy memcpy memory list.object old list.data old.ptr pos else .ok memory) =
      .ok (memcpy memory list.data old.ptr pos) := by
    split_ifs with some
    · exact copy_of ⟨Nat.le_refl _, by dsimp only [Arraylist.object]; omega⟩ ⟨Nat.le_refl _, by omega⟩
    · obtain rfl : pos = 0 := by omega
      rfl
  rw [copyAround, Except.ite_bind, front, Except.ok_bind]
  split_ifs with rest
  · rw [u64_of_lt (show list.data + pos < 2 ^ 64 by omega), u64_of_lt (by omega)]
    exact copy_of ⟨by dsimp only [Arraylist.object]; omega, by dsimp only [Arraylist.object]; omega⟩
      ⟨by omega, by omega⟩
  · have none : list.size - pos = 0 := by omega
    rw [none]
    rfl

/-- The move of the bytes behind the gap within the data. -/
private theorem moveBack_of (memory : Memory) (list : Arraylist) (enough : list.size + n ≤ list.capacity)
    (space : list.data + list.capacity ≤ 2 ^ 64) (inPos : pos ≤ list.size) :
    (if list.size > pos then copy memmove memory list.object list.object (u64 (u64 (list.data + pos) + n))
        (u64 (list.data + pos)) (list.size - pos) else .ok memory) =
      .ok (memmove memory (list.data + pos + n) (list.data + pos) (list.size - pos)) := by
  split_ifs with rest
  · rw [u64_of_lt (show list.data + pos < 2 ^ 64 by omega), u64_of_lt (by omega)]
    exact copy_within ⟨by omega, by omega⟩ ⟨by omega, by omega⟩
  · have none : list.size - pos = 0 := by omega
    rw [none, memmove_zero]

theorem arraylistInsert_keep (inPos : pos ≤ heap.list.size) (enough : heap.list.size + n ≤ heap.list.capacity)
    (space : heap.list.data + heap.list.capacity ≤ 2 ^ 64) (bound : heap.list.size + n < 2 ^ 64) :
    arraylistInsert pa heap pos n = .ok (u64 (heap.list.data + pos), ⟨{ heap.list with size := heap.list.size + n },
      memmove heap.memory (heap.list.data + pos + n) (heap.list.data + pos) (heap.list.size - pos),
      heap.allocator⟩) := by
  have kept := reserveWithoutCopy_keep pa enough
  rw [arraylistInsert, assertMsg_of (decide_eq_true inPos), u64_of_lt bound, kept, Except.ok_bind, Except.ok_bind]
  dsimp only
  rw [if_neg (not_not.mpr rfl), Except.ite_bind, moveBack_of _ _ enough space inPos, u64_of_lt bound]
  rfl

theorem arraylistInsert_grow (inPos : pos ≤ heap.list.size) (fits : heap.list.size ≤ heap.list.capacity)
    (less : heap.list.capacity < heap.list.size + n) (bound : heap.list.size + n < 2 ^ 64)
    (growth : Growth pa heap (heap.list.size + n) data capacity after) :
    arraylistInsert pa heap pos n = .ok (u64 (data + pos),
      ⟨⟨data, heap.list.size + n, capacity⟩, opened heap.memory heap.list data pos n, after⟩) := by
  obtain ⟨⟨taken, ran, released⟩, valid, enough, space⟩ := growth
  rw [arraylistInsert, assertMsg_of (decide_eq_true inPos), u64_of_lt bound, reserveWithoutCopy_grow less valid ran,
    Except.ok_bind, Except.ok_bind]
  dsimp only
  rw [releaseData] at released
  rw [opened, u64_of_lt bound]
  by_cases old : heap.list.data = 0
  · rw [if_neg (not_not.mpr old)] at released ⊢
    cases released
    have back := moveBack_of heap.memory ⟨data, heap.list.size, capacity⟩ enough space inPos
    rw [if_neg (show ¬heap.list.object.ptr ≠ 0 from not_not.mpr old), Except.ite_bind, back]
    rfl
  · rw [if_pos old] at released ⊢
    have around := copyAround_of heap.memory ⟨data, heap.list.size, capacity⟩ heap.list.object inPos fits enough space
    rw [if_pos (show heap.list.object.ptr ≠ 0 from old), around, Except.ok_bind,
      show pa.dealloc heap.list.object.ptr heap.list.object.len taken = _ from
      released]
    rfl

theorem arraylistInsert_null (inPos : pos ≤ heap.list.size) (less : heap.list.capacity < heap.list.size + n)
    (bound : heap.list.size + n < 2 ^ 64) (null : OutOfMemory pa heap (heap.list.size + n)) :
    arraylistInsert pa heap pos n = .error (.panic "arraylist: out of memory : new_data") := by
  rw [arraylistInsert, assertMsg_of (decide_eq_true inPos), u64_of_lt bound, reserveWithoutCopy_null less null]
  rfl

/-! ## Removal -/

theorem arraylistRemove_of (inside : pos + n ≤ heap.list.size) (fits : heap.list.size ≤ heap.list.capacity)
    (space : heap.list.data + heap.list.capacity ≤ 2 ^ 64) (bound : heap.list.size < 2 ^ 64) :
    arraylistRemove heap pos n = .ok ⟨{ heap.list with size := heap.list.size - n },
      memmove heap.memory (heap.list.data + pos) (heap.list.data + pos + n) (heap.list.size - (pos + n)),
      heap.allocator⟩ := by
  have rest : sub64 (sub64 heap.list.size pos) n = heap.list.size - (pos + n) := by
    rw [sub64_of_le (show pos ≤ heap.list.size by omega) bound, sub64_of_le (by omega) (by omega), Nat.sub_sub]
  rw [arraylistRemove, u64_of_lt (show pos + n < 2 ^ 64 by omega), assertMsg_of (decide_eq_true inside), rest,
    sub64_of_le (show n ≤ heap.list.size by omega) bound]
  simp only [Except.ok_bind]
  split_ifs with some
  · rw [u64_of_lt (show heap.list.data + pos < 2 ^ 64 by omega), u64_of_lt (by omega),
      copy_within ⟨by omega, by omega⟩ ⟨by omega, by omega⟩]
    rfl
  · have none : heap.list.size - (pos + n) = 0 := by omega
    rw [none, memmove_zero]
    rfl

end RubberOS.Model.Collections
