import RubberOS.Proofs.Arraylist

/-! # The array list at sizes that wrap

`arraylist_remove`, `arraylist_insert` and `arraylist_push_back` for all 64-bit arguments. The bounds are
asserted on sums that may wrap, and a wrapped sum passes them. Growing by a wrapped sum is harmless, but a
move of the bytes behind a wrapped gap leaves the data.
-/

namespace RubberOS.Soundness.ArraylistWraps

open Model Model.Collections

/-- The size is within the capacity and the data end within the address space. -/
structure Bounded (list : Arraylist) : Prop where
  fits : list.size ≤ list.capacity
  space : list.data + list.capacity ≤ 2 ^ 64
  word : list.capacity < 2 ^ 64

/-- The allocator answers every request, with a null pointer or with data that are large enough. -/
structure Answers {σ : Type} (pa : Allocator σ) : Prop where
  alloc : ∀ len s, ∃ data capacity taken, pa.alloc len s = .ok ((data, capacity), taken) ∧
    (data ≠ 0 → len ≤ capacity ∧ data + capacity ≤ 2 ^ 64)
  dealloc : ∀ ptr len s, ∃ after, pa.dealloc ptr len s = .ok after

def Within (object : TaggedPtr) (address : ℕ) : Prop := object.ptr ≤ address ∧ address < object.ptr + object.len

/-- The call stops at an assertion, or it returns with the size within the capacity and has written only the
old and the new data. A copy out of these data is a fault, and not a return. -/
def Safe {σ : Type} (heap : Heap σ) (result : Result (Heap σ)) : Prop :=
  (∃ msg, result = .error (.panic msg)) ∨ ∃ after, result = .ok after ∧ after.list.size ≤ after.list.capacity ∧
    ∀ address, ¬Within heap.list.object address → ¬Within after.list.object address →
      after.memory address = heap.memory address

/-- The removed range does not wrap, or wraps to an end that is beyond the size, or the bytes that stay fit
behind its start. -/
def RemoveExact (list : Arraylist) (pos n : ℕ) : Prop :=
  pos + n < 2 ^ 64 ∨ list.size < pos + n - 2 ^ 64 ∨ list.size + (2 ^ 64 - n) ≤ list.capacity

/-- The position is beyond the size, or the new size does not wrap, or no byte has to move, or the moved bytes
wrap back into the data. -/
def InsertExact (list : Arraylist) (pos n : ℕ) : Prop :=
  list.size < pos ∨ list.size + n < 2 ^ 64 ∨ pos = list.size ∨ 2 ^ 64 ≤ pos + n

variable {σ : Type} {pa : Allocator σ} {heap : Heap σ} {need data capacity newSize pos n : ℕ} {after : σ}
  {memory : Memory} {list : Arraylist}

private theorem growth_or_null (answers : Answers pa) (heap : Heap σ) (need : ℕ) :
    OutOfMemory pa heap need ∨ ∃ data capacity after, Growth pa heap need data capacity after := by
  obtain ⟨data, capacity, taken, ran, bounds⟩ := answers.alloc need heap.allocator
  by_cases null : data = 0
  · subst null
    exact .inl ⟨capacity, taken, ran⟩
  · obtain ⟨enough, space⟩ := bounds null
    right
    have released : ∃ after, releaseData pa heap.list taken = .ok after := by
      rw [releaseData]
      split_ifs with old
      · exact answers.dealloc _ _ _
      · exact ⟨taken, rfl⟩
    obtain ⟨after, released⟩ := released
    exact ⟨data, capacity, after, ⟨taken, ran, released⟩, null, enough, space⟩

/-! ## What the calls write -/

private theorem memmove_outside {dest src count address : ℕ} (outside : address < dest ∨ dest + count ≤ address) :
    memmove memory dest src count address = memory address := by
  rw [memmove_apply, if_neg (by omega)]

private theorem moved_outside {address : ℕ} (fits : list.size ≤ capacity) (outside : ¬Within ⟨data, capacity⟩ address) :
    moved memory list data address = memory address := by
  rw [Within] at outside
  rw [moved]
  split_ifs
  · exact memcpy_outside (by dsimp only at outside; omega)
  · rfl

private theorem opened_outside {address : ℕ} (inPos : pos ≤ list.size) (fits : list.size + n ≤ capacity)
    (outside : ¬Within ⟨data, capacity⟩ address) : opened memory list data pos n address = memory address := by
  rw [Within] at outside
  dsimp only at outside
  rw [opened]
  split_ifs
  · rw [memcpy_outside (by omega), memcpy_outside (by omega)]
  · exact memmove_outside (by omega)

/-! ## Calls that do not wrap -/

private theorem safe_panic {msg : String} {result : Result (Heap σ)} (stopped : result = .error (.panic msg)) :
    Safe heap result := .inl ⟨msg, stopped⟩

private theorem resize_safe (answers : Answers pa) (bounded : Bounded heap.list) (newSize : ℕ) :
    Safe heap (arraylistResize pa heap newSize) := by
  rcases Nat.lt_or_ge heap.list.capacity newSize with more | enough
  · have larger := capacityForSize_ge newSize heap.list.capacity
    rcases growth_or_null answers heap (capacityForSize newSize heap.list.capacity) with null | found
    · exact safe_panic (arraylistResize_null more null)
    · obtain ⟨data, capacity, after, growth⟩ := found
      have room := growth.enough
      have fits := bounded.fits
      refine .inr ⟨_, arraylistResize_grow fits more growth, by dsimp only; omega, fun address _ outside => ?_⟩
      refine moved_outside ?_ outside
      dsimp only
      omega
  · exact .inr ⟨_, arraylistResize_keep enough, enough, fun _ _ _ => rfl⟩

private theorem pushBack_safe (answers : Answers pa) (bounded : Bounded heap.list) (n : ℕ) :
    Safe heap (Prod.snd <$> arraylistPushBack pa heap n) := by
  have resized := resize_safe answers bounded (u64 (heap.list.size + n))
  have same : Prod.snd <$> arraylistPushBack pa heap n = arraylistResize pa heap (u64 (heap.list.size + n)) := by
    rw [arraylistPushBack]
    cases arraylistResize pa heap (u64 (heap.list.size + n)) <;> rfl
  rwa [same]

private theorem insert_safe (answers : Answers pa) (bounded : Bounded heap.list) (inPos : pos ≤ heap.list.size)
    (bound : heap.list.size + n < 2 ^ 64) : Safe heap (Prod.snd <$> arraylistInsert pa heap pos n) := by
  rcases Nat.lt_or_ge heap.list.capacity (heap.list.size + n) with more | enough
  · rcases growth_or_null answers heap (heap.list.size + n) with null | found
    · rw [arraylistInsert_null inPos more bound null]
      exact safe_panic rfl
    · obtain ⟨data, capacity, after, growth⟩ := found
      rw [arraylistInsert_grow inPos bounded.fits more bound growth]
      refine .inr ⟨_, rfl, growth.enough, fun address _ outside => ?_⟩
      exact opened_outside inPos growth.enough outside
  · rw [arraylistInsert_keep inPos enough bounded.space bound]
    refine .inr ⟨_, rfl, enough, fun address outside _ => memmove_outside ?_⟩
    rw [Within] at outside
    dsimp only [Arraylist.object] at outside
    omega

private theorem remove_safe (bounded : Bounded heap.list) (bound : pos + n < 2 ^ 64) :
    Safe heap (arraylistRemove heap pos n) := by
  obtain ⟨fits, space, word⟩ := bounded
  by_cases inside : pos + n ≤ heap.list.size
  · rw [arraylistRemove_of inside fits space (by omega)]
    refine .inr ⟨_, rfl, by dsimp only; omega, fun address outside _ => memmove_outside ?_⟩
    rw [Within] at outside
    dsimp only [Arraylist.object] at outside
    omega
  · refine .inl ⟨"arraylist: remove out of bounds : pos + data_size <= list->size", ?_⟩
    rw [arraylistRemove, u64_of_lt bound]
    dsimp only
    rw [decide_eq_false inside]
    rfl

/-! ## Sums that wrap -/

/-- The move behind a removed range that wraps stays in the data exactly when all moved bytes fit behind its
start. -/
private theorem remove_dest {finish : ℕ} (bounded : Bounded list) (pos_lt : pos < 2 ^ 64) (n_lt : n < 2 ^ 64)
    (wraps : pos + n = finish + 2 ^ 64) (some : finish < list.size) :
    (list.data ≤ u64 (list.data + pos) ∧
        u64 (list.data + pos) + (list.size - finish) ≤ list.data + list.capacity) ↔
      list.size + (2 ^ 64 - n) ≤ list.capacity := by
  obtain ⟨fits, space, word⟩ := bounded
  unfold u64
  omega

/-- A removed range that wraps to an end within the size. -/
private theorem remove_wrapped {finish : ℕ} (bounded : Bounded heap.list) (pos_lt : pos < 2 ^ 64) (n_lt : n < 2 ^ 64)
    (wraps : pos + n = finish + 2 ^ 64) (passes : finish ≤ heap.list.size) :
    Safe heap (arraylistRemove heap pos n) ↔ heap.list.size + (2 ^ 64 - n) ≤ heap.list.capacity := by
  have dest := remove_dest bounded pos_lt n_lt wraps
  obtain ⟨fits, space, word⟩ := bounded
  have sum : u64 (pos + n) = finish := by
    unfold u64
    omega
  have count : sub64 (sub64 heap.list.size pos) n = heap.list.size - finish := by
    unfold sub64
    omega
  rw [arraylistRemove, sum, assertMsg_of (decide_eq_true passes), Except.ok_bind, count]
  dsimp only
  rcases Nat.eq_or_lt_of_le passes with none | some
  · -- nothing moves, and the new size wraps
    rw [if_neg (none ▸ Nat.lt_irrefl _), Except.ok_bind]
    have size : sub64 heap.list.size n = heap.list.size + (2 ^ 64 - n) := by
      unfold sub64
      omega
    rw [← size]
    constructor
    · rintro (⟨_, stopped⟩ | ⟨after, returned, kept, _⟩)
      · cases stopped
      · cases returned
        exact kept
    · exact fun room => .inr ⟨_, rfl, room, fun _ _ _ => rfl⟩
  · have src : u64 (heap.list.data + pos + n) = heap.list.data + finish := by
      unfold u64
      omega
    rw [if_pos some, src]
    constructor
    · intro safe
      by_contra outside
      rw [copy_outside (mt (dest some).mp outside)] at safe
      rcases safe with ⟨_, stopped⟩ | ⟨after, returned, _⟩
      · cases stopped
      · cases returned
    · intro room
      have inside := (dest some).mpr room
      have size : sub64 heap.list.size n = heap.list.size + (2 ^ 64 - n) := by
        unfold sub64
        omega
      rw [copy_within inside ⟨Nat.le_add_right _ _, by omega⟩]
      rw [← size] at room
      refine .inr ⟨_, rfl, room, fun address outside _ => memmove_outside ?_⟩
      rw [Within] at outside
      dsimp only [Arraylist.object] at outside
      omega

/-- The move of the bytes behind a gap that wraps. -/
private theorem insert_wrapped {wrapped : ℕ} (bounded : Bounded heap.list) (n_lt : n < 2 ^ 64)
    (inPos : pos ≤ heap.list.size) (wraps : heap.list.size + n = wrapped + 2 ^ 64) :
    Safe heap (Prod.snd <$> arraylistInsert pa heap pos n) ↔ pos = heap.list.size ∨ 2 ^ 64 ≤ pos + n := by
  obtain ⟨fits, space, word⟩ := bounded
  have sum : u64 (heap.list.size + n) = wrapped := by
    unfold u64
    omega
  have smaller : wrapped ≤ heap.list.capacity := by omega
  rw [arraylistInsert, assertMsg_of (decide_eq_true inPos), sum, reserveWithoutCopy_keep pa smaller,
    Except.ok_bind, Except.ok_bind]
  dsimp only
  rw [if_neg (not_not.mpr rfl), sum]
  rcases Nat.eq_or_lt_of_le inPos with last | before
  · rw [if_neg (last ▸ Nat.lt_irrefl _)]
    exact iff_of_true (.inr ⟨_, rfl, smaller, fun _ _ _ => rfl⟩) (.inl last)
  · have start : u64 (heap.list.data + pos) = heap.list.data + pos := u64_of_lt (by omega)
    rw [if_pos before, start, or_iff_right (Nat.ne_of_lt before)]
    constructor
    · intro safe
      by_contra low
      have outside : ¬(heap.list.data ≤ u64 (heap.list.data + pos + n) ∧
          u64 (heap.list.data + pos + n) + (heap.list.size - pos) ≤ heap.list.data + heap.list.capacity) := by
        unfold u64
        omega
      rw [copy_outside outside] at safe
      rcases safe with ⟨_, stopped⟩ | ⟨after, returned, _⟩
      · cases stopped
      · cases returned
    · intro high
      obtain ⟨shift, high⟩ := Nat.exists_eq_add_of_le' high
      have dest : u64 (heap.list.data + pos + n) = heap.list.data + shift := by
        unfold u64
        omega
      rw [dest, copy_within ⟨Nat.le_add_right _ _, by omega⟩ ⟨by omega, by omega⟩]
      refine .inr ⟨_, rfl, smaller, fun address outside _ => memmove_outside ?_⟩
      rw [Within] at outside
      dsimp only [Arraylist.object] at outside
      omega

/-- A position beyond the size, and a removed range that ends beyond it, stop at the assertion. -/
private theorem insert_stops (beyond : heap.list.size < pos) :
    Safe heap (Prod.snd <$> arraylistInsert pa heap pos n) := by
  refine .inl ⟨"arraylist: insert out of bounds : pos <= list->size", ?_⟩
  rw [arraylistInsert, decide_eq_false (Nat.not_le_of_lt beyond)]
  rfl

private theorem remove_stops (beyond : heap.list.size < u64 (pos + n)) : Safe heap (arraylistRemove heap pos n) := by
  refine .inl ⟨"arraylist: remove out of bounds : pos + data_size <= list->size", ?_⟩
  rw [arraylistRemove]
  dsimp only
  rw [decide_eq_false (Nat.not_le_of_lt beyond)]
  rfl

/-- For all 64-bit arguments: when the calls are safe. Only `arraylist_push_back` always is. -/
theorem safe_calls_iff (answers : Answers pa) (bounded : Bounded heap.list) (pos_lt : pos < 2 ^ 64)
    (n_lt : n < 2 ^ 64) :
    (Safe heap (arraylistRemove heap pos n) ↔ RemoveExact heap.list pos n) ∧
      (Safe heap (Prod.snd <$> arraylistInsert pa heap pos n) ↔ InsertExact heap.list pos n) ∧
      Safe heap (Prod.snd <$> arraylistPushBack pa heap n) := by
  refine ⟨?_, ?_, pushBack_safe answers bounded n⟩
  · rcases Nat.lt_or_ge (pos + n) (2 ^ 64) with small | wraps
    · exact iff_of_true (remove_safe bounded small) (.inl small)
    · rcases Nat.lt_or_ge heap.list.size (pos + n - 2 ^ 64) with beyond | passes
      · refine iff_of_true (remove_stops ?_) (.inr (.inl beyond))
        unfold u64
        omega
      · rw [remove_wrapped bounded pos_lt n_lt (Nat.sub_add_cancel wraps).symm passes, RemoveExact,
          or_iff_right (Nat.not_lt_of_le wraps), or_iff_right (Nat.not_lt_of_le passes)]
  · rcases Nat.lt_or_ge heap.list.size pos with beyond | inPos
    · exact iff_of_true (insert_stops beyond) (.inl beyond)
    · rcases Nat.lt_or_ge (heap.list.size + n) (2 ^ 64) with small | wraps
      · exact iff_of_true (insert_safe answers bounded inPos small) (.inr (.inl small))
      · rw [insert_wrapped bounded n_lt inPos (Nat.sub_add_cancel wraps).symm, InsertExact,
          or_iff_right (Nat.not_lt_of_le inPos),
          or_iff_right (Nat.not_lt_of_le wraps)]

/-- Eight bytes in a buffer of sixteen, and an allocator that has no memory left. -/
def eightBytes : Heap Unit := ⟨⟨4096, 8, 16⟩, fun _ => 0, ()⟩

def exhausted : Allocator Unit := ⟨fun _ s => .ok ((0, 0), s), fun _ _ s => .ok s, fun _ oldLen _ s => .ok (oldLen, s)⟩

private theorem exhausted_answers : Answers exhausted :=
  ⟨fun _ s => ⟨0, 0, s, rfl, fun valid => absurd rfl valid⟩, fun _ _ s => ⟨s, rfl⟩⟩

/-- The calls at position 2 with a length of 4. -/
theorem safe_calls_iff_eight :
    (Safe eightBytes (arraylistRemove eightBytes 2 4) ↔ RemoveExact eightBytes.list 2 4) ∧
      (Safe eightBytes (Prod.snd <$> arraylistInsert exhausted eightBytes 2 4) ↔ InsertExact eightBytes.list 2 4) ∧
      Safe eightBytes (Prod.snd <$> arraylistPushBack exhausted eightBytes 4) :=
  safe_calls_iff exhausted_answers ⟨by decide, by decide, by decide⟩ (by decide) (by decide)

/-- Removing one byte at the position -1 passes the assertion and moves the list to the byte before its data. -/
theorem remove_wraps_out : Bounded eightBytes.list ∧
    arraylistRemove eightBytes (2 ^ 64 - 1) 1 = .error .outOfBounds ∧
      ¬Safe eightBytes (arraylistRemove eightBytes (2 ^ 64 - 1) 1) := by
  have fault : arraylistRemove eightBytes (2 ^ 64 - 1) 1 = .error .outOfBounds := rfl
  refine ⟨⟨by decide, by decide, by decide⟩, fault, ?_⟩
  rw [fault]
  rintro (⟨_, stopped⟩ | ⟨_, returned, _⟩)
  · cases stopped
  · cases returned

end RubberOS.Soundness.ArraylistWraps
