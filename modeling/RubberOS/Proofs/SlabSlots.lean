import RubberOS.Proofs.SlabGeometry

/-! # What a slot holds

A slot that is not in use has the empty magic, whole redzones and a payload of the unused fill. A
slot in use has the object magic, a next index of zero and whole redzones, whatever its payload is.
The source checks exactly this on the way from one state to the other.
-/

namespace RubberOS.Model.Slab

/-- Both redzones of a slot are whole. -/
structure Fenced (slab : SlabAllocator) (memory : Memory) (slot : ℕ) : Prop where
  front : ∀ a, slot + 4 ≤ a → a < slot + slab.payloadOffset → memory a = REDZONE_FILL
  back : ∀ a, slot + slab.payloadOffset + slab.objectSize ≤ a → a < slot + slab.slotSize → memory a = REDZONE_FILL

structure EmptySlot (slab : SlabAllocator) (memory : Memory) (slot : ℕ) : Prop where
  magic : load16 memory slot = EMPTY_MAGIC
  fenced : Fenced slab memory slot
  unused : ∀ a, slot + slab.payloadOffset ≤ a → a < slot + slab.payloadOffset + slab.objectSize → memory a = UNUSED_FILL

structure ObjectSlot (slab : SlabAllocator) (memory : Memory) (slot : ℕ) : Prop where
  magic : load16 memory slot = OBJECT_MAGIC
  next : load16 memory (slot + 2) = 0
  fenced : Fenced slab memory slot

section Slots

variable {slab : SlabAllocator} {memory memory' : Memory} {slot : ℕ}

private theorem Fenced.congr (fenced : Fenced slab memory slot)
    (front : ∀ a, slot + 4 ≤ a → a < slot + slab.payloadOffset → memory' a = memory a)
    (back : ∀ a, slot + slab.payloadOffset + slab.objectSize ≤ a → a < slot + slab.slotSize →
      memory' a = memory a) :
    Fenced slab memory' slot where
  front a lower upper := (front a lower upper).trans (fenced.front a lower upper)
  back a lower upper := (back a lower upper).trans (fenced.back a lower upper)

/-- An empty slot's next index may change. -/
theorem EmptySlot.congr (geometry : Geometry slab) (empty : EmptySlot slab memory slot)
    (same : ∀ a, slot ≤ a → a < slot + slab.slotSize → a < slot + 2 ∨ slot + 4 ≤ a → memory' a = memory a) :
    EmptySlot slab memory' slot := by
  have header := geometry.header
  have redzone := geometry.redzone
  refine ⟨?_, empty.fenced.congr (fun a lower upper => ?_) (fun a lower upper => ?_), fun a lower upper => ?_⟩
  · rw [← empty.magic]
    exact load16_congr (same _ (by omega) (by omega) (by omega)) (same _ (by omega) (by omega) (by omega))
  · exact same a (by omega) (by omega) (by omega)
  · exact same a (by omega) (by omega) (by omega)
  · rw [same a (by omega) (by omega) (by omega)]
    exact empty.unused a lower upper

/-- A used slot's payload may change. -/
theorem ObjectSlot.congr (geometry : Geometry slab) (object : ObjectSlot slab memory slot)
    (same : ∀ a, slot ≤ a → a < slot + slab.slotSize →
      a < slot + slab.payloadOffset ∨ slot + slab.payloadOffset + slab.objectSize ≤ a →
        memory' a = memory a) :
    ObjectSlot slab memory' slot := by
  have header := geometry.header
  have redzone := geometry.redzone
  refine ⟨?_, ?_, object.fenced.congr (fun a lower upper => ?_) (fun a lower upper => ?_)⟩
  · rw [← object.magic]
    exact load16_congr (same _ (by omega) (by omega) (by omega)) (same _ (by omega) (by omega) (by omega))
  · rw [← object.next]
    exact load16_congr (same _ (by omega) (by omega) (by omega)) (same _ (by omega) (by omega) (by omega))
  · exact same a (by omega) (by omega) (by omega)
  · exact same a (by omega) (by omega) (by omega)

/-- The sizes of the two redzones do not wrap. -/
private theorem Geometry.redzone_sizes (geometry : Geometry slab) :
    slotRedzone1Size slab = slab.payloadOffset - 4 ∧
      slotRedzone2Size slab = slab.slotSize - (slab.payloadOffset + slab.objectSize) := by
  have header := geometry.header
  have redzone := geometry.redzone
  have inside := geometry.inside
  unfold REDZONE_SIZE at redzone
  unfold SLAB_PAGE at inside
  constructor
  · exact sub64_of_le (show 4 ≤ slab.payloadOffset by omega) (by omega)
  · exact sub64_of_le (show slab.payloadOffset + slab.objectSize ≤ slab.slotSize by omega) (by omega)

/-- `slot_init` leaves an empty slot and writes nothing outside it. -/
theorem slotInit_spec (geometry : Geometry slab) (memory : Memory) (slot : ℕ) :
    EmptySlot slab (slotInit memory slot slab) slot ∧
      ∀ a, a < slot ∨ slot + slab.slotSize ≤ a → slotInit memory slot slab a = memory a := by
  obtain ⟨front, back⟩ := geometry.redzone_sizes
  have header := geometry.header
  have redzone := geometry.redzone
  unfold REDZONE_SIZE at redzone
  simp only [slotInit, front, back, slotRedzone1, slotRedzone2, slotPayload, slotRedzone1Offset,
    slotRedzone2Offset, sizeofSlot, magicAt, nextAt]
  refine ⟨⟨?_, ⟨fun a lower upper => ?_, fun a lower upper => ?_⟩, fun a lower upper => ?_⟩,
    fun a outside => ?_⟩
  · rw [load16_memset (by omega), load16_memset (by omega), load16_memset (by omega),
      load16_store16_of_disjoint (by omega), load16_store16]
    rfl
  · rw [memset_outside (by omega), memset_outside (by omega), memset_inside (by omega) (by omega)]
  · rw [memset_inside (by omega) (by omega)]
  · rw [memset_outside (by omega), memset_inside (by omega) (by omega)]
  · rw [memset_outside (by omega), memset_outside (by omega), memset_outside (by omega),
      store16_apply (by omega) (by omega), store16_apply (by omega) (by omega)]

/-- The redzone check passes exactly on whole redzones. -/
private theorem slotCheckRedzone_iff (geometry : Geometry slab) :
    slotCheckRedzone memory slot slab = true ↔ Fenced slab memory slot := by
  obtain ⟨front, back⟩ := geometry.redzone_sizes
  have header := geometry.header
  have redzone := geometry.redzone
  rw [slotCheckRedzone, decide_eq_true_eq, memchrNot_eq_none_iff, memchrNot_eq_none_iff, front, back]
  simp only [slotRedzone1, slotRedzone2, slotRedzone1Offset, slotRedzone2Offset, sizeofSlot]
  constructor
  · rintro ⟨first, second⟩
    exact ⟨fun a lower upper => first a lower (by omega), fun a lower upper => second a (by omega) (by omega)⟩
  · intro fenced
    exact ⟨fun a lower upper => fenced.front a lower (by omega),
      fun a lower upper => fenced.back a (by omega) (by omega)⟩

private theorem slotCheckUnused_iff : slotCheckUnused memory slot slab = true ↔
    ∀ a, slot + slab.payloadOffset ≤ a → a < slot + slab.payloadOffset + slab.objectSize →
      memory a = UNUSED_FILL := by
  rw [slotCheckUnused, decide_eq_true_eq, memchrNot_eq_none_iff]
  exact Iff.rfl

/-- `slot_on_alloc` passes its checks on an empty slot that is off the chain and zeroes its payload. -/
theorem slotOnAlloc_spec (geometry : Geometry slab) (empty : EmptySlot slab memory slot)
    (unlinked : load16 memory (slot + 2) = 0) :
    ∃ memory', slotOnAlloc memory slot slab = .ok memory' ∧ ObjectSlot slab memory' slot ∧
      (∀ i < slab.objectSize, memory' (slot + slab.payloadOffset + i) = 0) ∧
      ∀ a, a < slot ∨ slot + slab.slotSize ≤ a → memory' a = memory a := by
  have header := geometry.header
  have redzone := geometry.redzone
  unfold REDZONE_SIZE at redzone
  have unused := slotCheckUnused_iff.mpr empty.unused
  refine ⟨slotWriteUnused (store16 memory (magicAt slot) OBJECT_MAGIC) slot slab 0, ?_, ?_⟩
  · rw [slotOnAlloc, assertMsg_of (decide_eq_true ⟨empty.magic, unlinked⟩), Except.ok_bind,
      assertMsg_of ((slotCheckRedzone_iff geometry).mpr empty.fenced), Except.ok_bind, assertMsg_of unused]
    rfl
  · simp only [slotWriteUnused, slotPayload, magicAt]
    refine ⟨⟨?_, ?_, empty.fenced.congr (fun a lower upper => ?_) (fun a lower upper => ?_)⟩,
      fun i inside => ?_, fun a outside => ?_⟩
    · rw [load16_memset (by omega), load16_store16]
      rfl
    · rw [load16_memset (by omega), load16_store16_of_disjoint (by omega), unlinked]
    · rw [memset_outside (by omega), store16_apply (by omega) (by omega)]
    · rw [memset_outside (by omega), store16_apply (by omega) (by omega)]
    · exact memset_inside (by omega) (by omega)
    · rw [memset_outside (by omega), store16_apply (by omega) (by omega)]

/-- `slot_on_dealloc` passes its checks on a used slot and leaves an empty one. -/
theorem slotOnDealloc_spec (geometry : Geometry slab) (object : ObjectSlot slab memory slot) :
    ∃ memory', slotOnDealloc memory slot slab = .ok memory' ∧ EmptySlot slab memory' slot ∧
      ∀ a, a < slot ∨ slot + slab.slotSize ≤ a → memory' a = memory a := by
  have header := geometry.header
  have redzone := geometry.redzone
  unfold REDZONE_SIZE at redzone
  refine ⟨slotWriteUnused (store16 memory (magicAt slot) EMPTY_MAGIC) slot slab UNUSED_FILL, ?_, ?_⟩
  · rw [slotOnDealloc, assertMsg_of (decide_eq_true ⟨object.magic, object.next⟩), Except.ok_bind,
      assertMsg_of ((slotCheckRedzone_iff geometry).mpr object.fenced)]
    rfl
  · simp only [slotWriteUnused, slotPayload, magicAt]
    refine ⟨⟨?_, object.fenced.congr (fun a lower upper => ?_) (fun a lower upper => ?_), fun a lower upper => ?_⟩,
      fun a outside => ?_⟩
    · rw [load16_memset (by omega), load16_store16]
      rfl
    · rw [memset_outside (by omega), store16_apply (by omega) (by omega)]
    · rw [memset_outside (by omega), store16_apply (by omega) (by omega)]
    · exact memset_inside lower upper
    · rw [memset_outside (by omega), store16_apply (by omega) (by omega)]

/-! ## What the checks catch -/

/-- `slot_on_alloc` stops at a check unless the slot is empty. -/
theorem slotOnAlloc_panics (geometry : Geometry slab) (unlinked : load16 memory (slot + 2) = 0)
    (taken : ¬EmptySlot slab memory slot) : ∃ message, slotOnAlloc memory slot slab = .error (.panic message) := by
  rw [slotOnAlloc]
  by_cases magic : load16 memory (magicAt slot) = EMPTY_MAGIC
  · rw [assertMsg_of (decide_eq_true ⟨magic, unlinked⟩), Except.ok_bind]
    by_cases fenced : slotCheckRedzone memory slot slab = true
    · have used : ¬slotCheckUnused memory slot slab = true := fun unused =>
        taken ⟨magic, (slotCheckRedzone_iff geometry).mp fenced, slotCheckUnused_iff.mp unused⟩
      rw [assertMsg_of fenced, Except.ok_bind, assertMsg_of_not used]
      exact ⟨_, rfl⟩
    · rw [assertMsg_of_not fenced]
      exact ⟨_, rfl⟩
  · rw [assertMsg_of_not fun both => magic (of_decide_eq_true both).1]
    exact ⟨_, rfl⟩

/-- `slot_on_dealloc` stops at its first check unless the header is that of a slot in use. -/
theorem slotOnDealloc_unallocated
    (other : ¬(load16 memory (magicAt slot) = OBJECT_MAGIC ∧ load16 memory (nextAt slot) = 0)) :
    slotOnDealloc memory slot slab = .error (.panic
      ("try to deallocate an object that is not allocated" ++ " : " ++
        "slot->magic == 0x6b5c && slot->next == 0")) := by
  rw [slotOnDealloc, assertMsg_of_not fun both => other (of_decide_eq_true both)]
  rfl

/-- `slot_on_dealloc` stops at a check unless the slot is in use. -/
theorem slotOnDealloc_panics (geometry : Geometry slab) (free : ¬ObjectSlot slab memory slot) :
    ∃ message, slotOnDealloc memory slot slab = .error (.panic message) := by
  by_cases header : load16 memory (magicAt slot) = OBJECT_MAGIC ∧ load16 memory (nextAt slot) = 0
  · have broken : ¬slotCheckRedzone memory slot slab = true := fun fenced =>
      free ⟨header.1, header.2, (slotCheckRedzone_iff geometry).mp fenced⟩
    rw [slotOnDealloc, assertMsg_of (decide_eq_true header), Except.ok_bind, assertMsg_of_not broken]
    exact ⟨_, rfl⟩
  · exact ⟨_, slotOnDealloc_unallocated header⟩

/-- A slot that was in use is in use as long as its bytes outside the payload stay. -/
theorem ObjectSlot.same_iff (geometry : Geometry slab) (was : ObjectSlot slab memory slot) :
    ObjectSlot slab memory' slot ↔ ∀ a, slot ≤ a → a < slot + slab.slotSize →
      a < slot + slab.payloadOffset ∨ slot + slab.payloadOffset + slab.objectSize ≤ a → memory' a = memory a := by
  refine ⟨fun object a lower upper outside => ?_, was.congr geometry⟩
  obtain ⟨magic, magic'⟩ := load16_eq_iff.mp (object.magic.trans was.magic.symm)
  obtain ⟨next, next'⟩ := load16_eq_iff.mp (object.next.trans was.next.symm)
  rcases (by omega : a = slot ∨ a = slot + 1 ∨ a = slot + 2 ∨ a = slot + 2 + 1 ∨ slot + 4 ≤ a) with
    rfl | rfl | rfl | rfl | behind
  · exact magic
  · exact magic'
  · exact next
  · exact next'
  · rcases outside with front | back
    · rw [object.fenced.front a behind front, was.fenced.front a behind front]
    · rw [object.fenced.back a back upper, was.fenced.back a back upper]

/-- A slot that was empty is empty as long as its magic and redzones stay and its payload is unused. -/
theorem EmptySlot.same_iff (was : EmptySlot slab memory slot) :
    EmptySlot slab memory' slot ↔ (∀ a, slot ≤ a → a < slot + 2 → memory' a = memory a) ∧
      (∀ a, slot + 4 ≤ a ∧ a < slot + slab.payloadOffset ∨
        slot + slab.payloadOffset + slab.objectSize ≤ a ∧ a < slot + slab.slotSize → memory' a = memory a) ∧
      ∀ a, slot + slab.payloadOffset ≤ a → a < slot + slab.payloadOffset + slab.objectSize →
        memory' a = UNUSED_FILL := by
  constructor
  · intro empty
    obtain ⟨magic, magic'⟩ := load16_eq_iff.mp (empty.magic.trans was.magic.symm)
    refine ⟨fun a lower upper => ?_, fun a zone => ?_, empty.unused⟩
    · rcases (by omega : a = slot ∨ a = slot + 1) with rfl | rfl
      · exact magic
      · exact magic'
    · rcases zone with ⟨lower, upper⟩ | ⟨lower, upper⟩
      · rw [empty.fenced.front a lower upper, was.fenced.front a lower upper]
      · rw [empty.fenced.back a lower upper, was.fenced.back a lower upper]
  · rintro ⟨magic, zones, unused⟩
    refine ⟨?_, was.fenced.congr (fun a lower upper => zones a (.inl ⟨lower, upper⟩))
      (fun a lower upper => zones a (.inr ⟨lower, upper⟩)), unused⟩
    rw [load16_congr (magic _ (Nat.le_refl _) (by omega)) (magic _ (by omega) (by omega)), was.magic]

/-- Whether a slot is in use does not depend on the list. -/
theorem ObjectSlot.setList (object : ObjectSlot slab memory slot) (list : Linkedlist.Links ℕ) :
    ObjectSlot { slab with partialList := list } memory slot :=
  ⟨object.magic, object.next, ⟨object.fenced.front, object.fenced.back⟩⟩

theorem EmptySlot.setList (empty : EmptySlot slab memory slot) (list : Linkedlist.Links ℕ) :
    EmptySlot { slab with partialList := list } memory slot :=
  ⟨empty.magic, ⟨empty.fenced.front, empty.fenced.back⟩, empty.unused⟩

end Slots

end RubberOS.Model.Slab
