import Mathlib.Data.List.Nodup
import Mathlib.Data.Nat.Bitwise
import Mathlib.Tactic.Linarith
import RubberOS.Model.Slab
import RubberOS.ToMathlib.BitFields

/-! # Where the slots of a page lie

`Geometry` is what `slab_init` establishes for a size and an alignment it accepts. From it follow
the facts that the page and slot functions need: slots are aligned, lie behind the page's header,
end inside the page and do not overlap.
-/

namespace RubberOS.Model.Slab

open BitFields (le_clear_add)

/-! ## Rounding with a mask -/

private theorem and_mask {n k : ℕ} (small : n < 2 ^ 64) (width : k ≤ 64) :
    n &&& (2 ^ 64 - 1 ^^^ (2 ^ k - 1)) = n / 2 ^ k * 2 ^ k := by
  refine Nat.eq_of_testBit_eq fun i => ?_
  rw [Nat.testBit_and, Nat.testBit_xor, Nat.testBit_two_pow_sub_one, Nat.testBit_two_pow_sub_one,
    Nat.testBit_mul_two_pow, Nat.testBit_div_two_pow]
  by_cases low : k ≤ i
  · rw [Nat.sub_add_cancel low]
    by_cases high : i < 64
    · simp [low, high, Nat.not_lt.mpr low]
    · have above : n < 2 ^ i := small.trans_le (Nat.pow_le_pow_right (by decide) (Nat.le_of_not_lt high))
      simp [high, Nat.testBit_lt_two_pow above]
  · simp [low, Nat.lt_of_not_le low, (Nat.lt_of_not_le low).trans_le width]

theorem alignCeil_eq {x k : ℕ} (small : x < 2 ^ 32) (width : k ≤ 16) :
    alignCeil x (2 ^ k) = (x + (2 ^ k - 1)) / 2 ^ k * 2 ^ k := by
  have positive := Nat.two_pow_pos k
  have bound : 2 ^ k ≤ 2 ^ 16 := Nat.pow_le_pow_right (by decide) width
  rw [alignCeil, sub64_of_le positive (by omega), u64_of_lt (by omega), and_mask (by omega) (by omega)]

/-- Whatever the alignment is, `align_ceil` does not round down. -/
private theorem le_alignCeil {x align : ℕ} (positive : 0 < align) (small : x + align < 2 ^ 64) :
    x ≤ alignCeil x align := by
  rw [alignCeil, sub64_of_le (show 1 ≤ align from positive) (by omega), u64_of_lt (by omega)]
  have kept := le_clear_add (m := align - 1) (show x + (align - 1) < 2 ^ 64 by omega)
  omega

/-- `align_ceil` rounds to a multiple. -/
theorem dvd_alignCeil {x k : ℕ} (small : x < 2 ^ 32) (width : k ≤ 16) : 2 ^ k ∣ alignCeil x (2 ^ k) := by
  rw [alignCeil_eq small width]
  exact Nat.dvd_mul_left ..

theorem slotAlignof_two_pow (k : ℕ) : slotAlignof (2 ^ k) = 2 ^ max k 1 := by
  unfold slotAlignof alignofSlot
  cases k with
  | zero => rfl
  | succ k =>
    rw [Nat.max_eq_left (Nat.succ_pos k)]
    have positive := Nat.two_pow_pos k
    split_ifs <;> omega

/-! ## Geometry -/

/-- The offset of the first slot. -/
def firstOffset (slab : SlabAllocator) : ℕ := pageObjectOffset slab.objectAlign

/-- What the fields of an initialised allocator satisfy. -/
structure Geometry (slab : SlabAllocator) : Prop where
  payload : slotPayloadOffset slab = slab.payloadOffset
  header : 20 ≤ slab.payloadOffset
  redzone : slab.payloadOffset + slab.objectSize + REDZONE_SIZE ≤ slab.slotSize
  pageHeader : sizeofPage ≤ firstOffset slab
  inside : firstOffset slab + slab.slotSize ≤ SLAB_PAGE

/-- The offsets of an initialised allocator whose alignment is a power of two. -/
structure Aligned (slab : SlabAllocator) : Prop where
  power : ∃ k, slab.objectAlign = 2 ^ k ∧ k ≤ 12
  payload : slab.objectAlign ∣ slab.payloadOffset
  size : slab.objectAlign ∣ slab.slotSize
  first : slab.objectAlign ∣ firstOffset slab

/-- Whatever `slab_init` accepts for an alignment other than zero has the geometry, and its list is empty. -/
theorem slabInit_geometry {raw slab : SlabAllocator} {size align : ℕ} (positive : 0 < align)
    (accepted : slabInit raw size align = .ok slab) :
    Geometry slab ∧ slab.objectSize = size ∧ slab.objectAlign = align ∧
      slab.partialList = Linkedlist.init raw.partialList := by
  simp only [slabInit, Except.bind_ok_iff, assertMsg_ok_iff, decide_eq_true_eq, Except.pure_ok_iff]
    at accepted
  obtain ⟨_, ⟨sizeBound, alignBound⟩, _, payloadBound, _, _, _, valid, rfl⟩ := accepted
  unfold UINT16_MAX at sizeBound alignBound payloadBound
  have page : sizeofPage ≤ pageObjectOffset align := by
    refine le_alignCeil ?_ ?_ <;> unfold slotAlignof alignofSlot <;> split_ifs <;> unfold sizeofPage at * <;> omega
  have header : slotRedzone1Offset + REDZONE_SIZE ≤ alignCeil (slotRedzone1Offset + REDZONE_SIZE) align :=
    le_alignCeil positive (by unfold slotRedzone1Offset REDZONE_SIZE sizeofSlot; omega)
  have payload : alignCeil (slotRedzone1Offset + REDZONE_SIZE) align ≤ 0xffff := payloadBound
  have whole : alignCeil (slotRedzone1Offset + REDZONE_SIZE) align + size + REDZONE_SIZE ≤
      alignCeil (alignCeil (slotRedzone1Offset + REDZONE_SIZE) align + size + REDZONE_SIZE) align := by
    refine le_alignCeil positive ?_
    have sixteen : REDZONE_SIZE = 16 := rfl
    omega
  rw [objectInfoIsValid, decide_eq_true_eq] at valid
  exact ⟨⟨rfl, header, whole, page, valid⟩, rfl, rfl, rfl⟩

/-- With a power of two the slots and their payloads are aligned. -/
theorem slabInit_aligned {raw slab : SlabAllocator} {size k : ℕ}
    (accepted : slabInit raw size (2 ^ k) = .ok slab) : Aligned slab := by
  obtain ⟨geometry, _⟩ := slabInit_geometry (Nat.two_pow_pos k) accepted
  simp only [slabInit, Except.bind_ok_iff, assertMsg_ok_iff, decide_eq_true_eq, Except.pure_ok_iff]
    at accepted
  obtain ⟨_, ⟨sizeBound, alignBound⟩, _, payloadBound, _, _, _, _, rfl⟩ := accepted
  unfold UINT16_MAX at sizeBound alignBound payloadBound
  have width : k ≤ 16 := by
    by_contra wide
    have large : 2 ^ 17 ≤ 2 ^ k := Nat.pow_le_pow_right (by decide) (by omega)
    omega
  have first : 2 ^ max k 1 ∣ pageObjectOffset (2 ^ k) := by
    rw [pageObjectOffset, slotAlignof_two_pow]
    exact dvd_alignCeil (by decide) (by omega)
  have payload : 2 ^ k ∣ alignCeil (slotRedzone1Offset + REDZONE_SIZE) (2 ^ k) := dvd_alignCeil (by decide) width
  have payload' : alignCeil (slotRedzone1Offset + REDZONE_SIZE) (2 ^ k) ≤ 0xffff := payloadBound
  have total : alignCeil (slotRedzone1Offset + REDZONE_SIZE) (2 ^ k) + size + REDZONE_SIZE < 2 ^ 32 := by
    have sixteen : REDZONE_SIZE = 16 := rfl
    omega
  refine ⟨⟨k, rfl, ?_⟩, payload, dvd_alignCeil total width, (Nat.pow_dvd_pow 2 (Nat.le_max_left k 1)).trans first⟩
  -- the payload's offset is a positive multiple that leaves it inside the page
  by_contra wide
  have large : 2 ^ 13 ≤ 2 ^ k := Nat.pow_le_pow_right (by decide) (by omega)
  have header := geometry.header
  have redzone := geometry.redzone
  have inside := geometry.inside
  dsimp only at header redzone inside
  have least := Nat.le_of_dvd (Nat.lt_of_lt_of_le (by decide) header) payload
  unfold SLAB_PAGE at inside
  change 2 ^ k ≤ slotPayloadOffset _ at least
  unfold slotPayloadOffset at *
  dsimp only at *
  omega

/-! ## Slots -/

/-- The number of slots that `page_init` threads. -/
def slotCount (slab : SlabAllocator) : ℕ := max 1 ((SLAB_PAGE - 1 - firstOffset slab) / slab.slotSize)

def slotOffset (slab : SlabAllocator) (i : ℕ) : ℕ := firstOffset slab + i * slab.slotSize

/-- The offsets of a page's slots, in the order of `page_init`. -/
def slotOffsets (slab : SlabAllocator) : List ℕ := (List.range (slotCount slab)).map (slotOffset slab)

section Offsets

variable {slab : SlabAllocator} {i j offset page slot : ℕ}

theorem mem_slotOffsets : offset ∈ slotOffsets slab ↔ ∃ i < slotCount slab, slotOffset slab i = offset := by
  simp [slotOffsets]

@[simp] theorem length_slotOffsets : (slotOffsets slab).length = slotCount slab := by simp [slotOffsets]

theorem slotOffset_succ (slab : SlabAllocator) (i : ℕ) :
    slotOffset slab (i + 1) = slotOffset slab i + slab.slotSize := by
  rw [slotOffset, slotOffset, Nat.succ_mul, Nat.add_assoc]

theorem Geometry.slotSize_pos (geometry : Geometry slab) : 36 ≤ slab.slotSize := by
  have header := geometry.header
  have redzone := geometry.redzone
  unfold REDZONE_SIZE at redzone
  omega

theorem slotCount_pos (slab : SlabAllocator) : 0 < slotCount slab :=
  Nat.lt_of_lt_of_le Nat.one_pos (Nat.le_max_left ..)

/-- The test at the end of the loop of `page_init` holds before the last slot. -/
theorem Geometry.next_iff (geometry : Geometry slab) (i : ℕ) :
    slotOffset slab (i + 1) + slab.slotSize < SLAB_PAGE ↔ i + 1 < slotCount slab := by
  have positive : 0 < slab.slotSize := Nat.lt_of_lt_of_le (by decide) geometry.slotSize_pos
  have inside := geometry.inside
  have more : i + 1 < slotCount slab ↔ (i + 2) * slab.slotSize ≤ SLAB_PAGE - 1 - firstOffset slab := by
    rw [← Nat.le_div_iff_mul_le positive]
    unfold slotCount
    omega
  rw [more, ← slotOffset_succ, slotOffset]
  unfold SLAB_PAGE at *
  rw [show i + 1 + 1 = i + 2 from rfl]
  omega

/-- Every slot ends inside its page. -/
theorem Geometry.slot_end (geometry : Geometry slab) (inside : i < slotCount slab) :
    sizeofPage ≤ slotOffset slab i ∧ slotOffset slab i + slab.slotSize ≤ SLAB_PAGE := by
  cases i with
  | zero =>
    rw [slotOffset, Nat.zero_mul, Nat.add_zero]
    exact ⟨geometry.pageHeader, geometry.inside⟩
  | succ i => exact ⟨geometry.pageHeader.trans (Nat.le_add_right ..), ((geometry.next_iff i).mpr inside).le⟩

theorem Geometry.offset_bounds (geometry : Geometry slab) (member : offset ∈ slotOffsets slab) :
    24 ≤ offset ∧ offset + slab.slotSize ≤ 4096 := by
  obtain ⟨i, inside, rfl⟩ := mem_slotOffsets.mp member
  exact geometry.slot_end inside

/-- Distinct slots of a page do not overlap. -/
theorem offsets_apart (left : i ∈ slotOffsets slab) (right : j ∈ slotOffsets slab) (other : i ≠ j) :
    i + slab.slotSize ≤ j ∨ j + slab.slotSize ≤ i := by
  obtain ⟨m, _, rfl⟩ := mem_slotOffsets.mp left
  obtain ⟨n, _, rfl⟩ := mem_slotOffsets.mp right
  rcases Nat.lt_trichotomy m n with before | rfl | after
  · left
    rw [← slotOffset_succ]
    exact Nat.add_le_add_left (Nat.mul_le_mul_right _ before) _
  · exact (other rfl).elim
  · right
    rw [← slotOffset_succ]
    exact Nat.add_le_add_left (Nat.mul_le_mul_right _ after) _

private theorem Geometry.slotOffset_injective (geometry : Geometry slab) : Function.Injective (slotOffset slab) := by
  intro m n same
  have positive := geometry.slotSize_pos
  exact Nat.eq_of_mul_eq_mul_right (Nat.lt_of_lt_of_le (by decide) positive) (Nat.add_left_cancel same)

theorem Geometry.nodup_slotOffsets (geometry : Geometry slab) : (slotOffsets slab).Nodup :=
  List.Nodup.map geometry.slotOffset_injective List.nodup_range

/-- The objects of a slab are aligned as its page is. -/
theorem Aligned.payload_aligned (aligned : Aligned slab) (pageAligned : page % SLAB_PAGE = 0)
    (member : offset ∈ slotOffsets slab) : (page + offset + slab.payloadOffset) % slab.objectAlign = 0 := by
  obtain ⟨i, _, rfl⟩ := mem_slotOffsets.mp member
  obtain ⟨k, align, width⟩ := aligned.power
  have whole : slab.objectAlign ∣ page := by
    rw [align]
    exact (Nat.pow_dvd_pow 2 width).trans (Nat.dvd_of_mod_eq_zero pageAligned)
  have offsetAligned := Nat.dvd_add aligned.first (Nat.dvd_mul_left_of_dvd aligned.size i)
  exact Nat.mod_eq_zero_of_dvd (Nat.dvd_add (Nat.dvd_add whole offsetAligned) aligned.payload)

/-- Masking an address inside a page gives the page. -/
theorem pageFromSlot_eq (pageAligned : page % SLAB_PAGE = 0) (lower : page ≤ slot)
    (upper : slot < page + 4096) (small : slot < 2 ^ 64) : pageFromSlot slot = page := by
  rw [pageFromSlot, show SLAB_PAGE - 1 = 2 ^ 12 - 1 from rfl, and_mask small (by decide)]
  unfold SLAB_PAGE at pageAligned
  omega

end Offsets

end RubberOS.Model.Slab
