import RubberOS.Proofs.SlabPages
import RubberOS.Soundness.SlabRuns

/-! # Where the headers of slots lie

The first slot of a page is aligned for the half words of its header also when the objects need no alignment, but
the size of a slot is rounded for the objects alone. With an alignment of one and an odd size every second slot lies
at an odd address.
-/

namespace RubberOS.Soundness.SlotAlignment

open Model Model.Slab SinglyLinked

/-- Every slot that `page_init` threads in an aligned page is aligned, and so are the two half words of its header. -/
def HeadersAligned (slab : SlabAllocator) : Prop :=
  ∀ memory page, SLAB_PAGE ∣ page → ∃ memory' slots, pageInit memory page slab = .ok memory' ∧
    Chain (freeLinks memory' page) none slots ∧ ∀ offset ∈ slots, slotAlignof slab.objectAlign ∣ page + offset ∧
      2 ∣ magicAt (page + offset) ∧ 2 ∣ nextAt (page + offset)

/-- Places at equal distances are aligned when the first one and the distance are; a single place has no distance. -/
private theorem dvd_spaced_iff {align base stride count : ℕ} (some : 0 < count) :
    (∀ i < count, align ∣ base + i * stride) ↔ align ∣ base ∧ (count = 1 ∨ align ∣ stride) := by
  constructor
  · intro aligned
    have first := aligned 0 some
    rw [Nat.zero_mul, Nat.add_zero] at first
    refine ⟨first, ?_⟩
    rcases Nat.eq_or_lt_of_le (Nat.succ_le_of_lt some) with one | more
    · exact .inl one.symm
    · right
      have second := aligned 1 more
      rw [Nat.one_mul] at second
      exact (Nat.dvd_add_right first).mp second
  · rintro ⟨first, one | whole⟩ i inside
    · obtain rfl : i = 0 := by omega
      rwa [Nat.zero_mul, Nat.add_zero]
    · exact Nat.dvd_add first (Nat.dvd_mul_left_of_dvd whole i)

section Slots

variable {slab raw : SlabAllocator} {size k : ℕ}

/-- An accepted slab threads aligned headers when the slots' offsets are multiples. -/
private theorem headersAligned_iff_offsets (accepted : slabInit raw size (2 ^ k) = .ok slab) :
    HeadersAligned slab ↔ ∀ offset ∈ slotOffsets slab, slotAlignof slab.objectAlign ∣ offset := by
  obtain ⟨geometry, _, align, _⟩ := slabInit_geometry (Nat.two_pow_pos k) accepted
  obtain ⟨k', align', width⟩ := (slabInit_aligned accepted).power
  obtain rfl : k = k' := Nat.pow_right_injective (le_refl 2) (align.symm.trans align')
  have even : 2 ∣ slotAlignof slab.objectAlign := by
    rw [align, slotAlignof_two_pow]
    exact dvd_pow_self 2 (by omega)
  have whole : ∀ {page}, SLAB_PAGE ∣ page → slotAlignof slab.objectAlign ∣ page := by
    intro page pageAligned
    rw [align, slotAlignof_two_pow]
    exact (Nat.pow_dvd_pow 2 (show max k 1 ≤ 12 by omega)).trans pageAligned
  constructor
  · intro headers offset member
    obtain ⟨memory', slots, ran, chain, aligned⟩ := headers (fun _ => 0) 0 (Nat.dvd_zero _)
    obtain ⟨memory'', ran', held, _⟩ := pageInit_spec geometry (fun _ => 0) 0
    obtain rfl := Except.ok.inj (ran.symm.trans ran')
    rw [chain.unique held.chain] at aligned
    have dvd := (aligned offset member).1
    rwa [Nat.zero_add] at dvd
  · intro offsets memory page pageAligned
    obtain ⟨memory', ran, held, _⟩ := pageInit_spec geometry memory page
    refine ⟨memory', slotOffsets slab, ran, held.chain, fun offset member => ?_⟩
    have dvd : slotAlignof slab.objectAlign ∣ page + offset := Nat.dvd_add (whole pageAligned) (offsets offset member)
    have header : 2 ∣ magicAt (page + offset) := even.trans dvd
    exact ⟨dvd, header, Nat.dvd_add header (Nat.dvd_refl 2)⟩

/-- Without an alignment of the objects nothing is rounded. -/
private theorem slotSize_one (accepted : slabInit raw size (2 ^ 0) = .ok slab) : slab.slotSize = size + 36 := by
  simp only [slabInit, Except.bind_ok_iff, assertMsg_ok_iff, decide_eq_true_eq, Except.pure_ok_iff] at accepted
  obtain ⟨_, ⟨sizeBound, _⟩, _, _, _, _, _, _, rfl⟩ := accepted
  unfold UINT16_MAX at sizeBound
  have payload : alignCeil (slotRedzone1Offset + REDZONE_SIZE) (2 ^ 0) = 20 := rfl
  have total : 20 + size + 16 < 2 ^ 32 := by omega
  have whole := alignCeil_eq total (Nat.zero_le 16)
  rw [Nat.pow_zero, Nat.sub_self, Nat.add_zero, Nat.div_one, Nat.mul_one] at whole
  simp only [slotSizeof, slotRedzone2Offset, slotPayloadOffset, payload]
  change alignCeil (20 + size + 16) 1 = size + 36
  rw [whole]
  omega

/-- The slots of a page are aligned when its first slot is the only one or their size is a multiple. -/
private theorem headersAligned_iff_stride (accepted : slabInit raw size (2 ^ k) = .ok slab) :
    HeadersAligned slab ↔ slotCount slab = 1 ∨ slotAlignof slab.objectAlign ∣ slab.slotSize := by
  obtain ⟨_, _, align, _⟩ := slabInit_geometry (Nat.two_pow_pos k) accepted
  obtain ⟨k', align', width⟩ := (slabInit_aligned accepted).power
  obtain rfl : k = k' := Nat.pow_right_injective (le_refl 2) (align.symm.trans align')
  have first : slotAlignof slab.objectAlign ∣ firstOffset slab := by
    rw [firstOffset, pageObjectOffset, align, slotAlignof_two_pow]
    exact dvd_alignCeil (by decide) (by omega)
  rw [headersAligned_iff_offsets accepted, ← and_iff_right (b := slotCount slab = 1 ∨ _) first,
    ← dvd_spaced_iff (slotCount_pos slab)]
  constructor
  · exact fun offsets i inside => offsets _ (mem_slotOffsets.mpr ⟨i, inside, rfl⟩)
  · intro spaced offset member
    obtain ⟨i, inside, rfl⟩ := mem_slotOffsets.mp member
    exact spaced i inside

/-- The headers of all slots are aligned exactly when the objects have an alignment above one, or an even size, or
are so large that a page holds one of them. -/
theorem headersAligned_iff (accepted : slabInit raw size (2 ^ k) = .ok slab) :
    HeadersAligned slab ↔ k ≠ 0 ∨ 2 ∣ size ∨ 2000 ≤ size := by
  obtain ⟨_, _, align, _⟩ := slabInit_geometry (Nat.two_pow_pos k) accepted
  rw [headersAligned_iff_stride accepted]
  cases k with
  | zero =>
    have first : firstOffset slab = 24 := by rw [firstOffset, align]; rfl
    have single : slotCount slab = 1 ↔ 2000 ≤ size := by
      have count : slotCount slab = max 1 (4071 / (size + 36)) := by rw [slotCount, first, slotSize_one accepted]; rfl
      have atMost : 4071 / (size + 36) ≤ 1 ↔ 4071 < (size + 36) * 2 := by
        rw [← Nat.lt_succ_iff, Nat.div_lt_iff_lt_mul (Nat.succ_pos _), Nat.mul_comm]
      rw [count]
      omega
    have stride : slotAlignof slab.objectAlign ∣ slab.slotSize ↔ 2 ∣ size := by
      rw [align, slotSize_one accepted]
      exact Nat.dvd_add_left (show 2 ∣ 36 by decide)
    rw [single, stride]
    omega
  | succ k =>
    have stride : slotAlignof slab.objectAlign ∣ slab.slotSize := by
      rw [align, slotAlignof_two_pow, Nat.max_eq_left (Nat.succ_pos k), ← align]
      exact (slabInit_aligned accepted).size
    exact iff_of_true (.inr stride) (.inl (Nat.succ_ne_zero k))

/-- Objects of 64 bytes that are aligned to 8. -/
theorem headersAligned_iff_64 : ∃ slab, slabInit SlabRuns.unset 64 (2 ^ 3) = .ok slab ∧
    (HeadersAligned slab ↔ 3 ≠ 0 ∨ 2 ∣ 64 ∨ 2000 ≤ 64) := by
  obtain ⟨slab, accepted⟩ : ∃ slab, slabInit SlabRuns.unset 64 (2 ^ 3) = .ok slab := ⟨_, rfl⟩
  exact ⟨slab, accepted, headersAligned_iff accepted⟩

/-- Of the slots for single bytes the second one lies 61 bytes behind the start of its page. -/
theorem second_slot_odd : ∃ slab, slabInit SlabRuns.unset 1 (2 ^ 0) = .ok slab ∧
    61 ∈ slotOffsets slab ∧ slotAlignof slab.objectAlign = 2 ∧ ¬HeadersAligned slab := by
  obtain ⟨slab, accepted, count, second, align⟩ : ∃ slab, slabInit SlabRuns.unset 1 (2 ^ 0) = .ok slab ∧
      slotCount slab = 110 ∧ slotOffset slab 1 = 61 ∧ slotAlignof slab.objectAlign = 2 :=
    ⟨_, rfl, by decide +kernel, by decide +kernel, rfl⟩
  have listed : 61 ∈ slotOffsets slab := mem_slotOffsets.mpr ⟨1, by omega, second⟩
  refine ⟨slab, accepted, listed, align, fun headers => ?_⟩
  have dvd := (headersAligned_iff_offsets accepted).mp headers 61 listed
  rw [align] at dvd
  omega

end Slots

end RubberOS.Soundness.SlotAlignment
