import Mathlib.Algebra.BigOperators.Intervals
import Mathlib.Algebra.Order.BigOperators.Group.Finset
import RubberOS.Model.Buddy
import RubberOS.ToMathlib.DyadicBlocks

/-! # Bitmap updates of one pool

`Placed` records what a pool's description satisfies after initialisation: the level bitmaps occupy
consecutive byte regions of the metadata, and the data area takes `units` units. `Compact` and `Layout`
add what holds of aligned pools below two gibibytes and of whole pages. `Shows` states which bits of a
later state are set, by an arbitrary predicate on levels and indices. The two bit operations then change
that predicate at one point, for any predicate, and keep everything outside the bitmaps.
-/

namespace RubberOS.Model.Buddy

open Finset Dyadic

/-! ## Layout -/

/-- The bytes of the bitmap of one level. -/
def bitsLen (units level : ℕ) : ℕ := (units / 2 ^ level - 1) / 8 + 1

/-- The bytes of the bitmaps below one level. -/
def bitsOffset (units level : ℕ) : ℕ := ∑ j ∈ range level, bitsLen units j

/-- What initialisation establishes of the description of any pool it accepts. -/
structure Placed (pool : BuddyBlocks) : Prop where
  levels : pool.bitmapsLen = Nat.log2 pool.units + 1
  many : 1 < pool.units
  bits : ∀ k < pool.bitmapsLen, (pool.bitmaps k).bits =
    pool.startAddr + pool.bitmapsLen * blockBitmapSize + bitsOffset pool.units k
  metadata : pool.metadataLen = pool.bitmapsLen * blockBitmapSize + bitsOffset pool.units pool.bitmapsLen
  narrow : bitsOffset pool.units pool.bitmapsLen < 2 ^ 32
  offset : pool.metadataLen < pool.dataOffset
  multiple : pool.dataOffset % BUDDY_UNIT = 0
  covers : pool.totalLen ≤ pool.dataOffset + pool.units * BUDDY_UNIT
  tight : pool.dataOffset + pool.units * BUDDY_UNIT < pool.totalLen + BUDDY_UNIT

/-- The same of an aligned pool below two gibibytes that has an end address. -/
structure Compact (pool : BuddyBlocks) : Prop extends Placed pool where
  small : pool.units < 2 ^ 19
  aligned : (pool.startAddr + pool.dataOffset) % BUDDY_UNIT = 0
  bounded : pool.startAddr + pool.totalLen < 2 ^ 64

/-- The same of a pool of whole pages. -/
structure Layout (pool : BuddyBlocks) : Prop extends Compact pool where
  total : pool.dataOffset + pool.units * BUDDY_UNIT = pool.totalLen

/-- The address of the data area. -/
def BuddyBlocks.dataAddr (pool : BuddyBlocks) : ℕ := pool.startAddr + pool.dataOffset

/-- A bit that belongs to the bitmap of its level. -/
def BuddyBlocks.InRange (pool : BuddyBlocks) (level blockIndex : ℕ) : Prop :=
  level < pool.bitmapsLen ∧ blockIndex / 8 < bitsLen pool.units level

/-- The number of set bits of one level. -/
def BuddyBlocks.levelCount (buddy : BuddyBlocks) (level : ℕ) : ℕ :=
  ((range (8 * bitsLen buddy.units level)).filter fun i => buddy.levelBit level i).card

section Placed

variable {pool : BuddyBlocks} {k l i j : ℕ}

theorem bitsOffset_succ (units level : ℕ) :
    bitsOffset units (level + 1) = bitsOffset units level + bitsLen units level := sum_range_succ _ _

theorem bitsOffset_le (units : ℕ) (lt : k < l) :
    bitsOffset units k + bitsLen units k ≤ bitsOffset units l := by
  rw [← bitsOffset_succ]
  exact sum_le_sum_of_subset (range_subset_range.mpr lt)

/-- Different bytes of the bitmaps have different addresses. -/
theorem Placed.address_inj (placed : Placed pool) {a c : ℕ} (first : k < pool.bitmapsLen)
    (second : l < pool.bitmapsLen) (left : a < bitsLen pool.units k) (right : c < bitsLen pool.units l)
    (same : (pool.bitmaps k).bits + a = (pool.bitmaps l).bits + c) : k = l ∧ a = c := by
  rw [placed.bits k first, placed.bits l second] at same
  rcases lt_trichotomy k l with lt | rfl | lt
  · have := bitsOffset_le pool.units lt
    omega
  · exact ⟨rfl, by omega⟩
  · have := bitsOffset_le pool.units lt
    omega

theorem Placed.lt_two_pow (placed : Placed pool) : pool.units < 2 ^ pool.bitmapsLen := by
  rw [placed.levels]
  exact Nat.lt_log2_self

theorem Placed.nonempty (placed : Placed pool) : pool.units ≠ 0 := Nat.ne_zero_of_lt placed.many

/-- The bytes of the bitmaps, which the source counts in 32 bits, bound the units. -/
theorem Placed.units_lt (placed : Placed pool) : pool.units < 2 ^ 36 := by
  have narrow := placed.narrow
  have levels := placed.levels
  have first := bitsOffset_le pool.units (show 0 < pool.bitmapsLen by omega)
  rw [bitsLen, pow_zero, Nat.div_one] at first
  omega

theorem Compact.bitmapsLen_le (compact : Compact pool) : pool.bitmapsLen ≤ 19 := by
  have := (Nat.log2_lt compact.nonempty).mpr compact.small
  have := compact.levels
  omega

/-- A block inside the data area has a level and an index that its bitmap holds. -/
theorem Placed.inRange (placed : Placed pool) (inside : (i + 1) * 2 ^ k ≤ pool.units) : pool.InRange k i := by
  have positive := Nat.two_pow_pos k
  have index : i < pool.units / 2 ^ k := (Nat.le_div_iff_mul_le positive).mpr inside
  refine ⟨?_, by unfold bitsLen; omega⟩
  by_contra above
  have grown := Nat.pow_le_pow_right (n := 2) (by decide) (Nat.le_of_not_lt above)
  have := placed.lt_two_pow
  rw [Nat.add_mul] at inside
  omega

theorem inRange_sibling (range : pool.InRange k i) : pool.InRange k (sibling i) := by
  have half := sibling_div (i := i)
  exact ⟨range.1, by have := range.2; omega⟩

theorem Placed.metadata_bound (placed : Placed pool) (level : k < pool.bitmapsLen) :
    bitsLen pool.units k ≤ pool.metadataLen := by
  have := bitsOffset_le pool.units level
  have := placed.metadata
  omega

end Placed

/-! ## Single bits -/

theorem getBit_eq (memory : Memory) (bitmap : BlockBitmap) (blockIndex : ℕ) :
    getBit memory bitmap blockIndex = (memory (bitmap.bits + blockIndex / 8)).getLsbD (blockIndex % 8) := by
  have bit (byte : BitVec 8) :
      ∀ offset < 8, decide (byte &&& 1#8 <<< offset ≠ 0#8) = byte.getLsbD offset := by
    revert byte
    decide
  exact bit _ _ (Nat.mod_lt _ (by decide))

theorem getLsbD_or_shift (byte : BitVec 8) {offset : ℕ} (bound : offset < 8) (other : ℕ) :
    (byte ||| 1#8 <<< offset).getLsbD other = (byte.getLsbD other || decide (other = offset)) := by
  simp only [BitVec.getLsbD_or, BitVec.getLsbD_shiftLeft, BitVec.getLsbD_one]
  congr 1
  rw [Bool.eq_iff_iff]
  simp
  omega

theorem getLsbD_and_not_shift (byte : BitVec 8) {offset : ℕ} (bound : offset < 8) (other : ℕ)
    (small : other < 8) :
    (byte &&& ~~~(1#8 <<< offset)).getLsbD other = (byte.getLsbD other && decide (other ≠ offset)) := by
  simp only [BitVec.getLsbD_and, BitVec.getLsbD_not, BitVec.getLsbD_shiftLeft, BitVec.getLsbD_one]
  congr 1
  rw [Bool.eq_iff_iff]
  simp
  omega

/-! ## States of a pool -/

/-- A state of the pool whose set bits are those of the predicate. -/
structure Shows (pool buddy : BuddyBlocks) (P : ℕ → ℕ → Prop) : Prop where
  same : buddy = { pool with used := buddy.used, bitmaps := buddy.bitmaps, memory := buddy.memory }
  bits : ∀ k, (buddy.bitmaps k).bits = (pool.bitmaps k).bits
  idle : ∀ k, pool.bitmapsLen ≤ k → buddy.bitmaps k = pool.bitmaps k
  frame : ∀ address, (∀ k < pool.bitmapsLen, ∀ c < bitsLen pool.units k,
    address ≠ (pool.bitmaps k).bits + c) → buddy.memory address = pool.memory address
  bit : ∀ k i, pool.InRange k i → (buddy.levelBit k i = true ↔ P k i)
  count : ∀ k < pool.bitmapsLen, (buddy.bitmaps k).count = buddy.levelCount k

section Updates

variable {pool buddy : BuddyBlocks} {P Q : ℕ → ℕ → Prop} {k l i j : ℕ}

theorem Shows.units_eq (shown : Shows pool buddy P) : buddy.units = pool.units := by rw [shown.same]

theorem Shows.bitmapsLen_eq (shown : Shows pool buddy P) : buddy.bitmapsLen = pool.bitmapsLen := by
  rw [shown.same]

theorem Shows.congr (shown : Shows pool buddy P) (agree : ∀ k i, pool.InRange k i → (P k i ↔ Q k i)) :
    Shows pool buddy Q :=
  { shown with bit := fun k i range => (shown.bit k i range).trans (agree k i range) }

theorem levelBit_eq (buddy : BuddyBlocks) (level blockIndex : ℕ) : buddy.levelBit level blockIndex =
    (buddy.memory ((buddy.bitmaps level).bits + blockIndex / 8)).getLsbD (blockIndex % 8) := getBit_eq _ _ _

/-- The common effect of `set_1` and `set_0`: one byte and one count are stored. -/
def storeLevel (buddy : BuddyBlocks) (level blockIndex : ℕ) (byte : BitVec 8) (count : ℕ) : BuddyBlocks :=
  { buddy with
    memory := Function.update buddy.memory ((buddy.bitmaps level).bits + blockIndex / 8) byte
    bitmaps := Function.update buddy.bitmaps level { buddy.bitmaps level with count } }

theorem storeLevel_bits (buddy : BuddyBlocks) (k i l : ℕ) (byte : BitVec 8) (count : ℕ) :
    ((storeLevel buddy k i byte count).bitmaps l).bits = (buddy.bitmaps l).bits := by
  rcases eq_or_ne l k with rfl | other
  · simp [storeLevel]
  · simp [storeLevel, other]

private theorem storeLevel_count (buddy : BuddyBlocks) (k i l : ℕ) (byte : BitVec 8) (count : ℕ) :
    ((storeLevel buddy k i byte count).bitmaps l).count = if l = k then count
    else (buddy.bitmaps l).count := by
  rcases eq_or_ne l k with rfl | other
  · simp [storeLevel]
  · simp [storeLevel, other]

/-- A stored byte changes the bits it differs in and no bit of another byte. -/
private theorem levelBit_storeLevel (placed : Placed pool) (shown : Shows pool buddy P) (range : pool.InRange k i)
    (other : pool.InRange l j) {byte : BitVec 8} (count : ℕ) {value : Bool}
    (stored : ∀ offset < 8, byte.getLsbD offset = if offset = i % 8 then value else
      (buddy.memory ((buddy.bitmaps k).bits + i / 8)).getLsbD offset) :
    (storeLevel buddy k i byte count).levelBit l j =
      if l = k ∧ j = i then value else buddy.levelBit l j := by
  rw [levelBit_eq, storeLevel_bits, levelBit_eq buddy]
  simp only [storeLevel, Function.update_apply]
  by_cases here : l = k ∧ j / 8 = i / 8
  · rw [if_pos (by rw [here.1, here.2]), stored _ (Nat.mod_lt _ (by decide)), here.1, here.2]
    exact if_congr (by omega) rfl rfl
  · rw [if_neg, if_neg (by rintro ⟨rfl, rfl⟩; exact here ⟨rfl, rfl⟩)]
    intro same
    rw [shown.bits, shown.bits] at same
    exact here (placed.address_inj other.1 range.1 other.2 range.2 same)

/-- An index of the bitmap's bits is below eight times its bytes. -/
private theorem mem_level_iff (level : k < pool.bitmapsLen) :
    i ∈ range (8 * bitsLen pool.units k) ↔ pool.InRange k i := by
  rw [mem_range]
  exact ⟨fun bound => ⟨level, by omega⟩, fun range => by have := range.2; omega⟩

private theorem levelCount_le (buddy : BuddyBlocks) (level : ℕ) :
    buddy.levelCount level ≤ 8 * bitsLen buddy.units level :=
  (card_filter_le _ _).trans_eq (card_range _)

private theorem bitsLen_le (placed : Placed pool) (level : ℕ) : bitsLen pool.units level ≤ 2 ^ 36 := by
  have := placed.units_lt
  have := Nat.div_le_self pool.units (2 ^ level)
  unfold bitsLen
  omega

/-- The count of one level after a single bit of it has taken a value. -/
private theorem card_update {n : ℕ} (before after : ℕ → Bool) (member : i < n)
    (changed : ∀ j < n, after j = if j = i then after i else before j) :
    ((range n).filter fun j => after j).card + (before i).toNat =
      ((range n).filter fun j => before j).card + (after i).toNat := by
  have split (bits : ℕ → Bool) : ((range n).filter fun j => bits j).card =
      (bits i).toNat + (((range n).erase i).filter fun j => bits j).card := by
    rw [← insert_erase (mem_range.mpr member), filter_insert]
    cases bit : bits i with
    | true => rw [if_pos rfl, card_insert_of_notMem (by simp), erase_insert_eq_erase, erase_idem,
        Bool.toNat_true, Nat.add_comm]
    | false => simp
  have rest : (((range n).erase i).filter fun j => after j) =
      ((range n).erase i).filter fun j => before j := by
    refine filter_congr fun j inside => ?_
    rw [changed j (mem_range.mp (mem_of_mem_erase inside)), if_neg (ne_of_mem_erase inside)]
  rw [split after, split before, rest]
  omega

/-- Storing one bit with the matching count shows the predicate with that bit replaced. -/
private theorem Shows.store (placed : Placed pool) (shown : Shows pool buddy P) (range : pool.InRange k i)
    (byte : BitVec 8) (count : ℕ) (value : Bool)
    (stored : ∀ offset < 8, byte.getLsbD offset = if offset = i % 8 then value else
      (buddy.memory ((buddy.bitmaps k).bits + i / 8)).getLsbD offset)
    (counted : count + (buddy.levelBit k i).toNat = (buddy.bitmaps k).count + value.toNat) :
    Shows pool (storeLevel buddy k i byte count) (fun l j => if l = k ∧ j = i then value = true
      else P l j) where
  same := by
    rw [storeLevel, shown.same]
  bits l := by rw [storeLevel_bits, shown.bits]
  idle l above := by
    have := range.1
    simp only [storeLevel]
    rw [Function.update_of_ne (by omega), shown.idle l above]
  frame address outside := by
    simp only [storeLevel]
    rw [Function.update_of_ne, shown.frame address outside]
    rw [shown.bits]
    exact outside k range.1 _ range.2
  bit l j other := by
    rw [levelBit_storeLevel placed shown range other count stored]
    split_ifs with here
    · rfl
    · exact shown.bit l j other
  count l level := by
    have bit (j : ℕ) (inside : j < 8 * bitsLen pool.units l) :=
      levelBit_storeLevel placed shown range ((mem_level_iff level).mp (mem_range.mpr inside)) count stored
    have old := shown.count l level
    rw [BuddyBlocks.levelCount, shown.units_eq] at old
    rw [storeLevel_count, BuddyBlocks.levelCount,
      show (storeLevel buddy k i byte count).units = pool.units from shown.units_eq]
    rcases eq_or_ne l k with rfl | other
    · have own := mem_range.mp ((mem_level_iff level).mpr range)
      have step := card_update (buddy.levelBit l)
        ((storeLevel buddy l i byte count).levelBit l) own fun j inside => by
        rw [bit j inside, bit i own]
        simp
      rw [bit i own, if_pos ⟨rfl, rfl⟩] at step
      rw [if_pos rfl]
      omega
    · rw [if_neg other, old]
      congr 1
      refine filter_congr fun j inside => ?_
      rw [bit j (mem_range.mp inside), if_neg (fun both => other both.1)]

/-- `set_1` adds its bit to the predicate. -/
theorem Shows.set1 (placed : Placed pool) (shown : Shows pool buddy P) (range : pool.InRange k i) :
    Shows pool (set1 buddy k i) (fun l j => P l j ∨ (l = k ∧ j = i)) := by
  have bound : (buddy.bitmaps k).count + 1 < 2 ^ 64 := by
    have := levelCount_le buddy k
    have := bitsLen_le placed k
    rw [shown.units_eq] at *
    rw [shown.count k range.1]
    omega
  have stored := shown.store placed range
    (buddy.memory ((buddy.bitmaps k).bits + i / 8) ||| 1#8 <<< (i % 8))
    (if !getBit buddy.memory (buddy.bitmaps k) i then u64 ((buddy.bitmaps k).count + 1)
      else (buddy.bitmaps k).count) true ?_ ?_
  · refine Shows.congr stored fun l j _ => ?_
    split_ifs with here
    · simp [here]
    · simp [here]
  · intro offset small
    rw [getLsbD_or_shift _ (Nat.mod_lt _ (by decide))]
    split_ifs with here <;> simp [here]
  · change _ + (getBit buddy.memory (buddy.bitmaps k) i).toNat = _
    rw [u64_of_lt bound]
    cases getBit buddy.memory (buddy.bitmaps k) i <;> rfl

/-- `set_0` removes its bit from the predicate. -/
theorem Shows.set0 (placed : Placed pool) (shown : Shows pool buddy P) (range : pool.InRange k i) :
    Shows pool (set0 buddy k i) (fun l j => P l j ∧ ¬ (l = k ∧ j = i)) := by
  have bound : (buddy.bitmaps k).count < 2 ^ 64 := by
    have := levelCount_le buddy k
    have := bitsLen_le placed k
    rw [shown.units_eq] at *
    rw [shown.count k range.1]
    omega
  have positive : getBit buddy.memory (buddy.bitmaps k) i = true → 0 < (buddy.bitmaps k).count := by
    intro bit
    rw [shown.count k range.1, BuddyBlocks.levelCount, card_pos, shown.units_eq]
    exact ⟨i, mem_filter.mpr ⟨(mem_level_iff range.1).mpr range, bit⟩⟩
  have stored := shown.store placed range
    (buddy.memory ((buddy.bitmaps k).bits + i / 8) &&& ~~~(1#8 <<< (i % 8)))
    (if getBit buddy.memory (buddy.bitmaps k) i then sub64 (buddy.bitmaps k).count 1
      else (buddy.bitmaps k).count) false ?_ ?_
  · refine Shows.congr stored fun l j _ => ?_
    split_ifs with here
    · simp [here]
    · simp [here]
  · intro offset small
    rw [getLsbD_and_not_shift _ (Nat.mod_lt _ (by decide)) _ small]
    split_ifs with here <;> simp [here]
  · change _ + (getBit buddy.memory (buddy.bitmaps k) i).toNat = _
    cases bit : getBit buddy.memory (buddy.bitmaps k) i with
    | true =>
      have := positive bit
      simp only [↓reduceIte, Bool.toNat_true, Bool.toNat_false]
      rw [sub64_of_le (by omega) bound]
      omega
    | false => rfl

/-- Two states that show the same bits agree in every byte and every count. -/
theorem Shows.unique {other : BuddyBlocks} (shown : Shows pool buddy P) (shownOther : Shows pool other P)
    (used : buddy.used = other.used) : buddy = other := by
  have bit (k i : ℕ) (range : pool.InRange k i) : buddy.levelBit k i = other.levelBit k i :=
    Bool.eq_iff_iff.mpr ((shown.bit k i range).trans (shownOther.bit k i range).symm)
  have memory : buddy.memory = other.memory := by
    funext address
    by_cases own : ∃ k < pool.bitmapsLen, ∃ c < bitsLen pool.units k, address = (pool.bitmaps k).bits + c
    · obtain ⟨k, level, c, byte, rfl⟩ := own
      refine BitVec.eq_of_getLsbD_eq fun offset small => ?_
      have same := bit k (8 * c + offset) ⟨level, by omega⟩
      rw [levelBit_eq, levelBit_eq, shown.bits, shownOther.bits] at same
      rwa [show (8 * c + offset) / 8 = c by omega, show (8 * c + offset) % 8 = offset by omega] at same
    · have outside : ∀ k < pool.bitmapsLen, ∀ c < bitsLen pool.units k, address ≠ (pool.bitmaps k).bits + c :=
        fun k level c byte same => own ⟨k, level, c, byte, same⟩
      rw [shown.frame address outside, shownOther.frame address outside]
  have bitmaps : buddy.bitmaps = other.bitmaps := by
    funext k
    rcases Nat.lt_or_ge k pool.bitmapsLen with level | above
    · have counts : buddy.levelCount k = other.levelCount k := by
        rw [BuddyBlocks.levelCount, BuddyBlocks.levelCount, shown.units_eq, shownOther.units_eq]
        refine congrArg _ (filter_congr fun i inside => ?_)
        rw [bit k i ((mem_level_iff level).mp inside)]
      have records (left right : BlockBitmap) (bits : left.bits = right.bits)
        (count : left.count = right.count) :
          left = right := by
        cases left
        cases right
        simp_all
      apply records
      · rw [shown.bits, shownOther.bits]
      · rw [shown.count k level, shownOther.count k level, counts]
    · rw [shown.idle k above, shownOther.idle k above]
  rw [shown.same, shownOther.same, memory, bitmaps, used]

end Updates

end RubberOS.Model.Buddy
