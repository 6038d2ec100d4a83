import RubberOS.Proofs.BuddyInit

/-! # Which pools `buddy_init` accepts

The data area begins behind the metadata of the whole pool, rounded up to pages, and the metadata is then laid out
again for the units that are left. The source asks that it ends strictly before the data area. The two lengths are
equal, and fill their pages exactly, for a few pool sizes only, which this file finds.
-/

namespace RubberOS.Soundness.BuddyMetadata

open Model Model.Buddy

/-- The bytes of a level's bitmap. -/
def region (pool : BuddyBlocks) (level : ℕ) : Set ℕ :=
  Set.Ico (pool.bitmaps level).bits ((pool.bitmaps level).bits + bitsLen pool.units level)

/-- The pool's records and bitmaps fit in front of its data area, and the bitmaps are disjoint and fill the metadata
behind the records. -/
structure Complete (startAddr totalLen : ℕ) (pool : BuddyBlocks) : Prop where
  start : pool.startAddr = startAddr
  total : pool.totalLen = totalLen
  metadata : pool.metadataLen = pool.bitmapsLen * blockBitmapSize + bitsOffset pool.units pool.bitmapsLen
  fits : Set.Ico startAddr (startAddr + pool.metadataLen) ⊆ Set.Ico startAddr (startAddr + pool.dataOffset)
  disjoint : ∀ k < pool.bitmapsLen, ∀ l < pool.bitmapsLen, k ≠ l → Disjoint (region pool k) (region pool l)
  fill : ⋃ k ∈ Set.Iio pool.bitmapsLen, region pool k =
    Set.Ico (startAddr + pool.bitmapsLen * blockBitmapSize) (startAddr + pool.metadataLen)
  area : pool.dataOffset + pool.units * BUDDY_UNIT = totalLen

/-- The numbers of pages whose metadata fills the pages in front of the data area exactly. -/
def FillsPages (pages : ℕ) : Prop :=
  15466 ≤ pages ∧ pages ≤ 15472 ∨ 31787 ≤ pages ∧ pages ≤ 31792 ∨ 48108 ≤ pages ∧ pages ≤ 48112

instance (pages : ℕ) : Decidable (FillsPages pages) := inferInstanceAs (Decidable (_ ∨ _))

section Layout

variable {memory : Memory} {bitmaps : ℕ → BlockBitmap} {startAddr totalLen : ℕ} {pool : BuddyBlocks}

/-- The bitmaps of the levels lie one behind the other. -/
private theorem mem_regions (base units levels address : ℕ) :
    (∃ k < levels, base + bitsOffset units k ≤ address ∧ address < base + bitsOffset units k + bitsLen units k) ↔
      base ≤ address ∧ address < base + bitsOffset units levels := by
  induction levels with
  | zero =>
    rw [bitsOffset, Finset.sum_range_zero]
    constructor
    · rintro ⟨k, none, _⟩
      omega
    · omega
  | succ levels ih =>
    have more := bitsOffset_succ units levels
    constructor
    · rintro ⟨k, level, lower, upper⟩
      have inside := bitsOffset_le units level
      omega
    · rintro ⟨lower, upper⟩
      by_cases last : base + bitsOffset units levels ≤ address
      · exact ⟨levels, Nat.lt_succ_self _, last, by omega⟩
      · obtain ⟨k, level, inside⟩ := ih.mpr ⟨lower, by omega⟩
        exact ⟨k, by omega, inside⟩

/-- Whatever `buddy_init` accepts is laid out without gaps. -/
private theorem complete_of_accepted {pages : ℕ} (bound : pages * BUDDY_UNIT < 2 ^ 64)
    (accepted : buddyInit memory bitmaps startAddr (pages * BUDDY_UNIT) = .ok pool) :
    Complete startAddr (pages * BUDDY_UNIT) pool := by
  obtain ⟨placed, _, _, start, total⟩ := buddyInit_placed accepted bound
  have metadata := placed.metadata
  have offset := placed.offset
  have covers := placed.covers
  have tight := placed.tight
  have multiple := placed.multiple
  refine ⟨start, total, metadata, Set.Ico_subset_Ico_right (by omega), fun k level l level' other => ?_, ?_, ?_⟩
  · refine Set.disjoint_left.mpr fun address left right => ?_
    obtain ⟨lower, upper⟩ := left
    obtain ⟨lower', upper'⟩ := right
    obtain ⟨same, _⟩ := placed.address_inj (a := address - (pool.bitmaps k).bits)
        (c := address - (pool.bitmaps l).bits)
      level level' (by omega) (by omega) (by omega)
    exact other same
  · ext address
    rw [← start, metadata, ← Nat.add_assoc, Set.mem_Ico, ← mem_regions]
    simp only [Set.mem_iUnion, Set.mem_Iio, exists_prop, region, Set.mem_Ico]
    exact exists_congr fun k => and_congr_right fun level => by rw [placed.bits k level]
  · rw [total] at covers tight
    simp only [BUDDY_UNIT] at *
    omega

end Layout

/-! ## The length of the metadata -/

/-- The bytes of the records and bitmaps of a data area. -/
def metadataBytes (units : ℕ) : ℕ :=
  (Nat.log2 units + 1) * blockBitmapSize + bitsOffset units (Nat.log2 units + 1)

section Lengths

variable {m n a b t : ℕ}

private theorem bitsLen_mono (le : m ≤ n) (level : ℕ) : bitsLen m level ≤ bitsLen n level := by
  have := Nat.div_le_div_right (c := 2 ^ level) le
  unfold bitsLen
  omega

private theorem bitsOffset_mono (le : m ≤ n) (levels : ℕ) : bitsOffset m levels ≤ bitsOffset n levels :=
  Finset.sum_le_sum fun level _ => bitsLen_mono le level

private theorem log2_mono (le : m ≤ n) : Nat.log2 m ≤ Nat.log2 n := by
  rcases Nat.eq_zero_or_pos m with rfl | positive
  · exact Nat.zero_le _
  · exact (Nat.le_log2 (by omega)).mpr (((Nat.le_log2 (by omega)).mp le_rfl).trans le)

private theorem metadataBytes_mono (le : m ≤ n) : metadataBytes m ≤ metadataBytes n := by
  have levels := log2_mono le
  have bits := bitsOffset_mono le (Nat.log2 m + 1)
  have more : bitsOffset n (Nat.log2 m + 1) ≤ bitsOffset n (Nat.log2 n + 1) :=
    Finset.sum_le_sum_of_subset (Finset.range_subset_range.mpr (by omega))
  unfold metadataBytes blockBitmapSize
  omega

/-- Eight more units take another byte of the lowest bitmap. -/
private theorem metadataBytes_lt (positive : 0 < n) : metadataBytes n < metadataBytes (n + 8) := by
  have levels := log2_mono (show n ≤ n + 8 by omega)
  have first (units : ℕ) : bitsLen units 0 = (units - 1) / 8 + 1 := by rw [bitsLen, pow_zero, Nat.div_one]
  have rest := bitsOffset_mono (show n / 2 ≤ (n + 8) / 2 by omega) (Nat.log2 n)
  have more : bitsOffset ((n + 8) / 2) (Nat.log2 n) ≤ bitsOffset ((n + 8) / 2) (Nat.log2 (n + 8)) :=
    Finset.sum_le_sum_of_subset (Finset.range_subset_range.mpr levels)
  unfold metadataBytes blockBitmapSize
  rw [bitsOffset_half, bitsOffset_half, first, first]
  omega

/-- The sizes with metadata of one length are between two sizes with less and more. -/
private theorem between_of_eq (less : metadataBytes a < t) (more : t < metadataBytes b) (same : metadataBytes n = t) :
    a < n ∧ n < b := by
  constructor
  · by_contra below
    have := metadataBytes_mono (Nat.le_of_not_lt below)
    omega
  · by_contra above
    have := metadataBytes_mono (Nat.le_of_not_lt above)
    omega

private theorem eq_of_between (first : metadataBytes a = t) (last : metadataBytes b = t) (lower : a ≤ n)
    (upper : n ≤ b) :
    metadataBytes n = t := by
  have := metadataBytes_mono lower
  have := metadataBytes_mono upper
  omega

/-- The pages in front of the data area. -/
def offsetPages (pages : ℕ) : ℕ := szdivCeil (metadataBytes pages) BUDDY_UNIT

private theorem offsetPages_bounds (pages : ℕ) : metadataBytes pages ≤ offsetPages pages * BUDDY_UNIT ∧
    offsetPages pages * BUDDY_UNIT < metadataBytes pages + BUDDY_UNIT :=
  szdivCeil_bounds _ (by decide)

/-- Two sizes with metadata of one length, some pages apart. -/
private theorem apart_of_eq (less : metadataBytes a < t) (more : t < metadataBytes b) (same : metadataBytes n = t)
    (same' : metadataBytes (n - m) = t) : a + m < n ∧ n < b := by
  have upper := (between_of_eq less more same).2
  have lower := (between_of_eq less more same').1
  omega

/-- The metadata of the rest is as long as the pages in front of it for the sizes that fill pages, and shorter for the
others. -/
private theorem fillsPages_iff :
    offsetPages n * BUDDY_UNIT ≤ metadataBytes (n - offsetPages n) ↔ FillsPages n := by
  obtain ⟨covers, tight⟩ := offsetPages_bounds n
  unfold BUDDY_UNIT at *
  constructor
  · intro full
    have fewer := metadataBytes_mono (Nat.sub_le n (offsetPages n))
    have some : 16 ≤ metadataBytes n := by
      unfold metadataBytes blockBitmapSize
      omega
    -- eight pages less already shorten the metadata
    have few : offsetPages n < 8 := by
      rcases Nat.lt_or_ge 8 n with large | tiny
      · by_contra many
        have back := metadataBytes_mono (show n - offsetPages n ≤ n - 8 by omega)
        have shorter := metadataBytes_lt (show 0 < n - 8 by omega)
        rw [Nat.sub_add_cancel large.le] at shorter
        omega
      · have bound := (metadataBytes_mono tiny).trans (show metadataBytes 8 ≤ 4096 by decide +kernel)
        omega
    have same : metadataBytes n = offsetPages n * 4096 := by omega
    have same' : metadataBytes (n - offsetPages n) = offsetPages n * 4096 := by omega
    generalize offsetPages n = pages at few same same'
    unfold FillsPages
    rcases (by omega : pages = 1 ∨ pages = 2 ∨ pages = 3 ∨ pages = 4 ∨ pages = 5 ∨ pages = 6 ∨ pages = 7) with
      rfl | rfl | rfl | rfl | rfl | rfl | rfl
    · have := apart_of_eq (a := 15464) (b := 15473) (by decide +kernel) (by decide +kernel) same same'
      omega
    · have := apart_of_eq (a := 31784) (b := 31793) (by decide +kernel) (by decide +kernel) same same'
      omega
    · have := apart_of_eq (a := 48104) (b := 48113) (by decide +kernel) (by decide +kernel) same same'
      omega
    · have := apart_of_eq (a := 64496) (b := 64498) (by decide +kernel) (by decide +kernel) same same'
      omega
    · have := apart_of_eq (a := 80801) (b := 80804) (by decide +kernel) (by decide +kernel) same same'
      omega
    · have := apart_of_eq (a := 97187) (b := 97193) (by decide +kernel) (by decide +kernel) same same'
      omega
    · have := apart_of_eq (a := 113571) (b := 113577) (by decide +kernel) (by decide +kernel) same same'
      omega
  · rintro (⟨lower, upper⟩ | ⟨lower, upper⟩ | ⟨lower, upper⟩)
    · have first : metadataBytes 15465 = 4096 := by decide +kernel
      have last : metadataBytes 15472 = 4096 := by decide +kernel
      have same := eq_of_between first last (show 15465 ≤ n by omega) upper
      have one : offsetPages n = 1 := by omega
      rw [one, eq_of_between first last (by omega) (by omega)]
    · have first : metadataBytes 31785 = 8192 := by decide +kernel
      have last : metadataBytes 31792 = 8192 := by decide +kernel
      have same := eq_of_between first last (show 31785 ≤ n by omega) upper
      have two : offsetPages n = 2 := by omega
      rw [two, eq_of_between first last (by omega) (by omega)]
    · have first : metadataBytes 48105 = 12288 := by decide +kernel
      have last : metadataBytes 48112 = 12288 := by decide +kernel
      have same := eq_of_between first last (show 48105 ≤ n by omega) upper
      have three : offsetPages n = 3 := by omega
      rw [three, eq_of_between first last (by omega) (by omega)]

end Lengths

/-! ## Accepted sizes -/

section Accepted

variable {memory : Memory} {bitmaps : ℕ → BlockBitmap} {startAddr pages : ℕ}

/-- The 32-bit counter holds the bytes of the bitmaps of up to four tebibytes. -/
private theorem bitsOffset_lt (positive : 0 < pages) (bound : pages ≤ 2 ^ 30) :
    bitsOffset pages (Nat.log2 pages + 1) < 2 ^ 32 := by
  have log : Nat.log2 pages < 31 := (Nat.log2_lt (by omega)).mpr (by omega)
  have levels : (Nat.log2 pages + 1) * (pages / 8 + 1) ≤ 31 * (pages / 8 + 1) := Nat.mul_le_mul_right _ (by omega)
  have bits := bitsOffset_bound pages (Nat.log2 pages + 1)
  omega

/-- The metadata fits in one page, or leaves two pages at least. -/
private theorem metadataBytes_small (positive : 0 < pages) (bound : pages ≤ 2 ^ 30) :
    metadataBytes pages ≤ BUDDY_UNIT ∨ metadataBytes pages + 2 * BUDDY_UNIT ≤ pages * BUDDY_UNIT := by
  have small := metadata_small pages _ rfl (by omega)
  rwa [u32_of_lt (bitsOffset_lt positive bound)] at small

/-- The metadata description of whole pages. -/
private theorem buddyInfoCalcMetadata_pages (many : 2 ≤ pages) (bound : pages ≤ 2 ^ 30) :
    buddyInfoCalcMetadata (pages * BUDDY_UNIT) = .ok ⟨metadataBytes pages, pages, Nat.log2 pages + 1⟩ := by
  have small := metadataBytes_small (by omega) bound
  have narrow := bitsOffset_lt (by omega) bound
  simp only [BUDDY_UNIT] at small
  refine (buddyInfoCalcMetadata_ok_iff (by simp only [BUDDY_UNIT]; omega)).mpr ⟨?_, ?_, rfl, ?_, ?_⟩
  · simp only [BUDDY_UNIT]
    omega
  · simp only [BUDDY_UNIT]
    omega
  · dsimp only
    rw [u32_of_lt narrow]
    rfl
  · simp only [BUDDY_UNIT]
    omega

/-- The pages in front of the data area leave two pages at least. -/
private theorem offsetPages_room (many : 3 ≤ pages) (bound : pages ≤ 2 ^ 30) : offsetPages pages + 2 ≤ pages := by
  have small := metadataBytes_small (by omega) bound
  obtain ⟨covers, tight⟩ := offsetPages_bounds pages
  simp only [BUDDY_UNIT] at *
  omega

/-- The sizes of a pool are chosen if the metadata of the rest ends strictly before the data area. -/
private theorem buddyInfoInit_pages (many : 3 ≤ pages) (bound : pages ≤ 2 ^ 30) :
    buddyInfoInit (pages * BUDDY_UNIT) =
      if FillsPages pages then .error (.panic "assertion failed : buddy->metadata_len < data_offset")
      else .ok (⟨metadataBytes (pages - offsetPages pages), pages - offsetPages pages,
        Nat.log2 (pages - offsetPages pages) + 1⟩, offsetPages pages * BUDDY_UNIT) := by
  have room := offsetPages_room many bound
  have offset : u64 (offsetPages pages * BUDDY_UNIT) = offsetPages pages * BUDDY_UNIT :=
    u64_of_lt (by simp only [BUDDY_UNIT]; omega)
  have rest : sub64 (pages * BUDDY_UNIT) (offsetPages pages * BUDDY_UNIT) =
      (pages - offsetPages pages) * BUDDY_UNIT := by
    rw [sub64_of_le (Nat.mul_le_mul_right _ (by omega)) (by simp only [BUDDY_UNIT]; omega), Nat.sub_mul]
  rw [buddyInfoInit, buddyInfoCalcMetadata_pages (by omega) bound]
  simp only [Except.ok_bind]
  rw [← offsetPages, offset, rest, buddyInfoCalcMetadata_pages (by omega) (by omega)]
  simp only [Except.ok_bind]
  split_ifs with full
  · have fills := fillsPages_iff.mpr full
    rw [assert_of_not (by simpa using fills)]
    rfl
  · have fits := mt fillsPages_iff.mp full
    rw [assert_of (by simpa using fits)]
    rfl

/-- A pool whose metadata fills its pages exactly fails the strict comparison. -/
theorem rejected_of_fillsPages (full : FillsPages pages) :
    buddyInit memory bitmaps startAddr (pages * BUDDY_UNIT) =
      .error (.panic "assertion failed : buddy->metadata_len < data_offset") := by
  have sizes := full
  unfold FillsPages at sizes
  rw [buddyInit, buddyInfoInit_pages (by omega) (by omega), if_pos full]
  rfl

theorem accepted_of_not_fillsPages (memory : Memory) (bitmaps : ℕ → BlockBitmap) (startAddr : ℕ)
    (many : 3 ≤ pages) (bound : pages ≤ 2 ^ 30) (other : ¬FillsPages pages) :
    ∃ pool, buddyInit memory bitmaps startAddr (pages * BUDDY_UNIT) = .ok pool ∧
      pool.units = pages - offsetPages pages := by
  have sizes := buddyInfoInit_pages many bound
  have room := offsetPages_room many bound
  rw [if_neg other] at sizes
  have narrow : bitsOffset (pages - offsetPages pages) (Nat.log2 (pages - offsetPages pages) + 1) < 2 ^ 32 :=
    bitsOffset_lt (by omega) (by omega)
  exact buddyInit_of_info (by simp only [BUDDY_UNIT]; omega) sizes narrow

/-- Every pool of three pages to four tebibytes is set up with a complete layout, except for the sizes whose metadata
fills its pages exactly. -/
theorem accepted_iff (memory : Memory) (bitmaps : ℕ → BlockBitmap) (startAddr pages : ℕ) (many : 3 ≤ pages)
    (bound : pages ≤ 2 ^ 30) :
    (∃ pool, buddyInit memory bitmaps startAddr (pages * BUDDY_UNIT) = .ok pool ∧
      Complete startAddr (pages * BUDDY_UNIT) pool) ↔ ¬FillsPages pages := by
  have wide : pages * BUDDY_UNIT < 2 ^ 64 := by
    simp only [BUDDY_UNIT]
    omega
  constructor
  · rintro ⟨pool, accepted, _⟩ full
    rw [rejected_of_fillsPages full] at accepted
    cases accepted
  · intro other
    obtain ⟨pool, accepted, _⟩ := accepted_of_not_fillsPages memory bitmaps startAddr many bound other
    exact ⟨pool, accepted, complete_of_accepted wide accepted⟩

/-- Three pages above one mebibyte are set up. -/
theorem accepted_three : (∃ pool, buddyInit (fun _ => 0) (fun _ => ⟨0, 0⟩) 0x100000 (3 * BUDDY_UNIT) = .ok pool ∧
    Complete 0x100000 (3 * BUDDY_UNIT) pool) ↔ ¬FillsPages 3 :=
  accepted_iff (fun _ => 0) (fun _ => ⟨0, 0⟩) 0x100000 3 (by decide) (by decide)

/-- A pool of 15466 pages has exactly one page of metadata and is refused. -/
theorem refused_15466 : ¬∃ pool, buddyInit (fun _ => 0) (fun _ => ⟨0, 0⟩) 0x100000 (15466 * BUDDY_UNIT) = .ok pool ∧
    Complete 0x100000 (15466 * BUDDY_UNIT) pool := by
  rintro ⟨pool, accepted, _⟩
  rw [rejected_of_fillsPages (by decide)] at accepted
  cases accepted

end Accepted

end RubberOS.Soundness.BuddyMetadata
