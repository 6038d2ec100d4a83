import RubberOS.Model.BootMmap

/-! # The entries that the boot code keeps
 The loop stops when the next entry would reach the end of the tag, and the last entry does reach it. So the last
entry of a tag is left out, unless the buffer is full before. -/

namespace RubberOS.Soundness.BootMmap

open Model Model.MemoryMap Model.BootMmap

/-- A well-formed memory-map tag with `n` entries, which the boot loader has placed apart from the kernel's buffer. -/
structure MmapTag (memory : Memory) (ebx bootinfoMmap n : ℕ) : Prop where
  type : load32 memory ebx = 6
  size : load32 memory (ebx + 4) = 16 + 24 * n
  entrySize : load32 memory (ebx + 8) = 24
  bounded : ebx + (16 + 24 * n) < 2 ^ 32
  buffer : bootinfoMmap + 8 + 24 * 128 < 2 ^ 32
  apart : ebx + (16 + 24 * n) ≤ bootinfoMmap ∨ bootinfoMmap + 8 + 24 * 128 ≤ ebx

/-- The buffer holds the first entries of the tag, up to its capacity, and nothing else has changed. -/
def CopiesTag (memory : Memory) (ebx bootinfoMmap n : ℕ) : Prop :=
  ∃ after, mbiMmap memory ebx bootinfoMmap = .ok after ∧ load32 after bootinfoMmap = min n 128 ∧
    (∀ b < 24 * min n 128, after (bootinfoMmap + 8 + b) = memory (ebx + 16 + b)) ∧
    ∀ a, (a < bootinfoMmap ∨ bootinfoMmap + 8 + 24 * 128 ≤ a) → after a = memory a

section Words

variable {memory memory' : Memory} {a v : ℕ}

theorem load32_congr (same : ∀ b < 4, memory' (a + b) = memory (a + b)) : load32 memory' a = load32 memory a := by
  rw [load32, load32, ← same 1 (by decide), ← same 2 (by decide), ← same 3 (by decide)]
  rw [← Nat.add_zero a, same 0 (by decide)]

theorem load32_store32 (small : v < 2 ^ 32) : load32 (store32 memory a v) a = v := by
  have digit (b : ℕ) (inside : b < 4) : store32 memory a v (a + b) = BitVec.ofNat 8 (v / 2 ^ (8 * b)) := by
    rw [store32, if_pos (by omega), Nat.add_sub_cancel_left]
  have first : store32 memory a v a = BitVec.ofNat 8 v := by simpa using digit 0 (by decide)
  rw [load32, first, digit 1 (by decide), digit 2 (by decide), digit 3 (by decide)]
  simp only [BitVec.toNat_ofNat]
  omega

theorem store32_of_outside {b : ℕ} (outside : b < a ∨ a + 4 ≤ b) : store32 memory a v b = memory b :=
  if_neg (by omega)

end Words

section Loop

variable {memory : Memory} {ebx bootinfoMmap n d : ℕ} {s : CopyState}

/-- The regions of a tag with `n` entries. -/
def regionsOf (ebx bootinfoMmap n : ℕ) : CopyRegions := ⟨ebx, ebx + (16 + 24 * n), bootinfoMmap⟩

/-- The first `d` dwords of the entries have been moved. -/
structure Moved (memory : Memory) (ebx bootinfoMmap d : ℕ) (s : CopyState) : Prop where
  esi : s.esi = ebx + 16 + 4 * d
  edi : s.edi = bootinfoMmap + 8 + 4 * d
  copied : ∀ b < 4 * d, s.memory (bootinfoMmap + 8 + b) = memory (ebx + 16 + b)
  rest : ∀ a, (a < bootinfoMmap + 8 ∨ bootinfoMmap + 8 + 4 * d ≤ a) → s.memory a = memory a

private theorem Moved.movsd (tag : MmapTag memory ebx bootinfoMmap n) (moved : Moved memory ebx bootinfoMmap d s)
    (inside : d + 1 ≤ 6 * n) (room : d + 1 ≤ 6 * 128) :
    ∃ after, movsd (regionsOf ebx bootinfoMmap n) s = .ok after ∧ Moved memory ebx bootinfoMmap (d + 1) after ∧
      after.ecx = s.ecx := by
  obtain ⟨esi, edi, copied, rest⟩ := moved
  have bounded := tag.bounded
  have buffer := tag.buffer
  have apart := tag.apart
  refine ⟨_, if_pos ?_, ⟨?_, ?_, fun b below => ?_, fun a outside => ?_⟩, rfl⟩
  · simp only [regionsOf, CopyRegions.entries, CopyRegions.entriesEnd, mmapEntrySize, BOOTINFO_MMAP_MAXLEN, esi, edi]
    omega
  · dsimp only
    rw [esi, u32_of_lt (by omega)]
    omega
  · dsimp only
    rw [edi, u32_of_lt (by omega)]
    omega
  · dsimp only
    split_ifs with new
    · rw [esi, edi, rest _ (by omega)]
      congr 1
      omega
    · exact copied b (by omega)
  · dsimp only
    rw [if_neg (by omega)]
    exact rest a (by omega)

private theorem Moved.movsds (tag : MmapTag memory ebx bootinfoMmap n) (count : ℕ)
    (moved : Moved memory ebx bootinfoMmap d s)
    (inside : d + count ≤ 6 * n) (room : d + count ≤ 6 * 128) :
    ∃ after, movsds (regionsOf ebx bootinfoMmap n) count s = .ok after ∧
      Moved memory ebx bootinfoMmap (d + count) after ∧ after.ecx = s.ecx := by
  induction count generalizing d s with
  | zero => exact ⟨s, rfl, moved, rfl⟩
  | succ count ih =>
    obtain ⟨next, first, nextMoved, same⟩ := moved.movsd tag (by omega) (by omega)
    obtain ⟨after, ran, afterMoved, kept⟩ := ih nextMoved (by omega) (by omega)
    refine ⟨after, Except.bind_ok_iff.mpr ⟨next, first, ran⟩, ?_, kept.trans same⟩
    rwa [Nat.add_assoc, Nat.add_comm 1] at afterMoved

/-- The tag is not written, so the size of an entry is read again and again. -/
private theorem Moved.entrySize (tag : MmapTag memory ebx bootinfoMmap n) (moved : Moved memory ebx bootinfoMmap d s)
    (room : d ≤ 6 * 128) : load32 s.memory (u32 ((regionsOf ebx bootinfoMmap n).ebx + 8)) = 24 := by
  have bounded := tag.bounded
  have apart := tag.apart
  change load32 s.memory (u32 (ebx + 8)) = 24
  rw [u32_of_lt (by omega), ← tag.entrySize]
  exact load32_congr fun b small => moved.rest _ (by omega)

/-- From `k` entries on, the loop moves all entries but the last, as long as there is room. -/
private theorem Moved.mmapLoop (tag : MmapTag memory ebx bootinfoMmap n) (positive : 1 ≤ n) {k fuel : ℕ}
    (moved : Moved memory ebx bootinfoMmap (6 * k) s) (count : s.ecx = k) (inside : k + 1 ≤ n) (room : k < 128)
    (enough : 128 < k + fuel) :
    ∃ after, mmapLoop (regionsOf ebx bootinfoMmap n) (ebx + (16 + 24 * n)) fuel s = .ok after ∧
      Moved memory ebx bootinfoMmap (6 * min (n - 1) 128) after ∧ after.ecx = min (n - 1) 128 := by
  have bounded := tag.bounded
  induction fuel generalizing k s with
  | zero => omega
  | succ fuel ih =>
    have next : u32 (s.esi + load32 s.memory (u32 ((regionsOf ebx bootinfoMmap n).ebx + 8))) =
        ebx + 16 + 24 * (k + 1) := by
      rw [moved.entrySize tag (by omega), moved.esi, u32_of_lt (by omega)]
      omega
    rw [BootMmap.mmapLoop, next]
    dsimp only
    by_cases last : k + 1 = n
    · refine ⟨s, if_pos (by omega), ?_, ?_⟩
      · rwa [show min (n - 1) 128 = k by omega]
      · omega
    · rw [if_neg (by omega)]
      obtain ⟨after, ran, afterMoved, same⟩ := moved.movsds tag 6 (by omega) (by omega)
      rw [ran, Except.ok_bind, same, count, u32_of_lt (by omega)]
      have advanced :
          Moved memory ebx bootinfoMmap (6 * (k + 1)) { after with esi := ebx + 16 + 24 * (k + 1), ecx := k + 1 } :=
        ⟨by dsimp only; omega, afterMoved.edi, afterMoved.copied, afterMoved.rest⟩
      by_cases more : k + 1 < BOOTINFO_MMAP_MAXLEN
      · rw [if_pos more]
        exact ih advanced rfl (by omega) more (by omega)
      · have full : k + 1 = 128 := by
          simp only [BOOTINFO_MMAP_MAXLEN] at more
          omega
        rw [if_neg more]
        have all : min (n - 1) 128 = k + 1 := by omega
        exact ⟨_, rfl, by rwa [all], all.symm⟩

private theorem moved_start (tag : MmapTag memory ebx bootinfoMmap n) : Moved memory ebx bootinfoMmap (6 * 0)
    { esi := u32 (ebx + 16), edi := u32 (bootinfoMmap + 8), ecx := 0, memory } := by
  have bounded := tag.bounded
  have buffer := tag.buffer
  exact ⟨u32_of_lt (by omega), u32_of_lt (by omega), fun b below => absurd below (by omega), fun _ _ => rfl⟩

private theorem mbiMmap_eq (tag : MmapTag memory ebx bootinfoMmap n) : mbiMmap memory ebx bootinfoMmap = (do
    let s ← mmapLoop (regionsOf ebx bootinfoMmap n) (ebx + (16 + 24 * n)) (BOOTINFO_MMAP_MAXLEN + 1)
      { esi := u32 (ebx + 16), edi := u32 (bootinfoMmap + 8), ecx := 0, memory }
    return store32 s.memory bootinfoMmap s.ecx) := by
  have bounded := tag.bounded
  have size : load32 memory (u32 (ebx + 4)) = 16 + 24 * n := by
    rw [u32_of_lt (by omega)]
    exact tag.size
  rw [mbiMmap, size, Nat.add_comm (16 + 24 * n), u32_of_lt bounded]
  rfl

/-- All entries but the last are copied, up to the capacity of the buffer. -/
theorem mbiMmap_spec (tag : MmapTag memory ebx bootinfoMmap n) (positive : 1 ≤ n) :
    ∃ after, mbiMmap memory ebx bootinfoMmap = .ok after ∧ load32 after bootinfoMmap = min (n - 1) 128 ∧
      (∀ b < 24 * min (n - 1) 128, after (bootinfoMmap + 8 + b) = memory (ebx + 16 + b)) ∧
      ∀ a, (a < bootinfoMmap ∨ bootinfoMmap + 8 + 24 * 128 ≤ a) → after a = memory a := by
  obtain ⟨s, ran, moved, count⟩ := (moved_start tag).mmapLoop tag positive rfl positive (by decide)
    (show 128 < 0 + (BOOTINFO_MMAP_MAXLEN + 1) by decide)
  refine ⟨store32 s.memory bootinfoMmap s.ecx, ?_, ?_, fun b below => ?_, fun a outside => ?_⟩
  · rw [mbiMmap_eq tag, ran]
    rfl
  · rw [count]
    exact load32_store32 (by omega)
  · rw [store32_of_outside (by omega)]
    exact moved.copied b (by omega)
  · rw [store32_of_outside (by omega)]
    exact moved.rest a (by omega)

/-- An empty tag is left alone, unless the sum of its address and an entry's size wraps. -/
private theorem copiesTag_empty_iff (tag : MmapTag memory ebx bootinfoMmap 0) :
    CopiesTag memory ebx bootinfoMmap 0 ↔ ebx + 40 < 2 ^ 32 := by
  have bounded := tag.bounded
  have start := moved_start tag
  have step := start.entrySize tag (by omega)
  rw [CopiesTag, mbiMmap_eq tag, BootMmap.mmapLoop, step]
  dsimp only
  rw [u32_of_lt (show ebx + 16 < 2 ^ 32 by omega)]
  constructor
  · rintro ⟨after, ran, _⟩
    by_contra top
    have wrapped : ¬u32 (ebx + 16 + 24) ≥ ebx + (16 + 24 * 0) := by
      unfold u32
      omega
    rw [if_neg wrapped, BootMmap.movsds, BootMmap.movsd, if_neg (by dsimp only [regionsOf]; omega)] at ran
    cases ran
  · intro low
    refine ⟨store32 memory bootinfoMmap 0, ?_, load32_store32 (by decide), fun b below => absurd below (by omega),
      fun a outside => store32_of_outside (by omega)⟩
    rw [if_pos (by rw [u32_of_lt (by omega)]; omega)]
    rfl

/-- The first `min(n, 128)` entries of a tag are copied exactly if the buffer overflows with them, or there are
none. -/
theorem copiesTag_iff (tag : MmapTag memory ebx bootinfoMmap n) :
    CopiesTag memory ebx bootinfoMmap n ↔ n = 0 ∧ ebx + 40 < 2 ^ 32 ∨ 129 ≤ n := by
  rcases Nat.eq_zero_or_pos n with rfl | positive
  · rw [copiesTag_empty_iff tag]
    omega
  · obtain ⟨after, ran, count, copied, rest⟩ := mbiMmap_spec tag positive
    constructor
    · rintro ⟨other, same, all, _⟩
      cases ran.symm.trans same
      omega
    · intro large
      have full : min (n - 1) 128 = min n 128 := by omega
      rw [full] at count copied
      exact ⟨after, ran, count, copied, rest⟩

end Loop

/-! ## Two tags -/

/-- A tag at 64 KiB that says it has `n` entries. -/
def sampleTag (n : ℕ) : Memory := fun a =>
  if a = 0x10000 then 6 else if a = 0x10004 then BitVec.ofNat 8 (16 + 24 * n)
  else if a = 0x10005 then BitVec.ofNat 8 ((16 + 24 * n) / 256)
  else if a = 0x10008 then 24 else 0

private theorem sampleTag_wellFormed {n : ℕ} (few : n ≤ 2000) : MmapTag (sampleTag n) 0x10000 0x200000 n where
  type := by rfl
  size := by
    have first : load32 (sampleTag n) (0x10000 + 4) =
        (BitVec.ofNat 8 (16 + 24 * n)).toNat + 2 ^ 8 * (BitVec.ofNat 8 ((16 + 24 * n) / 256)).toNat := by
      simp [load32, sampleTag]
    rw [first, BitVec.toNat_ofNat, BitVec.toNat_ofNat]
    omega
  entrySize := by rfl
  bounded := by omega
  buffer := by decide
  apart := by omega

/-- One entry more than the buffer has room for. -/
theorem copiesTag_iff_full : CopiesTag (sampleTag 129) 0x10000 0x200000 129 :=
  (copiesTag_iff (sampleTag_wellFormed (by decide))).mpr (.inr (Nat.le_refl 129))

/-- The only entry of a tag is left out. -/
theorem copiesTag_misses_last : MmapTag (sampleTag 1) 0x10000 0x200000 1 ∧ ¬CopiesTag (sampleTag 1) 0x10000 0x200000 1 := by
  have tag := sampleTag_wellFormed (n := 1) (by decide)
  refine ⟨tag, ?_⟩
  rintro ⟨after, ran, count, _⟩
  obtain ⟨other, same, none, _⟩ := mbiMmap_spec tag (Nat.le_refl 1)
  cases same.symm.trans ran
  omega

end RubberOS.Soundness.BootMmap
