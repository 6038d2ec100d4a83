import RubberOS.Proofs.MemoryMap

/-! # The dynamic memory map and its window

For every boot map the construction ends with the pages that an available entry wholly contains, in
ascending disjoint ranges. The two address functions are inverse to each other between the window
over such a map and its ranges, and panic exactly elsewhere.
-/

namespace RubberOS.Soundness.MemoryMap

open Model Model.MemoryMap Model.Sort HeapOrder

/-! ## Construction -/

private theorem compMmapEntry_below {a b : MmapEntry} : compMmapEntry a b ≤ 0 ↔ a.base ≤ b.base := by
  unfold compMmapEntry
  split_ifs with greater less
  · exact iff_of_false (by decide) (Nat.not_le_of_lt greater)
  · exact iff_of_true (by decide) (Nat.le_of_lt less)
  · exact iff_of_true le_rfl (Nat.le_of_not_lt greater)

private theorem compMmapEntry_comparator : Comparator compMmapEntry where
  flip a b := by
    rw [compMmapEntry_below]
    unfold compMmapEntry
    split_ifs with greater less
    · exact iff_of_true (Nat.le_of_lt greater) (by decide)
    · exact iff_of_false (Nat.not_le_of_lt less) (by decide)
    · exact iff_of_true (Nat.le_of_not_lt less) le_rfl
  trans a b c := by
    rw [compMmapEntry_below, compMmapEntry_below, compMmapEntry_below]
    exact Nat.le_trans

/-- A property of the sorted entries is one of the boot entries in another order. -/
private theorem exists_sorted_iff {n : ℕ} {boot sorted : ℕ → MmapEntry} (same : Rearranged n boot sorted)
    (property : MmapEntry → Prop) : (∃ j < n, property (sorted j)) ↔ ∃ j < n, property (boot j) := by
  constructor
  · rintro ⟨j, inside, holds⟩
    obtain ⟨k, source, moved⟩ := same.source inside
    exact ⟨k, source, moved ▸ holds⟩
  · rintro ⟨j, inside, holds⟩
    obtain ⟨k, target, moved⟩ := same.target inside
    exact ⟨k, target, moved.symm ▸ holds⟩

/-- The stages of the construction: a sorted copy, clipped, of which the available entries remain. -/
structure Stages (mmapBoot result : Mmap) (sorted : ℕ → MmapEntry) : Prop where
  ordered : ∀ i j, i ≤ j → j < mmapBoot.len → (sorted i).base ≤ (sorted j).base
  same : ∀ property : MmapEntry → Prop,
    (∃ j < mmapBoot.len, property (sorted j)) ↔ ∃ j < mmapBoot.len, property (mmapBoot.entries j)
  kept : (List.range result.len).map result.entries =
    ((List.range' 0 mmapBoot.len).map (clipEntries mmapBoot.len 0 DYNMEM_START_PHYS_MINIMUM sorted)).filter
      fun entry => entry.type = MMAP_ENTRY_AVAILABLE

private theorem constructMmapDyn_stages (mmapDyn : Mmap) {mmapBoot : Mmap}
    (fits : mmapBoot.len ≤ BOOTINFO_MMAP_MAXLEN) :
    ∃ result sorted, constructMmapDyn mmapDyn mmapBoot = .ok result ∧ Stages mmapBoot result sorted := by
  have bytes : mmapBoot.len * mmapEntrySize < 2 ^ 63 := by
    simp only [BOOTINFO_MMAP_MAXLEN, mmapEntrySize] at *
    omega
  generalize copied : (fun i => if i < mmapBoot.len then mmapBoot.entries i else mmapDyn.entries i) = entries
  obtain ⟨sorted, ran, same, ordered⟩ := sort_ok compMmapEntry entries (by decide) bytes
  have compacted := compactEntries_eq mmapBoot.len 0 0
    (clipEntries mmapBoot.len 0 DYNMEM_START_PHYS_MINIMUM sorted) le_rfl
  rcases stored : compactEntries mmapBoot.len 0 0
    (clipEntries mmapBoot.len 0 DYNMEM_START_PHYS_MINIMUM sorted)
    with ⟨removalEnd, kept⟩
  refine ⟨⟨removalEnd, kept⟩, sorted, ?_, fun i j le inside => ?_, fun property => ?_, ?_⟩
  · rw [constructMmapDyn, if_neg (Nat.not_lt.mpr fits)]
    dsimp only
    rw [copied, ran, Except.ok_bind, stored]
    rfl
  · exact compMmapEntry_below.mp (ordered compMmapEntry_comparator i j le inside)
  · rw [exists_sorted_iff same]
    refine exists_congr fun j => and_congr_right fun inside => ?_
    rw [← copied]
    dsimp only
    rw [if_pos inside]
  · rw [stored] at compacted
    simpa using compacted

/-- The entries of the result are the available clipped entries. -/
private theorem Stages.exists_iff {mmapBoot result : Mmap} {sorted : ℕ → MmapEntry}
    (stages : Stages mmapBoot result sorted)
    (property : MmapEntry → Prop) : (∃ i < result.len, property (result.entries i)) ↔
      ∃ j < mmapBoot.len,
        (clipEntries mmapBoot.len 0 DYNMEM_START_PHYS_MINIMUM sorted j).type = MMAP_ENTRY_AVAILABLE ∧
        property (clipEntries mmapBoot.len 0 DYNMEM_START_PHYS_MINIMUM sorted j) := by
  have members (entry : MmapEntry) := congrArg (entry ∈ ·) stages.kept
  simp only [List.mem_map, List.mem_range, List.mem_filter, List.mem_range'_1, decide_eq_true_eq,
    eq_iff_iff] at members
  constructor
  · rintro ⟨i, inside, holds⟩
    obtain ⟨⟨j, range, same⟩, available⟩ := (members _).mp ⟨i, inside, rfl⟩
    exact ⟨j, by omega, same ▸ available, same ▸ holds⟩
  · rintro ⟨j, upper, available, holds⟩
    obtain ⟨i, inside, same⟩ := (members _).mpr ⟨⟨j, ⟨Nat.zero_le j, by omega⟩, rfl⟩, available⟩
    exact ⟨i, inside, same ▸ holds⟩

/-- Every boot map gives a map of the dynamic memory's shape. -/
private theorem Stages.dynMap {mmapBoot result : Mmap} {sorted : ℕ → MmapEntry}
    (stages : Stages mmapBoot result sorted) :
    DynMap result := by
  have clipping := clipEntries_clipping mmapBoot.len 0 sorted
    (show DYNMEM_START_PHYS_MINIMUM % PAGE_SIZE = 0 by decide)
  have each (i : ℕ) (inside : i < result.len) : ∃ j < mmapBoot.len,
      (clipEntries mmapBoot.len 0 DYNMEM_START_PHYS_MINIMUM sorted j).type = MMAP_ENTRY_AVAILABLE ∧
      result.entries i = clipEntries mmapBoot.len 0 DYNMEM_START_PHYS_MINIMUM sorted j := by
    obtain ⟨j, upper, available, same⟩ :=
      (stages.exists_iff fun entry => result.entries i = entry).mp ⟨i, inside, rfl⟩
    exact ⟨j, upper, available, same⟩
  have pairs : ((List.range result.len).map result.entries).Pairwise fun first second =>
      first.base + first.length ≤ second.base := by
    rw [stages.kept, List.pairwise_filter, List.pairwise_map]
    refine (List.pairwise_lt_range' 1).imp_of_mem fun {j k} left right lt keptLeft keptRight => ?_
    have lower := (List.mem_range'_1.mp left).1
    have upper := (List.mem_range'_1.mp right).2
    exact clipping.ascending j k lower lt upper (by simpa using keptLeft) (by simpa using keptRight)
  refine ⟨fun i inside => ?_, fun i inside => ?_, fun i inside => ?_, fun i inside => ?_,
    fun i j lt inside => ?_⟩
  · obtain ⟨j, _, available, same⟩ := each i inside
    rwa [same]
  · obtain ⟨j, upper, available, same⟩ := each i inside
    obtain ⟨above, aligned, _⟩ := clipping.shape j (Nat.zero_le j) (by omega) available
    rw [same]
    exact ⟨above, aligned⟩
  · obtain ⟨j, upper, available, same⟩ := each i inside
    obtain ⟨_, _, positive, pages, _⟩ := clipping.shape j (Nat.zero_le j) (by omega) available
    rw [same]
    exact ⟨positive, pages⟩
  · obtain ⟨j, upper, available, same⟩ := each i inside
    obtain ⟨_, _, _, _, bound⟩ := clipping.shape j (Nat.zero_le j) (by omega) available
    rwa [same]
  · rw [List.pairwise_map] at pairs
    have at' := List.pairwise_iff_getElem.mp pairs i j (by simp; omega) (by simpa using inside) lt
    simpa using at'

/-- Whatever the boot map holds, the address functions find an ascending map that ends in time. -/
theorem constructMmapDyn_dynMap (mmapDyn : Mmap) {mmapBoot : Mmap}
    (fits : mmapBoot.len ≤ BOOTINFO_MMAP_MAXLEN) :
    ∃ result, constructMmapDyn mmapDyn mmapBoot = .ok result ∧ DynMap result ∧ AscendingMap result := by
  obtain ⟨result, sorted, ran, stages⟩ := constructMmapDyn_stages mmapDyn fits
  exact ⟨result, ran, stages.dynMap, stages.dynMap.ascendingMap⟩

/-- The map holds exactly the pages from eight mebibytes up that one available boot entry contains. -/
theorem construct_mmap_dyn_pages (mmapDyn : Mmap) {mmapBoot : Mmap} (fits : mmapBoot.len ≤ BOOTINFO_MMAP_MAXLEN)
    (bounds : ∀ i < mmapBoot.len,
      (mmapBoot.entries i).base + (mmapBoot.entries i).length ≤ 2 ^ 64 - PAGE_SIZE) :
    ∃ result, constructMmapDyn mmapDyn mmapBoot = .ok result ∧ DynMap result ∧
      ∀ page, page % PAGE_SIZE = 0 → ((∃ i < result.len, Holds (result.entries i) page) ↔
        DYNMEM_START_PHYS_MINIMUM ≤ page ∧ ∃ i < mmapBoot.len, Usable (mmapBoot.entries i) page) := by
  obtain ⟨result, sorted, ran, stages⟩ := constructMmapDyn_stages mmapDyn fits
  refine ⟨result, ran, stages.dynMap, fun page whole => ?_⟩
  have sortedBounds (j : ℕ) (inside : j < mmapBoot.len) :
      (sorted j).base + (sorted j).length ≤ 2 ^ 64 - PAGE_SIZE := by
    obtain ⟨k, source, same⟩ := (stages.same fun entry => sorted j = entry).mp ⟨j, inside, rfl⟩
    rw [same]
    exact bounds k source
  have pages := clipEntries_holds mmapBoot.len 0 sorted
    (show DYNMEM_START_PHYS_MINIMUM % PAGE_SIZE = 0 by decide)
    (fun j _ upper => sortedBounds j (by omega))
      (fun j k _ le upper => stages.ordered j k le (by omega)) whole
  rw [stages.exists_iff fun entry => Holds entry page, ← stages.same fun entry => Usable entry page]
  simp only [Nat.zero_le, Nat.zero_add, true_and] at pages ⊢
  rw [← pages]
  refine exists_congr fun j => and_congr_right fun _ => ?_
  exact and_iff_right_of_imp And.left

theorem construct_mmap_dyn_pages_single : ∃ result,
    constructMmapDyn ⟨0, fun _ => ⟨0, 0, 0⟩⟩ ⟨1, fun _ => ⟨0x00100000, 0x01000000, 1⟩⟩ = .ok result ∧
      DynMap result ∧ ∃ i < result.len, Holds (result.entries i) 0x00800000 := by
  obtain ⟨result, ran, shape, pages⟩ := @construct_mmap_dyn_pages ⟨0, fun _ => ⟨0, 0, 0⟩⟩
    ⟨1, fun _ => ⟨0x00100000, 0x01000000, 1⟩⟩ (by decide)
    (fun _ _ => show 0x00100000 + 0x01000000 ≤ 2 ^ 64 - PAGE_SIZE by decide)
  exact ⟨result, ran, shape, (pages 0x00800000 (by decide)).mpr
    ⟨by decide, 0, by decide, by unfold Usable; decide⟩⟩

/-! ## Translation -/

/-- The window over the map. -/
def InWindow (mmap : Mmap) (virt : ℕ) : Prop :=
  DYNMEM_START_VIRT ≤ virt ∧ virt < DYNMEM_START_VIRT + windowOffset mmap mmap.len

/-- The physical range of the kernel image. -/
def InKernel (phys : ℕ) : Prop := KERNEL_START_PHYS ≤ phys ∧ phys < KERNEL_START_PHYS + KERNEL_SIZE

section Translation

variable {mmap : Mmap}

/-- The address functions are mutually inverse between the window and the entries, and panic exactly
outside: `phys_to_virt` also answers for the kernel image. -/
theorem dynmem_translation (map : AscendingMap mmap) (nonempty : mmap.len ≠ 0) :
    (∀ virt, InWindow mmap virt → ∃ phys, virtToPhysDynmem virt mmap = .ok phys ∧ InEntries mmap phys ∧
      physToVirt phys mmap = .ok virt) ∧
    (∀ phys, InEntries mmap phys → ∃ virt, physToVirt phys mmap = .ok virt ∧ InWindow mmap virt ∧
      virtToPhysDynmem virt mmap = .ok phys) ∧
    (∀ virt < 2 ^ 64, ¬ InWindow mmap virt →
      virtToPhysDynmem virt mmap = panic "dynmem: invalid virtual address") ∧
    (∀ phys, InKernel phys → physToVirt phys mmap = .ok (physToVirtKernel phys)) ∧
    (∀ phys < 2 ^ 64, ¬ InEntries mmap phys → ¬ InKernel phys →
      physToVirt phys mmap = panic "dynmem: invalid physical address") := by
  refine ⟨?_, ?_, ?_, ?_, ?_⟩
  · rintro virt ⟨lower, upper⟩
    obtain ⟨offset, rfl⟩ := Nat.exists_eq_add_of_le lower
    obtain ⟨j, inside, start, stop⟩ := exists_window_entry (n := mmap.len) (Nat.lt_of_add_lt_add_left upper)
    have length := windowOffset_succ mmap j
    refine ⟨_, virtToPhysDynmem_hit map inside start stop, ⟨j, inside, by omega, by omega⟩, ?_⟩
    rw [physToVirt_hit map inside (by omega) (by omega)]
    congr 1
    omega
  · rintro phys ⟨j, inside, lower, upper⟩
    have length := windowOffset_succ mmap j
    have within := windowOffset_mono mmap (show j + 1 ≤ mmap.len from inside)
    refine ⟨_, physToVirt_hit map inside lower upper, ⟨by omega, by omega⟩, ?_⟩
    rw [Nat.add_assoc, virtToPhysDynmem_hit map inside (by omega) (by omega)]
    congr 1
    omega
  · intro virt small outside
    have window := map.window_lt (i := mmap.len) le_rfl
    have missed := virtToPhysFrom_miss (sub64 virt DYNMEM_START_VIRT) map (Nat.zero_add mmap.len)
    refine missed ?_
    unfold InWindow at outside
    simp only [sub64, DYNMEM_START_VIRT, DYNMEM_START_PHYS_MINIMUM] at *
    omega
  · rintro phys ⟨lower, upper⟩
    have floor := map.floor 0 (by omega)
    rw [physToVirt, if_neg, if_pos ⟨lower, upper⟩]
    simp only [KERNEL_START_PHYS, KERNEL_SIZE, DYNMEM_START_PHYS_MINIMUM] at *
    omega
  · intro phys _ outside notKernel
    rw [physToVirt]
    split_ifs with above kernel
    · exact physToVirtFrom_miss map (Nat.zero_add _) outside
    · exact (notKernel kernel).elim
    · rfl

theorem dynmem_translation_two : ∃ phys,
    virtToPhysDynmem 0x00202000 ⟨2, fun i => ⟨0x00800000 + i * 0x00100000, 0x2000, 1⟩⟩ = .ok phys ∧
      physToVirt phys ⟨2, fun i => ⟨0x00800000 + i * 0x00100000, 0x2000, 1⟩⟩ = .ok 0x00202000 := by
  have map : AscendingMap ⟨2, fun i => ⟨0x00800000 + i * 0x00100000, 0x2000, 1⟩⟩ := by
    refine ⟨fun i inside => ?_, fun i inside => ?_, fun i j lt inside => ?_⟩ <;>
      simp only [DYNMEM_START_PHYS_MINIMUM] at * <;> omega
  obtain ⟨phys, ran, _, back⟩ :=
    (dynmem_translation map (by decide)).1 0x00202000 (by unfold InWindow; decide)
  exact ⟨phys, ran, back⟩

end Translation

end RubberOS.Soundness.MemoryMap
