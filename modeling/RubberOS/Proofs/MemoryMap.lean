import Mathlib.Algebra.BigOperators.Intervals
import Mathlib.Algebra.Order.BigOperators.Group.Finset
import Mathlib.Data.List.Range
import RubberOS.Model.MemoryMap
import RubberOS.Proofs.Sort

/-! # The loops over the memory map

The clipping loop treats each entry with the running end of the ranges kept so far, so one lemma
about a single entry and one induction describe it. The compaction loop is a filter. Of the map that
results, `DynMap` records the shape every boot map gives it.
-/

namespace RubberOS.Model.MemoryMap

open HeapOrder

/-- The shape of `g_mmap_dyn`: ascending disjoint ranges of pages from eight mebibytes up. -/
structure DynMap (mmap : Mmap) : Prop where
  available : ∀ i < mmap.len, (mmap.entries i).type = MMAP_ENTRY_AVAILABLE
  base : ∀ i < mmap.len, DYNMEM_START_PHYS_MINIMUM ≤ (mmap.entries i).base ∧ (mmap.entries i).base % PAGE_SIZE = 0
  length : ∀ i < mmap.len, (mmap.entries i).length ≠ 0 ∧ (mmap.entries i).length % PAGE_SIZE = 0
  bound : ∀ i < mmap.len, (mmap.entries i).base + (mmap.entries i).length < 2 ^ 64
  ascending : ∀ i j, i < j → j < mmap.len →
    (mmap.entries i).base + (mmap.entries i).length ≤ (mmap.entries j).base

/-- The page lies wholly inside an available entry. -/
def Usable (entry : MmapEntry) (page : ℕ) : Prop :=
  entry.type = MMAP_ENTRY_AVAILABLE ∧ entry.base ≤ page ∧ page + PAGE_SIZE ≤ entry.base + entry.length

/-- The address lies in an available entry. -/
def Holds (entry : MmapEntry) (address : ℕ) : Prop :=
  entry.type = MMAP_ENTRY_AVAILABLE ∧ entry.base ≤ address ∧ address < entry.base + entry.length

/-! ## One entry -/

/-- The page-rounded start of an entry, moved up to the running end. -/
def clippedStart (prevEnd : ℕ) (entry : MmapEntry) : ℕ :=
  if u64 (szdivCeil entry.base PAGE_SIZE * PAGE_SIZE) < prevEnd then prevEnd
  else u64 (szdivCeil entry.base PAGE_SIZE * PAGE_SIZE)

def clippedEnd (entry : MmapEntry) : ℕ := u64 (entry.base + entry.length) / PAGE_SIZE * PAGE_SIZE

/-- The entry that the clipping loop stores. -/
def clipped (prevEnd : ℕ) (entry : MmapEntry) : MmapEntry :=
  if entry.type ≠ MMAP_ENTRY_AVAILABLE then entry
  else if clippedStart prevEnd entry ≥ clippedEnd entry then { entry with type := MMAP_ENTRY_RESERVED }
  else { entry with
    base := clippedStart prevEnd entry
    length := sub64 (clippedEnd entry) (clippedStart prevEnd entry) }

/-- The running end after one entry. -/
def nextEnd (prevEnd : ℕ) (entry : MmapEntry) : ℕ :=
  if entry.type ≠ MMAP_ENTRY_AVAILABLE ∨ clippedStart prevEnd entry ≥ clippedEnd entry then prevEnd
  else clippedEnd entry

private theorem clipEntries_succ (rest i prevEnd : ℕ) (entries : ℕ → MmapEntry) :
    clipEntries (rest + 1) i prevEnd entries = clipEntries rest (i + 1) (nextEnd prevEnd (entries i))
      (Function.update entries i (clipped prevEnd (entries i))) := by
  rw [clipEntries, nextEnd, clipped]
  dsimp only
  rw [← clippedStart, ← clippedEnd]
  by_cases available : (entries i).type ≠ MMAP_ENTRY_AVAILABLE
  · rw [if_pos available, if_pos available, if_pos (.inl available), Function.update_eq_self]
  · rw [if_neg available, if_neg available]
    by_cases empty : clippedStart prevEnd (entries i) ≥ clippedEnd (entries i)
    · rw [if_pos empty, if_pos empty, if_pos (.inr empty)]
    · rw [if_neg empty, if_neg empty, if_neg (not_or.mpr ⟨available, empty⟩)]

section Clipped

variable {prevEnd page : ℕ} {entry : MmapEntry}

private theorem clippedEnd_lt (entry : MmapEntry) : clippedEnd entry < 2 ^ 64 ∧ clippedEnd entry % PAGE_SIZE = 0 := by
  have small := u64_lt (entry.base + entry.length)
  simp only [clippedEnd, PAGE_SIZE]
  omega

private theorem clippedStart_bounds (entry : MmapEntry) (aligned : prevEnd % PAGE_SIZE = 0) :
    prevEnd ≤ clippedStart prevEnd entry ∧ clippedStart prevEnd entry % PAGE_SIZE = 0 := by
  unfold clippedStart
  split_ifs with below
  · exact ⟨le_rfl, aligned⟩
  · refine ⟨Nat.le_of_not_lt below, ?_⟩
    simp only [u64, PAGE_SIZE]
    omega

variable (entry) in
private theorem nextEnd_bounds (aligned : prevEnd % PAGE_SIZE = 0) :
    prevEnd ≤ nextEnd prevEnd entry ∧ nextEnd prevEnd entry % PAGE_SIZE = 0 := by
  have start := clippedStart_bounds entry aligned
  have stop := clippedEnd_lt entry
  unfold nextEnd
  split_ifs with dropped
  · exact ⟨le_rfl, aligned⟩
  · exact ⟨by omega, stop.2⟩

private theorem not_reserved : ¬ MMAP_ENTRY_RESERVED = MMAP_ENTRY_AVAILABLE := by decide

/-- An entry is kept exactly when it is available and rounds to a nonempty range. -/
private theorem clipped_kept (kept : (clipped prevEnd entry).type = MMAP_ENTRY_AVAILABLE) :
    entry.type = MMAP_ENTRY_AVAILABLE ∧ clippedStart prevEnd entry < clippedEnd entry := by
  unfold clipped at kept
  by_cases other : entry.type ≠ MMAP_ENTRY_AVAILABLE
  · rw [if_pos other] at kept
    exact (other kept).elim
  · rw [if_neg other] at kept
    by_cases empty : clippedStart prevEnd entry ≥ clippedEnd entry
    · rw [if_pos empty] at kept
      exact (not_reserved kept).elim
    · exact ⟨not_not.mp other, Nat.lt_of_not_le empty⟩

/-- A kept entry is a nonempty run of pages that starts at or after the running end. -/
private theorem clipped_shape (aligned : prevEnd % PAGE_SIZE = 0)
    (kept : (clipped prevEnd entry).type = MMAP_ENTRY_AVAILABLE) :
    prevEnd ≤ (clipped prevEnd entry).base ∧ (clipped prevEnd entry).base % PAGE_SIZE = 0 ∧
      (clipped prevEnd entry).length ≠ 0 ∧ (clipped prevEnd entry).length % PAGE_SIZE = 0 ∧
      (clipped prevEnd entry).base + (clipped prevEnd entry).length = nextEnd prevEnd entry ∧
      nextEnd prevEnd entry < 2 ^ 64 := by
  obtain ⟨available, nonempty⟩ := clipped_kept kept
  have start := clippedStart_bounds entry aligned
  have stop := clippedEnd_lt entry
  have empty := Nat.not_le_of_lt nonempty
  rw [nextEnd, if_neg (not_or.mpr ⟨not_not.mpr available, empty⟩), clipped, if_neg (not_not.mpr available),
    if_neg empty]
  simp only [PAGE_SIZE] at *
  rw [sub64_of_le (by omega) stop.1]
  omega

variable (prevEnd) in
/-- The pages of a stored entry are those of the original from the running end on. -/
private theorem clipped_holds (bound : entry.base + entry.length ≤ 2 ^ 64 - PAGE_SIZE)
    (whole : page % PAGE_SIZE = 0) :
    Holds (clipped prevEnd entry) page ↔ prevEnd ≤ page ∧ Usable entry page := by
  obtain ⟨lower, upper⟩ := szdivCeil_bounds entry.base (y := PAGE_SIZE) (by decide)
  have start : u64 (szdivCeil entry.base PAGE_SIZE * PAGE_SIZE) =
      szdivCeil entry.base PAGE_SIZE * PAGE_SIZE :=
    u64_of_lt (by simp only [PAGE_SIZE] at *; omega)
  have stop : clippedEnd entry = (entry.base + entry.length) / PAGE_SIZE * PAGE_SIZE := by
    rw [clippedEnd, u64_of_lt (by simp only [PAGE_SIZE] at *; omega)]
  have small := clippedEnd_lt entry
  have first : clippedStart prevEnd entry ≤ page ↔ prevEnd ≤ page ∧ entry.base ≤ page := by
    rw [clippedStart, start]
    split_ifs with moved
    · simp only [PAGE_SIZE] at *
      omega
    · simp only [PAGE_SIZE] at *
      omega
  have last : page < clippedEnd entry ↔ page + PAGE_SIZE ≤ entry.base + entry.length := by
    rw [stop]
    simp only [PAGE_SIZE] at *
    omega
  unfold Holds Usable clipped
  split_ifs with other empty
  · exact iff_of_false (fun held => other held.1) (fun usable => other usable.2.1)
  · refine iff_of_false (fun held => not_reserved held.1) fun ⟨above, _, base, inside⟩ => ?_
    have := first.mpr ⟨above, base⟩
    have := last.mpr inside
    omega
  · dsimp only
    rw [sub64_of_le (by omega) small.1, Nat.add_sub_cancel' (by omega), first, last]
    rw [not_not] at other
    constructor
    · rintro ⟨available, ⟨above, base⟩, inside⟩
      exact ⟨above, available, base, inside⟩
    · rintro ⟨above, available, base, inside⟩
      exact ⟨available, ⟨above, base⟩, inside⟩

/-- What the running end passes over from the entry's start on, the stored entry holds. -/
private theorem holds_of_lt_nextEnd (bound : entry.base + entry.length ≤ 2 ^ 64 - PAGE_SIZE)
    (whole : page % PAGE_SIZE = 0)
    (above : prevEnd ≤ page) (base : entry.base ≤ page) (passed : page < nextEnd prevEnd entry) :
    Holds (clipped prevEnd entry) page := by
  rw [clipped_holds _ bound whole]
  unfold nextEnd at passed
  split_ifs at passed with dropped
  · omega
  · rw [not_or, not_not] at dropped
    refine ⟨above, dropped.1, base, ?_⟩
    rw [clippedEnd, u64_of_lt (by simp only [PAGE_SIZE] at *; omega)] at passed
    simp only [PAGE_SIZE] at *
    omega

end Clipped

/-! ## The clipping loop -/

/-- What the clipping loop leaves in the entries from `i` on. -/
structure Clipping (rest i prevEnd : ℕ) (out : ℕ → MmapEntry) : Prop where
  shape : ∀ j, i ≤ j → j < i + rest → (out j).type = MMAP_ENTRY_AVAILABLE →
    prevEnd ≤ (out j).base ∧ (out j).base % PAGE_SIZE = 0 ∧ (out j).length ≠ 0 ∧
      (out j).length % PAGE_SIZE = 0 ∧ (out j).base + (out j).length < 2 ^ 64
  ascending : ∀ j k, i ≤ j → j < k → k < i + rest → (out j).type = MMAP_ENTRY_AVAILABLE →
    (out k).type = MMAP_ENTRY_AVAILABLE → (out j).base + (out j).length ≤ (out k).base

private theorem clipEntries_outside {rest i prevEnd : ℕ} {entries : ℕ → MmapEntry} {j : ℕ}
    (outside : j < i ∨ i + rest ≤ j) :
    clipEntries rest i prevEnd entries j = entries j := by
  induction rest generalizing i prevEnd entries with
  | zero => rfl
  | succ rest ih => rw [clipEntries_succ, ih (by omega), Function.update_of_ne (by omega)]

private theorem clipEntries_first (rest i prevEnd : ℕ) (entries : ℕ → MmapEntry) :
    clipEntries (rest + 1) i prevEnd entries i = clipped prevEnd (entries i) := by
  rw [clipEntries_succ, clipEntries_outside (.inl (Nat.lt_succ_self i)), Function.update_self]

theorem clipEntries_clipping (rest i : ℕ) {prevEnd : ℕ} (entries : ℕ → MmapEntry)
    (aligned : prevEnd % PAGE_SIZE = 0) :
    Clipping rest i prevEnd (clipEntries rest i prevEnd entries) := by
  induction rest generalizing i prevEnd entries with
  | zero => exact ⟨fun j lower upper => by omega, fun j k lower between upper => by omega⟩
  | succ rest ih =>
    obtain ⟨grown, alignedNext⟩ := nextEnd_bounds (entries i) aligned
    have later := ih (i + 1) (Function.update entries i (clipped prevEnd (entries i))) alignedNext
    rw [← clipEntries_succ] at later
    have first := clipEntries_first rest i prevEnd entries
    refine ⟨fun j lower upper kept => ?_, fun j k lower between upper kept keptLater => ?_⟩
    · rcases Nat.eq_or_lt_of_le lower with rfl | next
      · rw [first] at kept ⊢
        obtain ⟨above, page, positive, pages, stop, small⟩ := clipped_shape aligned kept
        exact ⟨above, page, positive, pages, by omega⟩
      · obtain ⟨above, rest⟩ := later.shape j next (by omega) kept
        exact ⟨grown.trans above, rest⟩
    · rcases Nat.eq_or_lt_of_le lower with rfl | next
      · obtain ⟨above, _⟩ := later.shape k (by omega) (by omega) keptLater
        rw [first] at kept ⊢
        obtain ⟨_, _, _, _, stop, _⟩ := clipped_shape aligned kept
        omega
      · exact later.ascending j k next between (by omega) kept keptLater

/-- The pages that the stored entries hold are the usable pages from the running end on. -/
theorem clipEntries_holds (rest i : ℕ) {prevEnd page : ℕ} (entries : ℕ → MmapEntry)
    (aligned : prevEnd % PAGE_SIZE = 0)
    (bounds : ∀ j, i ≤ j → j < i + rest → (entries j).base + (entries j).length ≤ 2 ^ 64 - PAGE_SIZE)
    (ordered : ∀ j k, i ≤ j → j ≤ k → k < i + rest → (entries j).base ≤ (entries k).base)
    (whole : page % PAGE_SIZE = 0) :
    (∃ j, i ≤ j ∧ j < i + rest ∧ Holds (clipEntries rest i prevEnd entries j) page) ↔
      prevEnd ≤ page ∧ ∃ j, i ≤ j ∧ j < i + rest ∧ Usable (entries j) page := by
  induction rest generalizing i prevEnd entries with
  | zero =>
    refine iff_of_false ?_ ?_
    · rintro ⟨j, lower, upper, _⟩
      omega
    · rintro ⟨_, j, lower, upper, _⟩
      omega
  | succ rest ih =>
    obtain ⟨grown, alignedNext⟩ := nextEnd_bounds (entries i) aligned
    have other (j : ℕ) (next : i + 1 ≤ j) :
        Function.update entries i (clipped prevEnd (entries i)) j = entries j :=
      Function.update_of_ne (by omega) _ _
    have later := ih (i + 1) (Function.update entries i (clipped prevEnd (entries i))) alignedNext
      (fun j lower upper => by rw [other j lower]; exact bounds j (by omega) (by omega))
      (fun j k lower le upper => by
        rw [other j lower, other k (by omega)]
        exact ordered j k (by omega) le (by omega))
    rw [← clipEntries_succ] at later
    have own := clipped_holds prevEnd (bounds i le_rfl (by omega)) whole
    have first := clipEntries_first rest i prevEnd entries
    constructor
    · rintro ⟨j, lower, upper, held⟩
      rcases Nat.eq_or_lt_of_le lower with rfl | next
      · rw [first] at held
        exact ⟨(own.mp held).1, i, le_rfl, upper, (own.mp held).2⟩
      · obtain ⟨above, k, lowerK, upperK, usable⟩ := later.mp ⟨j, next, by omega, held⟩
        rw [other k lowerK] at usable
        exact ⟨grown.trans above, k, by omega, by omega, usable⟩
    · rintro ⟨above, j, lower, upper, usable⟩
      by_cases passed : page < nextEnd prevEnd (entries i)
      · have base := (ordered i j le_rfl lower upper).trans usable.2.1
        refine ⟨i, le_rfl, by omega, ?_⟩
        rw [first]
        exact holds_of_lt_nextEnd (bounds i le_rfl (by omega)) whole above base passed
      · rcases Nat.eq_or_lt_of_le lower with rfl | next
        · refine ⟨i, le_rfl, upper, ?_⟩
          rw [first]
          exact own.mpr ⟨above, usable⟩
        · rw [← other j next] at usable
          obtain ⟨k, lowerK, upperK, held⟩ := later.mpr ⟨Nat.le_of_not_lt passed, j, next, by omega, usable⟩
          exact ⟨k, by omega, by omega, held⟩

/-! ## The compaction loop -/

theorem compactEntries_eq (rest i removalEnd : ℕ) (entries : ℕ → MmapEntry) (behind : removalEnd ≤ i) :
    (List.range (compactEntries rest i removalEnd entries).1).map
    (compactEntries rest i removalEnd entries).2 =
      (List.range removalEnd).map entries ++
        ((List.range' i rest).map entries).filter fun entry => entry.type = MMAP_ENTRY_AVAILABLE := by
  induction rest generalizing i removalEnd entries with
  | zero => simp [compactEntries]
  | succ rest ih =>
    rw [compactEntries, List.range'_succ, List.map_cons]
    split_ifs with available
    · rw [ih (i + 1) (removalEnd + 1) _ (by omega), List.range_succ, List.map_append, List.append_assoc,
        List.filter_cons_of_pos (by simpa using available)]
      have before : (List.range removalEnd).map (Function.update entries removalEnd (entries i)) =
          (List.range removalEnd).map entries := by
        refine List.map_congr_left fun j member => Function.update_of_ne ?_ _ _
        have := List.mem_range.mp member
        omega
      have after : (List.range' (i + 1) rest).map (Function.update entries removalEnd (entries i)) =
          (List.range' (i + 1) rest).map entries := by
        refine List.map_congr_left fun j member => Function.update_of_ne ?_ _ _
        have := (List.mem_range'_1.mp member).1
        omega
      rw [before, after, List.map_singleton, Function.update_self, List.singleton_append]
    · rw [ih (i + 1) removalEnd entries (by omega), List.filter_cons_of_neg (by simpa using available)]

/-! ## Translation -/

/-- Ascending disjoint ranges from eight mebibytes up that end inside the address space. -/
structure AscendingMap (mmap : Mmap) : Prop where
  floor : ∀ i < mmap.len, DYNMEM_START_PHYS_MINIMUM ≤ (mmap.entries i).base
  bound : ∀ i < mmap.len, (mmap.entries i).base + (mmap.entries i).length < 2 ^ 64
  ascending : ∀ i j, i < j → j < mmap.len →
    (mmap.entries i).base + (mmap.entries i).length ≤ (mmap.entries j).base

theorem DynMap.ascendingMap {mmap : Mmap} (dynMap : DynMap mmap) : AscendingMap mmap where
  floor i inside := (dynMap.base i inside).1
  bound := dynMap.bound
  ascending := dynMap.ascending

/-- Where the window over the map shows entry `i`; at the number of entries, the window's length. -/
def windowOffset (mmap : Mmap) (i : ℕ) : ℕ := ∑ j ∈ Finset.range i, (mmap.entries j).length

/-- The physical address lies in an entry. -/
def InEntries (mmap : Mmap) (phys : ℕ) : Prop :=
  ∃ i < mmap.len, (mmap.entries i).base ≤ phys ∧ phys < (mmap.entries i).base + (mmap.entries i).length

section Translation

variable {mmap : Mmap} {offset phys i j : ℕ}

theorem windowOffset_succ (mmap : Mmap) (i : ℕ) :
    windowOffset mmap (i + 1) = windowOffset mmap i + (mmap.entries i).length := Finset.sum_range_succ _ _

theorem windowOffset_mono (mmap : Mmap) (le : i ≤ j) : windowOffset mmap i ≤ windowOffset mmap j :=
  Finset.sum_le_sum_of_subset (Finset.range_subset_range.mpr le)

/-- The window grows no faster than the physical addresses. -/
theorem AscendingMap.offset_le_base (map : AscendingMap mmap) (inside : i < mmap.len) :
    DYNMEM_START_PHYS_MINIMUM + windowOffset mmap i ≤ (mmap.entries i).base := by
  induction i with
  | zero => simpa [windowOffset] using map.floor 0 inside
  | succ i ih =>
    have before := ih (by omega)
    have next := map.ascending i (i + 1) (Nat.lt_succ_self i) inside
    rw [windowOffset_succ]
    omega

theorem AscendingMap.window_lt (map : AscendingMap mmap) (le : i ≤ mmap.len) :
    DYNMEM_START_PHYS_MINIMUM + windowOffset mmap i < 2 ^ 64 := by
  cases i with
  | zero => simp [windowOffset, DYNMEM_START_PHYS_MINIMUM]
  | succ i =>
    have before := map.offset_le_base (i := i) (by omega)
    have bound := map.bound i (by omega)
    rw [windowOffset_succ]
    omega

/-- Every offset inside the window belongs to one entry. -/
theorem exists_window_entry {n : ℕ} (inside : offset < windowOffset mmap n) :
    ∃ j < n, windowOffset mmap j ≤ offset ∧ offset < windowOffset mmap (j + 1) := by
  induction n with
  | zero => simp [windowOffset] at inside
  | succ n ih =>
    rcases Nat.lt_or_ge offset (windowOffset mmap n) with before | own
    · obtain ⟨j, lt, range⟩ := ih before
      exact ⟨j, by omega, range⟩
    · exact ⟨n, Nat.lt_succ_self n, own, inside⟩

private theorem virtToPhysFrom_hit (map : AscendingMap mmap) {rest : ℕ} (levels : i + rest = mmap.len) (le : i ≤ j)
    (inside : j < mmap.len) (lower : windowOffset mmap j ≤ offset)
    (upper : offset < windowOffset mmap (j + 1)) :
    virtToPhysFrom mmap offset rest i (windowOffset mmap i) =
      .ok ((mmap.entries j).base + (offset - windowOffset mmap j)) := by
  induction rest generalizing i with
  | zero => omega
  | succ rest ih =>
    have bound := map.window_lt (i := i + 1) (by omega)
    rw [virtToPhysFrom]
    rw [← windowOffset_succ, u64_of_lt (by omega)]
    rcases Nat.eq_or_lt_of_le le with rfl | later
    · have fits := map.bound i inside
      have length := windowOffset_succ mmap i
      rw [if_pos upper, sub64_of_le lower (by omega), u64_of_lt (by omega)]
    · have passed := windowOffset_mono mmap (show i + 1 ≤ j from later)
      rw [if_neg (by omega), ih (by omega) later]

variable (offset) in
theorem virtToPhysFrom_miss (map : AscendingMap mmap) {rest : ℕ} (levels : i + rest = mmap.len)
    (beyond : windowOffset mmap mmap.len ≤ offset) :
    virtToPhysFrom mmap offset rest i (windowOffset mmap i) = panic "dynmem: invalid virtual address" := by
  induction rest generalizing i with
  | zero => rfl
  | succ rest ih =>
    have bound := map.window_lt (i := i + 1) (by omega)
    have passed := windowOffset_mono mmap (show i + 1 ≤ mmap.len by omega)
    rw [virtToPhysFrom]
    rw [← windowOffset_succ, u64_of_lt (by omega), if_neg (by omega), ih (by omega)]

private theorem physToVirtFrom_hit (map : AscendingMap mmap) {rest : ℕ} (levels : i + rest = mmap.len) (le : i ≤ j)
    (inside : j < mmap.len) (lower : (mmap.entries j).base ≤ phys)
    (upper : phys < (mmap.entries j).base + (mmap.entries j).length) :
    physToVirtFrom mmap phys rest i (windowOffset mmap i) =
      .ok (DYNMEM_START_VIRT + windowOffset mmap j + (phys - (mmap.entries j).base)) := by
  induction rest generalizing i with
  | zero => omega
  | succ rest ih =>
    have bound := map.window_lt (i := i + 1) (by omega)
    have fits := map.bound i (by omega)
    rw [physToVirtFrom]
    rw [← windowOffset_succ, u64_of_lt (n := (mmap.entries i).base + (mmap.entries i).length) fits]
    rcases Nat.eq_or_lt_of_le le with rfl | later
    · have length := windowOffset_succ mmap i
      simp only [DYNMEM_START_PHYS_MINIMUM, DYNMEM_START_VIRT] at *
      rw [if_pos ⟨lower, upper⟩, sub64_of_le lower (by omega), u64_of_lt (n := 2097152 + _) (by omega),
        u64_of_lt (by omega)]
    · have next := map.ascending i j later inside
      rw [if_neg (by omega), u64_of_lt (by omega), ih (by omega) later]

theorem physToVirtFrom_miss (map : AscendingMap mmap) {rest : ℕ} (levels : i + rest = mmap.len)
    (outside : ¬ InEntries mmap phys) :
    physToVirtFrom mmap phys rest i (windowOffset mmap i) = panic "dynmem: invalid physical address" := by
  induction rest generalizing i with
  | zero => rfl
  | succ rest ih =>
    have bound := map.window_lt (i := i + 1) (by omega)
    have fits := map.bound i (by omega)
    rw [physToVirtFrom]
    rw [u64_of_lt fits, if_neg (fun own => outside ⟨i, by omega, own⟩), ← windowOffset_succ,
      u64_of_lt (by omega), ih (by omega)]

theorem virtToPhysDynmem_hit (map : AscendingMap mmap) (inside : j < mmap.len)
    (lower : windowOffset mmap j ≤ offset) (upper : offset < windowOffset mmap (j + 1)) :
    virtToPhysDynmem (DYNMEM_START_VIRT + offset) mmap =
      .ok ((mmap.entries j).base + (offset - windowOffset mmap j)) := by
  have bound := map.window_lt (i := j + 1) inside
  have origin := virtToPhysFrom_hit map (Nat.zero_add _) (Nat.zero_le j) inside lower upper
  rw [virtToPhysDynmem, sub64_of_le (Nat.le_add_right _ _), Nat.add_sub_cancel_left]
  · exact origin
  · simp only [DYNMEM_START_VIRT, DYNMEM_START_PHYS_MINIMUM] at *
    omega

theorem physToVirt_hit (map : AscendingMap mmap) (inside : j < mmap.len)
    (lower : (mmap.entries j).base ≤ phys) (upper : phys < (mmap.entries j).base + (mmap.entries j).length) :
    physToVirt phys mmap = .ok (DYNMEM_START_VIRT + windowOffset mmap j +
      (phys - (mmap.entries j).base)) := by
  have first : (mmap.entries 0).base ≤ phys := by
    rcases Nat.eq_zero_or_pos j with rfl | later
    · exact lower
    · have := map.ascending 0 j later inside
      omega
  rw [physToVirt, if_pos first, physToVirtDynmem]
  exact physToVirtFrom_hit map (Nat.zero_add _) (Nat.zero_le j) inside lower upper

end Translation

end RubberOS.Model.MemoryMap
