import RubberOS.Proofs.BuddyDealloc
import RubberOS.Proofs.BuddyInit
import RubberOS.ToMathlib.LabelledRuns

/-! # Runs of the buddy allocator

A run starts with a freshly initialised pool and interleaves allocations with releases of live
slices. In every state reached the bitmaps are the decomposition of the units no live slice covers,
so coverage, the answers of `buddy_alloc_slice` and the whole contents of the pool are functions of
the live slices.
-/

namespace RubberOS.Soundness.BuddyRuns

open Model Model.Buddy Dyadic LabelledRuns

/-- The object given to `buddy_init`: whole pages, at most two gibibytes, with an end address. -/
structure PoolRegion where
  startAddr : ℕ
  totalLen : ℕ
  alignedStart : startAddr % BUDDY_UNIT = 0
  alignedLen : totalLen % BUDDY_UNIT = 0
  small : totalLen ≤ 2 ^ 31
  bounded : startAddr + totalLen < 2 ^ 64

/-- A slice in use, with the length its client asked for. -/
structure Live where
  slice : Slice
  requested : ℕ
deriving DecidableEq

structure State where
  buddy : BuddyBlocks
  live : List Live

inductive Event where
  | alloc (len : ℕ)
  | dealloc (entry : Live) (addr len : ℕ)

/-- How a client may name a live slice to `buddy_dealloc`. -/
inductive Names (entry : Live) : ℕ → ℕ → Prop
  | requested : Names entry entry.slice.ptr entry.requested
  | returned : Names entry entry.slice.ptr entry.slice.length
  | part {addr len k : ℕ} : 0 < len → entry.slice.ptr ≤ addr →
      addr + len ≤ entry.slice.ptr + entry.slice.length → entry.slice.length = BUDDY_UNIT * 2 ^ k →
      IsFit (roundedExtent addr len) k → Names entry addr len

/-- The calls of a client that respects the interface. -/
def Enabled (s : State) : Event → Prop
  | .alloc len => 1 ≤ len ∧ len ≤ s.buddy.totalLen
  | .dealloc entry addr len => entry ∈ s.live ∧ Names entry addr len

/-- One call, with the book of live slices kept by its clients. -/
def exec (s : State) : Event → Result State
  | .alloc len => do
    let (slice, buddy) ← buddyAllocSlice s.buddy len
    return { buddy, live := if slice.ptr = 0 then s.live else ⟨slice, len⟩ :: s.live }
  | .dealloc entry addr len => do
    let buddy ← buddyDealloc s.buddy addr len
    return { buddy, live := s.live.erase entry }

/-- A finite run of calls from a fresh pool. -/
abbrev Reaches (pool : BuddyBlocks) : List Event → State → Prop := Run (Guarded Enabled exec) ⟨pool, []⟩

/-- The unit with this number lies in the slice. -/
def Covers (pool : BuddyBlocks) (slice : Slice) (u : ℕ) : Prop :=
  slice.ptr ≤ pool.dataAddr + BUDDY_UNIT * u ∧ pool.dataAddr + BUDDY_UNIT * u < slice.ptr + slice.length

instance (pool : BuddyBlocks) (slice : Slice) (u : ℕ) : Decidable (Covers pool slice u) :=
  inferInstanceAs (Decidable (_ ∧ _))

/-- The units that no live slice covers. -/
def freeUnits (pool : BuddyBlocks) (live : List Live) : Set ℕ :=
  {u | u < pool.units ∧ ∀ entry ∈ live, ¬ Covers pool entry.slice u}

/-- How often a unit is covered, by live slices and by set bits of the levels' bitmaps. -/
def coverings (pool : BuddyBlocks) (s : State) (u : ℕ) : ℕ :=
  s.live.countP (fun entry => Covers pool entry.slice u) +
    ((Finset.range pool.bitmapsLen).filter fun k =>
      u / 2 ^ k < 8 * bitsLen pool.units k ∧ s.buddy.levelBit k (u / 2 ^ k)).card

/-! ## Live slices -/

/-- A live slice is one block of the data area, of the level its request fits. -/
def IsBlock (pool : BuddyBlocks) (entry : Live) (k i : ℕ) : Prop :=
  entry.slice = pool.block k i ∧ (i + 1) * 2 ^ k ≤ pool.units ∧ 1 ≤ entry.requested ∧ IsFit entry.requested k

/-- Two slices without a common unit. -/
def Apart (pool : BuddyBlocks) (first second : Live) : Prop :=
  ∀ u, Covers pool first.slice u → ¬ Covers pool second.slice u

/-- The live slices are blocks without common units. -/
structure Separate (pool : BuddyBlocks) (live : List Live) : Prop where
  blocks : ∀ entry ∈ live, ∃ k i, IsBlock pool entry k i
  apart : live.Pairwise (Apart pool)

/-- The bitmaps describe exactly the units outside the live slices. -/
structure Consistent (pool : BuddyBlocks) (s : State) : Prop where
  represents : Represents pool s.buddy (freeUnits pool s.live)
  separate : Separate pool s.live

section LiveSlices

variable {pool : BuddyBlocks} {live : List Live} {entry : Live} {k i u : ℕ}

theorem covers_block : Covers pool (pool.block k i) u ↔ u ∈ dyadic k i := by
  have shape : i * (BUDDY_UNIT * 2 ^ k) = i * 2 ^ k * BUDDY_UNIT := by ring
  have width : (i + 1) * 2 ^ k = i * 2 ^ k + 2 ^ k := by ring
  rw [mem_dyadic_iff, Covers, BuddyBlocks.block, shape, width]
  simp only [BUDDY_UNIT]
  omega

theorem IsBlock.covers (isBlock : IsBlock pool entry k i) : Covers pool entry.slice u ↔ u ∈ dyadic k i := by
  rw [isBlock.1, covers_block]

theorem Apart.symm {first second : Live} (apart : Apart pool first second) : Apart pool second first :=
  fun u left right => apart u right left

theorem Separate.tail (separate : Separate pool (entry :: live)) : Separate pool live :=
  ⟨fun other member => separate.blocks other (.tail _ member), separate.apart.of_cons⟩

theorem Separate.perm {other : List Live} (separate : Separate pool live) (same : live.Perm other) :
    Separate pool other :=
  ⟨fun entry member => separate.blocks entry (same.mem_iff.mpr member),
    (same.pairwise_iff Apart.symm).mp separate.apart⟩

private theorem freeUnits_cons (isBlock : IsBlock pool entry k i) :
    freeUnits pool (entry :: live) = freeUnits pool live \ dyadic k i := by
  ext u
  simp only [freeUnits, Set.mem_ofPred_eq, Set.mem_sdiff, List.forall_mem_cons, isBlock.covers]
  tauto

private theorem freeUnits_congr {other : List Live}
    (same : ∀ slice, slice ∈ live.map (·.slice) ↔ slice ∈ other.map (·.slice)) :
    freeUnits pool live = freeUnits pool other := by
  have expand (book : List Live) (u : ℕ) : (∀ entry ∈ book, ¬ Covers pool entry.slice u) ↔
      ∀ slice ∈ book.map (·.slice), ¬ Covers pool slice u := by simp
  ext u
  simp only [freeUnits, Set.mem_ofPred_eq, expand, same]

/-- The first of separate slices covers units that the others leave free. -/
private theorem Separate.subset_freeUnits (separate : Separate pool (entry :: live))
    (isBlock : IsBlock pool entry k i) :
    dyadic k i ⊆ freeUnits pool live := by
  intro u member
  refine ⟨subset_Iio_of_inside isBlock.2.1 member, fun other inside => ?_⟩
  exact (List.pairwise_cons.mp separate.apart).1 other inside u (isBlock.covers.mpr member)

theorem freeUnits_bounded : ∀ u ∈ freeUnits pool live, u < pool.units := fun _ member => member.1

/-- Every unit of the data area belongs to a live slice or is free. -/
private theorem Separate.sum_lengths (separate : Separate pool live) :
    (live.map (·.slice.length)).sum + BUDDY_UNIT * (freeUnits pool live).ncard = BUDDY_UNIT * pool.units := by
  induction live with
  | nil =>
    have whole : freeUnits pool [] = Set.Iio pool.units := by
      ext u
      simp [freeUnits]
    rw [whole, Set.ncard_Iio_nat, List.map_nil, List.sum_nil, Nat.zero_add]
  | cons entry live ih =>
    obtain ⟨k, i, isBlock⟩ := separate.blocks entry (.head _)
    have rest := ih separate.tail
    have taken := ncard_taken freeUnits_bounded (separate.subset_freeUnits isBlock)
    have length : entry.slice.length = BUDDY_UNIT * 2 ^ k := by rw [isBlock.1, BuddyBlocks.block]
    rw [← taken, Nat.mul_add] at rest
    rw [freeUnits_cons isBlock, List.map_cons, List.sum_cons, length]
    omega

/-- A covered unit belongs to exactly one live slice. -/
private theorem Separate.countP_eq (separate : Separate pool live) (u : ℕ) :
    live.countP (fun entry => Covers pool entry.slice u) =
      if ∀ entry ∈ live, ¬ Covers pool entry.slice u then 0 else 1 := by
  induction live with
  | nil => simp
  | cons entry live ih =>
    have rest := ih separate.tail
    have apart := (List.pairwise_cons.mp separate.apart).1
    rw [List.countP_cons, rest]
    by_cases own : Covers pool entry.slice u
    · have others : ∀ other ∈ live, ¬ Covers pool other.slice u :=
        fun other member => apart other member u own
      rw [if_pos others, if_pos (decide_eq_true own), if_neg fun none => none entry (.head _) own]
    · simp [own]

/-- The names of a live slice lie inside it and round up to its level. -/
theorem Names.bounds (compact : Compact pool) (isBlock : IsBlock pool entry k i) {addr len : ℕ}
    (names : Names entry addr len) : len ≠ 0 ∧ entry.slice.ptr ≤ addr ∧
      addr + len ≤ entry.slice.ptr + entry.slice.length ∧ IsFit (roundedExtent addr len) k := by
  obtain ⟨slice, inside, positive, fit⟩ := isBlock
  have length : entry.slice.length = BUDDY_UNIT * 2 ^ k := by rw [slice, BuddyBlocks.block]
  have page : 0 < 2 ^ k := Nat.two_pow_pos k
  have aligned : entry.slice.ptr % BUDDY_UNIT = 0 := by
    have start : pool.dataAddr % BUDDY_UNIT = 0 := compact.aligned
    rw [slice, BuddyBlocks.block, show i * (BUDDY_UNIT * 2 ^ k) = BUDDY_UNIT * (i * 2 ^ k) by ring]
    dsimp only
    rw [Nat.add_mul_mod_self_left, start]
  have extent (len : ℕ) : roundedExtent entry.slice.ptr len = szdivCeil len BUDDY_UNIT * BUDDY_UNIT := by
    have own := szdivCeil_bounds len (y := BUDDY_UNIT) (by decide)
    have shifted := uptrdivCeil_bounds (entry.slice.ptr + len) (y := BUDDY_UNIT) (by decide)
    rw [roundedExtent]
    simp only [BUDDY_UNIT] at *
    omega
  cases names with
  | requested =>
    have covers := fit.covers
    refine ⟨by omega, le_rfl, by omega, ?_⟩
    rw [extent]
    exact fit.round
  | returned =>
    refine ⟨by simp only [BUDDY_UNIT] at *; omega, le_rfl, le_rfl, ?_⟩
    rw [extent, length]
    refine IsFit.round ⟨le_rfl, fun j lt => ?_⟩
    exact Nat.mul_lt_mul_of_pos_left (Nat.pow_lt_pow_right (by decide) lt) (by decide)
  | @part _ _ l nonempty lower upper same fits =>
    have level : l = k := by
      have powers : 2 ^ l = 2 ^ k := Nat.eq_of_mul_eq_mul_left (by decide) (same.symm.trans length)
      exact Nat.pow_right_injective (le_refl 2) powers
    subst level
    exact ⟨by omega, lower, upper, fits⟩

/-- Blocks without common units are disjoint ranges of addresses. -/
private theorem IsBlock.apart {first second : Live} {l j : ℕ} (isFirst : IsBlock pool first k i)
    (isSecond : IsBlock pool second l j) (apart : Apart pool first second) :
    first.slice.ptr + first.slice.length ≤ second.slice.ptr ∨
      second.slice.ptr + second.slice.length ≤ first.slice.ptr := by
  have firstShape : i * (BUDDY_UNIT * 2 ^ k) = i * 2 ^ k * BUDDY_UNIT := by ring
  have secondShape : j * (BUDDY_UNIT * 2 ^ l) = j * 2 ^ l * BUDDY_UNIT := by ring
  have firstEnd : (i + 1) * 2 ^ k = i * 2 ^ k + 2 ^ k := by ring
  have secondEnd : (j + 1) * 2 ^ l = j * 2 ^ l + 2 ^ l := by ring
  have left : i * 2 ^ k ∉ dyadic l j := fun member =>
    apart _ (isFirst.covers.mpr first_mem) (isSecond.covers.mpr member)
  have right : j * 2 ^ l ∉ dyadic k i := fun member =>
    apart _ (isFirst.covers.mpr member) (isSecond.covers.mpr first_mem)
  rw [mem_dyadic_iff] at left right
  rw [isFirst.1, isSecond.1, BuddyBlocks.block, BuddyBlocks.block]
  simp only [BUDDY_UNIT] at *
  omega

end LiveSlices

/-! ## Steps and runs -/

section Runs

variable {pool : BuddyBlocks} {s t : State}

/-- A free block that is handed out becomes a live slice. -/
theorem Consistent.take {buddy after : BuddyBlocks} {live : List Live} {entry : Live} {k i : ℕ}
    (consistent : Consistent pool ⟨buddy, live⟩) (isBlock : IsBlock pool entry k i)
    (free : dyadic k i ⊆ freeUnits pool live)
    (represents : Represents pool after (freeUnits pool live \ dyadic k i)) :
    Consistent pool ⟨after, entry :: live⟩ := by
  refine ⟨?_, ?_, ?_⟩
  · rw [freeUnits_cons isBlock]
    exact represents
  · rintro other (_ | ⟨_, member⟩)
    · exact ⟨k, i, isBlock⟩
    · exact consistent.separate.blocks other member
  · refine List.pairwise_cons.mpr ⟨fun other member u own shared => ?_, consistent.separate.apart⟩
    exact (free (isBlock.covers.mp own)).2 other member shared

theorem Consistent.perm {buddy : BuddyBlocks} {live other : List Live} (consistent : Consistent pool ⟨buddy, live⟩)
    (same : live.Perm other) : Consistent pool ⟨buddy, other⟩ := by
  refine ⟨?_, consistent.separate.perm same⟩
  have represents := consistent.represents
  rwa [freeUnits_congr fun slice => (same.map _).mem_iff] at represents

/-- A live slice that is given back leaves the others. -/
theorem Consistent.give {buddy after : BuddyBlocks} {live : List Live} {entry : Live} {k i : ℕ}
    (consistent : Consistent pool ⟨buddy, entry :: live⟩) (isBlock : IsBlock pool entry k i)
    (represents : Represents pool after (freeUnits pool (entry :: live) ∪ dyadic k i)) :
    Consistent pool ⟨after, live⟩ := by
  refine ⟨?_, consistent.separate.tail⟩
  rwa [freeUnits_cons isBlock,
    Set.sdiff_union_of_subset (consistent.separate.subset_freeUnits isBlock)] at represents

theorem disjoint_freeUnits {live : List Live} {entry : Live} {k i : ℕ} (isBlock : IsBlock pool entry k i) :
    Disjoint (dyadic k i) (freeUnits pool (entry :: live)) := by
  rw [freeUnits_cons isBlock]
  exact Set.disjoint_sdiff_right

/-- Every call of a respectful client returns and keeps the books. -/
private theorem Consistent.step (layout : Layout pool) (small : pool.totalLen ≤ 2 ^ 31)
    (consistent : Consistent pool s)
    {e : Event} (enabled : Enabled s e) : ∃ t, exec s e = .ok t ∧ Consistent pool t := by
  have represents := consistent.represents
  cases e with
  | alloc len =>
    obtain ⟨positive, bound⟩ := enabled
    rw [represents.shown.same] at bound
    obtain ⟨k, fit⟩ := exists_fit len
    rcases buddyAllocSlice_spec layout.toCompact represents positive (bound.trans small) fit with
      ⟨i, after, ran, inside, afterRepresents⟩ | ⟨ran, _⟩
    · have dataArea : (i + 1) * 2 ^ k ≤ pool.units := (Nat.le_div_iff_mul_le (Nat.two_pow_pos k)).mp
        (dyadic_subset_Iio_iff.mp (inside.trans freeUnits_bounded))
      have isBlock : IsBlock pool ⟨pool.block k i, len⟩ k i := ⟨rfl, dataArea, positive, fit⟩
      have address : (pool.block k i).ptr ≠ 0 := by
        have := layout.offset
        simp only [BuddyBlocks.block, BuddyBlocks.dataAddr]
        omega
      refine ⟨⟨after, ⟨pool.block k i, len⟩ :: s.live⟩, ?_, consistent.take isBlock inside afterRepresents⟩
      rw [exec, ran, Except.ok_bind]
      dsimp only
      rw [if_neg address]
      rfl
    · refine ⟨s, ?_, consistent⟩
      rw [exec, ran]
      rfl
  | dealloc entry addr len =>
    obtain ⟨member, names⟩ := enabled
    have ordered := consistent.perm (List.perm_cons_erase member)
    obtain ⟨k, i, isBlock⟩ := consistent.separate.blocks entry member
    obtain ⟨positive, lower, upper, fit⟩ := names.bounds layout.toCompact isBlock
    rw [isBlock.1] at lower upper
    obtain ⟨after, ran, afterRepresents⟩ := buddyDealloc_spec layout ordered.represents
      (disjoint_freeUnits isBlock) isBlock.2.1 positive lower upper fit
    refine ⟨⟨after, s.live.erase entry⟩, ?_, ordered.give isBlock afterRepresents⟩
    rw [exec, ran]
    rfl

private theorem Consistent.next (layout : Layout pool) (small : pool.totalLen ≤ 2 ^ 31)
    (consistent : Consistent pool s)
    {e : Event} (step : Guarded Enabled exec s e t) : Consistent pool t := by
  obtain ⟨reached, ran, after⟩ := consistent.step layout small step.1
  obtain rfl := Except.ok.inj (ran.symm.trans step.2)
  exact after

variable {memory : Memory} {bitmaps : ℕ → BlockBitmap} {region : PoolRegion} {es fs : List Event}

/-- The books hold after every run, and the pool's description is that of initialisation. -/
theorem Reaches.consistent (accepted : buddyInit memory bitmaps region.startAddr region.totalLen = .ok pool)
    (run : Reaches pool es s) : Layout pool ∧ pool.totalLen ≤ 2 ^ 31 ∧ Consistent pool s := by
  obtain ⟨layout, shown, used, _, total⟩ := buddyInit_ok accepted region.alignedStart region.alignedLen
    region.small region.bounded
  have small : pool.totalLen ≤ 2 ^ 31 := total ▸ region.small
  have whole : freeUnits pool [] = Set.Iio pool.units := by
    ext u
    simp [freeUnits]
  refine ⟨layout, small, Run.invariant run ⟨?_, ?_, ?_⟩ fun _ _ _ consistent step =>
    consistent.next layout small step⟩
  · rw [whole]
    refine ⟨shown, fun _ member => member, ?_⟩
    rw [used, Set.ncard_Iio_nat, Nat.zero_add]
  · exact fun _ member => (List.not_mem_nil member).elim
  · exact .nil

/-! ## Coverage -/

/-- Every unit lies in exactly one live slice or one free block. -/
private theorem Consistent.coverings_eq (layout : Layout pool) (consistent : Consistent pool s) {u : ℕ}
    (unit : u < pool.units) : coverings pool s u = 1 := by
  obtain ⟨represents, separate⟩ := consistent
  have capacity : ∀ v ∈ freeUnits pool s.live, v < 2 ^ pool.bitmapsLen := fun v member =>
    (represents.bounded v member).trans layout.lt_two_pow
  have bit (k : ℕ) (level : k < pool.bitmapsLen) :
      u / 2 ^ k < 8 * bitsLen pool.units k ∧ s.buddy.levelBit k (u / 2 ^ k) = true ↔
        Maximal (freeUnits pool s.live) k (u / 2 ^ k) := by
    constructor
    · rintro ⟨bound, set⟩
      exact (represents.shown.bit k _ ⟨level, by omega⟩).mp set
    · intro maximal
      have range := layout.inRange (maximal.lt_of_bounded represents.bounded)
      have bound := range.2
      exact ⟨by omega, (represents.shown.bit k _ range).mpr maximal⟩
  rw [coverings, separate.countP_eq]
  split_ifs with free
  · have member : u ∈ freeUnits pool s.live := ⟨unit, free⟩
    obtain ⟨k, _, maximal⟩ := exists_maximal capacity member
    have level := (layout.inRange (maximal.lt_of_bounded represents.bounded)).1
    rw [Nat.zero_add, Finset.card_eq_one]
    refine ⟨k, Finset.ext fun l => ?_⟩
    rw [Finset.mem_filter, Finset.mem_range, Finset.mem_singleton]
    constructor
    · rintro ⟨other, set⟩
      exact (((bit l other).mp set).unique maximal rfl rfl).1
    · rintro rfl
      exact ⟨level, (bit l level).mpr maximal⟩
  · rw [Nat.add_eq_left, Finset.card_eq_zero, Finset.filter_eq_empty_iff]
    intro k level set
    have maximal := (bit k (Finset.mem_range.mp level)).mp set
    exact free (maximal.1 rfl).2

/-- In every state reached, coverage is exact, no bit beyond a level's length is set, the counters
agree, every further call returns, and the live slices are separate aligned blocks. -/
theorem buddy_run_invariant (accepted : buddyInit memory bitmaps region.startAddr region.totalLen = .ok pool)
    (run : Reaches pool es s) :
    (∀ u < pool.units, coverings pool s u = 1) ∧
    (∀ k < pool.bitmapsLen, ∀ i, pool.units / 2 ^ k ≤ i → i < 8 * bitsLen pool.units k →
      s.buddy.levelBit k i = false) ∧
    (∀ k < pool.bitmapsLen, (s.buddy.bitmaps k).count = s.buddy.levelCount k) ∧
    s.buddy.used = (s.live.map (·.slice.length)).sum ∧
    (∀ e, Enabled s e → ∃ t, exec s e = .ok t) ∧
    s.live.Pairwise (fun first second => first.slice.ptr + first.slice.length ≤ second.slice.ptr ∨
      second.slice.ptr + second.slice.length ≤ first.slice.ptr) ∧
    ∀ entry ∈ s.live, pool.dataAddr ≤ entry.slice.ptr ∧
      entry.slice.ptr + entry.slice.length ≤ pool.startAddr + pool.totalLen ∧
      (∃ k, entry.slice.length = BUDDY_UNIT * 2 ^ k) ∧ entry.requested ≤ entry.slice.length ∧
      (entry.slice.ptr - pool.dataAddr) % entry.slice.length = 0 := by
  obtain ⟨layout, small, consistent⟩ := Reaches.consistent accepted run
  have total := layout.total
  have shown := consistent.represents.shown
  refine ⟨fun u unit => consistent.coverings_eq layout unit, ?_, shown.count, ?_, ?_, ?_, ?_⟩
  · intro k level i beyond bytes
    rw [← Bool.not_eq_true, shown.bit k i ⟨level, by omega⟩]
    intro maximal
    have inside := maximal.lt_of_bounded freeUnits_bounded
    rw [← Nat.le_div_iff_mul_le (Nat.two_pow_pos k)] at inside
    omega
  · have balance := consistent.represents.used
    have lengths := consistent.separate.sum_lengths
    omega
  · intro e enabled
    obtain ⟨t, ran, _⟩ := consistent.step layout small enabled
    exact ⟨t, ran⟩
  · refine consistent.separate.apart.imp_of_mem fun {first second} left right apart => ?_
    obtain ⟨k, i, isFirst⟩ := consistent.separate.blocks first left
    obtain ⟨l, j, isSecond⟩ := consistent.separate.blocks second right
    exact isFirst.apart isSecond apart
  · intro entry member
    obtain ⟨k, i, slice, inside, _, fit⟩ := consistent.separate.blocks entry member
    have bytes := block_bytes inside
    have dataAddr : pool.dataAddr = pool.startAddr + pool.dataOffset := rfl
    rw [slice, BuddyBlocks.block]
    dsimp only
    refine ⟨by omega, by omega, ⟨k, rfl⟩, fit.covers, ?_⟩
    rw [Nat.add_sub_cancel_left, Nat.mul_mod_left]

/-- A region of three pages: one for the metadata and two units. -/
def smallRegion : PoolRegion := ⟨65536, 12288, rfl, rfl, by decide, by decide⟩

def smallSlice : Live := ⟨⟨69632, 4096⟩, 4000⟩

/-- Both units are taken, and the first is given back. -/
def smallCalls : List Event := [.alloc 4000, .alloc 4096, .dealloc smallSlice 69632 4000]

private theorem small_run : ∃ pool s,
    buddyInit (fun _ => 0) (fun _ => ⟨0, 0⟩) smallRegion.startAddr smallRegion.totalLen = .ok pool ∧
      Reaches pool smallCalls s ∧ s.live = [⟨⟨73728, 4096⟩, 4096⟩] := by
  have computed : (do
      let pool ← buddyInit (fun _ => 0) (fun _ => ⟨0, 0⟩) smallRegion.startAddr smallRegion.totalLen
      let one ← exec ⟨pool, []⟩ (.alloc 4000)
      let two ← exec one (.alloc 4096)
      let three ← exec two (.dealloc smallSlice 69632 4000)
      return (pool.totalLen, one.buddy.totalLen, two.live, three.live) : Result _) =
        .ok (12288, 12288, [⟨⟨73728, 4096⟩, 4096⟩, smallSlice], [⟨⟨73728, 4096⟩, 4096⟩]) := by
    decide +kernel
  obtain ⟨pool, accepted, computed⟩ := Except.bind_ok_iff.mp computed
  obtain ⟨one, ranOne, computed⟩ := Except.bind_ok_iff.mp computed
  obtain ⟨two, ranTwo, computed⟩ := Except.bind_ok_iff.mp computed
  obtain ⟨three, ranThree, found⟩ := Except.bind_ok_iff.mp computed
  rw [Except.pure_ok_iff, Prod.mk.injEq, Prod.mk.injEq, Prod.mk.injEq] at found
  obtain ⟨total, same, live, rest⟩ := found
  have first : Enabled ⟨pool, []⟩ (.alloc 4000) := ⟨by decide, total ▸ by decide⟩
  have second : Enabled one (.alloc 4096) := ⟨by decide, same ▸ by decide⟩
  have given : Enabled two (.dealloc smallSlice 69632 4000) := by
    refine ⟨?_, .requested⟩
    rw [live]
    exact .tail _ (.head _)
  exact ⟨pool, three, accepted, ((Run.single ⟨first, ranOne⟩).snoc ⟨second, ranTwo⟩).snoc ⟨given, ranThree⟩, rest⟩

theorem buddy_run_invariant_small : ∃ pool s, Reaches pool smallCalls s ∧
    s.live = [⟨⟨73728, 4096⟩, 4096⟩] ∧ (∀ u < pool.units, coverings pool s u = 1) ∧ s.buddy.used = 4096 := by
  obtain ⟨pool, s, accepted, run, live⟩ := small_run
  obtain ⟨covered, _, _, used, _⟩ := buddy_run_invariant accepted run
  refine ⟨pool, s, run, live, covered, ?_⟩
  rw [used, live]
  rfl

/-! ## Answers -/

/-- In every state reached the allocator answers null exactly when no aligned run of the fitting
level is free of live slices, and then it changes nothing. -/
theorem alloc_null_iff (accepted : buddyInit memory bitmaps region.startAddr region.totalLen = .ok pool)
    (run : Reaches pool es s) {len k : ℕ} (positive : 1 ≤ len) (bound : len ≤ region.totalLen) (fit : IsFit len k) :
    ∃ slice after, buddyAllocSlice s.buddy len = .ok (slice, after) ∧
      (slice = ⟨0, 0⟩ ↔ ¬ ∃ i, (i + 1) * 2 ^ k ≤ pool.units ∧
        ∀ u, i * 2 ^ k ≤ u → u < (i + 1) * 2 ^ k → ∀ entry ∈ s.live, ¬ Covers pool entry.slice u) ∧
      (slice = ⟨0, 0⟩ → after = s.buddy) := by
  obtain ⟨layout, _, consistent⟩ := Reaches.consistent accepted run
  have freeBlock (i : ℕ) : dyadic k i ⊆ freeUnits pool s.live ↔ (i + 1) * 2 ^ k ≤ pool.units ∧
      ∀ u, i * 2 ^ k ≤ u → u < (i + 1) * 2 ^ k → ∀ entry ∈ s.live, ¬ Covers pool entry.slice u := by
    rw [← Nat.le_div_iff_mul_le (Nat.two_pow_pos k)]
    constructor
    · intro inside
      refine ⟨dyadic_subset_Iio_iff.mp (inside.trans freeUnits_bounded), fun u lower upper => ?_⟩
      exact (inside (mem_dyadic_iff.mpr ⟨lower, upper⟩)).2
    · rintro ⟨units, free⟩ u member
      obtain ⟨lower, upper⟩ := mem_dyadic_iff.mp member
      exact ⟨dyadic_subset_Iio_iff.mpr units member, free u lower upper⟩
  simp only [← freeBlock]
  rcases buddyAllocSlice_spec layout.toCompact consistent.represents positive (bound.trans region.small) fit with
    ⟨i, after, ran, inside, _⟩ | ⟨ran, none⟩
  · have address : pool.block k i ≠ ⟨0, 0⟩ := by
      intro null
      have length := congrArg Slice.length null
      have := Nat.two_pow_pos k
      simp only [BuddyBlocks.block, BUDDY_UNIT] at length
      omega
    exact ⟨_, after, ran, iff_of_false address (not_not.mpr ⟨i, inside⟩), fun null => (address null).elim⟩
  · exact ⟨_, s.buddy, ran, iff_of_true rfl (not_exists.mpr none), fun _ => rfl⟩

theorem alloc_null_iff_small : ∃ pool s, Reaches pool smallCalls s ∧
    ∃ slice after, buddyAllocSlice s.buddy 4096 = .ok (slice, after) ∧
      (slice = ⟨0, 0⟩ ↔ ¬ ∃ i, (i + 1) * 2 ^ 0 ≤ pool.units ∧
        ∀ u, i * 2 ^ 0 ≤ u → u < (i + 1) * 2 ^ 0 → ∀ entry ∈ s.live, ¬ Covers pool entry.slice u) ∧
      (slice = ⟨0, 0⟩ → after = s.buddy) := by
  obtain ⟨pool, s, accepted, run, _⟩ := small_run
  have fit : IsFit 4096 0 := ⟨by decide, fun j lt => absurd lt (Nat.not_lt_zero j)⟩
  exact ⟨pool, s, run, alloc_null_iff accepted run (by decide) (by decide) fit⟩

/-! ## The live slices determine the pool -/

private theorem Consistent.unique (first : Consistent pool s) (second : Consistent pool t)
    (same : ∀ slice, slice ∈ s.live.map (·.slice) ↔ slice ∈ t.live.map (·.slice)) : s.buddy = t.buddy := by
  have represents := first.represents
  rw [freeUnits_congr same] at represents
  exact represents.unique second.represents

/-- The release of one live slice, named in one of the allowed ways. -/
def releases (named : List (Live × ℕ × ℕ)) : List Event :=
  named.map fun entry => .dealloc entry.1 entry.2.1 entry.2.2

private theorem live_releases {named : List (Live × ℕ × ℕ)} (run : Run (Guarded Enabled exec) s (releases named) t) :
    t.live = s.live.diff (named.map Prod.fst) := by
  generalize labels : releases named = es at run
  induction run generalizing named with
  | nil =>
    obtain rfl := List.map_eq_nil_iff.mp labels
    rfl
  | snoc _ last ih =>
    obtain ⟨earlier, final, rfl, front, back⟩ := List.map_eq_append_iff.mp labels
    obtain ⟨entry, rest, rfl, rfl, none⟩ := List.map_eq_cons_iff.mp back
    obtain rfl := List.map_eq_nil_iff.mp none
    have ran := last.2
    simp only [exec, Except.bind_ok_iff, Except.pure_ok_iff] at ran
    obtain ⟨buddy, _, rfl⟩ := ran
    rw [List.map_append, List.diff_append, ← ih front]
    simp [List.diff_cons]

/-- Runs with the same live slices end in the same pool, byte for byte: taking a slice and giving it
back changes nothing, the order of releases does not matter, and an empty pool is the fresh one. -/
theorem buddy_determined (accepted : buddyInit memory bitmaps region.startAddr region.totalLen = .ok pool)
    (run : Reaches pool es s) :
    (∀ fs t, Reaches pool fs t → (∀ slice, slice ∈ s.live.map (·.slice) ↔ slice ∈ t.live.map (·.slice)) →
      s.buddy = t.buddy) ∧
    (∀ len slice addr size buddy, Enabled s (.alloc len) → buddyAllocSlice s.buddy len = .ok (slice, buddy) →
      slice.ptr ≠ 0 → Names ⟨slice, len⟩ addr size → buddyDealloc buddy addr size = .ok s.buddy) ∧
    (∀ first second t u, Run (Guarded Enabled exec) s (releases first) t →
      Run (Guarded Enabled exec) s (releases second) u → (first.map Prod.fst).Perm (second.map Prod.fst) →
      t.buddy = u.buddy) ∧
    (s.live = [] → s.buddy = pool) := by
  obtain ⟨layout, small, consistent⟩ := Reaches.consistent accepted run
  have extend {es' : List Event} {t : State} (more : Run (Guarded Enabled exec) s es' t) :
      Consistent pool t :=
    (Reaches.consistent accepted (run.append more)).2.2
  refine ⟨fun fs t other same => ?_, ?_, ?_, fun empty => ?_⟩
  · exact consistent.unique (Reaches.consistent accepted other).2.2 same
  · intro len slice addr size buddy enabled allocated address names
    have taken : Guarded Enabled exec s (.alloc len) ⟨buddy, ⟨slice, len⟩ :: s.live⟩ := by
      refine ⟨enabled, ?_⟩
      rw [exec, allocated, Except.ok_bind]
      dsimp only
      rw [if_neg address]
      rfl
    have given : Enabled ⟨buddy, ⟨slice, len⟩ :: s.live⟩ (.dealloc ⟨slice, len⟩ addr size) := ⟨.head _, names⟩
    obtain ⟨t, ran, _⟩ := (extend (.single taken)).step layout small given
    have reached := extend ((Run.single taken).snoc ⟨given, ran⟩)
    simp only [exec, List.erase_cons_head, Except.bind_ok_iff, Except.pure_ok_iff] at ran
    obtain ⟨after, released, rfl⟩ := ran
    rw [released]
    exact congrArg Except.ok (reached.unique consistent fun _ => Iff.rfl)
  · intro first second t u left right same
    refine (extend left).unique (extend right) fun slice => ?_
    rw [live_releases left, live_releases right, same.diff_left]
  · have fresh : Consistent pool ⟨pool, []⟩ := (Reaches.consistent accepted .nil).2.2
    exact consistent.unique fresh fun slice => by rw [empty]

theorem buddy_determined_small : ∃ pool s, Reaches pool smallCalls s ∧
    (∀ fs t, Reaches pool fs t → t.live.map (·.slice) = [⟨73728, 4096⟩] → t.buddy = s.buddy) ∧
    ∃ t, Reaches pool [] t ∧ t.buddy = pool := by
  obtain ⟨pool, s, accepted, run, live⟩ := small_run
  refine ⟨pool, s, run, fun fs t other same => ?_, ⟨pool, []⟩, .nil,
    (buddy_determined accepted .nil).2.2.2 rfl⟩
  refine ((buddy_determined accepted run).1 fs t other fun slice => ?_).symm
  rw [live, same]
  rfl

end Runs

end RubberOS.Soundness.BuddyRuns
