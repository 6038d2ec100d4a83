import RubberOS.Proofs.BuddyCalls
import RubberOS.Soundness.BuddyMetadata
import RubberOS.Soundness.BuddyRuns

/-! # The lengths of large blocks
 The length of a block is `BUDDY_UNIT << k`, an `int`, which is then stored in 32 bits or widened to 64. Below two
gibibytes every level's length is exact, and so are addresses, indices and the counter of used bytes, whatever
lengths are asked for. A level of two gibibytes already makes the length negative. -/

namespace RubberOS.Soundness.BuddyArithmetic

open Model Model.Buddy Dyadic LabelledRuns BuddyRuns

/-- A slice in use, with the level and the index of the block it was taken as. -/
structure Taken extends Live where
  level : ℕ
  blockIndex : ℕ
deriving DecidableEq

structure State where
  buddy : BuddyBlocks
  live : List Taken

inductive Event where
  | alloc (len : ℕ)
  | dealloc (entry : Taken) (addr len : ℕ)

/-- Any length may be asked for, and live slices are released by an allowed name. -/
def Enabled (s : State) : Event → Prop
  | .alloc len => 1 ≤ len ∧ len < 2 ^ 64
  | .dealloc entry addr len => entry ∈ s.live ∧ Names entry.toLive addr len

/-- One call. The index at the wanted level is that of the found block, doubled at each level it is split at. -/
def exec (s : State) : Event → Result State
  | .alloc len => do
    let found ← foundBlock s.buddy len
    let (slice, buddy) ← buddyAllocSlice s.buddy len
    match found with
    | none => return { s with buddy }
    | some found =>
      let blockIndex := found.blockIndex * 2 ^ (found.bitmapIdx - found.bitmapIdxFit)
      return { buddy, live := ⟨⟨slice, len⟩, found.bitmapIdxFit, blockIndex⟩ :: s.live }
  | .dealloc entry addr len => do
    let buddy ← buddyDealloc s.buddy addr len
    return { buddy, live := s.live.erase entry }

/-- A finite run of calls from a fresh pool. -/
abbrev Reaches (pool : BuddyBlocks) : List Event → State → Prop := Run (Guarded Enabled exec) ⟨pool, []⟩

/-- The numbers of the next call are those of the mathematical integers: the address and the length of the block
that an allocation finds, the index and the length of the block that a release selects, and the change of `used`.
-/
structure Exact (pool : BuddyBlocks) (s : State) : Prop where
  taken : ∀ len found, 1 ≤ len → len < 2 ^ 64 → foundBlock s.buddy len = .ok (some found) → ∃ after,
    buddyAllocSlice s.buddy len = .ok (⟨pool.dataAddr + found.blockIndex * (BUDDY_UNIT * 2 ^ found.bitmapIdx),
      BUDDY_UNIT * 2 ^ found.bitmapIdxFit⟩, after) ∧
    after.used = s.buddy.used + BUDDY_UNIT * 2 ^ found.bitmapIdxFit
  given : ∀ entry ∈ s.live, ∀ addr len block, Names entry.toLive addr len →
    selectedBlock s.buddy addr len = .ok block →
    block = ⟨entry.level, BUDDY_UNIT * 2 ^ entry.level, entry.blockIndex⟩ ∧
    entry.slice.ptr = pool.dataAddr + entry.blockIndex * (BUDDY_UNIT * 2 ^ entry.level) ∧
    ∃ after, buddyDealloc s.buddy addr len = .ok after ∧
      after.used + BUDDY_UNIT * 2 ^ entry.level = s.buddy.used

/-! ## Live slices -/

/-- A live slice is the block that it was taken as. A request whose rounding wraps has got one unit. -/
structure IsTaken (pool : BuddyBlocks) (entry : Taken) : Prop where
  slice : entry.slice = pool.block entry.level entry.blockIndex
  inside : (entry.blockIndex + 1) * 2 ^ entry.level ≤ pool.units
  positive : 1 ≤ entry.requested
  bound : entry.requested < 2 ^ 64
  fit : IsFit entry.requested entry.level ∨ entry.level = 0 ∧ 2 ^ 64 < entry.requested + BUDDY_UNIT

/-- The slice with its own length as the request. -/
def Taken.booked (entry : Taken) : Live := ⟨entry.slice, entry.slice.length⟩

def book (live : List Taken) : List Live := live.map Taken.booked

/-- The bitmaps describe the units outside the live slices, each of which is the block it was taken as. -/
structure Books (pool : BuddyBlocks) (s : State) : Prop where
  consistent : Consistent pool ⟨s.buddy, book s.live⟩
  taken : ∀ entry ∈ s.live, IsTaken pool entry

section LiveSlices

variable {pool buddy : BuddyBlocks} {entry : Taken} {addr len : ℕ} {block : Selection}

private theorem isFit_length (k : ℕ) : IsFit (BUDDY_UNIT * 2 ^ k) k :=
  ⟨le_rfl, fun _ lt => Nat.mul_lt_mul_of_pos_left (Nat.pow_lt_pow_right (by decide) lt) (by decide)⟩

private theorem IsTaken.isBlock (taken : IsTaken pool entry) :
    IsBlock pool entry.booked entry.level entry.blockIndex := by
  refine ⟨taken.slice, taken.inside, ?_, ?_⟩ <;> rw [Taken.booked, taken.slice, BuddyBlocks.block]
  · exact Nat.mul_pos (by decide) (Nat.two_pow_pos _)
  · exact isFit_length _

/-- A name of a live slice that is not the wrapped request lies in it and rounds up to it. -/
private theorem IsTaken.bounds (compact : Compact pool) (taken : IsTaken pool entry)
    (names : Names entry.toLive addr len) :
    (len ≠ 0 ∧ entry.slice.ptr ≤ addr ∧ addr + len ≤ entry.slice.ptr + entry.slice.length ∧
      IsFit (roundedExtent addr len) entry.level) ∨
    (entry.level = 0 ∧ addr = entry.slice.ptr ∧ len = entry.requested ∧ 2 ^ 64 < len + BUDDY_UNIT) := by
  rcases taken.fit with fit | ⟨level, wrapped⟩
  · exact .inl (names.bounds compact ⟨taken.slice, taken.inside, taken.positive, fit⟩)
  · cases names with
    | requested => exact .inr ⟨level, rfl, rfl, wrapped⟩
    | returned =>
      have names : Names entry.booked entry.slice.ptr entry.slice.length := .returned
      exact .inl (names.bounds compact taken.isBlock)
    | part nonempty lower upper same fit =>
      have names : Names entry.booked addr len := .part nonempty lower upper same fit
      exact .inl (names.bounds compact taken.isBlock)

/-- The end of a request that wraps rounds up to the start of its unit. -/
private theorem wrapped_end {ptr : ℕ} (page : ptr % BUDDY_UNIT = 0) (positive : BUDDY_UNIT ≤ ptr) (short : ptr < 2 ^ 64)
    (bound : len < 2 ^ 64) (wrapped : 2 ^ 64 < len + BUDDY_UNIT) :
    uptrdivCeil (u64 (ptr + len)) BUDDY_UNIT * BUDDY_UNIT = ptr := by
  have ceiling := uptrdivCeil_bounds (u64 (ptr + len)) (y := BUDDY_UNIT) (by decide)
  unfold BUDDY_UNIT at *
  have wrap : u64 (ptr + len) + 2 ^ 64 = ptr + len := by
    unfold u64
    omega
  omega

/-- Every name of a live slice that selects a block at all selects the block it was taken as. -/
private theorem IsTaken.selected (compact : Compact pool) (describes : Describes pool buddy)
    (taken : IsTaken pool entry)
    (names : Names entry.toLive addr len) (ran : selectedBlock buddy addr len = .ok block) :
    len ≠ 0 ∧ block = ⟨entry.level, BUDDY_UNIT * 2 ^ entry.level, entry.blockIndex⟩ := by
  have selected := describes.selected_iff.mp (selectedBlock_ok_iff.mp ran)
  rcases taken.bounds compact names with ⟨nonzero, lower, upper, fit⟩ | ⟨level, rfl, rfl, wrapped⟩
  · rw [taken.slice] at lower upper
    exact ⟨nonzero, selected.eq_block compact taken.inside nonzero lower upper fit⟩
  · -- the end wraps to less than a page in front of the unit, and rounds up to its start
    have bytes := block_bytes taken.inside
    have bound := taken.bound
    have bounded := compact.bounded
    have tight := compact.tight
    have offset := compact.offset
    have multiple := compact.multiple
    have aligned : pool.dataAddr % BUDDY_UNIT = 0 := compact.aligned
    have dataAddr : pool.dataAddr = pool.startAddr + pool.dataOffset := rfl
    have ptr : entry.slice.ptr = pool.dataAddr + entry.blockIndex * (BUDDY_UNIT * 2 ^ entry.level) := by
      rw [taken.slice, BuddyBlocks.block]
    have fit := selected.fit
    rw [level, pow_zero, Nat.mul_one] at ptr bytes
    have short : entry.slice.ptr < 2 ^ 64 := by omega
    have page : entry.slice.ptr % BUDDY_UNIT = 0 := by rw [ptr, Nat.add_mul_mod_self_right, aligned]
    have start : entry.slice.ptr / BUDDY_UNIT * BUDDY_UNIT = entry.slice.ptr :=
      Nat.div_mul_cancel (Nat.dvd_of_mod_eq_zero page)
    have stop := wrapped_end page (by unfold BUDDY_UNIT at *; omega) short bound wrapped
    rw [stop, start, u64_of_lt short, sub64_of_le le_rfl short, Nat.sub_self] at fit
    have lowest : block.bitmapIdxFit = entry.level := by
      rw [level]
      exact Nat.le_zero.mp (fit.le_of_covers (Nat.zero_le _))
    refine ⟨by have := taken.positive; omega, selected.eq_of_level compact lowest ?_ ?_⟩
    · rw [start, level, pow_zero, Nat.mul_one]
      omega
    · rw [start, level, pow_zero, Nat.mul_one]
      simp only [BUDDY_UNIT] at *
      omega

end LiveSlices

/-! ## Steps and runs -/

section Runs

variable {pool : BuddyBlocks} {s t : State} {e : Event} {entry : Taken} {addr len : ℕ}

/-- The release of a live slice by an allowed name, if it selects a block at all, gives back that slice. -/
private theorem Books.release (compact : Compact pool) (books : Books pool s) (member : entry ∈ s.live)
    (names : Names entry.toLive addr len) {block : Selection}
    (selected : selectedBlock s.buddy addr len = .ok block) :
    len ≠ 0 ∧ block = ⟨entry.level, BUDDY_UNIT * 2 ^ entry.level, entry.blockIndex⟩ ∧
      ∃ after, buddyDealloc s.buddy addr len = .ok after ∧
        Consistent pool ⟨after, book (s.live.erase entry)⟩ ∧
        after.used + BUDDY_UNIT * 2 ^ entry.level = s.buddy.used := by
  have taken := books.taken entry member
  have isBlock := taken.isBlock
  have ordered := books.consistent.perm ((List.perm_cons_erase member).map Taken.booked)
  have shown := ordered.represents.shown
  obtain ⟨nonzero, rfl⟩ := taken.selected compact ⟨shown.same, shown.bits⟩ names selected
  obtain ⟨after, ran, represents, used⟩ := release_spec compact.toPlaced ordered.represents
    (disjoint_freeUnits isBlock) taken.inside nonzero selected
  exact ⟨nonzero, rfl, after, ran, ordered.give isBlock represents, used⟩

private theorem Books.next (compact : Compact pool) (books : Books pool s) (step : Guarded Enabled exec s e t) :
    Books pool t := by
  obtain ⟨enabled, ran⟩ := step
  have represents := books.consistent.represents
  cases e with
  | alloc len =>
    obtain ⟨positive, bound⟩ := enabled
    simp only [exec, Except.bind_ok_iff] at ran
    obtain ⟨found, search, ⟨slice, buddy⟩, allocated, ran⟩ := ran
    cases found with
    | none =>
      cases (buddyAllocSlice_of_none (by omega) search).symm.trans allocated
      cases ran
      exact books
    | some found =>
      obtain ⟨fit, le, free, after, answer, afterRepresents, _⟩ :=
        buddyAllocSlice_of_some compact represents (by omega) search
      cases answer.symm.trans allocated
      cases ran
      have dataArea := (Nat.le_div_iff_mul_le (Nat.two_pow_pos _)).mp
        (dyadic_subset_Iio_iff.mp (free.trans freeUnits_bounded))
      have taken : IsTaken pool ⟨⟨⟨pool.dataAddr + found.blockIndex * (BUDDY_UNIT * 2 ^ found.bitmapIdx),
          BUDDY_UNIT * 2 ^ found.bitmapIdxFit⟩, len⟩, found.bitmapIdxFit,
          found.blockIndex * 2 ^ (found.bitmapIdx - found.bitmapIdxFit)⟩ :=
        { slice := by rw [BuddyBlocks.block, block_first le]
          inside := dataArea
          positive := positive
          bound := bound
          fit := fit_or_wrapped bound fit }
      refine ⟨books.consistent.take taken.isBlock free afterRepresents, ?_⟩
      rintro entry (_ | ⟨_, member⟩)
      · exact taken
      · exact books.taken entry member
  | dealloc entry addr len =>
    obtain ⟨member, names⟩ := enabled
    simp only [exec, Except.bind_ok_iff, Except.pure_ok_iff] at ran
    obtain ⟨buddy, released, rfl⟩ := ran
    have nonzero : len ≠ 0 := by
      rcases (books.taken entry member).bounds compact names with ⟨nonzero, _⟩ | ⟨_, _, rfl, wrapped⟩
      · exact nonzero
      · unfold BUDDY_UNIT at wrapped
        omega
    obtain ⟨block, selected⟩ : ∃ block, selectedBlock s.buddy addr len = .ok block := by
      rw [buddyDealloc_eq _ _ nonzero] at released
      simp only [Except.bind_ok_iff] at released
      obtain ⟨block, selected, _⟩ := released
      exact ⟨block, selected⟩
    obtain ⟨_, _, after, ran, consistent, _⟩ := books.release compact member names selected
    cases ran.symm.trans released
    exact ⟨consistent, fun other rest => books.taken other (List.mem_of_mem_erase rest)⟩

/-- The books determine the numbers of every call. -/
private theorem Books.exact (compact : Compact pool) (books : Books pool s) : Exact pool s where
  taken len found positive _ search := by
    obtain ⟨_, _, _, after, ran, _, used⟩ :=
      buddyAllocSlice_of_some compact books.consistent.represents (by omega) search
    exact ⟨after, ran, used⟩
  given entry member addr len block names selected := by
    obtain ⟨_, same, after, ran, _, used⟩ := books.release compact member names selected
    refine ⟨same, ?_, after, ran, used⟩
    rw [(books.taken entry member).slice, BuddyBlocks.block]

variable {memory : Memory} {bitmaps : ℕ → BlockBitmap} {startAddr totalLen : ℕ} {es : List Event}

/-- An aligned pool below two gibibytes computes every number of every call exactly. -/
private theorem exact_of_small (accepted : buddyInit memory bitmaps startAddr totalLen = .ok pool)
    (bounded : startAddr + totalLen < 2 ^ 64) (aligned : startAddr % BUDDY_UNIT = 0) (small : pool.units < 2 ^ 19)
    (run : Reaches pool es s) : Exact pool s := by
  obtain ⟨placed, shown, used, start, total⟩ := buddyInit_placed accepted (by omega)
  have multiple := placed.multiple
  have compact : Compact pool :=
    { placed with
      small
      aligned := by rw [start, Nat.add_mod, aligned, multiple, Nat.zero_mod]
      bounded := by rw [start, total]; exact bounded }
  have whole : freeUnits pool [] = Set.Iio pool.units := by
    ext u
    simp [freeUnits]
  have fresh : Books pool ⟨pool, []⟩ := by
    refine ⟨⟨?_, fun _ member => (List.not_mem_nil member).elim, .nil⟩,
      fun _ member => (List.not_mem_nil member).elim⟩
    change Represents pool pool (freeUnits pool [])
    rw [whole]
    refine ⟨shown, fun _ member => member, ?_⟩
    rw [used, Set.ncard_Iio_nat, Nat.zero_add]
  exact (Run.invariant run fresh fun _ _ _ books step => books.next compact step).exact compact

/-! ## Two gibibytes -/

/-- More than one gibibyte needs a block of two. -/
private theorem fit_large : IsFit (2 ^ 30 + BUDDY_UNIT) 19 := ⟨by decide, by decide⟩

/-- A fresh pool of two gibibytes finds a block for the request. -/
private theorem found_large (placed : Placed pool) (shown : Shows pool pool (Maximal (Set.Iio pool.units)))
    (large : 2 ^ 19 ≤ pool.units) : ∃ l i, 19 ≤ l ∧ (i + 1) * 2 ^ l ≤ pool.units ∧
      foundBlock pool (2 ^ 30 + 1) = .ok (some ⟨19, l, i⟩) := by
  have top : 19 ≤ Nat.log2 pool.units := (Nat.le_log2 placed.nonempty).mpr large
  have levels := placed.levels
  have searched : bitmapIndexForSize (u64 (szdivCeil (2 ^ 30 + 1) BUDDY_UNIT * BUDDY_UNIT)) = .ok 19 :=
    bitmapIndexForSize_eq fit_large (by decide)
  cases first : firstLevel pool (pool.bitmapsLen - 19) 19 with
  | none =>
    -- the largest block of the data area is free
    have whole : pool.units / 2 ^ Nat.log2 pool.units = 1 := by
      have lower := Nat.log2_self_le placed.nonempty
      have upper := Nat.lt_log2_self (n := pool.units)
      rw [pow_succ] at upper
      exact Nat.div_eq_of_lt_le (by omega) (by omega)
    have maximal : Maximal (Set.Iio pool.units) (Nat.log2 pool.units) 0 :=
      maximal_Iio_iff.mpr ⟨by rw [whole], by rw [whole]⟩
    have range := placed.inRange (maximal.lt_of_bounded fun _ member => member)
    exact (shown.none_of_isEmpty range (firstLevel_none first top (by omega)) maximal).elim
  | some l =>
    obtain ⟨ge, lt, some, _⟩ := firstLevel_some first
    obtain ⟨i, found, _, maximal⟩ := getFirst1_ok placed shown (by omega) some
    refine ⟨l, i, ge, maximal.lt_of_bounded fun _ member => member, ?_⟩
    rw [foundBlock, searched, Except.ok_bind, if_neg (by omega), first]
    dsimp only
    rw [found]
    rfl

private theorem end_large {ptr : ℕ} (page : ptr % BUDDY_UNIT = 0) :
    uptrdivCeil (ptr + (2 ^ 30 + 1)) BUDDY_UNIT * BUDDY_UNIT = ptr + (2 ^ 30 + BUDDY_UNIT) := by
  have ceiling := uptrdivCeil_bounds (ptr + (2 ^ 30 + 1)) (y := BUDDY_UNIT) (by decide)
  unfold BUDDY_UNIT at *
  omega

/-- The release of such a request, wherever its block is, selects a block with the negative length. -/
private theorem selected_large {buddy : BuddyBlocks} {l i ptr : ℕ} (placed : Placed pool)
    (bounded : pool.startAddr + pool.totalLen < 2 ^ 64) (aligned : pool.dataAddr % BUDDY_UNIT = 0)
    (inside : (i + 1) * 2 ^ l ≤ pool.units) (ge : 19 ≤ l) (address : pool.dataAddr + i * (BUDDY_UNIT * 2 ^ l) = ptr)
    (describes : Describes pool buddy) :
    ∃ blockIndex, selectedBlock buddy ptr (2 ^ 30 + 1) = .ok ⟨19, 18446744071562067968, blockIndex⟩ := by
  have bytes := block_bytes inside
  have tight := placed.tight
  have dataAddr : pool.dataAddr = pool.startAddr + pool.dataOffset := rfl
  have half : BUDDY_UNIT * 2 ^ 19 ≤ BUDDY_UNIT * 2 ^ l := Nat.mul_le_mul_left _ (Nat.pow_le_pow_right (by decide) ge)
  have page : ptr % BUDDY_UNIT = 0 := by
    rw [← address, show i * (BUDDY_UNIT * 2 ^ l) = BUDDY_UNIT * (i * 2 ^ l) by ring,
      Nat.add_mul_mod_self_left, aligned]
  have start : ptr / BUDDY_UNIT * BUDDY_UNIT = ptr := Nat.div_mul_cancel (Nat.dvd_of_mod_eq_zero page)
  have levels : 19 < pool.bitmapsLen := (placed.inRange inside).1.trans_le' ge
  have dataStart := placed.dataStart bounded
  have dataEnd := placed.dataEnd bounded
  have room : ptr + (2 ^ 30 + BUDDY_UNIT) ≤ pool.startAddr + pool.totalLen := by
    unfold BUDDY_UNIT at *
    omega
  have alignedEnd : u64 (uptrdivCeil (u64 (ptr + (2 ^ 30 + 1))) BUDDY_UNIT * BUDDY_UNIT) =
      ptr + (2 ^ 30 + BUDDY_UNIT) := by
    have short : u64 (ptr + (2 ^ 30 + 1)) = ptr + (2 ^ 30 + 1) := u64_of_lt (by unfold BUDDY_UNIT at room; omega)
    rw [short, end_large page, u64_of_lt (by omega)]
  have negative : intToSize (BitVec.ofNat 32 BUDDY_UNIT <<< 19) = 18446744071562067968 := by decide
  refine ⟨sub64 (ptr / BUDDY_UNIT * BUDDY_UNIT) (u64 (pool.startAddr + pool.dataOffset)) / 18446744071562067968,
    selectedBlock_ok_iff.mpr (describes.selected_iff.mpr
      ⟨?_, ?_, ?_, ?_, ?_, levels, ⟨_, rfl, negative.symm⟩, Nat.succ_ne_zero _, rfl⟩)⟩
  · rw [dataStart, start]
    omega
  · rw [dataStart, dataEnd, start]
    omega
  · rw [dataStart, alignedEnd]
    omega
  · rw [dataStart, dataEnd, alignedEnd]
    exact room
  · rw [start, alignedEnd, sub64_of_le (by omega) (by omega), Nat.add_sub_cancel_left]
    exact fit_large

/-- With two gibibytes of data, the release of a block of that length computes a wrong length. -/
private theorem inexact_of_large (accepted : buddyInit memory bitmaps startAddr totalLen = .ok pool)
    (bounded : startAddr + totalLen < 2 ^ 64) (aligned : startAddr % BUDDY_UNIT = 0) (large : 2 ^ 19 ≤ pool.units) :
    ¬Exact pool ⟨pool, []⟩ ∨ ∃ s, Reaches pool [.alloc (2 ^ 30 + 1)] s ∧ ¬Exact pool s := by
  refine Classical.or_iff_not_imp_left.mpr fun fresh => ?_
  obtain ⟨placed, shown, _, start, total⟩ := buddyInit_placed accepted (by omega)
  obtain ⟨l, i, ge, inside, search⟩ := found_large placed shown large
  obtain ⟨after, ran, _⟩ := (not_not.mp fresh).taken _ _ (by decide) (by decide) search
  obtain ⟨ptr, address⟩ : ∃ ptr, pool.dataAddr + i * (BUDDY_UNIT * 2 ^ l) = ptr := ⟨_, rfl⟩
  dsimp only at ran
  rw [address] at ran
  obtain ⟨entry, given⟩ : ∃ entry : Taken,
      (⟨⟨⟨ptr, BUDDY_UNIT * 2 ^ 19⟩, 2 ^ 30 + 1⟩, 19, i * 2 ^ (l - 19)⟩ : Taken) = entry :=
    ⟨_, rfl⟩
  have step : exec ⟨pool, []⟩ (.alloc (2 ^ 30 + 1)) = .ok ⟨after, [entry]⟩ := by
    rw [exec, search, Except.ok_bind, ran, ← given]
    rfl
  have run : Reaches pool [.alloc (2 ^ 30 + 1)] ⟨after, [entry]⟩ := .single ⟨⟨by decide, by decide⟩, step⟩
  have dataStart : pool.dataAddr % BUDDY_UNIT = 0 := by
    rw [BuddyBlocks.dataAddr, start, Nat.add_mod, aligned, placed.multiple, Nat.zero_mod]
  obtain ⟨blockIndex, selected⟩ :=
    selected_large placed (by rw [start, total]; exact bounded) dataStart inside ge address
    ((Describes.refl pool).alloc ran)
  have names : Names entry.toLive ptr (2 ^ 30 + 1) := by
    rw [← given]
    exact .requested
  refine ⟨_, run, fun exact_ => ?_⟩
  obtain ⟨same, _⟩ := exact_.given entry (.head _) _ _ _ names selected
  have level : entry.level = 19 := by rw [← given]
  have length : 18446744071562067968 = BUDDY_UNIT * 2 ^ entry.level := congrArg Selection.blockLen same
  rw [level] at length
  exact absurd length (by decide)

/-- The numbers of every call are exact in all states that an aligned pool reaches if and only if its data area has
less than two gibibytes. -/
theorem exact_iff (accepted : buddyInit memory bitmaps startAddr totalLen = .ok pool)
    (bounded : startAddr + totalLen < 2 ^ 64) (aligned : startAddr % BUDDY_UNIT = 0) :
    (∀ es s, Reaches pool es s → Exact pool s) ↔ pool.units < 2 ^ 19 := by
  constructor
  · intro all
    by_contra large
    rcases inexact_of_large accepted bounded aligned (Nat.le_of_not_lt large) with inexact | ⟨s, run, inexact⟩
    · exact inexact (all [] _ .nil)
    · exact inexact (all _ s run)
  · intro small es s run
    exact exact_of_small accepted bounded aligned small run

/-- A region of three pages, which is far below two gibibytes. -/
theorem exact_iff_three_pages : ∃ pool, buddyInit (fun _ => 0) (fun _ => ⟨0, 0⟩) 65536 12288 = .ok pool ∧
    ((∀ es s, Reaches pool es s → Exact pool s) ↔ pool.units < 2 ^ 19) := by
  obtain ⟨pool, accepted, _⟩ :=
    BuddyMetadata.accepted_of_not_fillsPages (fun _ => 0) (fun _ => ⟨0, 0⟩) 65536
      (show 3 ≤ 3 by decide) (by decide) (by decide)
  exact ⟨pool, accepted, exact_iff accepted (by decide) (by decide)⟩

/-- A pool with two gibibytes of data is set up, and the first request for more than a gibibyte leads to wrong
numbers. -/
theorem inexact_two_gibibytes : ∃ pool,
    buddyInit (fun _ => 0) (fun _ => ⟨0, 0⟩) 0x100000 (524321 * BUDDY_UNIT) = .ok pool ∧ pool.units = 2 ^ 19 ∧
      (¬Exact pool ⟨pool, []⟩ ∨ ∃ s, Reaches pool [.alloc (2 ^ 30 + 1)] s ∧ ¬Exact pool s) := by
  obtain ⟨pool, accepted, units⟩ :=
    BuddyMetadata.accepted_of_not_fillsPages (fun _ => 0) (fun _ => ⟨0, 0⟩) 0x100000
      (show 3 ≤ 524321 by decide) (by decide)
      (by decide)
  have pages : BuddyMetadata.offsetPages 524321 = 33 := by decide +kernel
  rw [pages] at units
  exact ⟨pool, accepted, units, inexact_of_large accepted (by decide) (by decide) (by omega)⟩

end Runs

end RubberOS.Soundness.BuddyArithmetic
