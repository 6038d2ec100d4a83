import RubberOS.Model.Freec

/-! # The buddy allocator of libbuddy

The definitions follow `buddy.c` function by function. The pool's metadata is kept as the source
keeps it: one `block_bitmap` record for each level, holding a byte address and a population count,
and the bitmap bytes themselves in memory. `BUDDY_UNIT << k` is an `int` expression in
`buddy_alloc_slice` and `buddy_dealloc` and a `size_t` expression in `bitmap_index_for_size`.
-/

namespace RubberOS.Model.Buddy

def BUDDY_UNIT : ℕ := 4096

/-- `sizeof(struct block_bitmap)`. -/
def blockBitmapSize : ℕ := 16

/-- `struct slice`; a null pointer is zero. -/
structure Slice where
  ptr : ℕ
  length : ℕ
deriving DecidableEq, Repr

/-- `struct block_bitmap`, with `bits` the address of the first byte. -/
structure BlockBitmap where
  bits : ℕ
  count : ℕ
deriving DecidableEq, Repr

/-- `struct buddy_blocks` with the memory it describes: `bitmaps` is the array at `start_addr`. -/
structure BuddyBlocks where
  startAddr : ℕ
  totalLen : ℕ
  metadataLen : ℕ
  dataOffset : ℕ
  units : ℕ
  levels : ℕ
  used : ℕ
  bitmaps : ℕ → BlockBitmap
  bitmapsLen : ℕ
  memory : Memory

/-! ## Initialisation -/

/-- What `buddy_info_calc_metadata` decides. -/
structure MetadataInfo where
  metadataLen : ℕ
  units : ℕ
  levels : ℕ
deriving DecidableEq, Repr

/-- The `while (1)` loop over the levels; both counters are `uint32_t`. -/
def calcLevels : ℕ → ℕ → ℕ → ℕ → Result (ℕ × ℕ)
  | 0, _, _, _ => .error .nonterminating
  | fuel + 1, levels, bits, blockCount =>
    let levels := u32 (levels + 1)
    let bits := u32 (bits + ((blockCount - 1) / 8 + 1))
    if blockCount = 1 then .ok (levels, bits)
    else calcLevels fuel levels bits (blockCount / 2)

def buddyInfoCalcMetadata (dataLen : ℕ) : Result MetadataInfo := do
  assert (dataLen > BUDDY_UNIT) "data_len > 4096"
  let units := (dataLen - 1) / BUDDY_UNIT + 1
  let (levels, bits) ← calcLevels 64 0 0 units
  let metadataLen := u64 (levels * blockBitmapSize + bits)
  assert (metadataLen < dataLen) "metadata_len < data_len"
  return { metadataLen, units, levels }

/-- `buddy_info_init`: the metadata description and `data_offset`. -/
def buddyInfoInit (totalLen : ℕ) : Result (MetadataInfo × ℕ) := do
  let first ← buddyInfoCalcMetadata totalLen
  let dataOffset := u64 (szdivCeil first.metadataLen BUDDY_UNIT * BUDDY_UNIT)
  let info ← buddyInfoCalcMetadata (sub64 totalLen dataOffset)
  assert (info.metadataLen < dataOffset) "buddy->metadata_len < data_offset"
  return (info, dataOffset)

/-- The bitmaps under construction, with the running `bits_idx` and `idx`. -/
structure InitState where
  bitsIdx : ℕ
  idx : ℕ
  bitmaps : ℕ → BlockBitmap
  memory : Memory

/-- The `do`-`while` loop of `buddy_init`: an odd level starts with its last block free. -/
def initLevels (totalBits : ℕ) : ℕ → ℕ → InitState → Result InitState
  | 0, _, _ => .error .nonterminating
  | fuel + 1, blockCount, st =>
    let bitsLen := (blockCount - 1) / 8 + 1
    let odd := blockCount % 2 ≠ 0
    let memory := if odd then
        Function.update st.memory (totalBits + (st.bitsIdx + bitsLen - 1)) (1#8 <<< (blockCount % 8 - 1))
      else st.memory
    let count := if odd then 1 else 0
    let st : InitState :=
      { bitsIdx := st.bitsIdx + bitsLen
        idx := st.idx + 1
        bitmaps := Function.update st.bitmaps st.idx { bits := totalBits + st.bitsIdx, count }
        memory }
    if blockCount / 2 ≠ 0 then initLevels totalBits fuel (blockCount / 2) st else .ok st

/-- `buddy_init` on a pool whose memory, bitmap records included, holds anything. -/
def buddyInit (memory : Memory) (bitmaps : ℕ → BlockBitmap) (startAddr totalLen : ℕ) :
    Result BuddyBlocks := do
  let (info, dataOffset) ← buddyInfoInit totalLen
  let bitmapsLen := info.levels
  let bitmapsBytes := bitmapsLen * blockBitmapSize
  let totalBitsLen := info.metadataLen - bitmapsBytes
  let totalBits := startAddr + bitmapsBytes
  let st ← initLevels totalBits 64 info.units
    { bitsIdx := 0, idx := 0, bitmaps, memory := memset memory totalBits 0 totalBitsLen }
  assert (st.bitsIdx = totalBitsLen) "bits_idx == total_bits_len"
  assert (st.idx = bitmapsLen) "idx == bitmaps_len"
  return { startAddr, totalLen, metadataLen := info.metadataLen, dataOffset, units := info.units,
           levels := info.levels, used := 0, bitmaps := st.bitmaps, bitmapsLen, memory := st.memory }

/-! ## Bitmaps -/

/-- The search loop of `bitmap_index_for_size` from `idx`. -/
def bitmapIndexFrom (size : ℕ) : ℕ → ℕ → Result ℕ
  | 0, _ => .error .shiftOutOfRange
  | fuel + 1, idx => do
    let length ← sizeShl BUDDY_UNIT idx
    if length < size then bitmapIndexFrom size fuel (idx + 1) else return idx

def bitmapIndexForSize (size : ℕ) : Result ℕ := bitmapIndexFrom size 65 0

def isEmpty (bitmap : BlockBitmap) : Bool := bitmap.count = 0

def getBit (memory : Memory) (bitmap : BlockBitmap) (blockIndex : ℕ) : Bool :=
  memory (bitmap.bits + blockIndex / 8) &&& (1#8 <<< (blockIndex % 8)) ≠ 0#8

/-- `get_bit` on the bitmap of one level. -/
def BuddyBlocks.levelBit (buddy : BuddyBlocks) (level blockIndex : ℕ) : Bool :=
  getBit buddy.memory (buddy.bitmaps level) blockIndex

/-- `set_1` on the bitmap of one level. -/
def set1 (buddy : BuddyBlocks) (level blockIndex : ℕ) : BuddyBlocks :=
  let bitmap := buddy.bitmaps level
  let prev := getBit buddy.memory bitmap blockIndex
  let address := bitmap.bits + blockIndex / 8
  let memory := Function.update buddy.memory address (buddy.memory address ||| 1#8 <<< (blockIndex % 8))
  let count := if !prev then u64 (bitmap.count + 1) else bitmap.count
  { buddy with memory, bitmaps := Function.update buddy.bitmaps level { bitmap with count } }

/-- `set_0` on the bitmap of one level. -/
def set0 (buddy : BuddyBlocks) (level blockIndex : ℕ) : BuddyBlocks :=
  let bitmap := buddy.bitmaps level
  let prev := getBit buddy.memory bitmap blockIndex
  let address := bitmap.bits + blockIndex / 8
  let memory := Function.update buddy.memory address (buddy.memory address &&& ~~~(1#8 <<< (blockIndex % 8)))
  let count := if prev then sub64 bitmap.count 1 else bitmap.count
  { buddy with memory, bitmaps := Function.update buddy.bitmaps level { bitmap with count } }

/-- The byte scan of `get_first_1`. The source gives it no bound: the count kept with the bitmap
says that a set bit exists. Running past the metadata is an access outside the pool's bitmaps. -/
def firstByte (memory : Memory) (bits : ℕ) : ℕ → ℕ → Result ℕ
  | 0, _ => .error .outOfBounds
  | fuel + 1, bitsIdx =>
    if memory (bits + bitsIdx) = 0#8 then firstByte memory bits fuel (bitsIdx + 1) else .ok bitsIdx

/-- The bit scan of `get_first_1`, with the remaining offsets as counter. -/
def firstOffset (byte : BitVec 8) : ℕ → ℕ → ℕ
  | 0, offset => offset
  | fuel + 1, offset =>
    if byte &&& (1#8 <<< offset) = 0#8 then firstOffset byte fuel (offset + 1) else offset

def getFirst1 (memory : Memory) (bitmap : BlockBitmap) (metadataLen : ℕ) : Result ℕ := do
  assert (!isEmpty bitmap) "!is_empty(bitmap)"
  let bitsIdx ← firstByte memory bitmap.bits metadataLen 0
  let offset := firstOffset (memory (bitmap.bits + bitsIdx)) 8 0
  assert (offset < 8) "offset < 8"
  return bitsIdx * 8 + offset

/-! ## Allocation and release -/

/-- `for (size_t below = bitmap_idx; below-- > bitmap_idx_fit; )`: the right halves become free. -/
def splitDown (fit : ℕ) : ℕ → ℕ → BuddyBlocks → BuddyBlocks
  | 0, _, buddy => buddy
  | below + 1, belowBlockIndex, buddy =>
    if below + 1 > fit then
      splitDown fit below (belowBlockIndex * 2) (set1 buddy below (belowBlockIndex * 2 + 1))
    else buddy

/-- The level loop of `buddy_alloc_slice`, with the remaining levels as counter. -/
def allocLevels (buddy : BuddyBlocks) (fit : ℕ) : ℕ → ℕ → Result (Slice × BuddyBlocks)
  | 0, _ => .ok (⟨0, 0⟩, buddy)
  | rest + 1, bitmapIdx =>
    if isEmpty (buddy.bitmaps bitmapIdx) then allocLevels buddy fit rest (bitmapIdx + 1)
    else do
      let blockIndex ← getFirst1 buddy.memory (buddy.bitmaps bitmapIdx) buddy.metadataLen
      let buddy := splitDown fit bitmapIdx blockIndex (set0 buddy bitmapIdx blockIndex)
      -- the `int` shift is stored in a `uint32_t`
      let allocatedLen := (← intShl BUDDY_UNIT fit).toNat
      let dataAddr := u64 (buddy.startAddr + buddy.dataOffset)
      let blockLen := intToSize (← intShl BUDDY_UNIT bitmapIdx)
      return (⟨u64 (dataAddr + blockIndex * blockLen), allocatedLen⟩,
        { buddy with used := u64 (buddy.used + allocatedLen) })

def buddyAllocSlice (buddy : BuddyBlocks) (len : ℕ) : Result (Slice × BuddyBlocks) := do
  assert (len ≠ 0) "len != 0"
  let alignedLen := u64 (szdivCeil len BUDDY_UNIT * BUDDY_UNIT)
  let bitmapIdxFit ← bitmapIndexForSize alignedLen
  if bitmapIdxFit ≥ buddy.bitmapsLen then
    -- requested memory is too large
    return (⟨0, 0⟩, buddy)
  allocLevels buddy bitmapIdxFit (buddy.bitmapsLen - bitmapIdxFit) bitmapIdxFit

/-- The `while (1)` loop of `buddy_dealloc`, with the remaining levels as counter. -/
def mergeUp : ℕ → ℕ → ℕ → BuddyBlocks → Result BuddyBlocks
  | 0, _, _, _ => .error .outOfBounds
  | rest + 1, current, blockIndex, buddy => do
    assert (!buddy.levelBit current blockIndex) "!get_bit(bitmap, block_index)"
    let buddy := set1 buddy current blockIndex
    let buddyIndex := blockIndex ^^^ 1
    if !buddy.levelBit current buddyIndex then return buddy
    if current + 1 ≥ buddy.bitmapsLen then return buddy
    mergeUp rest (current + 1) (blockIndex / 2) (set0 (set0 buddy current buddyIndex) current blockIndex)

def buddyDealloc (buddy : BuddyBlocks) (addr len : ℕ) : Result BuddyBlocks := do
  if len = 0 then return buddy
  let dataAddr := u64 (buddy.startAddr + buddy.dataOffset)
  let dataLen := sub64 buddy.totalLen buddy.dataOffset
  let alignedAddr := addr / BUDDY_UNIT * BUDDY_UNIT
  let alignedEnd := u64 (uptrdivCeil (u64 (addr + len)) BUDDY_UNIT * BUDDY_UNIT)
  let alignedLen := sub64 alignedEnd alignedAddr
  assert (dataAddr ≤ alignedAddr ∧ alignedAddr < u64 (dataAddr + dataLen))
    "data_addr <= aligned_addr && aligned_addr < data_addr + data_len"
  assert (dataAddr < alignedEnd ∧ alignedEnd ≤ u64 (dataAddr + dataLen))
    "data_addr < aligned_end && aligned_end <= data_addr + data_len"
  let bitmapIdxFit ← bitmapIndexForSize alignedLen
  assert (bitmapIdxFit < buddy.bitmapsLen) "bitmap_idx_fit < bitmaps_len"
  let blockLen := intToSize (← intShl BUDDY_UNIT bitmapIdxFit)
  let blockIndex ← sizeDiv (sub64 alignedAddr dataAddr) blockLen
  let buddy ← mergeUp (buddy.bitmapsLen - bitmapIdxFit) bitmapIdxFit blockIndex buddy
  return { buddy with used := sub64 buddy.used blockLen }

/-! ## Parts of the two functions

The search of `buddy_alloc_slice` ends at one level, and `buddy_dealloc` settles on one block before its loop. Both
are named here, with the equations that put the functions together from them.
-/

/-- The level at which the loop of `buddy_alloc_slice` finds a free block, with the remaining levels as counter. -/
def firstLevel (buddy : BuddyBlocks) : ℕ → ℕ → Option ℕ
  | 0, _ => none
  | rest + 1, bitmapIdx =>
    if isEmpty (buddy.bitmaps bitmapIdx) then firstLevel buddy rest (bitmapIdx + 1) else some bitmapIdx

/-- The rest of the loop's body at that level. -/
def takeFrom (buddy : BuddyBlocks) (fit bitmapIdx : ℕ) : Result (Slice × BuddyBlocks) := do
  let blockIndex ← getFirst1 buddy.memory (buddy.bitmaps bitmapIdx) buddy.metadataLen
  let buddy := splitDown fit bitmapIdx blockIndex (set0 buddy bitmapIdx blockIndex)
  let allocatedLen := (← intShl BUDDY_UNIT fit).toNat
  let dataAddr := u64 (buddy.startAddr + buddy.dataOffset)
  let blockLen := intToSize (← intShl BUDDY_UNIT bitmapIdx)
  return (⟨u64 (dataAddr + blockIndex * blockLen), allocatedLen⟩,
    { buddy with used := u64 (buddy.used + allocatedLen) })

theorem allocLevels_eq (buddy : BuddyBlocks) (fit rest bitmapIdx : ℕ) : allocLevels buddy fit rest bitmapIdx =
    match firstLevel buddy rest bitmapIdx with
    | none => .ok (⟨0, 0⟩, buddy)
    | some level => takeFrom buddy fit level := by
  induction rest generalizing bitmapIdx with
  | zero => rfl
  | succ rest ih =>
    rw [allocLevels, firstLevel]
    split_ifs
    · exact ih (bitmapIdx + 1)
    · rfl

/-- Where `buddy_alloc_slice` finds its block: the wanted level, and the level and index it takes. -/
structure Found where
  bitmapIdxFit : ℕ
  bitmapIdx : ℕ
  blockIndex : ℕ
deriving DecidableEq, Repr

/-- `buddy_alloc_slice` up to `get_first_1`. -/
def foundBlock (buddy : BuddyBlocks) (len : ℕ) : Result (Option Found) := do
  let alignedLen := u64 (szdivCeil len BUDDY_UNIT * BUDDY_UNIT)
  let bitmapIdxFit ← bitmapIndexForSize alignedLen
  if bitmapIdxFit ≥ buddy.bitmapsLen then return none
  match firstLevel buddy (buddy.bitmapsLen - bitmapIdxFit) bitmapIdxFit with
  | none => return none
  | some bitmapIdx => do
    let blockIndex ← getFirst1 buddy.memory (buddy.bitmaps bitmapIdx) buddy.metadataLen
    return some { bitmapIdxFit, bitmapIdx, blockIndex }

theorem buddyAllocSlice_eq (buddy : BuddyBlocks) {len : ℕ} (positive : len ≠ 0) :
    buddyAllocSlice buddy len = (do
      let fit ← bitmapIndexForSize (u64 (szdivCeil len BUDDY_UNIT * BUDDY_UNIT))
      if fit ≥ buddy.bitmapsLen then return (⟨0, 0⟩, buddy)
      match firstLevel buddy (buddy.bitmapsLen - fit) fit with
      | none => return (⟨0, 0⟩, buddy)
      | some level => takeFrom buddy fit level) := by
  rw [buddyAllocSlice, assert_of (decide_eq_true positive), Except.ok_bind]
  simp only [allocLevels_eq]
  rfl

/-- The block that `buddy_dealloc` gives back, with the `size_t` value of `BUDDY_UNIT << bitmap_idx_fit`. -/
structure Selection where
  bitmapIdxFit : ℕ
  blockLen : ℕ
  blockIndex : ℕ
deriving DecidableEq, Repr

/-- `buddy_dealloc` from its first local variable up to its loop. -/
def selectedBlock (buddy : BuddyBlocks) (addr len : ℕ) : Result Selection := do
  let dataAddr := u64 (buddy.startAddr + buddy.dataOffset)
  let dataLen := sub64 buddy.totalLen buddy.dataOffset
  let alignedAddr := addr / BUDDY_UNIT * BUDDY_UNIT
  let alignedEnd := u64 (uptrdivCeil (u64 (addr + len)) BUDDY_UNIT * BUDDY_UNIT)
  let alignedLen := sub64 alignedEnd alignedAddr
  assert (dataAddr ≤ alignedAddr ∧ alignedAddr < u64 (dataAddr + dataLen))
    "data_addr <= aligned_addr && aligned_addr < data_addr + data_len"
  assert (dataAddr < alignedEnd ∧ alignedEnd ≤ u64 (dataAddr + dataLen))
    "data_addr < aligned_end && aligned_end <= data_addr + data_len"
  let bitmapIdxFit ← bitmapIndexForSize alignedLen
  assert (bitmapIdxFit < buddy.bitmapsLen) "bitmap_idx_fit < bitmaps_len"
  let blockLen := intToSize (← intShl BUDDY_UNIT bitmapIdxFit)
  let blockIndex ← sizeDiv (sub64 alignedAddr dataAddr) blockLen
  return { bitmapIdxFit, blockLen, blockIndex }

theorem buddyDealloc_eq (buddy : BuddyBlocks) (addr : ℕ) {len : ℕ} (positive : len ≠ 0) :
    buddyDealloc buddy addr len = do
      let block ← selectedBlock buddy addr len
      let buddy ← mergeUp (buddy.bitmapsLen - block.bitmapIdxFit) block.bitmapIdxFit block.blockIndex buddy
      return { buddy with used := sub64 buddy.used block.blockLen } := by
  rw [buddyDealloc, if_neg positive, selectedBlock]
  simp only [bind_assoc, pure_bind]

end RubberOS.Model.Buddy
