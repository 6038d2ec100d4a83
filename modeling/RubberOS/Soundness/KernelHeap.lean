import RubberOS.Model.KernelMemory
import RubberOS.Proofs.DynmemPages
import RubberOS.Proofs.PageSupply
import RubberOS.Proofs.SlabFrames
import RubberOS.Soundness.BuddyRuns
import RubberOS.Soundness.SlabRuns
import RubberOS.ToMathlib.Shares

/-! # The clients of one pool

Slices, the pages of slabs and the pages of tables come from one buddy pool, whose bytes the clients
write as well. Each kind of client is treated against a set of units that others have in use: its
calls return, keep that set apart from its own units and write only where nobody else has anything.
-/

namespace RubberOS.Soundness.KernelHeap

open Model Model.Buddy Model.Dynmem Model.KernelMemory Model.MemoryMap Model.PageTable Model.Slab Dyadic
  BuddyRuns

/-! ## The pool and its bytes -/

/-- The bytes of the pool's bitmaps. -/
def Metadata (pool : BuddyBlocks) : Set ℕ :=
  {a | ∃ k < pool.bitmapsLen, ∃ c < bitsLen pool.units k, a = (pool.bitmaps k).bits + c}

/-- The bytes of a unit. -/
def unitBytes (pool : BuddyBlocks) (u : ℕ) : Set ℕ := Set.Ico (unitPage pool u) (unitPage pool u + PAGE_SIZE)

/-- The pool with other bytes outside its bitmaps, in which exactly these units are in use. -/
def Keeps (pool buddy : BuddyBlocks) (taken : Set ℕ) : Prop := Holds { pool with memory := buddy.memory } buddy taken

/-- The bytes outside the bitmaps are the same. -/
def Spares (pool before after : BuddyBlocks) : Prop := ∀ a, a ∉ Metadata pool → after.memory a = before.memory a

section Pool

variable {pool buddy after : BuddyBlocks} {taken : Set ℕ} {memory : Memory}

theorem withMemory_layout (layout : Layout pool) (memory : Memory) : Layout { pool with memory } where
  levels := layout.levels
  many := layout.many
  bits := layout.bits
  metadata := layout.metadata
  narrow := layout.narrow
  offset := layout.offset
  multiple := layout.multiple
  covers := layout.covers
  tight := layout.tight
  small := layout.small
  aligned := layout.aligned
  bounded := layout.bounded
  total := layout.total

/-- Bytes outside the bitmaps do not matter to the pool. -/
private theorem withMemory_holds {old : Memory} (holds : Holds { pool with memory := old } buddy taken)
    (same : ∀ a ∈ Metadata pool, memory a = buddy.memory a) :
    Holds { pool with memory } { buddy with memory } taken := by
  obtain ⟨⟨shown, bounded, used⟩, inside⟩ := holds
  have bit (k i : ℕ) (level : k < pool.bitmapsLen) (byte : i / 8 < bitsLen pool.units k) :
      BuddyBlocks.levelBit { buddy with memory } k i = buddy.levelBit k i := by
    rw [levelBit_eq, levelBit_eq, shown.bits]
    dsimp only
    rw [same _ ⟨k, level, i / 8, byte, rfl⟩]
  refine ⟨⟨⟨?_, shown.bits, shown.idle, fun _ _ => rfl, fun k i range => ?_, fun k level => ?_⟩, bounded, used⟩,
    inside⟩
  · rw [shown.same]
  · rw [bit k i range.1 range.2]
    exact shown.bit k i range
  · rw [shown.count k level, BuddyBlocks.levelCount, BuddyBlocks.levelCount]
    refine congrArg _ (Finset.filter_congr fun i inside => ?_)
    rw [Finset.mem_range, show buddy.units = pool.units from shown.units_eq] at inside
    rw [bit k i level (by omega)]

theorem Keeps.write (keeps : Keeps pool buddy taken) (same : ∀ a ∈ Metadata pool, memory a = buddy.memory a) :
    Keeps pool { buddy with memory } taken := withMemory_holds keeps same

/-- A call of the allocator writes its bitmaps only. -/
theorem keeps_of_holds (holds : Holds { pool with memory } after taken) :
    Keeps pool after taken ∧ ∀ a, a ∉ Metadata pool → after.memory a = memory a := by
  have same : ∀ a ∈ Metadata pool, after.memory a = after.memory a := fun _ _ => rfl
  refine ⟨withMemory_holds holds same, fun a outside => ?_⟩
  exact holds.represents.shown.frame a fun k level c byte same => outside ⟨k, level, c, byte, same⟩

/-- The bitmaps lie in front of all units. -/
private theorem metadata_lt (layout : Layout pool) {a : ℕ} (member : a ∈ Metadata pool) (u : ℕ) :
    a < unitPage pool u := by
  obtain ⟨k, level, c, byte, rfl⟩ := member
  have inside := bitsOffset_le pool.units level
  have metadata := layout.metadata
  have offset := layout.offset
  rw [layout.bits k level, unitPage, BuddyBlocks.dataAddr]
  omega

theorem unitBytes_not_metadata (layout : Layout pool) {u a : ℕ} (member : a ∈ unitBytes pool u) :
    a ∉ Metadata pool := by
  intro metadata
  have front := metadata_lt layout metadata u
  exact Nat.not_lt_of_le member.1 front

theorem unitBytes_disjoint {u v : ℕ} (other : u ≠ v) : Disjoint (unitBytes pool u) (unitBytes pool v) := by
  rw [Set.disjoint_left]
  intro a left right
  simp only [unitBytes, unitPage, PAGE_SIZE, Set.mem_Ico] at left right
  omega

end Pool

/-! ## Slices -/

/-- The units of the live slices. -/
def sliceUnits (pool : BuddyBlocks) (live : List Live) : Set ℕ := {u | ∃ entry ∈ live, Covers pool entry.slice u}

/-- The live slices are blocks of the pool, next to whatever others have in use. -/
structure SlicesOwned (pool : BuddyBlocks) (others : Set ℕ) (buddy : BuddyBlocks) (live : List Live) : Prop where
  separate : Separate pool live
  apart : Disjoint others (sliceUnits pool live)
  keeps : Keeps pool buddy (others ∪ sliceUnits pool live)

section Slices

variable {pool buddy : BuddyBlocks} {others : Set ℕ} {live : List Live} {entry : Live} {k i : ℕ}

private theorem sliceUnits_cons (isBlock : IsBlock pool entry k i) :
    sliceUnits pool (entry :: live) = sliceUnits pool live ∪ dyadic k i := by
  ext u
  simp only [sliceUnits, Set.mem_ofPred_eq, Set.mem_union, List.mem_cons, exists_eq_or_imp, isBlock.covers]
  exact or_comm

private theorem sliceUnits_perm {other : List Live} (same : live.Perm other) :
    sliceUnits pool live = sliceUnits pool other := by
  ext u
  exact exists_congr fun entry => and_congr_left fun _ => same.mem_iff

/-- The first slice shares no unit with the rest. -/
private theorem separate_disjoint (separate : Separate pool (entry :: live)) (isBlock : IsBlock pool entry k i) :
    Disjoint (sliceUnits pool live) (dyadic k i) := by
  rw [Set.disjoint_left]
  rintro u ⟨other, member, covered⟩ own
  exact (List.pairwise_cons.mp separate.apart).1 other member u (isBlock.covers.mpr own) covered

/-- `dynmem_alloc` answers null and changes nothing, or adds a slice. -/
theorem SlicesOwned.alloc (layout : Layout pool) (owned : SlicesOwned pool others buddy live) {len : ℕ}
    (positive : 1 ≤ len) (bound : len ≤ 2 ^ 31) : ∃ slice after, dynmemAlloc buddy len = .ok (slice, after) ∧
      Spares pool buddy after ∧ (slice = ⟨0, 0⟩ ∧ after = buddy ∨
        slice.ptr ≠ 0 ∧ (∃ k i, IsBlock pool ⟨slice, len⟩ k i) ∧
          SlicesOwned pool others after (⟨slice, len⟩ :: live)) := by
  have layout' := withMemory_layout layout buddy.memory
  obtain ⟨k, fit⟩ := exists_fit len
  rcases buddyAllocSlice_spec layout'.toCompact owned.keeps.represents positive bound fit with
    ⟨i, after, ran, inside, represents⟩ | ⟨ran, _⟩
  · have free := Set.subset_sdiff.mp inside
    have units : (i + 1) * 2 ^ k ≤ pool.units := (Nat.le_div_iff_mul_le (Nat.two_pow_pos k)).mp
      (dyadic_subset_Iio_iff.mp free.1)
    have isBlock : IsBlock pool ⟨pool.block k i, len⟩ k i := ⟨rfl, units, positive, fit⟩
    have address : (pool.block k i).ptr ≠ 0 := by
      have := layout.offset
      simp only [BuddyBlocks.block, BuddyBlocks.dataAddr]
      omega
    rw [Set.sdiff_sdiff] at represents
    obtain ⟨keeps, spares⟩ := keeps_of_holds ⟨represents, Set.union_subset owned.keeps.inside free.1⟩
    have fresh := Set.disjoint_union_right.mp free.2
    refine ⟨pool.block k i, after, ran, spares, .inr ⟨address, ⟨k, i, isBlock⟩, ?_, ?_, ?_⟩⟩
    · refine ⟨List.forall_mem_cons.mpr ⟨⟨k, i, isBlock⟩, owned.separate.blocks⟩, ?_⟩
      refine List.pairwise_cons.mpr ⟨fun other member u own shared => ?_, owned.separate.apart⟩
      exact Set.disjoint_left.mp fresh.2 (isBlock.covers.mp own) ⟨other, member, shared⟩
    · rw [sliceUnits_cons isBlock]
      exact Set.disjoint_union_right.mpr ⟨owned.apart, fresh.1.symm⟩
    · rw [sliceUnits_cons isBlock, ← Set.union_assoc]
      exact keeps
  · exact ⟨⟨0, 0⟩, buddy, ran, fun _ _ => rfl, .inl ⟨rfl, rfl⟩⟩

/-- `dynmem_dealloc` of a live slice, however it is named, gives back that slice. -/
theorem SlicesOwned.dealloc (layout : Layout pool) (owned : SlicesOwned pool others buddy live)
    (member : entry ∈ live) {addr len : ℕ} (names : Names entry addr len) :
    ∃ after, dynmemDealloc buddy addr len = .ok after ∧ Spares pool buddy after ∧
      SlicesOwned pool others after (live.erase entry) := by
  have layout' := withMemory_layout layout buddy.memory
  have same := List.perm_cons_erase member
  obtain ⟨k, i, isBlock⟩ := owned.separate.blocks entry member
  obtain ⟨positive, lower, upper, fit⟩ := names.bounds layout.toCompact isBlock
  rw [isBlock.1] at lower upper
  have separate := owned.separate.perm same
  have units : sliceUnits pool live = sliceUnits pool (live.erase entry) ∪ dyadic k i := by
    rw [sliceUnits_perm same, sliceUnits_cons isBlock]
  have apart := owned.apart
  have keeps := owned.keeps
  rw [units] at apart keeps
  obtain ⟨apartRest, apartBlock⟩ := Set.disjoint_union_right.mp apart
  have used : dyadic k i ⊆ others ∪ (sliceUnits pool (live.erase entry) ∪ dyadic k i) :=
    Set.subset_union_right.trans Set.subset_union_right
  obtain ⟨after, ran, holds⟩ := Holds.dealloc layout' keeps used positive lower upper fit
  rw [← Set.union_assoc, Set.union_sdiff_cancel_right] at holds
  · obtain ⟨kept, spares⟩ := keeps_of_holds holds
    exact ⟨after, ran, spares, separate.tail, apartRest, kept⟩
  · exact (Set.disjoint_union_left.mpr ⟨apartBlock, separate_disjoint separate isBlock⟩).le_bot

/-- A slice's bytes lie in its units. -/
theorem slice_bytes (isBlock : IsBlock pool entry k i) {a : ℕ} (lower : entry.slice.ptr ≤ a)
    (upper : a < entry.slice.ptr + entry.slice.length) :
    ∃ u, Covers pool entry.slice u ∧ a ∈ unitBytes pool u := by
  have start : pool.dataAddr + i * 2 ^ k * BUDDY_UNIT = entry.slice.ptr := by
    rw [isBlock.1, BuddyBlocks.block]
    ring
  have length : entry.slice.length = 2 ^ k * BUDDY_UNIT := by
    rw [isBlock.1, BuddyBlocks.block]
    exact Nat.mul_comm _ _
  simp only [Covers, unitBytes, unitPage, PAGE_SIZE, BUDDY_UNIT, Set.mem_Ico] at *
  refine ⟨(a - pool.dataAddr) / 4096, ?_, ?_⟩ <;> omega

end Slices

/-! ## Pages -/

section Units

variable {pool buddy : BuddyBlocks} {taken : Set ℕ} {u : ℕ}

/-- A page is a unit that nobody has, or there is none. -/
private theorem Keeps.allocPage (layout : Layout pool) (keeps : Keeps pool buddy taken) :
    ∃ slice after, dynmemAlloc buddy PAGE_SIZE = .ok (slice, after) ∧ Spares pool buddy after ∧
      (slice = ⟨0, 0⟩ ∧ after = buddy ∨
        ∃ u < pool.units, slice.ptr = unitPage pool u ∧ u ∉ taken ∧ Keeps pool after (taken ∪ {u})) := by
  have layout' := withMemory_layout layout buddy.memory
  have fit : IsFit PAGE_SIZE 0 := by simpa using isFit_pages 0
  rcases buddyAllocSlice_spec layout'.toCompact keeps.represents (by decide) (by decide) fit with
    ⟨i, after, ran, inside, represents⟩ | ⟨ran, _⟩
  · have single : dyadic 0 i = {i} := by
      rw [dyadic_eq_Ico]
      ext u
      simp only [pow_zero, Nat.mul_one, Set.mem_Ico, Set.mem_singleton_iff]
      omega
    rw [single] at inside represents
    have own := Set.singleton_subset_iff.mp inside
    rw [Set.sdiff_sdiff] at represents
    obtain ⟨kept, spares⟩ :=
      keeps_of_holds ⟨represents, Set.union_subset keeps.inside (Set.singleton_subset_iff.mpr own.1)⟩
    refine ⟨_, after, ran, spares, .inr ⟨i, own.1, ?_, own.2, kept⟩⟩
    rw [BuddyBlocks.block, unitPage, pow_zero, Nat.mul_one]
    rfl
  · exact ⟨_, buddy, ran, fun _ _ => rfl, .inl ⟨rfl, rfl⟩⟩

private theorem Keeps.deallocPage (layout : Layout pool) (keeps : Keeps pool buddy taken) (used : u ∈ taken) :
    ∃ after, dynmemDealloc buddy (unitPage pool u) PAGE_SIZE = .ok after ∧ Spares pool buddy after ∧
      Keeps pool after (taken \ {u}) := by
  obtain ⟨after, ran, holds⟩ := dealloc_unit (withMemory_layout layout buddy.memory) keeps used
  obtain ⟨kept, spares⟩ := keeps_of_holds holds
  exact ⟨after, ran, spares, kept⟩

private theorem unitPage_lt (layout : Layout pool) (inside : u < pool.units) :
    unitPage pool u ≠ 0 ∧ unitPage pool u % SLAB_PAGE = 0 ∧ unitPage pool u < 2 ^ 64 := by
  have aligned : pool.dataAddr % BUDDY_UNIT = 0 := layout.aligned
  have start : pool.dataAddr = pool.startAddr + pool.dataOffset := rfl
  have offset := layout.offset
  have total := layout.total
  have bounded := layout.bounded
  simp only [unitPage, PAGE_SIZE, SLAB_PAGE, BUDDY_UNIT] at *
  omega

end Units

/-! ## Slabs -/

/-- The units of a slab's pages. -/
def pageUnits (pool : BuddyBlocks) (pages : List ℕ) : Set ℕ := {u | unitPage pool u ∈ pages}

/-- The bytes of a live object. -/
def objectBytes (slab : SlabAllocator) (ptr : ℕ) : Set ℕ := Set.Ico ptr (ptr + slab.objectSize)

/-- The slab's books are in order and its pages are units of the pool, next to whatever others have
in use. -/
structure SlabOwned (slab : SlabAllocator) (pool : BuddyBlocks) (others : Set ℕ) (buddy : BuddyBlocks)
    (now : SlabAllocator) (pages objects : List ℕ) : Prop where
  books : SlabRuns.Holds slab ⟨now, buddy.memory, pages, objects⟩
  inside : ∀ page ∈ pages, ∃ u < pool.units, page = unitPage pool u
  apart : Disjoint others (pageUnits pool pages)
  keeps : Keeps pool buddy (others ∪ pageUnits pool pages)

/-- What a call of a slab leaves alone: everything outside its pages, and the live objects it is not
about. -/
structure SlabSpares (slab : SlabAllocator) (pool before after : BuddyBlocks) (pages objects : List ℕ) : Prop where
  outside : ∀ a, a ∉ Metadata pool → (∀ u ∈ pageUnits pool pages, a ∉ unitBytes pool u) → after.memory a = before.memory a
  objects : ∀ ptr ∈ objects, ∀ a ∈ objectBytes slab ptr, after.memory a = before.memory a

section Slabs

variable {slab now : SlabAllocator} {pool buddy after : BuddyBlocks} {others : Set ℕ} {pages objects : List ℕ} {ptr a : ℕ}

private theorem pageUnits_cons {u : ℕ} : pageUnits pool (unitPage pool u :: pages) = pageUnits pool pages ∪ {u} := by
  ext v
  simp only [pageUnits, Set.mem_ofPred_eq, List.mem_cons, Set.mem_union, Set.mem_singleton_iff]
  rw [or_comm, (unitPage_injective pool).eq_iff]

private theorem pageUnits_erase {u : ℕ} (distinct : pages.Nodup) :
    pageUnits pool (pages.erase (unitPage pool u)) = pageUnits pool pages \ {u} := by
  ext v
  simp only [pageUnits, Set.mem_ofPred_eq, Set.mem_sdiff, Set.mem_singleton_iff, distinct.mem_erase_iff, ne_eq,
    (unitPage_injective pool).eq_iff]
  exact and_comm

theorem holds_iff {memory : Memory} : SlabRuns.Holds slab ⟨now, memory, pages, objects⟩ ↔
    (∃ list, now = { slab with partialList := list }) ∧ ∃ free partials, Books now memory pages objects free partials := by
  constructor
  · rintro ⟨shape, books⟩
    exact ⟨shape, books⟩
  · rintro ⟨shape, books⟩
    exact ⟨shape, books⟩

/-- A slab whose pages kept their bytes. -/
theorem books_congr {memory memory' : Memory} (books : SlabRuns.Holds slab ⟨now, memory, pages, objects⟩)
    (same : ∀ page ∈ pages, ∀ a, page ≤ a → a < page + SLAB_PAGE → memory' a = memory a) :
    SlabRuns.Holds slab ⟨now, memory', pages, objects⟩ := by
  obtain ⟨shape, free, partials, held⟩ := books
  exact ⟨shape, free, partials, held.congr same⟩

/-- A live object lies in its slot, behind the header of one page. -/
theorem object_bytes {memory : Memory} (books : SlabRuns.Holds slab ⟨now, memory, pages, objects⟩) (member : ptr ∈ objects)
    (inside : a ∈ objectBytes slab ptr) :
    (ptr - now.payloadOffset ≤ a ∧ a < ptr - now.payloadOffset + now.slotSize) ∧
      ∃ page ∈ pages, page + sizeofPage ≤ a ∧ a < page + SLAB_PAGE := by
  obtain ⟨page, owns, _, lower, upper, payload⟩ := books.object member
  obtain ⟨⟨list, shape⟩, free, partials, held⟩ := books
  have redzone := held.stock.geometry.redzone
  simp only [SlabRuns.slotOf] at lower upper payload
  dsimp only at shape redzone
  subst shape
  dsimp only at *
  simp only [objectBytes, Set.mem_Ico] at inside
  exact ⟨by omega, page, owns, by omega, by omega⟩

/-- A byte of another live object is in no page's header and not in the slot. -/
theorem other_object {memory : Memory} {other : ℕ} (books : SlabRuns.Holds slab ⟨now, memory, pages, objects⟩)
    (member : ptr ∈ objects) (memberOther : other ∈ objects) (distinct : other ≠ ptr)
    (inside : a ∈ objectBytes slab other) : (∀ page ∈ pages, a < page + 16 ∨ page + 20 ≤ a) ∧
      (a < ptr - now.payloadOffset ∨ ptr - now.payloadOffset + now.slotSize ≤ a) := by
  obtain ⟨⟨lower, upper⟩, _⟩ := object_bytes books memberOther inside
  have apart := books.apart memberOther member distinct
  simp only [SlabRuns.slotOf] at apart
  refine ⟨fun page owns => ?_, by omega⟩
  have header := books.header memberOther owns
  simp only [SlabRuns.slotOf, sizeofPage] at header
  omega

/-- A live object lies in a page of the slab. -/
theorem SlabOwned.object (owned : SlabOwned slab pool others buddy now pages objects) (member : ptr ∈ objects)
    (inside : a ∈ objectBytes slab ptr) : ∃ u ∈ pageUnits pool pages, a ∈ unitBytes pool u := by
  obtain ⟨_, page, owns, lower, upper⟩ := object_bytes owned.books member inside
  obtain ⟨u, _, rfl⟩ := owned.inside page owns
  refine ⟨u, owns, ?_⟩
  simp only [unitBytes, PAGE_SIZE, SLAB_PAGE, sizeofPage, Set.mem_Ico] at *
  omega

/-- An allocation writes to the slab's pages, and to no object that was live. -/
private theorem slabAlloc_spares {memory : Memory} {outcome : Outcome} {answer : ℕ} {pages' : List ℕ}
    {free : ℕ → List ℕ}
    {partials : List ℕ} (held : Books now memory pages objects free partials)
    (ran : slabAlloc now memory answer = .ok (ptr, outcome)) (sub : ∀ page ∈ pages, page ∈ pages')
    (fresh : partials = [] → answer ∈ pages' ∧ answer ∉ pages)
    (after : SlabRuns.Holds slab ⟨outcome.slab, outcome.memory, pages', ptr :: objects⟩)
    (shape : ∃ list, outcome.slab = { now with partialList := list }) :
    (∀ a, (∀ page ∈ pages', a < page ∨ page + SLAB_PAGE ≤ a) → outcome.memory a = memory a) ∧
      ∀ other ∈ objects, ∀ a ∈ objectBytes slab other, outcome.memory a = memory a := by
  obtain ⟨list, same⟩ := shape
  have live := after.sound.live
  dsimp only at live
  constructor
  · intro a outside
    obtain ⟨page, owns, _, lower, upper, _⟩ := after.object List.mem_cons_self
    dsimp only at lower upper owns
    rw [same] at lower upper
    simp only [SlabRuns.slotOf, sizeofPage] at lower upper
    refine slabAlloc_frame held ran (fun page owns => ?_) ?_ fun none => outside answer (fresh none).1
    · have := outside page (sub page owns)
      unfold SLAB_PAGE at this
      omega
    · have := outside page owns
      omega
  · intro other member a inside
    have distinct : other ≠ ptr := by
      rintro rfl
      exact (List.nodup_cons.mp live).1 member
    obtain ⟨headers, slot⟩ := other_object after List.mem_cons_self (.tail _ member) distinct inside
    rw [same] at slot
    refine slabAlloc_frame held ran (fun page owns => headers page (sub page owns)) slot fun none => ?_
    -- the object's page was owned before, so it is not the new one
    obtain ⟨⟨list', shape'⟩, free', partials', kept⟩ := after
    obtain ⟨page, owns, offset, member', used, payload⟩ := held.stock.find member
    have bounds := held.stock.geometry.offset_bounds member'
    have redzone := held.stock.geometry.redzone
    have apart := kept.stock.apart (sub page owns) (fresh none).1 (fun equal => (fresh none).2 (equal ▸ owns))
    have size : now.objectSize = slab.objectSize := by
      have sizes := congrArg SlabAllocator.objectSize ((show outcome.slab = _ from shape').symm.trans same)
      exact sizes.symm
    simp only [objectBytes, Set.mem_Ico] at inside
    unfold SLAB_PAGE
    omega

/-- Bytes outside the slab's units lie in none of its pages. -/
private theorem outside_pages (inside : ∀ page ∈ pages, ∃ u < pool.units, page = unitPage pool u)
    (away : ∀ u ∈ pageUnits pool pages, a ∉ unitBytes pool u) : ∀ page ∈ pages, a < page ∨ page + SLAB_PAGE ≤ a := by
  intro page owns
  obtain ⟨u, _, rfl⟩ := inside page owns
  have outside := away u owns
  simp only [unitBytes, PAGE_SIZE, SLAB_PAGE, Set.mem_Ico] at outside ⊢
  omega

private theorem metadata_outside (layout : Layout pool)
    (inside : ∀ page ∈ pages, ∃ u < pool.units, page = unitPage pool u)
    (metadata : a ∈ Metadata pool) : ∀ page ∈ pages, a < page ∨ page + SLAB_PAGE ≤ a := by
  intro page owns
  obtain ⟨u, _, rfl⟩ := inside page owns
  exact .inl (metadata_lt layout metadata u)

/-- An object taken from the slab's pages, once the pages are there. -/
private theorem slab_took (layout : Layout pool) {given : BuddyBlocks} {pages' partials : List ℕ} {free : ℕ → List ℕ}
    {outcome : Outcome} {answer : ℕ} (shape : ∃ list, now = { slab with partialList := list })
    (books : Books now given.memory pages objects free partials)
    (inside : ∀ page ∈ pages', ∃ u < pool.units, page = unitPage pool u)
    (apart : Disjoint others (pageUnits pool pages')) (keeps : Keeps pool given (others ∪ pageUnits pool pages'))
    (called : slabAlloc now given.memory answer = .ok (ptr, outcome)) (sub : ∀ page ∈ pages, page ∈ pages')
    (fresh : partials = [] → answer ∈ pages' ∧ answer ∉ pages) (allocated : Allocated now pages' objects ptr outcome) :
    SlabOwned slab pool others { given with memory := outcome.memory } outcome.slab pages' (ptr :: objects) ∧
      SlabSpares slab pool given { given with memory := outcome.memory } pages' objects ∧
      ∀ a ∈ objectBytes slab ptr, outcome.memory a = 0 := by
  obtain ⟨list, rfl⟩ := shape
  obtain ⟨list', shape'⟩ := allocated.shape
  obtain ⟨free', partials', after⟩ := allocated.books
  have holds : SlabRuns.Holds slab ⟨outcome.slab, outcome.memory, pages', ptr :: objects⟩ :=
    ⟨⟨list', shape'⟩, free', partials', after⟩
  obtain ⟨outside, others'⟩ := slabAlloc_spares books called sub fresh holds allocated.shape
  refine ⟨⟨holds, inside, apart, ?_⟩, ⟨fun a _ away => ?_, others'⟩, fun a member => ?_⟩
  · exact keeps.write fun a metadata => outside a (metadata_outside layout inside metadata)
  · exact outside a (outside_pages inside away)
  · obtain ⟨lower, upper⟩ := member
    have zeroed := allocated.zeroed (a - ptr) (Nat.sub_lt_left_of_lt_add lower upper)
    rwa [Nat.add_sub_cancel' lower] at zeroed

/-- `slab_alloc` returns a new object with zeroed bytes, or null when the pool has no page left. -/
theorem SlabOwned.alloc (layout : Layout pool) (owned : SlabOwned slab pool others buddy now pages objects) :
    ∃ ptr now' after pages', slabAllocFrom now buddy = .ok (ptr, now', after) ∧
      SlabOwned slab pool others after now' pages' (if ptr = 0 then objects else ptr :: objects) ∧
      SlabSpares slab pool buddy after pages' objects ∧
      (ptr ≠ 0 → ∀ a ∈ objectBytes slab ptr, after.memory a = 0) := by
  obtain ⟨held, inside, apart, keeps⟩ := id owned
  obtain ⟨shape, free, partials, books⟩ := holds_iff.mp held
  by_cases none : partials = []
  · have empty : Linkedlist.isEmpty now.partialList = true := books.linked.isEmpty_iff.mpr none
    obtain ⟨slice, given, ran, spares, answer⟩ := keeps.allocPage layout
    have asked : slabPageAlloc buddy = .ok (slice.ptr, given) := by
      rw [slabPageAlloc, show SLAB_PAGE = PAGE_SIZE from rfl, ran]
      rfl
    rcases answer with ⟨rfl, rfl⟩ | ⟨u, unit, pointer, fresh, kept⟩
    · refine ⟨0, now, given, pages, ?_, owned, ⟨fun _ _ _ => rfl, fun _ _ _ _ => rfl⟩, fun nonnull => (nonnull rfl).elim⟩
      subst none
      rw [slabAllocFrom, if_pos empty, asked, Except.ok_bind]
      dsimp only
      rw [slabAlloc, pickPage_null books.linked]
      rfl
    · obtain ⟨nonnull, aligned, small⟩ := unitPage_lt layout unit
      obtain ⟨freshOthers, freshPages⟩ : u ∉ others ∧ unitPage pool u ∉ pages := not_or.mp fresh
      have same {v : ℕ} {a : ℕ} (member : a ∈ unitBytes pool v) : given.memory a = buddy.memory a :=
        spares a (unitBytes_not_metadata layout member)
      have booksGiven : Books now given.memory pages objects free partials := by
        apply books.congr
        intro page owns a lower upper
        obtain ⟨v, _, rfl⟩ := inside page owns
        exact same ⟨lower, upper⟩
      obtain ⟨ptr, outcome, called, found⟩ := slabAlloc_spec booksGiven (.inr ⟨aligned, small, freshPages⟩)
      rcases found with ⟨some, _⟩ | ⟨_, _, _, allocated⟩ | ⟨_, null, _⟩
      · exact (some none).elim
      · have within : ∀ page ∈ unitPage pool u :: pages, ∃ v < pool.units, page = unitPage pool v :=
          List.forall_mem_cons.mpr ⟨⟨u, unit, rfl⟩, inside⟩
        have apartGiven : Disjoint others (pageUnits pool (unitPage pool u :: pages)) := by
          rw [pageUnits_cons]
          exact Set.disjoint_union_right.mpr ⟨apart, Set.disjoint_singleton_right.mpr freshOthers⟩
        rw [Set.union_assoc, ← pageUnits_cons] at kept
        obtain ⟨after, ⟨outside, others'⟩, zeroed⟩ := slab_took layout shape booksGiven within apartGiven kept called
          (fun page owns => List.mem_cons_of_mem _ owns) (fun _ => ⟨List.mem_cons_self, freshPages⟩) allocated
        refine ⟨ptr, outcome.slab, { given with memory := outcome.memory }, unitPage pool u :: pages, ?_, ?_, ⟨?_, ?_⟩,
          fun _ => zeroed⟩
        · rw [slabAllocFrom, if_pos empty, asked, Except.ok_bind]
          dsimp only
          rw [pointer, called]
          rfl
        · rwa [if_neg allocated.nonnull]
        · exact fun a metadata away => (outside a metadata away).trans (spares a metadata)
        · intro other member a inside'
          obtain ⟨v, _, unit⟩ := owned.object member inside'
          exact (others' other member a inside').trans (same unit)
      · exact (nonnull null).elim
  · have nonempty : ¬ Linkedlist.isEmpty now.partialList = true := fun empty => none (books.linked.isEmpty_iff.mp empty)
    obtain ⟨ptr, outcome, called, found⟩ := slabAlloc_spec books (.inl rfl)
    rcases found with ⟨_, _, allocated⟩ | ⟨empty, _⟩ | ⟨empty, _⟩
    · obtain ⟨after, spares, zeroed⟩ := slab_took layout shape books inside apart keeps called
        (fun page owns => owns) (fun empty => (none empty).elim) allocated
      refine ⟨ptr, outcome.slab, { buddy with memory := outcome.memory }, pages, ?_, ?_, spares, fun _ => zeroed⟩
      · rw [slabAllocFrom, if_neg nonempty, pure_bind]
        dsimp only
        rw [called]
        rfl
      · rwa [if_neg allocated.nonnull]
    · exact (none empty).elim
    · exact (none empty).elim

/-- `slab_dealloc` takes a live object back, and gives a page without objects back to the pool. -/
theorem SlabOwned.dealloc (layout : Layout pool) (owned : SlabOwned slab pool others buddy now pages objects)
    (member : ptr ∈ objects) :
    ∃ now' after pages', slabDeallocTo now buddy ptr = .ok (now', after) ∧
      SlabOwned slab pool others after now' pages' (objects.erase ptr) ∧
      SlabSpares slab pool buddy after pages (objects.erase ptr) := by
  obtain ⟨held, inside, apart, keeps⟩ := id owned
  obtain ⟨⟨list, shape⟩, free, partials, books⟩ := holds_iff.mp held
  obtain ⟨page, owns, offset, slot, used, payload⟩ := books.stock.find member
  obtain ⟨outcome, called, released⟩ := slabDealloc_spec books owns slot used
  have live := books.stock.distinct
  rw [payload] at called released
  have outside (a : ℕ) (away : ∀ page ∈ pages, a < page ∨ page + SLAB_PAGE ≤ a) : outcome.memory a = buddy.memory a := by
    obtain ⟨page', owns', _, lower, upper, _⟩ := owned.books.object member
    dsimp only at owns'
    simp only [SlabRuns.slotOf, sizeofPage] at lower upper
    apply slabDealloc_frame books member called
    · intro page owns
      have := away page owns
      unfold SLAB_PAGE at this
      omega
    · have := away page' owns'
      omega
  have spared (other : ℕ) (listed : other ∈ objects.erase ptr) (a : ℕ) (bytes : a ∈ objectBytes slab other) :
      outcome.memory a = buddy.memory a := by
    obtain ⟨distinct, old⟩ := live.mem_erase_iff.mp listed
    obtain ⟨headers, away⟩ := other_object owned.books member old distinct bytes
    exact slabDealloc_frame books member called headers away
  have written : Keeps pool { buddy with memory := outcome.memory } (others ∪ pageUnits pool pages) :=
    keeps.write fun a metadata => outside a (metadata_outside layout inside metadata)
  rcases released with ⟨_, calls, done⟩ | ⟨_, calls, done⟩
  · obtain ⟨list', same⟩ := done.shape
    refine ⟨outcome.slab, { buddy with memory := outcome.memory }, pages, ?_,
      ⟨holds_iff.mpr ⟨⟨list', by rw [same, shape]⟩, done.books⟩, inside, apart, written⟩,
      fun a _ away => outside a (outside_pages inside away), spared⟩
    rw [slabDeallocTo, called, Except.ok_bind, calls]
    rfl
  · obtain ⟨list', same⟩ := done.shape
    obtain ⟨u, _, rfl⟩ := inside page owns
    obtain ⟨after, ran, spares, kept⟩ := written.deallocPage layout (u := u) (.inr owns)
    have distinct := books.stock.nodup
    have rest : (others ∪ pageUnits pool pages) \ {u} = others ∪ pageUnits pool (pages.erase (unitPage pool u)) := by
      rw [pageUnits_erase distinct, Set.union_sdiff_distrib, Set.sdiff_singleton_eq_self]
      exact fun other => Set.disjoint_left.mp apart other owns
    rw [rest] at kept
    refine ⟨outcome.slab, after, pages.erase (unitPage pool u), ?_, ⟨?_, ?_, ?_, kept⟩, ?_, ?_⟩
    · rw [slabDeallocTo, called, Except.ok_bind, calls, List.foldlM_cons, serve, slabPageDealloc,
        show SLAB_PAGE = PAGE_SIZE from rfl, ran]
      rfl
    · apply books_congr (holds_iff.mpr ⟨⟨list', by rw [same, shape]⟩, done.books⟩)
      intro page owns a lower upper
      obtain ⟨v, _, rfl⟩ := inside page (List.mem_of_mem_erase owns)
      exact spares a (unitBytes_not_metadata layout ⟨lower, upper⟩)
    · exact fun page owns => inside page (List.mem_of_mem_erase owns)
    · rw [pageUnits_erase distinct]
      exact apart.mono_right Set.sdiff_subset
    · exact fun a metadata away => (spares a metadata).trans (outside a (outside_pages inside away))
    · intro other listed a bytes
      obtain ⟨v, _, unit⟩ := owned.object (List.mem_of_mem_erase listed) bytes
      exact (spares a (unitBytes_not_metadata layout unit)).trans (spared other listed a bytes)

end Slabs

end RubberOS.Soundness.KernelHeap
