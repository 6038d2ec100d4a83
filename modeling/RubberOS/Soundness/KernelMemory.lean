import RubberOS.Soundness.KernelHeap
import RubberOS.Soundness.KernelMappings

/-! # Runs of the whole memory management

Every client works at once: slices of dynamic memory, any number of slab allocators, and device
mappings with their page tables, all over one buddy pool, while the owners of live blocks write to
them. Each client owns a share of the pool's units, and no two shares meet. So the result about one
client beside an arbitrary set of foreign units applies to each of them, in every interleaving.
-/

namespace RubberOS.Soundness.KernelMemory

open Model Model.Buddy Model.Dynmem Model.KernelMemory Model.MemoryMap Model.Mmio Model.PageTable Model.Slab Dyadic
  KernelHeap KernelMappings LabelledRuns

/-- The kernel that `memory_init` leaves: the tables over dynamic memory, and a pool behind their
pages whose units the processor finds. -/
structure Booted where
  mmapDyn : Mmap
  gPagetable : ℕ
  pdpt : ℕ
  boot : ℕ → ℕ → ℕ
  pool : BuddyBlocks
  layout : Layout pool
  fresh : Holds pool pool ∅
  map : PhysicalMap mmapDyn
  lower : DYNMEM_START_VIRT ≤ pool.dataAddr
  upper : pool.dataAddr + pool.units * PAGE_SIZE ≤ DYNMEM_START_VIRT + windowOffset mmapDyn mmapDyn.len
  half : DYNMEM_START_VIRT + windowOffset mmapDyn mmapDyn.len ≤ 2 ^ 47
  rootPage : ImagePage gPagetable
  pdptPage : ImagePage pdpt
  distinct : gPagetable ≠ pdpt
  link : boot (virtToPhysKernel gPagetable) 511 = virtToPhysKernel pdpt ||| KERNEL_PAGE_FLAG
  vacant : ∀ i < 508, isPresent (boot (virtToPhysKernel pdpt) i) = false
  elsewhere : ∀ virt, Canonical virt → ¬ InIomap virt →
    ∀ cell ∈ walkCells boot virt 3 (virtToPhysKernel gPagetable),
      (cell.1 = virtToPhysKernel pdpt → 508 ≤ cell.2) ∧ ∀ u < pool.units, frameOf mmapDyn (unitPage pool u) ≠ cell.1
  translated : ∀ u < pool.units, ∀ i < PAGE_SIZE,
    translateVirt boot (virtToPhysKernel gPagetable) (unitPage pool u + i) = some (frameOf mmapDyn (unitPage pool u) + i)

/-- What `memory_init` leaves in `g_meminfo`. -/
def Booted.meminfo (kernel : Booted) : Meminfo PageMemory := ⟨mmioFreelistInit, ⟨kernel.boot, kernel.pool⟩⟩

/-- The page tables, beside units that others have in use and over any bytes. -/
def Booted.pages (kernel : Booted) (others : Set ℕ) (memory : Memory) : KernelPages :=
  KernelPages.ofPool kernel.boot others (withMemory_layout kernel.layout memory) kernel.map kernel.lower kernel.upper
    kernel.rootPage kernel.pdptPage kernel.distinct kernel.link kernel.vacant kernel.elsewhere

/-! ## Runs -/

/-- The allocators, the page tables, and the books of their clients. -/
structure State (κ : Type) where
  meminfo : Meminfo PageMemory
  slabs : κ → SlabAllocator
  slices : List BuddyRuns.Live
  objects : κ → List ℕ
  ranges : List (ℕ × ℕ)

inductive Event (κ : Type) where
  | alloc (len : ℕ)
  | dealloc (entry : BuddyRuns.Live) (addr len : ℕ)
  | slabAlloc (i : κ)
  | slabDealloc (i : κ) (ptr : ℕ)
  | map (beginPhys endPhys : ℕ)
  | unmap (range : ℕ × ℕ) (beginVirt endVirt : ℕ)
  | write (address : ℕ) (byte : BitVec 8)

/-- Memory that a client holds: a slice, or an object of a slab. -/
inductive Block (κ : Type) where
  | slice (entry : BuddyRuns.Live)
  | object (i : κ) (ptr : ℕ)

section Runs

variable {κ : Type}

def State.buddy (s : State κ) : BuddyBlocks := s.meminfo.tables.buddy

def State.withBuddy (s : State κ) (buddy : BuddyBlocks) : State κ :=
  { s with meminfo := { s.meminfo with tables := { s.meminfo.tables with buddy } } }

/-- The bytes that the block's owner may use. -/
def Block.bytes (slabs : κ → SlabAllocator) : Block κ → Set ℕ
  | .slice entry => Set.Ico entry.slice.ptr (entry.slice.ptr + entry.slice.length)
  | .object i ptr => objectBytes (slabs i) ptr

def State.Holds (s : State κ) : Block κ → Prop
  | .slice entry => entry ∈ s.slices
  | .object i ptr => ptr ∈ s.objects i

/-- One call, or one byte written. -/
def exec [DecidableEq κ] (gPagetable : ℕ) (mmapDyn : Mmap) (s : State κ) : Event κ → Result (State κ)
  | .alloc len => do
    let (slice, buddy) ← dynmemAlloc s.buddy len
    return { s.withBuddy buddy with slices := if slice.ptr = 0 then s.slices else ⟨slice, len⟩ :: s.slices }
  | .dealloc entry addr len => do
    let buddy ← dynmemDealloc s.buddy addr len
    return { s.withBuddy buddy with slices := s.slices.erase entry }
  | .slabAlloc i => do
    let (ptr, slab, buddy) ← slabAllocFrom (s.slabs i) s.buddy
    let live := if ptr = 0 then s.objects i else ptr :: s.objects i
    return { s.withBuddy buddy with
      slabs := Function.update s.slabs i slab, objects := Function.update s.objects i live }
  | .slabDealloc i ptr => do
    let (slab, buddy) ← slabDeallocTo (s.slabs i) s.buddy ptr
    return { s.withBuddy buddy with
      slabs := Function.update s.slabs i slab, objects := Function.update s.objects i ((s.objects i).erase ptr) }
  | .map beginPhys endPhys => do
    let (begin, meminfo) ←
      mmioAllocMapping (kernelPageTables gPagetable mmapDyn) s.meminfo beginPhys endPhys
    return { s with meminfo, ranges := (begin, begin + MmioRuns.roundedLen beginPhys endPhys) :: s.ranges }
  | .unmap range beginVirt endVirt => do
    let meminfo ← mmioDeallocMapping (kernelPageTables gPagetable mmapDyn) s.meminfo beginVirt endVirt
    return { s with meminfo, ranges := s.ranges.erase range }
  | .write address byte => .ok (s.withBuddy { s.buddy with memory := Function.update s.buddy.memory address byte })

theorem exec_alloc [DecidableEq κ] (gPagetable : ℕ) (mmapDyn : Mmap) {s : State κ} {len : ℕ} {slice : Slice} {buddy : BuddyBlocks}
    (ran : dynmemAlloc s.buddy len = .ok (slice, buddy)) : exec gPagetable mmapDyn s (.alloc len) =
      .ok { s.withBuddy buddy with slices := if slice.ptr = 0 then s.slices else ⟨slice, len⟩ :: s.slices } := by
  rw [exec, ran, Except.ok_bind]
  rfl

/-- What clients may do: allocate, give back what they hold, and write to it. -/
def Enabled (slabs : κ → SlabAllocator) (s : State κ) : Event κ → Prop
  | .alloc len => 1 ≤ len ∧ len ≤ 2 ^ 31
  | .dealloc entry addr len => entry ∈ s.slices ∧ BuddyRuns.Names entry addr len
  | .slabAlloc _ => True
  | .slabDealloc i ptr => ptr ∈ s.objects i
  | .map beginPhys endPhys => beginPhys < endPhys ∧ endPhys < 2 ^ 64 ∧ MmioRuns.roundedLen beginPhys endPhys < 2 ^ 64
  | .unmap range beginVirt endVirt => range ∈ s.ranges ∧ MmioRuns.Names range beginVirt endVirt
  | .write address _ => ∃ block, s.Holds block ∧ address ∈ block.bytes slabs

/-- The state behind `memory_init` and the initialisation of the slabs. -/
def initial (meminfo : Meminfo PageMemory) (slabs : κ → SlabAllocator) : State κ := ⟨meminfo, slabs, [], fun _ => [], []⟩

/-- Every slab has been initialised. -/
def Accepted (slabs : κ → SlabAllocator) : Prop := ∀ i, ∃ raw size k, slabInit raw size (2 ^ k) = .ok (slabs i)

abbrev Steps [DecidableEq κ] (gPagetable : ℕ) (mmapDyn : Mmap) (slabs : κ → SlabAllocator) :=
  Guarded (Enabled slabs) (exec (κ := κ) gPagetable mmapDyn)

/-! ## The invariant -/

/-- Who holds units of the pool. -/
inductive Owner (κ : Type) where
  | slices
  | slab (i : κ)
  | tables

/-- The units of each owner, from the live slices, the pages of the slabs and the registered tables. -/
def share (pool : BuddyBlocks) (slices : List BuddyRuns.Live) (pages : κ → List ℕ) (tables : Registry) :
    Owner κ → Set ℕ
  | .slices => sliceUnits pool slices
  | .slab i => pageUnits pool (pages i)
  | .tables => {u | unitPage pool u ∈ held tables}

/-- The books of all clients together. -/
structure Sound (kernel : Booted) (slabs : κ → SlabAllocator) (s : State κ) (pages : κ → List ℕ) (tables : Registry) :
    Prop where
  apart : Shares.Apart (share kernel.pool s.slices pages tables)
  keeps : Keeps kernel.pool s.buddy (Shares.total (share kernel.pool s.slices pages tables))
  separate : BuddyRuns.Separate kernel.pool s.slices
  books : ∀ i, SlabRuns.Holds (slabs i) ⟨s.slabs i, s.buddy.memory, pages i, s.objects i⟩
  inside : ∀ i, ∀ page ∈ pages i, ∃ u < kernel.pool.units, page = unitPage kernel.pool u
  mappings : KernelMappings.Sound
    (kernel.pages (Shares.others (share kernel.pool s.slices pages tables) .tables) s.buddy.memory)
    s.meminfo s.ranges tables

section Invariant

variable {kernel : Booted} {slabs : κ → SlabAllocator} {s t : State κ} {pages : κ → List ℕ} {tables : Registry}
  {buddy : BuddyBlocks} {others : Set ℕ} {memory : Memory} {i : κ}

private theorem linked_change {others' : Set ℕ} {memory' : Memory} {id : TableId} {entry : ℕ} {table : Option ℕ}
    (linked : (kernel.pages others memory).Linked id entry table) :
    (kernel.pages others' memory').Linked id entry table := by
  cases table with
  | none => exact linked
  | some table => exact ⟨linked.present, linked.small, linked.address⟩

/-- Tables in the same frames, beside other units in use and over other bytes. -/
private theorem mappings_change {others' : Set ℕ} {memory' : Memory} {freelist : MmioFreelist} {frames : ℕ → ℕ → ℕ}
    {ranges : List (ℕ × ℕ)} {after : BuddyBlocks}
    (sound : KernelMappings.Sound (kernel.pages others memory) ⟨freelist, ⟨frames, buddy⟩⟩ ranges tables)
    (owned : PoolOwned { kernel.pool with memory := memory' } others' after (held tables)) :
    KernelMappings.Sound (kernel.pages others' memory') ⟨freelist, ⟨frames, after⟩⟩ ranges tables where
  tables := by
    obtain ⟨shape, placed, apart, view, blocks⟩ := sound.tables
    refine ⟨⟨shape.registry, owned, fun id valid above placed => ?_, shape.rest⟩, placed, apart, view, blocks⟩
    exact linked_change (shape.links id valid above placed)
  book := ⟨sound.book.partition, sound.book.live⟩
  aligned := sound.aligned

/-- The units of the tables are those of the pages that they hold. -/
private theorem poolOwned_iff {pool : BuddyBlocks} : PoolOwned pool others buddy (held tables) ↔
    held tables ⊆ unitPage pool '' Set.univ ∧ Disjoint others {u | unitPage pool u ∈ held tables} ∧
      Holds pool buddy (others ∪ {u | unitPage pool u ∈ held tables}) := by
  constructor
  · rintro ⟨units, same, apart, holds⟩
    have own : {u | unitPage pool u ∈ held tables} = units := by
      rw [same]
      ext u
      exact (unitPage_injective pool).mem_set_image
    rw [own]
    exact ⟨same.subset.trans (Set.image_mono (Set.subset_univ _)), apart, holds⟩
  · rintro ⟨within, apart, holds⟩
    refine ⟨_, ?_, apart, holds⟩
    ext page
    constructor
    · intro member
      obtain ⟨u, _, rfl⟩ := within member
      exact ⟨u, member, rfl⟩
    · rintro ⟨u, member, rfl⟩
      exact member

/-! ### The clients of a sound state -/

private theorem Sound.slicesOwned (sound : Sound kernel slabs s pages tables) :
    SlicesOwned kernel.pool (Shares.others (share kernel.pool s.slices pages tables) .slices) s.buddy s.slices where
  separate := sound.separate
  apart := sound.apart.others_disjoint .slices
  keeps := Shares.total_eq (share kernel.pool s.slices pages tables) .slices ▸ sound.keeps

private theorem Sound.slabOwned (sound : Sound kernel slabs s pages tables) (i : κ) :
    SlabOwned (slabs i) kernel.pool (Shares.others (share kernel.pool s.slices pages tables) (.slab i)) s.buddy
      (s.slabs i) (pages i) (s.objects i) where
  books := sound.books i
  inside := sound.inside i
  apart := sound.apart.others_disjoint (.slab i)
  keeps := Shares.total_eq (share kernel.pool s.slices pages tables) (.slab i) ▸ sound.keeps

private theorem Sound.within (sound : Sound kernel slabs s pages tables) :
    held tables ⊆ unitPage kernel.pool '' Set.univ :=
  (poolOwned_iff.mp sound.mappings.tables.shape.owned).1

/-- The tables beside other units: only the registry and the frames matter. -/
private theorem Sound.mappings_beside (sound : Sound kernel slabs s pages tables) {others : Set ℕ}
    (apart : Disjoint others {u | unitPage kernel.pool u ∈ held tables})
    (keeps : Keeps kernel.pool buddy (others ∪ {u | unitPage kernel.pool u ∈ held tables})) :
    KernelMappings.Sound (kernel.pages others buddy.memory) (s.withBuddy buddy).meminfo s.ranges tables :=
  mappings_change sound.mappings (poolOwned_iff.mpr ⟨sound.within, apart, keeps⟩)

/-- Bytes of a unit lie in no bitmap and in no other unit. -/
private theorem Sound.page_bytes (sound : Sound kernel slabs s pages tables) {page a : ℕ} (owns : page ∈ pages i)
    (lower : page ≤ a) (upper : a < page + SLAB_PAGE) :
    ∃ u ∈ pageUnits kernel.pool (pages i), a ∈ unitBytes kernel.pool u ∧ a ∉ Metadata kernel.pool := by
  obtain ⟨u, _, rfl⟩ := sound.inside i page owns
  exact ⟨u, owns, ⟨lower, upper⟩, unitBytes_not_metadata kernel.layout ⟨lower, upper⟩⟩

/-! ### Steps of one client -/

/-- The slices have changed, and only bitmaps were written. -/
private theorem Sound.change_slices (sound : Sound kernel slabs s pages tables) {slices : List BuddyRuns.Live}
    (owned : SlicesOwned kernel.pool (Shares.others (share kernel.pool s.slices pages tables) .slices) buddy slices)
    (spares : Spares kernel.pool s.buddy buddy) :
    Sound kernel slabs { s.withBuddy buddy with slices } pages tables := by
  have same (j : Owner κ) (other : j ≠ .slices) :
      share kernel.pool slices pages tables j = share kernel.pool s.slices pages tables j := by
    cases j with
    | slices => exact (other rfl).elim
    | slab i => rfl
    | tables => rfl
  have apart := sound.apart.change same owned.apart
  have keeps : Keeps kernel.pool buddy (Shares.total (share kernel.pool slices pages tables)) := by
    rw [Shares.total_change same]
    exact owned.keeps
  refine ⟨apart, keeps, owned.separate, fun i => ?_, sound.inside, ?_⟩
  · refine books_congr (sound.books i) fun page owns a lower upper => ?_
    obtain ⟨_, _, _, outside⟩ := sound.page_bytes owns lower upper
    exact spares a outside
  · exact sound.mappings_beside (apart.others_disjoint .tables) (Shares.total_eq _ Owner.tables ▸ keeps)

/-- One slab has changed, and nothing was written outside its pages and the bitmaps. -/
private theorem Sound.change_slab [DecidableEq κ] (sound : Sound kernel slabs s pages tables) {now : SlabAllocator}
    {own objects : List ℕ}
    (owned : SlabOwned (slabs i) kernel.pool (Shares.others (share kernel.pool s.slices pages tables) (.slab i)) buddy
      now own objects)
    (spares : ∀ a, a ∉ Metadata kernel.pool → (∀ u ∈ pageUnits kernel.pool (pages i), a ∉ unitBytes kernel.pool u) →
      (∀ u ∈ pageUnits kernel.pool own, a ∉ unitBytes kernel.pool u) → buddy.memory a = s.buddy.memory a) :
    Sound kernel slabs { s.withBuddy buddy with
      slabs := Function.update s.slabs i now, objects := Function.update s.objects i objects }
      (Function.update pages i own) tables := by
  have same (j : Owner κ) (other : j ≠ .slab i) :
      share kernel.pool s.slices (Function.update pages i own) tables j =
        share kernel.pool s.slices pages tables j := by
    cases j with
    | slices => rfl
    | slab j =>
      have distinct : j ≠ i := fun equal => other (equal ▸ rfl)
      rw [share, share, Function.update_of_ne distinct]
    | tables => rfl
  have mine : share kernel.pool s.slices (Function.update pages i own) tables (.slab i) = pageUnits kernel.pool own := by
    rw [share, Function.update_self]
  have apart : Shares.Apart (share kernel.pool s.slices (Function.update pages i own) tables) := by
    refine sound.apart.change same ?_
    rw [mine]
    exact owned.apart
  have keeps : Keeps kernel.pool buddy
      (Shares.total (share kernel.pool s.slices (Function.update pages i own) tables)) := by
    rw [Shares.total_change same, mine]
    exact owned.keeps
  refine ⟨apart, keeps, sound.separate, fun j => ?_, fun j => ?_, ?_⟩
  · dsimp only [State.withBuddy]
    rcases eq_or_ne j i with rfl | distinct
    · rw [Function.update_self, Function.update_self, Function.update_self]
      exact owned.books
    · rw [Function.update_of_ne distinct, Function.update_of_ne distinct, Function.update_of_ne distinct]
      refine books_congr (sound.books j) fun page owns a lower upper => ?_
      obtain ⟨u, unit, bytes, outside⟩ := sound.page_bytes owns lower upper
      have others (v : ℕ) (apart : u ≠ v) : a ∉ unitBytes kernel.pool v :=
        Set.disjoint_left.mp (unitBytes_disjoint apart) bytes
      have slabsApart : (.slab j : Owner κ) ≠ .slab i := fun equal => distinct (Owner.slab.inj equal)
      refine spares a outside (fun v member => others v ?_) fun v member => others v ?_
      · rintro rfl
        exact Set.disjoint_left.mp (sound.apart.disjoint slabsApart) unit member
      · rintro rfl
        have beside := apart.disjoint slabsApart
        rw [same _ slabsApart, mine] at beside
        exact Set.disjoint_left.mp beside unit member
  · rcases eq_or_ne j i with rfl | distinct
    · rw [Function.update_self]
      exact owned.inside
    · rw [Function.update_of_ne distinct]
      exact sound.inside j
  · exact sound.mappings_beside (apart.others_disjoint .tables) (Shares.total_eq _ Owner.tables ▸ keeps)

/-- The device mappings have changed, and of the pool's bytes only bitmaps were written. -/
private theorem Sound.change_mappings (sound : Sound kernel slabs s pages tables) {meminfo : Meminfo PageMemory}
    {ranges : List (ℕ × ℕ)} {tables' : Registry}
    (mapped : KernelMappings.Sound
      (kernel.pages (Shares.others (share kernel.pool s.slices pages tables) .tables) s.buddy.memory) meminfo ranges tables') :
    Sound kernel slabs { s with meminfo, ranges } pages tables' ∧ Spares kernel.pool s.buddy meminfo.tables.buddy := by
  obtain ⟨within, fresh, holds⟩ := poolOwned_iff.mp mapped.tables.shape.owned
  obtain ⟨kept, spares⟩ := keeps_of_holds holds
  have same (j : Owner κ) (other : j ≠ .tables) :
      share kernel.pool s.slices pages tables' j = share kernel.pool s.slices pages tables j := by
    cases j with
    | slices => rfl
    | slab i => rfl
    | tables => exact (other rfl).elim
  have apart := sound.apart.change same fresh
  have keeps : Keeps kernel.pool meminfo.tables.buddy (Shares.total (share kernel.pool s.slices pages tables')) := by
    rw [Shares.total_change same]
    exact kept
  refine ⟨⟨apart, keeps, sound.separate, fun i => ?_, sound.inside, ?_⟩, spares⟩
  · refine books_congr (sound.books i) fun page owns a lower upper => ?_
    obtain ⟨_, _, _, outside⟩ := sound.page_bytes owns lower upper
    exact spares a outside
  · refine mappings_change mapped (poolOwned_iff.mpr ⟨within, apart.others_disjoint .tables, ?_⟩)
    rw [Shares.total_eq _ Owner.tables] at keeps
    exact keeps

/-! ### Blocks -/

/-- Who holds the units of a block. -/
def Block.owner : Block κ → Owner κ
  | .slice _ => .slices
  | .object i _ => .slab i

/-- Every byte of a live block lies in a unit that the block's owner holds. -/
private theorem Sound.block_unit (sound : Sound kernel slabs s pages tables) {block : Block κ} {a : ℕ}
    (holds : s.Holds block)
    (inside : a ∈ block.bytes slabs) :
    ∃ u ∈ share kernel.pool s.slices pages tables block.owner, a ∈ unitBytes kernel.pool u := by
  cases block with
  | slice entry =>
    obtain ⟨k, j, isBlock⟩ := sound.separate.blocks entry holds
    obtain ⟨u, covers, bytes⟩ := slice_bytes isBlock inside.1 inside.2
    exact ⟨u, ⟨entry, holds, covers⟩, bytes⟩
  | object i ptr => exact (sound.slabOwned i).object holds inside

theorem Sound.not_metadata (sound : Sound kernel slabs s pages tables) {block : Block κ} {a : ℕ} (holds : s.Holds block)
    (inside : a ∈ block.bytes slabs) : a ∉ Metadata kernel.pool := by
  obtain ⟨u, _, bytes⟩ := sound.block_unit holds inside
  exact unitBytes_not_metadata kernel.layout bytes

/-- Two live blocks share no byte. -/
theorem Sound.blocks_disjoint (sound : Sound kernel slabs s pages tables) {block other : Block κ}
    (holds : s.Holds block) (holdsOther : s.Holds other) (distinct : block ≠ other) :
    Disjoint (block.bytes slabs) (other.bytes slabs) := by
  rw [Set.disjoint_left]
  intro a inside insideOther
  obtain ⟨u, unit, bytes⟩ := sound.block_unit holds inside
  obtain ⟨v, unitOther, bytesOther⟩ := sound.block_unit holdsOther insideOther
  have same : u = v := by
    by_contra apart
    exact Set.disjoint_left.mp (unitBytes_disjoint apart) bytes bytesOther
  subst same
  -- one owner holds the unit, so both blocks are slices or both are objects of one slab
  have owner := sound.apart.eq_of_mem unit unitOther
  cases block with
  | slice entry =>
    cases other with
    | slice entry' =>
      obtain ⟨k, j, isBlock⟩ := sound.separate.blocks entry holds
      obtain ⟨l, m, isBlock'⟩ := sound.separate.blocks entry' holdsOther
      have entries : entry ≠ entry' := fun equal => distinct (equal ▸ rfl)
      have symmetric : Std.Symm (BuddyRuns.Apart kernel.pool) := ⟨fun _ _ apart => apart.symm⟩
      have apart := sound.separate.apart.forall holds holdsOther entries
      obtain ⟨w, covers, member⟩ := slice_bytes isBlock inside.1 inside.2
      obtain ⟨w', covers', member'⟩ := slice_bytes isBlock' insideOther.1 insideOther.2
      have equal : w = w' := by
        by_contra other
        exact Set.disjoint_left.mp (unitBytes_disjoint other) member member'
      exact apart w covers (equal ▸ covers')
    | object i ptr => cases owner
  | object i ptr =>
    cases other with
    | slice entry => cases owner
    | object j ptr' =>
      obtain rfl := Owner.slab.inj owner
      have pointers : ptr' ≠ ptr := fun equal => distinct (equal ▸ rfl)
      obtain ⟨slot, _⟩ := object_bytes (sound.books i) holds inside
      obtain ⟨_, away⟩ := other_object (sound.books i) holds holdsOther pointers insideOther
      omega

/-- A byte is written in a live block. -/
private theorem Sound.write (sound : Sound kernel slabs s pages tables) {block : Block κ} {a : ℕ}
    (holds : s.Holds block)
    (inside : a ∈ block.bytes slabs) (byte : BitVec 8) :
    Sound kernel slabs (s.withBuddy { s.buddy with memory := Function.update s.buddy.memory a byte }) pages tables := by
  obtain ⟨u, unit, bytes⟩ := sound.block_unit holds inside
  have outside := sound.not_metadata holds inside
  have keeps : Keeps kernel.pool { s.buddy with memory := Function.update s.buddy.memory a byte }
      (Shares.total (share kernel.pool s.slices pages tables)) := by
    refine sound.keeps.write fun address metadata => Function.update_of_ne ?_ _ _
    rintro rfl
    exact outside metadata
  refine ⟨sound.apart, keeps, sound.separate, fun j => ?_, sound.inside, ?_⟩
  · -- the byte lies in a payload of this slab, or in no page of it
    have enabled : SlabRuns.Enabled ⟨s.slabs j, s.buddy.memory, pages j, s.objects j⟩ (.write a byte) := by
      by_cases own : block.owner = .slab j
      · cases block with
        | slice entry => cases own
        | object i ptr =>
          obtain rfl := Owner.slab.inj own
          obtain ⟨⟨list, shape⟩, _⟩ := holds_iff.mp (sound.books i)
          refine .inl ⟨ptr, holds, inside.1, ?_⟩
          dsimp only
          rw [shape]
          exact inside.2
      · refine .inr fun page owns => ?_
        by_contra meets
        obtain ⟨v, member, bytes', _⟩ := sound.page_bytes (a := a) owns (by omega) (by omega)
        have same : u = v := by
          by_contra apart
          exact Set.disjoint_left.mp (unitBytes_disjoint apart) bytes bytes'
        subst same
        exact own (sound.apart.eq_of_mem unit (show u ∈ share kernel.pool s.slices pages tables (.slab j) from member))
    obtain ⟨t, ran, kept⟩ := (sound.books j).step enabled
    cases ran
    exact kept
  · exact sound.mappings_beside (sound.apart.others_disjoint .tables) (Shares.total_eq _ Owner.tables ▸ keeps)

/-! ### The start -/

private theorem initial_sound (kernel : Booted) {slabs : κ → SlabAllocator} (accepted : Accepted slabs) :
    Sound kernel slabs (initial kernel.meminfo slabs) (fun _ => []) fun _ => none := by
  have own (owner : Owner κ) : share kernel.pool [] (fun _ => []) (fun _ => none) owner = ∅ := by
    refine Set.eq_empty_of_forall_notMem fun u member => ?_
    cases owner with
    | slices =>
      obtain ⟨entry, live, _⟩ := member
      cases live
    | slab i => cases member
    | tables =>
      obtain ⟨_, registered⟩ := member
      cases registered
  have total : Shares.total (share kernel.pool [] (fun _ : κ => []) fun _ => none) = ∅ := by
    simp only [Shares.total, own, Set.iUnion_empty]
  have others : Shares.others (share kernel.pool [] (fun _ : κ => []) fun _ => none) .tables = ∅ := by
    simp only [Shares.others, own, Set.iUnion_empty]
  have unused : held (fun _ => none) = ∅ := by
    refine Set.eq_empty_of_forall_notMem fun table member => ?_
    obtain ⟨_, registered⟩ := member
    cases registered
  refine ⟨fun i j _ => ?_, ?_, ⟨fun _ live => absurd live List.not_mem_nil, .nil⟩, fun i => ?_,
    fun _ _ member => absurd member List.not_mem_nil, ?_, MmioRuns.initial_sound _, ?_⟩
  · dsimp only [initial]
    rw [own, own]
    exact Set.disjoint_empty _
  · exact total ▸ kernel.fresh
  · obtain ⟨raw, size, k, init⟩ := accepted i
    exact SlabRuns.holds_of_accepted init .nil
  · refine PageTables.Starts.sound ⟨rfl, ?_, rfl⟩
    refine ⟨∅, Set.image_empty _ |>.symm, Set.disjoint_empty _, ?_⟩
    dsimp only [initial]
    rw [others, Set.union_empty]
    exact kernel.fresh
  · exact fun _ live => absurd live List.not_mem_nil

/-! ### Every call -/

/-- The block is still held and holds the same bytes. -/
structure Kept (slabs : κ → SlabAllocator) (s t : State κ) (block : Block κ) : Prop where
  held : t.Holds block
  bytes : ∀ a ∈ block.bytes slabs, t.buddy.memory a = s.buddy.memory a

/-- The event gives the block back, or writes to it. -/
def Touches (slabs : κ → SlabAllocator) : Event κ → Block κ → Prop
  | .dealloc entry _ _, .slice other => entry = other
  | .slabDealloc i ptr, .object j other => i = j ∧ ptr = other
  | .write address _, block => address ∈ block.bytes slabs
  | _, _ => False

/-- The faults with which an allowed call may stop. -/
def OutOfRoom : Event κ → Fault → Prop
  | .map _ _, fault => MapFault fault
  | .unmap _ _ _, fault => UnmapFault fault
  | _, _ => False

private theorem Sound.spared (sound : Sound kernel slabs s pages tables) {block : Block κ} (holds : s.Holds block)
    (spares : Spares kernel.pool s.buddy buddy) : ∀ a ∈ block.bytes slabs, buddy.memory a = s.buddy.memory a :=
  fun a inside => spares a (sound.not_metadata holds inside)

/-- What one slab writes is in no block of another owner. -/
private theorem Sound.slab_spared (sound : Sound kernel slabs s pages tables) {own objects : List ℕ} {block : Block κ}
    (spares : SlabSpares (slabs i) kernel.pool s.buddy buddy own objects) (holds : s.Holds block)
    (mine : ∀ ptr, block = .object i ptr → ptr ∈ objects)
    (fresh : ∀ u ∈ pageUnits kernel.pool own, ∀ owner, owner ≠ .slab i →
      u ∉ share kernel.pool s.slices pages tables owner) :
    ∀ a ∈ block.bytes slabs, buddy.memory a = s.buddy.memory a := by
  intro a inside
  by_cases owner : block.owner = .slab i
  · cases block with
    | slice entry => cases owner
    | object j ptr =>
      obtain rfl := Owner.slab.inj owner
      exact spares.objects ptr (mine ptr rfl) a inside
  · obtain ⟨u, unit, bytes⟩ := sound.block_unit holds inside
    refine spares.outside a (sound.not_metadata holds inside) fun v member bytes' => ?_
    have same : v = u := by
      by_contra apart
      exact Set.disjoint_left.mp (unitBytes_disjoint apart) bytes' bytes
    subst same
    exact fresh v member _ owner unit

variable [DecidableEq κ]

private theorem Sound.step_alloc (sound : Sound kernel slabs s pages tables) {len : ℕ}
    (enabled : Enabled slabs s (.alloc len)) :
    ∃ t, exec kernel.gPagetable kernel.mmapDyn s (.alloc len) = .ok t ∧ Sound kernel slabs t pages tables ∧
      ∀ block, s.Holds block → Kept slabs s t block := by
  obtain ⟨slice, buddy, ran, spares, answer⟩ := sound.slicesOwned.alloc kernel.layout enabled.1 enabled.2
  refine ⟨_, exec_alloc _ _ ran, ?_, fun block holds => ⟨?_, sound.spared holds spares⟩⟩
  · rcases answer with ⟨rfl, rfl⟩ | ⟨nonnull, _, owned⟩
    · exact sound.change_slices sound.slicesOwned spares
    · rw [if_neg nonnull]
      exact sound.change_slices owned spares
  · cases block with
    | slice entry =>
      change entry ∈ ite _ _ _
      split_ifs
      · exact holds
      · exact .tail _ holds
    | object i ptr => exact holds

private theorem Sound.step_dealloc (sound : Sound kernel slabs s pages tables) {entry : BuddyRuns.Live} {addr len : ℕ}
    (enabled : Enabled slabs s (.dealloc entry addr len)) :
    ∃ t, exec kernel.gPagetable kernel.mmapDyn s (.dealloc entry addr len) = .ok t ∧ Sound kernel slabs t pages tables ∧
      ∀ block, s.Holds block → ¬ Touches slabs (.dealloc entry addr len) block → Kept slabs s t block := by
  obtain ⟨buddy, ran, spares, owned⟩ := sound.slicesOwned.dealloc kernel.layout enabled.1 enabled.2
  have returned : exec kernel.gPagetable kernel.mmapDyn s (.dealloc entry addr len) =
      .ok { s.withBuddy buddy with slices := s.slices.erase entry } := by
    rw [exec, ran, Except.ok_bind]
    rfl
  refine ⟨_, returned, sound.change_slices owned spares, fun block holds untouched => ⟨?_, sound.spared holds spares⟩⟩
  cases block with
  | slice other => exact (List.mem_erase_of_ne fun same => untouched same.symm).mpr holds
  | object i ptr => exact holds

private theorem Sound.step_slabAlloc (sound : Sound kernel slabs s pages tables) (i : κ) :
    ∃ t pages', exec kernel.gPagetable kernel.mmapDyn s (.slabAlloc i) = .ok t ∧ Sound kernel slabs t pages' tables ∧
      ∀ block, s.Holds block → Kept slabs s t block := by
  obtain ⟨ptr, now, buddy, own, ran, owned, spares, _⟩ := (sound.slabOwned i).alloc kernel.layout
  have changed := sound.change_slab owned fun a metadata _ away => spares.outside a metadata away
  have returned : exec kernel.gPagetable kernel.mmapDyn s (.slabAlloc i) = .ok { s.withBuddy buddy with
      slabs := Function.update s.slabs i now,
      objects := Function.update s.objects i (if ptr = 0 then s.objects i else ptr :: s.objects i) } := by
    rw [exec, ran, Except.ok_bind]
    rfl
  refine ⟨_, Function.update pages i own, returned, changed, fun block holds => ⟨?_, ?_⟩⟩
  · cases block with
    | slice entry => exact holds
    | object j other =>
      change other ∈ Function.update s.objects i _ j
      rcases eq_or_ne j i with rfl | distinct
      · rw [Function.update_self]
        split_ifs
        · exact holds
        · exact .tail _ holds
      · rw [Function.update_of_ne distinct]
        exact holds
  · refine sound.slab_spared spares holds (fun other same => ?_) fun u member owner other unit => ?_
    · rw [same] at holds
      exact holds
    · refine Set.disjoint_left.mp owned.apart (Shares.mem_others.mpr ⟨owner, other, unit⟩) member

private theorem Sound.step_slabDealloc (sound : Sound kernel slabs s pages tables) {ptr : ℕ}
    (enabled : Enabled slabs s (.slabDealloc i ptr)) :
    ∃ t pages', exec kernel.gPagetable kernel.mmapDyn s (.slabDealloc i ptr) = .ok t ∧ Sound kernel slabs t pages' tables ∧
      ∀ block, s.Holds block → ¬ Touches slabs (.slabDealloc i ptr) block → Kept slabs s t block := by
  obtain ⟨now, buddy, own, ran, owned, spares⟩ := (sound.slabOwned i).dealloc kernel.layout enabled
  have changed := sound.change_slab owned fun a metadata away _ => spares.outside a metadata away
  have distinct := (sound.books i).sound.live
  have returned : exec kernel.gPagetable kernel.mmapDyn s (.slabDealloc i ptr) = .ok { s.withBuddy buddy with
      slabs := Function.update s.slabs i now, objects := Function.update s.objects i ((s.objects i).erase ptr) } := by
    rw [exec, ran, Except.ok_bind]
    rfl
  refine ⟨_, Function.update pages i own, returned, changed, fun block holds untouched => ⟨?_, ?_⟩⟩
  · cases block with
    | slice entry => exact holds
    | object j other =>
      change other ∈ Function.update s.objects i _ j
      rcases eq_or_ne j i with rfl | apart
      · rw [Function.update_self]
        exact (List.mem_erase_of_ne fun same => untouched ⟨rfl, same.symm⟩).mpr holds
      · rw [Function.update_of_ne apart]
        exact holds
  · refine sound.slab_spared spares holds (fun other same => ?_) fun u member owner other unit => ?_
    · subst same
      exact (List.mem_erase_of_ne fun same => untouched ⟨rfl, same.symm⟩).mpr holds
    · exact Set.disjoint_left.mp (sound.apart.disjoint other) unit member

/-- Every allowed call returns, unless a device mapping finds no room, and leaves every block alone
that it does not give back or write to. -/
theorem Sound.step (sound : Sound kernel slabs s pages tables) {e : Event κ} (enabled : Enabled slabs s e) :
    (∃ fault, OutOfRoom e fault ∧ exec kernel.gPagetable kernel.mmapDyn s e = .error fault) ∨
    ∃ t pages' tables', exec kernel.gPagetable kernel.mmapDyn s e = .ok t ∧ Sound kernel slabs t pages' tables' ∧
      ∀ block, s.Holds block → ¬ Touches slabs e block → Kept slabs s t block := by
  cases e with
  | alloc len =>
    obtain ⟨t, ran, after, kept⟩ := sound.step_alloc enabled
    exact .inr ⟨t, pages, tables, ran, after, fun block holds _ => kept block holds⟩
  | dealloc entry addr len =>
    obtain ⟨t, ran, after, kept⟩ := sound.step_dealloc enabled
    exact .inr ⟨t, pages, tables, ran, after, kept⟩
  | slabAlloc i =>
    obtain ⟨t, pages', ran, after, kept⟩ := sound.step_slabAlloc i
    exact .inr ⟨t, pages', tables, ran, after, fun block holds _ => kept block holds⟩
  | slabDealloc i ptr =>
    obtain ⟨t, pages', ran, after, kept⟩ := sound.step_slabDealloc enabled
    exact .inr ⟨t, pages', tables, ran, after, kept⟩
  | map beginPhys endPhys =>
    obtain ⟨nonempty, small, fits⟩ := enabled
    rcases sound.mappings.alloc nonempty small fits with ⟨fault, reason, failed⟩ | ⟨begin, meminfo, tables', ran, mapped⟩
    · exact .inl ⟨fault, reason, by rw [exec]; exact congrArg (· >>= _) failed⟩
    · obtain ⟨after, spares⟩ := sound.change_mappings mapped
      refine .inr ⟨_, pages, tables', ?_, after, fun block holds _ => ⟨?_, sound.spared holds spares⟩⟩
      · rw [exec]
        exact congrArg (· >>= _) ran
      · cases block with
        | slice entry => exact holds
        | object i ptr => exact holds
  | unmap range beginVirt endVirt =>
    rcases sound.mappings.dealloc enabled.1 enabled.2 with ⟨fault, reason, failed⟩ | ⟨meminfo, tables', ran, mapped⟩
    · exact .inl ⟨fault, reason, by rw [exec]; exact congrArg (· >>= _) failed⟩
    · obtain ⟨after, spares⟩ := sound.change_mappings mapped
      refine .inr ⟨_, pages, tables', ?_, after, fun block holds _ => ⟨?_, sound.spared holds spares⟩⟩
      · rw [exec]
        exact congrArg (· >>= _) ran
      · cases block with
        | slice entry => exact holds
        | object i ptr => exact holds
  | write address byte =>
    obtain ⟨owner, holds, inside⟩ := enabled
    refine .inr ⟨_, pages, tables, rfl, sound.write holds inside byte, fun block other untouched => ⟨?_, fun a member => ?_⟩⟩
    · cases block with
      | slice entry => exact other
      | object i ptr => exact other
    · refine Function.update_of_ne ?_ _ _
      rintro rfl
      exact untouched member

/-! ### Runs -/

theorem run_sound (accepted : Accepted slabs) {es : List (Event κ)}
    (run : Run (Steps kernel.gPagetable kernel.mmapDyn slabs) (initial kernel.meminfo slabs) es t) :
    ∃ pages tables, Sound kernel slabs t pages tables := by
  refine run.invariant (I := fun t => ∃ pages tables, Sound kernel slabs t pages tables)
    ⟨_, _, initial_sound kernel accepted⟩ ?_
  rintro s e u ⟨pages, tables, sound⟩ ⟨enabled, ran⟩
  rcases sound.step enabled with ⟨fault, _, failed⟩ | ⟨t, pages', tables', returned, after, _⟩
  · rw [failed] at ran
    cases ran
  · obtain rfl := Except.ok.inj (returned.symm.trans ran)
    exact ⟨pages', tables', after⟩

/-- A block that a run neither gives back nor writes to stays as it is. -/
theorem Sound.untouched (sound : Sound kernel slabs s pages tables) {es : List (Event κ)} {block : Block κ}
    (holds : s.Holds block) (run : Run (Steps kernel.gPagetable kernel.mmapDyn slabs) s es t)
    (spares : ∀ e ∈ es, ¬ Touches slabs e block) :
    (∃ pages tables, Sound kernel slabs t pages tables) ∧ Kept slabs s t block := by
  induction run with
  | nil => exact ⟨⟨pages, tables, sound⟩, holds, fun _ _ => rfl⟩
  | snoc _ last ih =>
    obtain ⟨⟨pages, tables, before⟩, kept⟩ := ih fun e member => spares e (List.mem_append_left _ member)
    obtain ⟨enabled, ran⟩ := last
    rcases before.step enabled with ⟨fault, _, failed⟩ | ⟨u, pages', tables', returned, after, rest⟩
    · rw [failed] at ran
      cases ran
    · obtain rfl := Except.ok.inj (returned.symm.trans ran)
      obtain ⟨still, bytes⟩ := rest block kept.held (spares _ (List.mem_append_right _ (List.mem_singleton_self _)))
      exact ⟨⟨pages', tables', after⟩, still, fun a inside => (bytes a inside).trans (kept.bytes a inside)⟩

end Invariant

/-! ## Behind the addresses -/

section Translations

variable {kernel : Booted} {slabs : κ → SlabAllocator} {s : State κ} {pages : κ → List ℕ} {tables : Registry}

/-- Memory of the pool lies in the window, outside the device mappings. -/
theorem Booted.unit_address (kernel : Booted) {u a : ℕ} (inside : u < kernel.pool.units) (member : a ∈ unitBytes kernel.pool u) :
    Canonical a ∧ ¬ InIomap a ∧ ∃ i < PAGE_SIZE, a = unitPage kernel.pool u + i := by
  have upper := kernel.upper
  have half := kernel.half
  have last : (u + 1) * PAGE_SIZE ≤ kernel.pool.units * PAGE_SIZE := Nat.mul_le_mul_right _ inside
  obtain ⟨low, high⟩ := member
  refine ⟨.inl ?_, ?_, a - unitPage kernel.pool u, ?_, ?_⟩
  · simp only [unitPage, PAGE_SIZE] at *
    omega
  · simp only [InIomap, unitPage, PAGE_SIZE, IOMAP_START_VIRT] at *
    omega
  · omega
  · omega

/-- Whatever is mapped, the window over dynamic memory shows the same pages. -/
theorem Sound.translate_unit (sound : Sound kernel slabs s pages tables) {u a : ℕ} (inside : u < kernel.pool.units)
    (member : a ∈ unitBytes kernel.pool u) :
    translateVirt s.meminfo.tables.frames (virtToPhysKernel kernel.gPagetable) a =
      some (frameOf kernel.mmapDyn (unitPage kernel.pool u) + (a - unitPage kernel.pool u)) := by
  obtain ⟨canonical, outside, i, small, rfl⟩ := kernel.unit_address inside member
  have walked := sound.mappings.tables.shape.walk_elsewhere canonical outside
  have shown := kernel.translated u inside i small
  rw [translateVirt] at shown
  rw [translateVirt, show walk s.meminfo.tables.frames (virtToPhysKernel kernel.gPagetable) _ = _ from walked, Nat.add_sub_cancel_left]
  exact shown

theorem Booted.dynPage (kernel : Booted) {u : ℕ} (inside : u < kernel.pool.units) :
    DynPage kernel.mmapDyn (unitPage kernel.pool u) :=
  dynPage_unit kernel.layout kernel.lower kernel.upper inside

/-- No walk reads the page behind a unit that holds no table of a device mapping. -/
theorem Sound.cell_apart (sound : Sound kernel slabs s pages tables) {u virt : ℕ} (inside : u < kernel.pool.units)
    (free : unitPage kernel.pool u ∉ held tables) (canonical : Canonical virt) :
    ∀ cell ∈ walkCells s.meminfo.tables.frames virt 3 (virtToPhysKernel kernel.gPagetable),
      cell.1 ≠ frameOf kernel.mmapDyn (unitPage kernel.pool u) := by
  intro cell member same
  have shape := sound.mappings.tables.shape
  obtain ⟨reaches, _, high⟩ := (kernel.dynPage inside).reaches kernel.map
  by_cases window : InIomap virt
  · obtain ⟨page, offset, small, within, rfl⟩ := PageTables.exists_page window
    rcases shape.walkCells_window small within cell member with root | pdpt | ⟨table, used, frame⟩
    · have low := (kernel.rootPage.reaches kernel.map).2
      have image : cell.1 = virtToPhysKernel kernel.gPagetable := root
      omega
    · have low := (kernel.pdptPage.reaches kernel.map).2
      have image : cell.1 = virtToPhysKernel kernel.pdpt := pdpt.trans KernelPages.pdpt_frame
      omega
    · have own := (shape.own used.choose_spec).reaches
      have page : frameOf kernel.mmapDyn (unitPage kernel.pool u) = KernelPages.frame _ table := same.symm.trans frame
      rw [page] at reaches
      exact free (reaches.injective own ▸ used)
  · have cells := shape.walkCells_elsewhere canonical window
    have early : cell ∈ walkCells kernel.boot virt 3 (virtToPhysKernel kernel.gPagetable) := cells ▸ member
    exact (kernel.elsewhere virt canonical window cell early).2 u inside same.symm

/-- The unit behind a byte of a live block. -/
theorem Sound.block_page (sound : Sound kernel slabs s pages tables) {block : Block κ} {a : ℕ} (holds : s.Holds block)
    (member : a ∈ block.bytes slabs) : ∃ u < kernel.pool.units, a ∈ unitBytes kernel.pool u ∧
      unitPage kernel.pool u ∉ held tables := by
  obtain ⟨u, unit, bytes⟩ := sound.block_unit holds member
  refine ⟨u, sound.keeps.inside (Shares.mem_total.mpr ⟨_, unit⟩), bytes, fun used => ?_⟩
  have owner := sound.apart.eq_of_mem unit (show u ∈ share kernel.pool s.slices pages tables .tables from used)
  cases block with
  | slice entry => cases owner
  | object i ptr => cases owner

/-- Different bytes of the pool are different bytes of memory. -/
theorem Booted.frame_injective (kernel : Booted) {u v i j : ℕ} (inside : u < kernel.pool.units)
    (insideOther : v < kernel.pool.units) (small : i < PAGE_SIZE) (smallOther : j < PAGE_SIZE)
    (same : frameOf kernel.mmapDyn (unitPage kernel.pool u) + i = frameOf kernel.mmapDyn (unitPage kernel.pool v) + j) :
    unitPage kernel.pool u + i = unitPage kernel.pool v + j := by
  have reaches := ((kernel.dynPage inside).reaches kernel.map).1
  have reachesOther := ((kernel.dynPage insideOther).reaches kernel.map).1
  have aligned := reaches.aligned
  have alignedOther := reachesOther.aligned
  have frame : frameOf kernel.mmapDyn (unitPage kernel.pool u) = frameOf kernel.mmapDyn (unitPage kernel.pool v) := by
    simp only [PAGE_SIZE] at aligned alignedOther small smallOther
    omega
  rw [frame] at reaches same
  rw [reaches.injective reachesOther, Nat.add_left_cancel same]

end Translations

end Runs

end RubberOS.Soundness.KernelMemory
