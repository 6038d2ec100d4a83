import RubberOS.Proofs.PageFrames

/-! # The tables below the device mapping window

The window lies under one entry of the root, whose table is part of the kernel image and never
released. The directories and the tables below it come from dynamic memory. A registry says which
page holds which of them; `Shape` ties it to the entries in memory, and says that nothing but these
tables has changed since the start.
-/

namespace RubberOS.Model.PageTable

open Buddy MemoryMap Mmio Dynmem

/-- The cells that a walk reads. -/
def walkCells (frames : ℕ → ℕ → ℕ) (virt : ℕ) : ℕ → ℕ → List (ℕ × ℕ)
  | 0, table => [(table, tableIndex 0 virt)]
  | level + 1, table =>
    let entry := frames table (tableIndex (level + 1) virt)
    (table, tableIndex (level + 1) virt) ::
      if isPresent entry && !isHuge entry then walkCells frames virt level (entry &&& PAGE_MASK_ADDR) else []

/-- A walk depends on the cells it reads only. -/
theorem walkFrom_congr {frames after : ℕ → ℕ → ℕ} {virt level table : ℕ}
    (same : ∀ cell ∈ walkCells frames virt level table, after cell.1 cell.2 = frames cell.1 cell.2) :
    walkFrom after virt level table = walkFrom frames virt level table := by
  induction level generalizing table with
  | zero =>
    have first := same (table, tableIndex 0 virt) (List.mem_singleton_self _)
    rw [walkFrom, walkFrom, first]
  | succ level ih =>
    have first := same (table, tableIndex (level + 1) virt) List.mem_cons_self
    rw [walkFrom, walkFrom, first]
    dsimp only
    cases present : isPresent (frames table (tableIndex (level + 1) virt)) with
    | false => rfl
    | true =>
      cases huge : isHuge (frames table (tableIndex (level + 1) virt)) with
      | true => rfl
      | false =>
        apply ih
        intro cell member
        apply same
        rw [walkCells, present, huge]
        exact List.mem_cons_of_mem _ member

/-- So do the cells themselves. -/
theorem walkCells_congr {frames after : ℕ → ℕ → ℕ} {virt level table : ℕ}
    (same : ∀ cell ∈ walkCells frames virt level table, after cell.1 cell.2 = frames cell.1 cell.2) :
    walkCells after virt level table = walkCells frames virt level table := by
  induction level generalizing table with
  | zero => rfl
  | succ level ih =>
    have first := same (table, tableIndex (level + 1) virt) List.mem_cons_self
    rw [walkCells, walkCells, first]
    dsimp only
    split_ifs with leads
    · congr 1
      apply ih
      intro cell member
      apply same
      rw [walkCells, if_pos leads]
      exact List.mem_cons_of_mem _ member
    · rfl

/-- Addresses that the processor accepts. -/
def Canonical (virt : ℕ) : Prop := virt < 2 ^ 47 ∨ 2 ^ 64 - 2 ^ 47 ≤ virt ∧ virt < 2 ^ 64

/-- The address lies in the device mapping window. -/
def InIomap (virt : ℕ) : Prop := IOMAP_START_VIRT ≤ virt ∧ virt < IOMAP_START_VIRT + IOMAP_VIRT_SIZE

/-- What the page tables rely on from `dynmem_alloc_nolock` and `dynmem_dealloc_nolock`: `Owned` says
which pages of the pool they hold. A null answer means that no page was left. -/
structure Supply (pool : Set ℕ) (Owned : BuddyBlocks → Set ℕ → Prop) : Prop where
  inside {buddy : BuddyBlocks} {held : Set ℕ} : Owned buddy held → held ⊆ pool
  alloc {buddy : BuddyBlocks} {held : Set ℕ} : Owned buddy held →
    ∃ slice after, dynmemAlloc buddy PAGE_SIZE = .ok (slice, after) ∧
      (slice.ptr = 0 ∨ slice.ptr ∉ held ∧ Owned after (insert slice.ptr held))
  dealloc {buddy : BuddyBlocks} {held : Set ℕ} {table : ℕ} : Owned buddy held → table ∈ held →
    ∃ after, dynmemDealloc buddy table PAGE_SIZE = .ok after ∧ Owned after (held \ {table})
  used {buddy other : BuddyBlocks} {held : Set ℕ} : Owned buddy held → Owned other held → buddy.used = other.used

/-- The kernel when it starts to map devices: the static tables, the memory as `pagetable_construct`
leaves it, and the pool for further tables. No address outside the window is translated through the
window's entries or through a page of the pool. -/
structure KernelPages where
  mmapDyn : Mmap
  gPagetable : ℕ
  pdpt : ℕ
  boot : ℕ → ℕ → ℕ
  pool : Set ℕ
  Owned : BuddyBlocks → Set ℕ → Prop
  map : PhysicalMap mmapDyn
  rootPage : ImagePage gPagetable
  pdptPage : ImagePage pdpt
  distinct : gPagetable ≠ pdpt
  pages : ∀ table ∈ pool, DynPage mmapDyn table
  supply : Supply pool Owned
  link : boot (virtToPhysKernel gPagetable) 511 = virtToPhysKernel pdpt ||| KERNEL_PAGE_FLAG
  vacant : ∀ i < 508, isPresent (boot (virtToPhysKernel pdpt) i) = false
  elsewhere : ∀ virt, Canonical virt → ¬ InIomap virt →
    ∀ cell ∈ walkCells boot virt 3 (virtToPhysKernel gPagetable),
      (cell.1 = virtToPhysKernel pdpt → 508 ≤ cell.2) ∧ ∀ table ∈ pool, frameOf mmapDyn table ≠ cell.1

namespace KernelPages

variable (kernel : KernelPages)

def frame (table : ℕ) : ℕ := frameOf kernel.mmapDyn table

/-- The physical address of `g_pagetable`. -/
def root : ℕ := virtToPhysKernel kernel.gPagetable

/-- The cells that the two functions may write. -/
def Writable (frame index : ℕ) : Prop :=
  frame = kernel.frame kernel.pdpt ∧ index < 508 ∨ ∃ table ∈ kernel.pool, kernel.frame table = frame

/-- The tables whose entries the two functions may write. -/
def Table (table : ℕ) : Prop := table = kernel.pdpt ∨ table ∈ kernel.pool

variable {kernel} {table other : ℕ}

theorem pdpt_frame : kernel.frame kernel.pdpt = virtToPhysKernel kernel.pdpt :=
  (kernel.pdptPage.reaches kernel.map).1.frameOf

theorem root_reaches : Reaches kernel.mmapDyn kernel.gPagetable kernel.root :=
  (kernel.rootPage.reaches kernel.map).1

theorem Table.reaches (own : kernel.Table table) : Reaches kernel.mmapDyn table (kernel.frame table) := by
  rcases own with rfl | member
  · rw [pdpt_frame]
    exact (kernel.pdptPage.reaches kernel.map).1
  · exact ((kernel.pages table member).reaches kernel.map).1

theorem Table.frame_injective (own : kernel.Table table) (ownOther : kernel.Table other)
    (same : kernel.frame table = kernel.frame other) : table = other :=
  own.reaches.injective (same ▸ ownOther.reaches)

/-- The window's own table is none of the pool's. -/
theorem pdpt_not_pool : kernel.pdpt ∉ kernel.pool := by
  intro member
  have low := (kernel.pdptPage.reaches kernel.map).2
  have high := ((kernel.pages _ member).reaches kernel.map).2.2
  rw [← pdpt_frame] at low
  exact Nat.not_le_of_lt low high

theorem root_not_writable : ¬ kernel.Writable kernel.root 511 := by
  rintro (⟨_, small⟩ | ⟨table, member, same⟩)
  · exact absurd small (by decide)
  · have low := (kernel.rootPage.reaches kernel.map).2
    have high := ((kernel.pages _ member).reaches kernel.map).2.2
    rw [show frameOf kernel.mmapDyn table = kernel.root from same] at high
    exact Nat.not_le_of_lt low high

end KernelPages

/-! ## The registry -/

/-- A table below the window: the directory under an entry of the window's table, or the table under
a directory entry, which are counted through all directories. -/
inductive TableId where
  | directory (i : ℕ)
  | leaf (b : ℕ)
deriving DecidableEq

/-- The index of a table in the table above it. -/
def TableId.slot : TableId → ℕ
  | .directory i => i
  | .leaf b => b % 512

/-- Tables below the window. -/
def TableId.Valid : TableId → Prop
  | .directory i => i < 508
  | .leaf b => b < 508 * 512

abbrev Registry := TableId → Option ℕ

/-- The pages that the registered tables hold. -/
def held (tables : Registry) : Set ℕ := {table | ∃ id, tables id = some table}

theorem valid_directory {page : ℕ} (inside : page < windowPages) : (TableId.directory (page / 512 / 512)).Valid := by
  simp only [TableId.Valid, windowPages, IOMAP_VIRT_SIZE, PAGE_SIZE] at *
  omega

theorem valid_leaf {page : ℕ} (inside : page < windowPages) : (TableId.leaf (page / 512)).Valid := by
  simp only [TableId.Valid, windowPages, IOMAP_VIRT_SIZE, PAGE_SIZE] at *
  omega

/-- A registry in which every table has a page of its own and lies in a registered directory. -/
structure Registered (tables : Registry) : Prop where
  valid : ∀ id table, tables id = some table → id.Valid
  distinct : ∀ id other table, tables id = some table → tables other = some table → id = other
  grounded : ∀ b table, tables (.leaf b) = some table → ∃ directory, tables (.directory (b / 512)) = some directory

section Registries

variable {tables : Registry} {id : TableId} {table : ℕ}

/-- No table lies in a directory that has no page. -/
theorem Registered.childless (registry : Registered tables) {b : ℕ} (vacant : tables (.directory (b / 512)) = none) :
    tables (.leaf b) = none := by
  rw [Option.eq_none_iff_forall_not_mem]
  intro table registered
  obtain ⟨directory, found⟩ := registry.grounded b table registered
  exact absurd (found.symm.trans vacant) (Option.some_ne_none _)

theorem held_grow (vacant : tables id = none) :
    held (Function.update tables id (some table)) = insert table (held tables) := by
  ext other
  constructor
  · rintro ⟨id', registered⟩
    by_cases same : id' = id
    · rw [same, Function.update_self] at registered
      exact .inl (Option.some.inj registered).symm
    · rw [Function.update_of_ne same] at registered
      exact .inr ⟨id', registered⟩
  · rintro (rfl | ⟨id', registered⟩)
    · exact ⟨id, Function.update_self _ _ _⟩
    · have apart : id' ≠ id := by
        rintro rfl
        exact absurd (vacant.symm.trans registered) nofun
      exact ⟨id', by rw [Function.update_of_ne apart, registered]⟩

/-- A page that holds no table yet may hold another one. -/
theorem Registered.grow (registry : Registered tables) (valid : id.Valid) (fresh : table ∉ held tables)
    (grounded : ∀ b, id = .leaf b → ∃ directory, tables (.directory (b / 512)) = some directory) :
    Registered (Function.update tables id (some table)) where
  valid id' other registered := by
    by_cases same : id' = id
    · exact same ▸ valid
    · rw [Function.update_of_ne same] at registered
      exact registry.valid id' other registered
  distinct id₁ id₂ other first second := by
    by_cases same₁ : id₁ = id <;> by_cases same₂ : id₂ = id
    · rw [same₁, same₂]
    · rw [same₁, Function.update_self] at first
      rw [Function.update_of_ne same₂, ← first] at second
      exact (fresh ⟨id₂, second⟩).elim
    · rw [same₂, Function.update_self] at second
      rw [Function.update_of_ne same₁, ← second] at first
      exact (fresh ⟨id₁, first⟩).elim
    · rw [Function.update_of_ne same₁] at first
      rw [Function.update_of_ne same₂] at second
      exact registry.distinct id₁ id₂ other first second
  grounded b other registered := by
    have old : ∃ directory, tables (.directory (b / 512)) = some directory := by
      by_cases leaf : TableId.leaf b = id
      · exact grounded b leaf.symm
      · rw [Function.update_of_ne leaf] at registered
        exact registry.grounded b other registered
    by_cases same : TableId.directory (b / 512) = id
    · exact ⟨table, by rw [same, Function.update_self]⟩
    · rwa [Function.update_of_ne same]

theorem held_release (registry : Registered tables) (registered : tables id = some table) :
    held (Function.update tables id none) = held tables \ {table} := by
  ext other
  constructor
  · rintro ⟨id', found⟩
    by_cases same : id' = id
    · rw [same, Function.update_self] at found
      exact absurd found nofun
    · rw [Function.update_of_ne same] at found
      refine ⟨⟨id', found⟩, fun equal => same ?_⟩
      exact registry.distinct id' id other found (equal ▸ registered)
  · rintro ⟨⟨id', found⟩, apart⟩
    have other' : id' ≠ id := by
      rintro rfl
      exact apart (Option.some.inj (found.symm.trans registered))
    exact ⟨id', by rw [Function.update_of_ne other', found]⟩

/-- A table may go when no table lies below it. -/
theorem Registered.release (registry : Registered tables)
    (childless : ∀ b, id = .directory (b / 512) → tables (.leaf b) = none) :
    Registered (Function.update tables id none) where
  valid id' other registered := by
    by_cases same : id' = id
    · rw [same, Function.update_self] at registered
      exact absurd registered nofun
    · rw [Function.update_of_ne same] at registered
      exact registry.valid id' other registered
  distinct id₁ id₂ other first second := by
    by_cases same₁ : id₁ = id
    · rw [same₁, Function.update_self] at first
      exact absurd first nofun
    · by_cases same₂ : id₂ = id
      · rw [same₂, Function.update_self] at second
        exact absurd second nofun
      · rw [Function.update_of_ne same₁] at first
        rw [Function.update_of_ne same₂] at second
        exact registry.distinct id₁ id₂ other first second
  grounded b other registered := by
    by_cases leaf : TableId.leaf b = id
    · rw [leaf, Function.update_self] at registered
      exact absurd registered nofun
    · rw [Function.update_of_ne leaf] at registered
      have apart : TableId.directory (b / 512) ≠ id := fun same =>
        absurd ((childless b same.symm).symm.trans registered) nofun
      rw [Function.update_of_ne apart]
      exact registry.grounded b other registered

end Registries

namespace KernelPages

variable (kernel : KernelPages)

/-- The table above a table. -/
def upper (tables : Registry) : TableId → Option ℕ
  | .directory _ => some kernel.pdpt
  | .leaf b => tables (.directory (b / 512))

/-- The entry leads to the table. -/
structure PointsTo (entry table : ℕ) : Prop where
  present : isPresent entry = true
  small : isHuge entry = false
  address : entry &&& PAGE_MASK_ADDR = kernel.frame table

/-- What the entry for a table says: where the table is, or that there is none. A directory entry
without a table may itself map a whole block. -/
def Linked (id : TableId) (entry : ℕ) : Option ℕ → Prop
  | some table => kernel.PointsTo entry table
  | none => isPresent entry = true → (∃ b, id = .leaf b) ∧ isHuge entry = true

/-- The entries of a table. -/
def read (st : PageMemory) (table index : ℕ) : ℕ := st.frames (kernel.frame table) index

/-- Memory in which these tables are in place. -/
structure Shape (st : PageMemory) (tables : Registry) : Prop where
  registry : Registered tables
  owned : kernel.Owned st.buddy (held tables)
  links : ∀ id, id.Valid → ∀ above, kernel.upper tables id = some above →
    kernel.Linked id (kernel.read st above id.slot) (tables id)
  rest : ∀ frame index, ¬ kernel.Writable frame index → st.frames frame index = kernel.boot frame index

/-- What an entry of the last level or of a directory without a table maps. -/
def leafOf (level entry : ℕ) : Option Leaf := if isPresent entry then some ⟨entry, level⟩ else none

/-- The leaf of a page of the window, read through the registry. -/
def view (st : PageMemory) (tables : Registry) (page : ℕ) : Option Leaf :=
  (tables (.directory (page / 512 / 512))).bind fun directory =>
    match tables (.leaf (page / 512)) with
    | some table => leafOf 0 (kernel.read st table (page % 512))
    | none => leafOf 1 (kernel.read st directory (page / 512 % 512))

section View

variable {kernel} {st : PageMemory} {tables : Registry} {page directory table entry level : ℕ}

theorem leafOf_of_absent (absent : isPresent entry = false) : leafOf level entry = none := by
  rw [leafOf, absent]
  rfl

theorem leafOf_of_present (present : isPresent entry = true) :
    leafOf level entry = some ⟨entry, level⟩ := if_pos present

theorem view_of_none (none : tables (.directory (page / 512 / 512)) = none) :
    kernel.view st tables page = Option.none := by
  rw [view, none, Option.bind_none]

theorem view_of_table (grounded : tables (.directory (page / 512 / 512)) = some directory)
    (registered : tables (.leaf (page / 512)) = some table) :
    kernel.view st tables page = leafOf 0 (kernel.read st table (page % 512)) := by
  rw [view, grounded, Option.bind_some, registered]

theorem view_of_block (grounded : tables (.directory (page / 512 / 512)) = some directory)
    (vacant : tables (.leaf (page / 512)) = none) :
    kernel.view st tables page = leafOf 1 (kernel.read st directory (page / 512 % 512)) := by
  rw [view, grounded, Option.bind_some, vacant]

/-- What a page shows depends on its two tables and on one entry. -/
theorem view_congr {st' : PageMemory} {tables' : Registry}
    (directory : tables' (.directory (page / 512 / 512)) = tables (.directory (page / 512 / 512)))
    (leaf : tables' (.leaf (page / 512)) = tables (.leaf (page / 512)))
    (small : ∀ table, tables (.leaf (page / 512)) = some table →
      kernel.read st' table (page % 512) = kernel.read st table (page % 512))
    (block : ∀ table, tables (.directory (page / 512 / 512)) = some table →
      kernel.read st' table (page / 512 % 512) = kernel.read st table (page / 512 % 512)) :
    kernel.view st' tables' page = kernel.view st tables page := by
  cases found : tables (.directory (page / 512 / 512)) with
  | none => rw [view_of_none found, view_of_none (directory.trans found)]
  | some top =>
    cases registered : tables (.leaf (page / 512)) with
    | some table =>
      rw [view_of_table (directory.trans found) (leaf.trans registered), view_of_table found registered,
        small table registered]
    | none =>
      rw [view_of_block (directory.trans found) (leaf.trans registered), view_of_block found registered, block top found]

end View

end KernelPages

end RubberOS.Model.PageTable
