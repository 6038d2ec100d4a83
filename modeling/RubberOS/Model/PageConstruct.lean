import RubberOS.Model.PageTable

/-! # Construction of the page tables of dynamic memory

`pagetable_construct` maps the pages of the memory map one after the other from `DYNMEM_START_VIRT`
on. Apart from the root, the tables are the first pages of this window themselves: the kernel clears
and fills them through the mapping it has built so far, so a pointer into the window goes through the
processor's walk of the tables as they are at that moment.
-/

namespace RubberOS.Model.PageConstruct

open MemoryMap PageTable

def KSTACK_START_VIRT : ℕ := 0xffffffff8f000000

/-- What the linker and the compiler place: the static tables, the kernel stack and `tmptable` on it. -/
structure KernelLayout where
  gPagetable : ℕ
  pdpt : ℕ
  pdt : ℕ
  kstackStartPhys : ℕ
  tmptable : ℕ

/-- The physical address of `g_pagetable`. -/
def KernelLayout.root (layout : KernelLayout) : ℕ := virtToPhysKernel layout.gPagetable

/-- `tmp_phys`, which is also where the processor finds the kernel stack's `tmptable`. -/
def KernelLayout.tmpPhys (layout : KernelLayout) : ℕ :=
  u64 (sub64 layout.tmptable KSTACK_START_VIRT + layout.kstackStartPhys)

/-- Page table pages by physical address and index. -/
abbrev Frames := ℕ → ℕ → ℕ

def Frames.write (frames : Frames) (frame index entry : ℕ) : Frames :=
  Function.update frames frame (Function.update (frames frame) index entry)

def Frames.clear (frames : Frames) (frame : ℕ) : Frames := Function.update frames frame fun _ => 0

/-- The physical page behind a pointer. The kernel image stays mapped during the construction. -/
def pageBehind (layout : KernelLayout) (frames : Frames) (table : ℕ) : Result ℕ :=
  if table ≥ KERNEL_START_VIRT then .ok (virtToPhysKernel table)
  else
    match translateVirt frames layout.root table with
    | some frame => .ok frame
    | none => .error .pageFault

/-- `(*table)[index] = entry`. -/
def storeEntry (layout : KernelLayout) (table index entry : ℕ) (frames : Frames) : Result Frames := do
  let frame ← pageBehind layout frames table
  return frames.write frame index entry

/-- `memset(table, 0, sizeof(pagetable_t))`. -/
def clearTable (layout : KernelLayout) (table : ℕ) (frames : Frames) : Result Frames := do
  let frame ← pageBehind layout frames table
  return frames.clear frame

/-- `pagetable_construct_kernel`, whose stores go to static tables. -/
def pagetableConstructKernel (layout : KernelLayout) (frames : Frames) : Frames :=
  let pdpt := virtToPhysKernel layout.pdpt
  let pdt := virtToPhysKernel layout.pdt
  let frames := frames.write layout.root 0x1ff (pdpt ||| KERNEL_PAGE_FLAG)
  let frames := frames.write pdpt 0x1fe (pdt ||| KERNEL_PAGE_FLAG)
  let frames := frames.write pdt 0 (KERNEL_START_PHYS ||| PAGE_FLAG_HUGE ||| KERNEL_PAGE_FLAG)
  let frames := frames.write pdt 1 ((KERNEL_START_PHYS + 0x00200000) ||| PAGE_FLAG_HUGE ||| KERNEL_PAGE_FLAG)
  frames.write pdt 0x78 (layout.kstackStartPhys ||| PAGE_FLAG_HUGE ||| KERNEL_PAGE_FLAG)

def pagetableConstructDyn3 (layout : KernelLayout) (pdpt0Phys pdt0Phys pt0Phys : ℕ) (frames : Frames) :
    Result Frames := do
  let tmpPhys := layout.tmpPhys
  let frames ← storeEntry layout layout.gPagetable 1 (tmpPhys ||| KERNEL_PAGE_FLAG) frames
  -- the stores to the kernel stack
  let frames := frames.write tmpPhys 0 (tmpPhys ||| KERNEL_PAGE_FLAG)
  let frames := frames.write tmpPhys 1 (tmpPhys ||| KERNEL_PAGE_FLAG)
  let frames := frames.write tmpPhys 2 (pdpt0Phys ||| KERNEL_PAGE_FLAG)
  let frames := frames.write tmpPhys 3 (pdt0Phys ||| KERNEL_PAGE_FLAG)
  let frames := frames.write tmpPhys 4 (pt0Phys ||| KERNEL_PAGE_FLAG)
  let pdpt0 := 1 <<< 39 ||| 1 <<< 21 ||| 2 <<< 12
  let pdt0 := pdpt0 + PAGE_SIZE
  let pt0 := pdpt0 + 2 * PAGE_SIZE
  let frames ← storeEntry layout layout.gPagetable 0 (pdpt0Phys ||| KERNEL_PAGE_FLAG) frames
  let frames ← storeEntry layout pdpt0 0 (pdt0Phys ||| KERNEL_PAGE_FLAG) frames
  let frames ← storeEntry layout pdt0 1 (pt0Phys ||| KERNEL_PAGE_FLAG) frames
  let frames ← storeEntry layout pt0 0 (pdpt0Phys ||| KERNEL_PAGE_FLAG) frames
  let frames ← storeEntry layout pt0 1 (pdt0Phys ||| KERNEL_PAGE_FLAG) frames
  let frames ← storeEntry layout pt0 2 (pt0Phys ||| KERNEL_PAGE_FLAG) frames
  storeEntry layout layout.gPagetable 1 0 frames

/-! ## The factory -/

/-- `struct dynpage_factory`; a level counts from the root, and its table is the one being filled. -/
structure DynpageFactory where
  nextTable : ℕ
  tables : ℕ → ℕ
  first3 : ℕ → ℕ
  nextIndices : ℕ → ℕ
  metapageCount : ℕ
  first3Index : ℕ

def dynpageFactoryCreate (layout : KernelLayout) : DynpageFactory :=
  let pdpt0 := DYNMEM_START_VIRT
  { nextTable := pdpt0 + 3 * PAGE_SIZE
    tables := fun
      | 0 => layout.gPagetable
      | 1 => pdpt0
      | 2 => pdpt0 + PAGE_SIZE
      | _ => pdpt0 + 2 * PAGE_SIZE
    first3 := fun _ => 0
    nextIndices := fun
      | 0 => 1
      | 1 => 1
      | 2 => 2
      | _ => 3
    metapageCount := 0
    first3Index := 0 }

/-- The store at the end of `dynpage_factory_next_recur`. -/
def appendEntry (layout : KernelLayout) (level addrPhys : ℕ) (factory : DynpageFactory) (frames : Frames) :
    Result (DynpageFactory × Frames) := do
  let index := factory.nextIndices level
  let frames ← storeEntry layout (factory.tables level) index (addrPhys ||| KERNEL_PAGE_FLAG) frames
  return ({ factory with nextIndices := Function.update factory.nextIndices level (u16 (index + 1)) }, frames)

/-- The cleared page that a full level goes on with. -/
def openTable (layout : KernelLayout) (level : ℕ) (factory : DynpageFactory) (frames : Frames) :
    Result (DynpageFactory × Frames) := do
  let next := factory.nextTable
  let frames ← clearTable layout next frames
  let factory :=
    { factory with
      tables := Function.update factory.tables level next
      nextIndices := Function.update factory.nextIndices level 0
      nextTable := u64 (next + PAGE_SIZE)
      metapageCount := u32 (factory.metapageCount + 1) }
  return (factory, frames)

def dynpageFactoryNextRecur (layout : KernelLayout) (mmapDyn : Mmap) :
    ℕ → ℕ → DynpageFactory → Frames → Result (DynpageFactory × Frames)
  | 0, addrPhys, factory, frames => do
    -- past the assertion the root has room
    assertMsg (!(factory.nextIndices 0 ≥ 256)) "dynpage_factory_next_recur() out of bound"
      "!(level == 0 && factory->next_indices[level] >= 256)"
    appendEntry layout 0 addrPhys factory frames
  | level + 1, addrPhys, factory, frames => do
    if factory.nextIndices (level + 1) ≥ PAGETABLE_LENGTH then
      let next := factory.nextTable
      let (factory, frames) ← openTable layout (level + 1) factory frames
      -- the result is kept in a `uint32_t`
      let nextPhys ← virtToPhysDynmem next mmapDyn
      let (factory, frames) ← dynpageFactoryNextRecur layout mmapDyn level (u32 nextPhys) factory frames
      appendEntry layout (level + 1) addrPhys factory frames
    else appendEntry layout (level + 1) addrPhys factory frames

def dynpageFactoryNext (layout : KernelLayout) (mmapDyn : Mmap) (addrPhys : ℕ) (factory : DynpageFactory)
    (frames : Frames) : Result (DynpageFactory × Frames) :=
  if factory.first3Index < 3 then
    let factory :=
      { factory with
        first3 := Function.update factory.first3 factory.first3Index addrPhys
        first3Index := factory.first3Index + 1 }
    if factory.first3Index = 3 then do
      let frames ← pagetableConstructDyn3 layout (factory.first3 0) (factory.first3 1) (factory.first3 2) frames
      return ({ factory with metapageCount := 3 }, frames)
    else .ok (factory, frames)
  else dynpageFactoryNextRecur layout mmapDyn 3 addrPhys factory frames

/-! ## The loops -/

/-- The variables of `pagetable_construct_dyn`, with the memory. -/
structure DynConstruction where
  factory : DynpageFactory
  pages : ℕ
  frames : Frames

/-- The loop over the pages of an entry, up to its end. -/
def constructEntry (layout : KernelLayout) (mmapDyn : Mmap) (stop : ℕ) :
    ℕ → ℕ → DynConstruction → Result DynConstruction
  | 0, _, _ => .error .nonterminating
  | fuel + 1, addrPhys, st =>
    if addrPhys < stop then do
      let (factory, frames) ← dynpageFactoryNext layout mmapDyn addrPhys st.factory st.frames
      constructEntry layout mmapDyn stop fuel (u64 (addrPhys + PAGE_SIZE)) ⟨factory, u64 (st.pages + 1), frames⟩
    else .ok st

/-- The loop over the entries, from entry `i`. -/
def constructEntries (layout : KernelLayout) (mmapDyn : Mmap) : ℕ → ℕ → DynConstruction → Result DynConstruction
  | 0, _, st => .ok st
  | rest + 1, i, st => do
    let entry := mmapDyn.entries i
    let st ← constructEntry layout mmapDyn (u64 (entry.base + entry.length)) (entry.length / PAGE_SIZE + 2) entry.base st
    constructEntries layout mmapDyn rest (i + 1) st

/-- `struct pagetable_construct_result`. -/
structure PagetableConstructResult where
  dynTotalLen : ℕ
  dynPagetableLen : ℕ
deriving DecidableEq, Repr

def pagetableConstructDyn (layout : KernelLayout) (mmapDyn : Mmap) (frames : Frames) :
    Result (PagetableConstructResult × Frames) := do
  let st ← constructEntries layout mmapDyn mmapDyn.len 0 ⟨dynpageFactoryCreate layout, 0, frames⟩
  -- the product with a `uint32_t` count is a `uint32_t`
  return (⟨u64 (st.pages * PAGE_SIZE), u32 (st.factory.metapageCount * PAGE_SIZE)⟩, st.frames)

def pagetableConstruct (layout : KernelLayout) (mmapDyn : Mmap) (frames : Frames) :
    Result (PagetableConstructResult × Frames) :=
  pagetableConstructDyn layout mmapDyn (pagetableConstructKernel layout frames)

end RubberOS.Model.PageConstruct
