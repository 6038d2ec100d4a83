import RubberOS.Model.PageConstruct

/-! # The accesses to page tables during their construction
 The construction of the tables with a log of every clearing of a table and every store to one: the pointer, the
memory the processor walks at that moment, how many pages have been handed out before the call, and the factory's
count of table pages. Without the log it is the construction itself. -/

namespace RubberOS.Model.PageConstruct

open MemoryMap PageTable

/-- An access to a table through a pointer. -/
structure Access where
  pages : ℕ
  table : ℕ
  frames : Frames
  metapageCount : ℕ

section Logged

variable (layout : KernelLayout) (mmapDyn : Mmap)

def appendEntryLogged (pages level addrPhys : ℕ) (factory : DynpageFactory) (frames : Frames) :
    Result (DynpageFactory × Frames × List Access) := do
  let (after, stored) ← appendEntry layout level addrPhys factory frames
  return (after, stored, [⟨pages, factory.tables level, frames, factory.metapageCount⟩])

def openTableLogged (pages level : ℕ) (factory : DynpageFactory) (frames : Frames) :
    Result (DynpageFactory × Frames × List Access) := do
  let (after, cleared) ← openTable layout level factory frames
  return (after, cleared, [⟨pages, factory.nextTable, frames, factory.metapageCount⟩])

def dynpageFactoryNextRecurLogged (pages : ℕ) :
    ℕ → ℕ → DynpageFactory → Frames → Result (DynpageFactory × Frames × List Access)
  | 0, addrPhys, factory, frames => do
    assertMsg (!(factory.nextIndices 0 ≥ 256)) "dynpage_factory_next_recur() out of bound"
      "!(level == 0 && factory->next_indices[level] >= 256)"
    appendEntryLogged layout pages 0 addrPhys factory frames
  | level + 1, addrPhys, factory, frames => do
    if factory.nextIndices (level + 1) ≥ PAGETABLE_LENGTH then
      let next := factory.nextTable
      let (factory, frames, opening) ← openTableLogged layout pages (level + 1) factory frames
      let nextPhys ← virtToPhysDynmem next mmapDyn
      let (factory, frames, link) ← dynpageFactoryNextRecurLogged pages level (u32 nextPhys) factory frames
      let (factory, frames, last) ← appendEntryLogged layout pages (level + 1) addrPhys factory frames
      return (factory, frames, opening ++ link ++ last)
    else appendEntryLogged layout pages (level + 1) addrPhys factory frames

/-- `pagetable_construct_dyn_3`, whose stores to the kernel stack are not accesses to the window. -/
def pagetableConstructDyn3Logged (pages pdpt0Phys pdt0Phys pt0Phys : ℕ) (frames : Frames) :
    Result (Frames × List Access) := do
  let tmpPhys := layout.tmpPhys
  let access table frames : Access := ⟨pages, table, frames, 0⟩
  let entered ← storeEntry layout layout.gPagetable 1 (tmpPhys ||| KERNEL_PAGE_FLAG) frames
  let window := entered.write tmpPhys 0 (tmpPhys ||| KERNEL_PAGE_FLAG)
  let window := window.write tmpPhys 1 (tmpPhys ||| KERNEL_PAGE_FLAG)
  let window := window.write tmpPhys 2 (pdpt0Phys ||| KERNEL_PAGE_FLAG)
  let window := window.write tmpPhys 3 (pdt0Phys ||| KERNEL_PAGE_FLAG)
  let window := window.write tmpPhys 4 (pt0Phys ||| KERNEL_PAGE_FLAG)
  let pdpt0 := 1 <<< 39 ||| 1 <<< 21 ||| 2 <<< 12
  let pdt0 := pdpt0 + PAGE_SIZE
  let pt0 := pdpt0 + 2 * PAGE_SIZE
  let root ← storeEntry layout layout.gPagetable 0 (pdpt0Phys ||| KERNEL_PAGE_FLAG) window
  let third ← storeEntry layout pdpt0 0 (pdt0Phys ||| KERNEL_PAGE_FLAG) root
  let second ← storeEntry layout pdt0 1 (pt0Phys ||| KERNEL_PAGE_FLAG) third
  let first0 ← storeEntry layout pt0 0 (pdpt0Phys ||| KERNEL_PAGE_FLAG) second
  let first1 ← storeEntry layout pt0 1 (pdt0Phys ||| KERNEL_PAGE_FLAG) first0
  let first2 ← storeEntry layout pt0 2 (pt0Phys ||| KERNEL_PAGE_FLAG) first1
  let left ← storeEntry layout layout.gPagetable 1 0 first2
  return (left, [access layout.gPagetable frames, access layout.gPagetable window, access pdpt0 root,
    access pdt0 third, access pt0 second, access pt0 first0, access pt0 first1, access layout.gPagetable first2])

def dynpageFactoryNextLogged (pages addrPhys : ℕ) (factory : DynpageFactory) (frames : Frames) :
    Result (DynpageFactory × Frames × List Access) :=
  if factory.first3Index < 3 then
    let factory :=
      { factory with
        first3 := Function.update factory.first3 factory.first3Index addrPhys
        first3Index := factory.first3Index + 1 }
    if factory.first3Index = 3 then do
      let (frames, log) ←
        pagetableConstructDyn3Logged layout pages (factory.first3 0) (factory.first3 1) (factory.first3 2) frames
      return ({ factory with metapageCount := 3 }, frames, log)
    else .ok (factory, frames, [])
  else dynpageFactoryNextRecurLogged layout mmapDyn pages 3 addrPhys factory frames

/-- The loop over the pages of an entry, behind the accesses so far. -/
def constructEntryLogged (stop : ℕ) :
    ℕ → ℕ → DynConstruction → List Access → Result (DynConstruction × List Access)
  | 0, _, _, _ => .error .nonterminating
  | fuel + 1, addrPhys, st, log =>
    if addrPhys < stop then do
      let (factory, frames, call) ← dynpageFactoryNextLogged layout mmapDyn st.pages addrPhys st.factory st.frames
      constructEntryLogged stop fuel (u64 (addrPhys + PAGE_SIZE)) ⟨factory, u64 (st.pages + 1), frames⟩ (log ++ call)
    else .ok (st, log)

def constructEntriesLogged : ℕ → ℕ → DynConstruction → List Access → Result (DynConstruction × List Access)
  | 0, _, st, log => .ok (st, log)
  | rest + 1, i, st, log => do
    let entry := mmapDyn.entries i
    let (st, log) ← constructEntryLogged layout mmapDyn (u64 (entry.base + entry.length))
      (entry.length / PAGE_SIZE + 2) entry.base st log
    constructEntriesLogged rest (i + 1) st log

def pagetableConstructDynLogged (frames : Frames) :
    Result (PagetableConstructResult × DynConstruction × List Access) := do
  let (st, log) ← constructEntriesLogged layout mmapDyn mmapDyn.len 0 ⟨dynpageFactoryCreate layout, 0, frames⟩ []
  return (⟨u64 (st.pages * PAGE_SIZE), u32 (st.factory.metapageCount * PAGE_SIZE)⟩, st, log)

end Logged

/-- The address and the length that `memory_init` passes to `buddy_init`. -/
def dynmemRegion (r : PagetableConstructResult) : ℕ × ℕ :=
  (u64 (DYNMEM_START_VIRT + r.dynPagetableLen), sub64 r.dynTotalLen r.dynPagetableLen)

/-! ## Without the log -/

section Erasure

variable {layout : KernelLayout} {mmapDyn : Mmap} {level addrPhys : ℕ} {factory : DynpageFactory} {frames : Frames}

theorem appendEntryLogged_fst (pages : ℕ) :
    (fun r => (r.1, r.2.1)) <$> appendEntryLogged layout pages level addrPhys factory frames =
      appendEntry layout level addrPhys factory frames := by
  simp only [appendEntryLogged, map_bind, map_pure]
  exact bind_pure _

theorem openTableLogged_fst (pages : ℕ) :
    (fun r => (r.1, r.2.1)) <$> openTableLogged layout pages level factory frames =
      openTable layout level factory frames := by
  simp only [openTableLogged, map_bind, map_pure]
  exact bind_pure _

theorem dynpageFactoryNextRecurLogged_fst (pages : ℕ) :
    (fun r => (r.1, r.2.1)) <$> dynpageFactoryNextRecurLogged layout mmapDyn pages level addrPhys factory frames =
      dynpageFactoryNextRecur layout mmapDyn level addrPhys factory frames := by
  induction level generalizing addrPhys factory frames with
  | zero =>
    rw [dynpageFactoryNextRecurLogged, dynpageFactoryNextRecur, map_bind]
    simp only [appendEntryLogged_fst]
  | succ level ih =>
    rw [dynpageFactoryNextRecurLogged, dynpageFactoryNextRecur]
    split_ifs
    · simp only [← openTableLogged_fst pages, ← ih, ← appendEntryLogged_fst pages, map_bind,
        bind_map_left, map_pure]
      simp only [map_eq_pure_bind]
    · exact appendEntryLogged_fst pages

theorem pagetableConstructDyn3Logged_fst (pages : ℕ) {pdpt0Phys pdt0Phys pt0Phys : ℕ} :
    (·.1) <$> pagetableConstructDyn3Logged layout pages pdpt0Phys pdt0Phys pt0Phys frames =
      pagetableConstructDyn3 layout pdpt0Phys pdt0Phys pt0Phys frames := by
  simp only [pagetableConstructDyn3Logged, pagetableConstructDyn3, map_bind, map_pure, bind_pure]

theorem dynpageFactoryNextLogged_fst (pages : ℕ) :
    (fun r => (r.1, r.2.1)) <$> dynpageFactoryNextLogged layout mmapDyn pages addrPhys factory frames =
      dynpageFactoryNext layout mmapDyn addrPhys factory frames := by
  rw [dynpageFactoryNextLogged, dynpageFactoryNext]
  split_ifs
  · dsimp only
    split_ifs
    · simp only [← pagetableConstructDyn3Logged_fst pages, map_bind, bind_map_left, map_pure]
    · rfl
  · exact dynpageFactoryNextRecurLogged_fst pages

theorem constructEntryLogged_fst (log : List Access) {stop fuel : ℕ} {st : DynConstruction} :
    (·.1) <$> constructEntryLogged layout mmapDyn stop fuel addrPhys st log =
      constructEntry layout mmapDyn stop fuel addrPhys st := by
  induction fuel generalizing addrPhys st log with
  | zero => rfl
  | succ fuel ih =>
    rw [constructEntryLogged, constructEntry]
    split_ifs
    · simp only [← dynpageFactoryNextLogged_fst st.pages, map_bind, bind_map_left, ih]
    · rfl

theorem constructEntriesLogged_fst (log : List Access) {rest i : ℕ} {st : DynConstruction} :
    (·.1) <$> constructEntriesLogged layout mmapDyn rest i st log = constructEntries layout mmapDyn rest i st := by
  induction rest generalizing i st log with
  | zero => rfl
  | succ rest ih =>
    rw [constructEntriesLogged, constructEntries]
    simp only [← constructEntryLogged_fst log, map_bind, bind_map_left, ih]

/-- The logged construction is the construction. -/
theorem pagetableConstructDynLogged_fst :
    (fun r => (r.1, r.2.1.frames)) <$> pagetableConstructDynLogged layout mmapDyn frames =
      pagetableConstructDyn layout mmapDyn frames := by
  rw [pagetableConstructDynLogged, pagetableConstructDyn, ← constructEntriesLogged_fst []]
  simp only [map_bind, bind_map_left, map_pure]

end Erasure

end RubberOS.Model.PageConstruct
