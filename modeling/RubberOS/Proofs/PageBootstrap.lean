import RubberOS.Proofs.PageConstruct

/-! # The first three pages

The three tables of the bootstrap are written through a temporary window: an entry of the root leads
to a page of the kernel stack, which leads to itself twice and then to the three pages. The entry is
removed at the end, and what remains is the factory's state after three pages.
-/

namespace RubberOS.Model.PageConstruct

open MemoryMap PageTable

/-- The address of the temporary window's page `j`. -/
def temporaryVirt (j : ℕ) : ℕ := 2 ^ 39 + 2 ^ 21 + (2 + j) * PAGE_SIZE

namespace FreshKernel

variable (kernel : FreshKernel)

/-- The temporary window leads to the three pages. -/
structure Temporary (frames : Frames) : Prop where
  root : frames kernel.layout.root 1 = kernel.layout.tmpPhys ||| KERNEL_PAGE_FLAG
  upper : frames kernel.layout.tmpPhys 0 = kernel.layout.tmpPhys ||| KERNEL_PAGE_FLAG
  lower : frames kernel.layout.tmpPhys 1 = kernel.layout.tmpPhys ||| KERNEL_PAGE_FLAG
  pages : ∀ j < 3, frames kernel.layout.tmpPhys (2 + j) = kernel.phys j ||| KERNEL_PAGE_FLAG

variable {kernel} {frames : Frames} {frame index entry i j : ℕ}

variable (kernel) in
private theorem phys_three (three : j < 3) :
    kernel.phys j % PAGE_SIZE = 0 ∧ DYNMEM_START_PHYS_MINIMUM ≤ kernel.phys j ∧
    kernel.phys j < 2 ^ 52 := by
  have enough := kernel.three
  exact phys_bounds (by omega)

variable (kernel) in
/-- The pages of the window are neither the root nor on the kernel stack. -/
private theorem phys_apart (three : j < 3) :
    kernel.phys j ≠ kernel.layout.root ∧ kernel.phys j ≠ kernel.layout.tmpPhys := by
  have high := (kernel.phys_three three).2.1
  exact ⟨(Nat.lt_of_lt_of_le kernel.root_low.2 high).ne', (Nat.lt_of_lt_of_le kernel.stackLow high).ne'⟩

private theorem phys_distinct (first : i < 3) (second : j < 3) (different : i ≠ j) :
    kernel.phys i ≠ kernel.phys j := by
  have enough := kernel.three
  exact fun same => different (kernel.map.pagePhys_injective (by omega) (by omega) same)

private theorem Temporary.write (temporary : kernel.Temporary frames) (stack : frame ≠ kernel.layout.tmpPhys)
    (root : ¬ (frame = kernel.layout.root ∧ index = 1)) :
    kernel.Temporary (frames.write frame index entry) := by
  have kept (k : ℕ) : frames.write frame index entry kernel.layout.tmpPhys k =
      frames kernel.layout.tmpPhys k :=
    Frames.write_of_ne fun same => stack same.1.symm
  refine ⟨?_, (kept 0).trans temporary.upper, (kept 1).trans temporary.lower,
    fun j three => (kept (2 + j)).trans (temporary.pages j three)⟩
  rw [Frames.write_of_ne fun same => root ⟨same.1.symm, same.2.symm⟩, temporary.root]

private theorem Temporary.pageBehind (temporary : kernel.Temporary frames) (three : j < 3) :
    pageBehind kernel.layout frames (temporaryVirt j) = .ok (kernel.phys j) := by
  obtain ⟨aligned, _, bound⟩ := kernel.phys_three three
  have stackBound : kernel.layout.tmpPhys < 2 ^ 52 := by
    have low := kernel.stackLow
    simp only [DYNMEM_START_PHYS_MINIMUM] at low
    omega
  have indices : tableIndex 3 (temporaryVirt j) = 1 ∧ tableIndex 2 (temporaryVirt j) = 0 ∧
      tableIndex 1 (temporaryVirt j) = 1 ∧ tableIndex 0 (temporaryVirt j) = 2 + j ∧
        temporaryVirt j % PAGE_SIZE = 0 ∧
      temporaryVirt j < KERNEL_START_VIRT := by
    simp only [tableIndex, temporaryVirt, KERNEL_START_VIRT, PAGE_SIZE]
    omega
  obtain ⟨top, third, second, first, offset, low⟩ := indices
  have link {level index table : ℕ} (digit : tableIndex (level + 1) (temporaryVirt j) = index)
      (points : frames table index = kernel.layout.tmpPhys ||| KERNEL_PAGE_FLAG) :
      walkFrom frames (temporaryVirt j) (level + 1) table =
          walkFrom frames (temporaryVirt j) level kernel.layout.tmpPhys :=
    walkFrom_link plain_kernel (digit ▸ points) kernel.stackAligned stackBound
  rw [PageConstruct.pageBehind, if_neg (by omega), PageTable.translateVirt, walk, link top temporary.root,
    link third temporary.upper, link second temporary.lower, walkFrom, first, temporary.pages j three]
  simp only [isPresent_or plain_kernel, if_true, Option.bind_some,
    physical_or plain_kernel aligned bound, offset]
  rfl

private theorem root_behind : PageConstruct.pageBehind kernel.layout frames kernel.layout.gPagetable =
      .ok kernel.layout.root :=
  if_pos kernel.rootPage.lower

/-- A store into one of the three pages. -/
private theorem Temporary.store (temporary : kernel.Temporary frames) (three : j < 3) (index entry : ℕ) :
    storeEntry kernel.layout (temporaryVirt j) index entry frames =
      .ok (frames.write (kernel.phys j) index entry) ∧
      kernel.Temporary (frames.write (kernel.phys j) index entry) := by
  obtain ⟨root, stack⟩ := kernel.phys_apart three
  refine ⟨?_, temporary.write stack fun same => root same.1⟩
  rw [storeEntry, temporary.pageBehind three]
  rfl

private theorem store_root : storeEntry kernel.layout kernel.layout.gPagetable index entry frames =
    .ok (frames.write kernel.layout.root index entry) := by
  rw [storeEntry, root_behind]
  rfl

/-- The memory with the temporary window in place. -/
def temporaryFrames (kernel : FreshKernel) : Frames :=
  let tmpPhys := kernel.layout.tmpPhys
  ((((((kernel.boot.write kernel.layout.root 1 (tmpPhys ||| KERNEL_PAGE_FLAG)).write tmpPhys 0 (tmpPhys ||| KERNEL_PAGE_FLAG)).write
    tmpPhys 1 (tmpPhys ||| KERNEL_PAGE_FLAG)).write tmpPhys 2 (kernel.phys 0 ||| KERNEL_PAGE_FLAG)).write
    tmpPhys 3 (kernel.phys 1 ||| KERNEL_PAGE_FLAG)).write tmpPhys 4 (kernel.phys 2 ||| KERNEL_PAGE_FLAG))

private theorem temporary_start : kernel.Temporary kernel.temporaryFrames := by
  have apart := kernel.stackApart
  refine ⟨?_, ?_, ?_, fun j three => ?_⟩
  · simp [temporaryFrames, Frames.write, Function.update_apply, apart.symm]
  · simp [temporaryFrames, Frames.write, Function.update_apply]
  · simp [temporaryFrames, Frames.write, Function.update_apply]
  · interval_cases j <;> simp [temporaryFrames, Frames.write, Function.update_apply]

/-- The memory after the bootstrap. -/
def bootstrapFrames (kernel : FreshKernel) : Frames :=
  let root := kernel.layout.root
  (((((((kernel.temporaryFrames.write root 0 (kernel.phys 0 ||| KERNEL_PAGE_FLAG)).write
    (kernel.phys 0) 0 (kernel.phys 1 ||| KERNEL_PAGE_FLAG)).write (kernel.phys 1) 1 (kernel.phys 2 ||| KERNEL_PAGE_FLAG)).write
    (kernel.phys 2) 0 (kernel.phys 0 ||| KERNEL_PAGE_FLAG)).write (kernel.phys 2) 1 (kernel.phys 1 ||| KERNEL_PAGE_FLAG)).write
    (kernel.phys 2) 2 (kernel.phys 2 ||| KERNEL_PAGE_FLAG)).write root 1 0)

/-- A store through the temporary window hits one of the three pages. -/
private theorem Temporary.hits (temporary : kernel.Temporary frames) (three : j < 3) :
    kernel.Hits ⟨2, temporaryVirt j, frames, 0⟩ j := by
  refine ⟨?_, .inr ⟨rfl, three⟩⟩
  have behind := temporary.pageBehind three
  rw [PageConstruct.pageBehind, if_neg] at behind
  · dsimp only
    cases found : PageTable.translateVirt frames kernel.layout.root (temporaryVirt j) with
    | none => rw [found] at behind; cases behind
    | some phys => rw [found] at behind; cases behind; rfl
  · simp only [temporaryVirt, KERNEL_START_VIRT, PAGE_SIZE]
    omega

/-- The bootstrap hits its three pages through the temporary window. -/
private theorem pagetableConstructDyn3Logged_spec :
    ∃ log, pagetableConstructDyn3Logged kernel.layout 2 (kernel.phys 0) (kernel.phys 1) (kernel.phys 2) kernel.boot =
      .ok (kernel.bootstrapFrames, log) ∧ kernel.Records 3 0 3 log := by
  have linked : kernel.Temporary
      (kernel.temporaryFrames.write kernel.layout.root 0 (kernel.phys 0 ||| KERNEL_PAGE_FLAG)) :=
    temporary_start.write kernel.stackApart.symm fun same => absurd same.2 Nat.zero_ne_one
  obtain ⟨ran₁, first⟩ := linked.store (show 0 < 3 by decide) 0 (kernel.phys 1 ||| KERNEL_PAGE_FLAG)
  obtain ⟨ran₂, second⟩ := first.store (show 1 < 3 by decide) 1 (kernel.phys 2 ||| KERNEL_PAGE_FLAG)
  obtain ⟨ran₃, third⟩ := second.store (show 2 < 3 by decide) 0 (kernel.phys 0 ||| KERNEL_PAGE_FLAG)
  obtain ⟨ran₄, fourth⟩ := third.store (show 2 < 3 by decide) 1 (kernel.phys 1 ||| KERNEL_PAGE_FLAG)
  obtain ⟨ran₅, _⟩ := fourth.store (show 2 < 3 by decide) 2 (kernel.phys 2 ||| KERNEL_PAGE_FLAG)
  refine ⟨_, Except.bind_ok_iff.mpr ⟨_, store_root,
    Except.bind_ok_iff.mpr ⟨_, store_root, Except.bind_ok_iff.mpr ⟨_, ran₁,
    Except.bind_ok_iff.mpr ⟨_, ran₂, Except.bind_ok_iff.mpr ⟨_, ran₃, Except.bind_ok_iff.mpr ⟨_, ran₄,
    Except.bind_ok_iff.mpr ⟨_, ran₅, Except.bind_ok_iff.mpr ⟨_, store_root, rfl⟩⟩⟩⟩⟩⟩⟩⟩, fun access member => ?_,
    fun m _ upper => ?_⟩
  · have counted : tableCount (2 + 512) = 3 := by decide
    have root (frames : Frames) : kernel.Backed ⟨2, kernel.layout.gPagetable, frames, 0⟩ := ⟨Nat.zero_le 2, .inl rfl⟩
    have page {frames : Frames} {j : ℕ} (temporary : kernel.Temporary frames) (three : j < 3) :
        kernel.Backed ⟨2, temporaryVirt j, frames, 0⟩ :=
      ⟨Nat.zero_le 2, .inr ⟨j, three.trans_eq counted.symm, temporary.hits three⟩⟩
    have before : 2 < 3 := Nat.lt_succ_self 2
    simp only [List.mem_cons, List.not_mem_nil, or_false] at member
    rcases member with rfl | rfl | rfl | rfl | rfl | rfl | rfl | rfl
    · exact ⟨before, root _⟩
    · exact ⟨before, root _⟩
    · exact ⟨before, page linked (j := 0) (by decide)⟩
    · exact ⟨before, page first (j := 1) (by decide)⟩
    · exact ⟨before, page second (j := 2) (by decide)⟩
    · exact ⟨before, page third (j := 2) (by decide)⟩
    · exact ⟨before, page fourth (j := 2) (by decide)⟩
    · exact ⟨before, root _⟩
  · obtain rfl | rfl | rfl : m = 0 ∨ m = 1 ∨ m = 2 := by omega
    · exact ⟨_, .tail _ (.tail _ (.head _)), linked.hits (j := 0) (by decide)⟩
    · exact ⟨_, .tail _ (.tail _ (.tail _ (.head _))), first.hits (j := 1) (by decide)⟩
    · exact ⟨_, .tail _ (.tail _ (.tail _ (.tail _ (.head _)))), second.hits (j := 2) (by decide)⟩

private theorem bootstrapFrames_root (k : ℕ) : kernel.bootstrapFrames kernel.layout.root k =
    if k = 1 then 0 else if k = 0 then kernel.phys 0 ||| KERNEL_PAGE_FLAG
    else kernel.boot kernel.layout.root k := by
  have apart {j : ℕ} (three : j < 3) := (kernel.phys_apart three).1.symm
  have stack := kernel.stackApart.symm
  simp only [bootstrapFrames, temporaryFrames, Frames.write_apply, stack, apart (show 0 < 3 by decide),
    apart (show 1 < 3 by decide), apart (show 2 < 3 by decide), true_and, false_and, if_false]
  split_ifs <;> rfl

private theorem bootstrapFrames_page (three : j < 3) (k : ℕ) : kernel.bootstrapFrames (kernel.phys j) k =
    if j = 0 ∧ k = 0 then kernel.phys 1 ||| KERNEL_PAGE_FLAG
    else if j = 1 ∧ k = 1 then kernel.phys 2 ||| KERNEL_PAGE_FLAG
    else if j = 2 ∧ k < 3 then kernel.phys k ||| KERNEL_PAGE_FLAG else kernel.boot (kernel.phys j) k := by
  obtain ⟨root, stack⟩ := kernel.phys_apart three
  have distinct (i : ℕ) (first : i < 3) : kernel.phys j = kernel.phys i ↔ j = i :=
    ⟨fun same => by_contra fun different => phys_distinct three first different same,
      fun same => by rw [same]⟩
  simp only [bootstrapFrames, temporaryFrames, Frames.write_apply, root, stack, distinct 0 (by decide),
    distinct 1 (by decide), distinct 2 (by decide), false_and, if_false]
  interval_cases j
  · simp
  · simp
  · rcases Nat.lt_or_ge k 3 with inside | outside
    · interval_cases k <;> simp
    · simp [show k ≠ 0 by omega, show k ≠ 1 by omega, show k ≠ 2 by omega, Nat.not_lt.mpr outside]

/-- The three pages are mapped, in tables that keep what was in memory. -/
private theorem bootstrap_built : kernel.Built kernel.bootstrapFrames (fun level => 514 / 512 ^ level)
    (fun level => 514 / 512 ^ (level + 1)) := by
  intro level root c lower upper
  have frameFirst : kernel.frameAt 0 1 = kernel.phys 2 := rfl
  have frameSecond : kernel.frameAt 1 0 = kernel.phys 1 := rfl
  have frameThird : kernel.frameAt 2 0 = kernel.phys 0 := rfl
  simp only [firstEntry] at lower upper ⊢
  rw [cell, blank]
  interval_cases level
  · -- entries 512 to 1023 of the lowest level
    have table : c / 512 = 1 := by omega
    have index : c % 512 = c - 512 := by omega
    rw [table, index, frameFirst, bootstrapFrames_page (by decide), targetOf, if_neg (by omega),
      if_neg (by omega), if_pos (show 1 = firstEntry (0 + 1) from rfl)]
    refine if_congr ?_ rfl rfl
    omega
  · have table : c / 512 = 0 := by omega
    have index : c % 512 = c := by omega
    rw [table, index, frameSecond, bootstrapFrames_page (by decide), targetOf, if_neg (by omega)]
    rcases Nat.eq_or_lt_of_le lower with rfl | later
    · rfl
    · rw [if_neg (by omega), if_neg (by omega), if_neg (by omega),
        if_pos (show 0 = firstEntry (1 + 1) from rfl)]
  · have table : c / 512 = 0 := by omega
    have index : c % 512 = c := by omega
    rw [table, index, frameThird, bootstrapFrames_page (by decide), targetOf]
    rcases Nat.eq_zero_or_pos c with rfl | later
    · rfl
    · rw [if_neg (by omega), if_neg (by omega), if_neg (by omega), if_neg (by omega),
        if_pos (show 0 = firstEntry (2 + 1) from rfl)]
  · have table : c / 512 = 0 := by omega
    have index : c % 512 = c := by omega
    rw [table, index, frameAt_root, bootstrapFrames_root, targetOf]
    rcases Nat.eq_zero_or_pos c with rfl | later
    · rfl
    · rw [if_neg (show ¬ c = 0 by omega), if_neg (show ¬ c ≤ 514 / 512 ^ 3 by omega),
        if_pos (show 0 = firstEntry (3 + 1) from rfl)]
      split_ifs with second
      · rw [second, kernel.vacant 1 (by decide)]
      · rfl

private theorem bootstrap_rest (free : ¬ kernel.Written frame) :
    kernel.bootstrapFrames frame = kernel.boot frame := by
  have enough := kernel.three
  have root : frame ≠ kernel.layout.root := fun same => free (.inl same)
  have stack : frame ≠ kernel.layout.tmpPhys := fun same => free (.inr (.inl same))
  have page (j : ℕ) (three : j < 3) : frame ≠ kernel.phys j :=
    fun same => free (.inr (.inr ⟨j, by omega, same.symm⟩))
  funext k
  simp only [bootstrapFrames, temporaryFrames, Frames.write_apply, root, stack, page 0 (by decide),
    page 1 (by decide), page 2 (by decide), false_and, if_false]

/-- The factory before the bootstrap: it only keeps the addresses of the pages. -/
structure Collecting (kernel : FreshKernel) (i : ℕ) (factory : DynpageFactory) : Prop where
  tables : factory.tables = (dynpageFactoryCreate kernel.layout).tables
  indices : factory.nextIndices = (dynpageFactoryCreate kernel.layout).nextIndices
  nextTable : factory.nextTable = (dynpageFactoryCreate kernel.layout).nextTable
  count : factory.first3Index = i
  pages : ∀ k < i, factory.first3 k = kernel.phys k

/-- The first three pages leave the factory ready for the fourth. -/
private theorem Collecting.steady {factory : DynpageFactory} (collecting : kernel.Collecting 3 factory) :
    kernel.Steady 514 { factory with metapageCount := 3 } kernel.bootstrapFrames := by
  refine ⟨⟨bootstrap_built, fun _ _ => le_rfl, fun _ _ => le_rfl, fun _ _ => Nat.div_le_div_right (Nat.le_succ _),
      fun frame free => bootstrap_rest free, ?_⟩,
    ⟨fun level root => ?_, fun level root => ?_, collecting.nextTable, collecting.count⟩, rfl⟩
  · exact (bootstrapFrames_page (show 1 < 3 by decide) 0).trans rfl
  · dsimp only
    rw [collecting.tables]
    interval_cases level <;> rfl
  · dsimp only
    rw [collecting.indices]
    interval_cases level <;> simp [dynpageFactoryCreate]

/-! ## The loops -/

/-- What `pagetable_construct_dyn` has done after `i` pages. -/
structure Progress (kernel : FreshKernel) (i : ℕ) (st : DynConstruction) : Prop where
  pages : st.pages = i
  early : i < 3 → kernel.Collecting i st.factory ∧ st.factory.metapageCount = 0 ∧ st.frames = kernel.boot
  late : 3 ≤ i → kernel.Steady (i + 511) st.factory st.frames

theorem progress_start : kernel.Progress 0 ⟨dynpageFactoryCreate kernel.layout, 0, kernel.boot⟩ :=
  ⟨rfl, fun _ => ⟨⟨rfl, rfl, rfl, rfl, fun _ before => absurd before (Nat.not_lt_zero _)⟩, rfl, rfl⟩, nofun⟩

/-- One page more. -/
private theorem Progress.next {st : DynConstruction} (progress : kernel.Progress i st)
    (low : kernel.TablesLow (i + 512)) (inside : i < pageCount kernel.mmapDyn) :
    ∃ factory frames call,
      dynpageFactoryNextLogged kernel.layout kernel.mmapDyn st.pages (kernel.phys i) st.factory st.frames =
        .ok (factory, frames, call) ∧ kernel.Progress (i + 1) ⟨factory, u64 (st.pages + 1), frames⟩ ∧
      kernel.Records (i + 1) st.factory.metapageCount factory.metapageCount call := by
  have limit := kernel.limit
  have pages : u64 (st.pages + 1) = i + 1 := by
    rw [progress.pages, u64_of_lt (by omega)]
  rcases Nat.lt_or_ge i 3 with early | late
  · obtain ⟨collecting, none, boot⟩ := progress.early early
    have grown : kernel.Collecting (i + 1) { st.factory with
        first3 := Function.update st.factory.first3 i (kernel.phys i), first3Index := i + 1 } := by
      refine ⟨collecting.tables, collecting.indices, collecting.nextTable, rfl, fun k before => ?_⟩
      rcases Nat.lt_succ_iff_lt_or_eq.mp before with earlier | rfl
      · dsimp only
        rw [Function.update_of_ne earlier.ne, collecting.pages k earlier]
      · exact Function.update_self ..
    rw [dynpageFactoryNextLogged, collecting.count, if_pos early]
    dsimp only
    split_ifs with third
    · obtain rfl : i = 2 := by omega
      obtain ⟨log, ran, records⟩ := @pagetableConstructDyn3Logged_spec kernel
      have first := grown.pages 0 (by decide)
      have second := grown.pages 1 (by decide)
      have last := grown.pages 2 (by decide)
      dsimp only at first second last
      rw [progress.pages, first, second, last, boot, ran]
      refine ⟨_, _, log, rfl, ⟨?_, fun small => absurd small (by decide), fun _ => grown.steady⟩, ?_⟩
      · rwa [progress.pages] at pages
      · rw [none]
        exact records
    · exact ⟨_, _, [], rfl, ⟨pages, fun _ => ⟨grown, none, boot⟩, fun large => by omega⟩, .nil⟩
  · have steady := progress.late late
    have reached : kernel.Reached (i + 511) := ⟨by omega, by omega⟩
    obtain ⟨factory, frames, call, ran, steady', records⟩ := steady.next low reached (by omega) rfl
    rw [show i + 511 + 1 - 512 = i by omega] at ran
    rw [Nat.add_right_comm i 511 1] at steady'
    rw [progress.pages] at pages ⊢
    exact ⟨factory, frames, call, ran, ⟨pages, fun small => absurd small (by omega), fun _ => steady'⟩, records⟩

/-- The rest of an entry, page by page. -/
private theorem constructEntryLogged_spec (entry : j < kernel.mmapDyn.len) (rest : ℕ) {fuel i addr : ℕ}
    {st : DynConstruction} (enough : rest < fuel) (low : kernel.TablesLow (i + rest + 511))
    (count : PAGE_SIZE * (i + rest) = windowOffset kernel.mmapDyn (j + 1))
    (lower : windowOffset kernel.mmapDyn j ≤ PAGE_SIZE * i)
    (address : addr = (kernel.mmapDyn.entries j).base + (PAGE_SIZE * i - windowOffset kernel.mmapDyn j))
    (progress : kernel.Progress i st) (log : List Access) :
    ∃ after call, constructEntryLogged kernel.layout kernel.mmapDyn
        (u64 ((kernel.mmapDyn.entries j).base + (kernel.mmapDyn.entries j).length)) fuel addr st log =
          .ok (after, log ++ call) ∧
      kernel.Progress (i + rest) after ∧
      kernel.Records (i + rest) st.factory.metapageCount after.factory.metapageCount call := by
  have length := windowOffset_succ kernel.mmapDyn j
  have small := kernel.map.small j entry
  have stop : u64 ((kernel.mmapDyn.entries j).base + (kernel.mmapDyn.entries j).length) =
      (kernel.mmapDyn.entries j).base + (kernel.mmapDyn.entries j).length := u64_of_lt (by omega)
  induction rest generalizing fuel i addr st log with
  | zero =>
    obtain ⟨fuel, rfl⟩ := Nat.exists_eq_add_of_lt enough
    refine ⟨st, [], ?_, progress, .nil⟩
    rw [constructEntryLogged, stop, if_neg, List.append_nil]
    simp only [PAGE_SIZE] at *
    omega
  | succ rest ih =>
    obtain ⟨fuel, rfl⟩ := Nat.exists_eq_succ_of_ne_zero (show fuel ≠ 0 by omega)
    have page : PageOf kernel.mmapDyn i j := ⟨entry, lower, by simp only [PAGE_SIZE] at *; omega⟩
    have own : addr = kernel.phys i := by rw [address, phys, page.pagePhys_eq kernel.map]
    obtain ⟨factory, frames, call, ran, grown, records⟩ := progress.next (low.mono (by omega)) page.lt_pageCount
    have further : u64 (addr + PAGE_SIZE) = addr + PAGE_SIZE :=
      u64_of_lt (by simp only [PAGE_SIZE] at *; omega)
    obtain ⟨after, later, ranRest, done, recordsRest⟩ := @ih fuel (i + 1) (addr + PAGE_SIZE) _ (by omega)
      (low.mono (by omega)) (by rw [← count, Nat.add_assoc, Nat.add_comm 1])
        (by simp only [PAGE_SIZE] at *; omega)
      (by simp only [PAGE_SIZE] at *; omega) grown (log ++ call)
    rw [show i + 1 + rest = i + (rest + 1) by omega] at done recordsRest
    refine ⟨after, call ++ later, ?_, done, (records.mono (by omega)).append recordsRest⟩
    rw [constructEntryLogged, if_pos (by rw [stop]; simp only [PAGE_SIZE] at *; omega), own, ← List.append_assoc]
    rw [own] at further ranRest
    exact Except.bind_ok_iff.mpr ⟨_, ran, by rw [further]; exact ranRest⟩

/-- A whole entry. -/
private theorem Progress.wholeEntryLogged {st : DynConstruction}
    (progress : kernel.Progress (windowOffset kernel.mmapDyn j / PAGE_SIZE) st)
    (entry : j < kernel.mmapDyn.len)
    (low : kernel.TablesLow (windowOffset kernel.mmapDyn (j + 1) / PAGE_SIZE + 511)) (log : List Access) :
    ∃ after call, constructEntryLogged kernel.layout kernel.mmapDyn
        (u64 ((kernel.mmapDyn.entries j).base + (kernel.mmapDyn.entries j).length))
        ((kernel.mmapDyn.entries j).length / PAGE_SIZE + 2) (kernel.mmapDyn.entries j).base st log =
          .ok (after, log ++ call) ∧
      kernel.Progress (windowOffset kernel.mmapDyn (j + 1) / PAGE_SIZE) after ∧
      kernel.Records (windowOffset kernel.mmapDyn (j + 1) / PAGE_SIZE) st.factory.metapageCount
        after.factory.metapageCount call := by
  have start := kernel.map.offset_aligned (Nat.le_of_lt entry)
  have whole := kernel.map.whole j entry
  have length := windowOffset_succ kernel.mmapDyn j
  have sum : windowOffset kernel.mmapDyn (j + 1) / PAGE_SIZE =
      windowOffset kernel.mmapDyn j / PAGE_SIZE + (kernel.mmapDyn.entries j).length / PAGE_SIZE := by
    simp only [PAGE_SIZE] at *
    omega
  rw [sum] at low ⊢
  apply constructEntryLogged_spec entry _ (by omega) low ?_ ?_ ?_ progress <;> simp only [PAGE_SIZE] at * <;> omega

theorem Progress.wholeEntry {st : DynConstruction}
    (progress : kernel.Progress (windowOffset kernel.mmapDyn j / PAGE_SIZE) st)
    (entry : j < kernel.mmapDyn.len)
    (low : kernel.TablesLow (windowOffset kernel.mmapDyn (j + 1) / PAGE_SIZE + 511)) :
    ∃ after, constructEntry kernel.layout kernel.mmapDyn
        (u64 ((kernel.mmapDyn.entries j).base + (kernel.mmapDyn.entries j).length))
        ((kernel.mmapDyn.entries j).length / PAGE_SIZE + 2) (kernel.mmapDyn.entries j).base st = .ok after ∧
      kernel.Progress (windowOffset kernel.mmapDyn (j + 1) / PAGE_SIZE) after := by
  obtain ⟨after, call, ran, done, _⟩ := progress.wholeEntryLogged entry low []
  refine ⟨after, ?_, done⟩
  rw [← constructEntryLogged_fst [], ran]
  rfl

/-- The rest of the entries. -/
private theorem constructEntriesLogged_spec (low : kernel.TablesLow (pageCount kernel.mmapDyn + 511)) (rest : ℕ) {j : ℕ}
    {st : DynConstruction} (count : j + rest = kernel.mmapDyn.len)
    (progress : kernel.Progress (windowOffset kernel.mmapDyn j / PAGE_SIZE) st) (log : List Access) :
    ∃ after call, constructEntriesLogged kernel.layout kernel.mmapDyn rest j st log = .ok (after, log ++ call) ∧
      kernel.Progress (pageCount kernel.mmapDyn) after ∧
      kernel.Records (pageCount kernel.mmapDyn) st.factory.metapageCount after.factory.metapageCount call := by
  induction rest generalizing j st log with
  | zero =>
    obtain rfl : j = kernel.mmapDyn.len := by omega
    exact ⟨st, [], by rw [constructEntriesLogged, List.append_nil], progress, .nil⟩
  | succ rest ih =>
    have within := Nat.div_le_div_right
      (windowOffset_mono kernel.mmapDyn (show j + 1 ≤ kernel.mmapDyn.len by omega))
      (c := PAGE_SIZE)
    obtain ⟨between, call, ran, grown, records⟩ :=
      progress.wholeEntryLogged (by omega) (low.mono (Nat.add_le_add_right within 511)) log
    obtain ⟨after, later, ranRest, done, recordsRest⟩ := ih (by omega) grown (log ++ call)
    refine ⟨after, call ++ later, ?_, done, (records.mono within).append recordsRest⟩
    rw [← List.append_assoc]
    exact Except.bind_ok_iff.mpr ⟨_, ran, ranRest⟩

/-- The whole construction, with its accesses. -/
theorem pagetableConstructDynLogged_spec (low : kernel.TablesLow (pageCount kernel.mmapDyn + 511)) :
    ∃ result st log,
      pagetableConstructDynLogged kernel.layout kernel.mmapDyn kernel.boot = .ok (result, st, log) ∧
      kernel.Steady (pageCount kernel.mmapDyn + 511) st.factory st.frames ∧
      result.dynTotalLen = pageCount kernel.mmapDyn * PAGE_SIZE ∧
      result.dynPagetableLen = u32 (st.factory.metapageCount * PAGE_SIZE) ∧
      kernel.Records (pageCount kernel.mmapDyn) 0 st.factory.metapageCount log := by
  have limit := kernel.limit
  have start : windowOffset kernel.mmapDyn 0 / PAGE_SIZE = 0 := by simp [windowOffset]
  have progress : kernel.Progress (windowOffset kernel.mmapDyn 0 / PAGE_SIZE)
      ⟨dynpageFactoryCreate kernel.layout, 0, kernel.boot⟩ := by
    rw [start]
    exact progress_start
  obtain ⟨after, log, ran, done, records⟩ :=
    constructEntriesLogged_spec low kernel.mmapDyn.len (Nat.zero_add _) progress []
  refine ⟨_, after, log, Except.bind_ok_iff.mpr ⟨_, ran, rfl⟩, done.late kernel.three, ?_, rfl, records⟩
  dsimp only
  rw [done.pages, u64_of_lt]
  simp only [PAGE_SIZE]
  omega

/-- The whole construction. -/
theorem pagetableConstructDyn_spec (low : kernel.TablesLow (pageCount kernel.mmapDyn + 511)) :
    ∃ result factory frames,
      pagetableConstructDyn kernel.layout kernel.mmapDyn kernel.boot = .ok (result, frames) ∧
      kernel.Steady (pageCount kernel.mmapDyn + 511) factory frames ∧
      result.dynTotalLen = pageCount kernel.mmapDyn * PAGE_SIZE ∧
      result.dynPagetableLen = u32 (factory.metapageCount * PAGE_SIZE) := by
  obtain ⟨result, st, log, ran, steady, total, tables, _⟩ := pagetableConstructDynLogged_spec low
  refine ⟨result, st.factory, st.frames, ?_, steady, total, tables⟩
  rw [← pagetableConstructDynLogged_fst, ran]
  rfl

end FreshKernel

end RubberOS.Model.PageConstruct
