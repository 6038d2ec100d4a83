import RubberOS.Model.PageAccesses
import RubberOS.Proofs.PageOdometer

/-! # The factory of page tables

One page is mapped by an entry on the lowest level. Where the page starts a new table, the entry for
that table comes first, on the level above, and so on up to the first level with room. The recursion
therefore opens tables on its way up and fills entries on its way down.
-/

namespace RubberOS.Model.PageConstruct

open MemoryMap PageTable

/-- The factory with another next index on a level. -/
def DynpageFactory.counted (factory : DynpageFactory) (level index : ℕ) : DynpageFactory :=
  { factory with nextIndices := Function.update factory.nextIndices level index }

namespace FreshKernel

variable (kernel : FreshKernel)

/-- The factory knows the tables being filled and the next index in each. -/
structure Tracks (factory : DynpageFactory) (limits tops : ℕ → ℕ) : Prop where
  tables : ∀ level ≤ 3, factory.tables (3 - level) = kernel.pointerAt level (tops level)
  indices : ∀ level ≤ 3, factory.nextIndices (3 - level) + 512 * tops level = limits level + 1
  nextTable : factory.nextTable = pageVirt factory.metapageCount
  bootstrapped : factory.first3Index = 3

/-- The tables for the pages up to `last` can be kept in a `uint32_t`. The bootstrap keeps its three in full. -/
def TablesLow (last : ℕ) : Prop := ∀ m, 3 ≤ m → m < tableCount last → kernel.phys m < 2 ^ 32

variable {kernel} {last level c t k : ℕ} {frames : Frames} {limits tops : ℕ → ℕ} {factory : DynpageFactory}

theorem TablesLow.mono {limit : ℕ} (low : kernel.TablesLow limit) (le : last ≤ limit) :
    kernel.TablesLow last :=
  fun m bootstrapped inside => low m bootstrapped (inside.trans_le (tableCount_mono le))

/-! ## One store, one new table -/

/-- Every table in use can be written through the factory's pointer. -/
private theorem Linked.pointerAt_behind (linked : kernel.Linked last frames) (reached : kernel.Reached last)
    (use : InUse (last + 1) level t) :
    PageConstruct.pageBehind kernel.layout frames (kernel.pointerAt level t) =
      .ok (kernel.frameAt level t) := by
  rcases Nat.lt_or_eq_of_le use.root with below | rfl
  · have mapped := reached.tablePage_le use (by omega)
    rw [pointerAt, if_neg (by omega), frameAt_below (by omega), linked.pageBehind reached mapped]
  · rw [pointerAt, if_pos rfl, frameAt_root, PageConstruct.pageBehind, if_pos kernel.rootPage.lower]
    rfl

/-- An entry is stored in a table and counted. -/
theorem appendEntry_eq (linked : kernel.Linked last frames) (reached : kernel.Reached last)
    (use : InUse (last + 1) level t) (table : factory.tables (3 - level) = kernel.pointerAt level t)
    (index : factory.nextIndices (3 - level) = k) (small : k < 512) (addr : ℕ) :
    appendEntry kernel.layout (3 - level) addr factory frames =
      .ok (factory.counted (3 - level) (k + 1),
        frames.write (kernel.frameAt level t) k (addr ||| KERNEL_PAGE_FLAG)) := by
  have behind := linked.pointerAt_behind reached use
  have digit : k + 1 < 2 ^ 16 := by omega
  rw [appendEntry, index, table, storeEntry, behind, u16_of_lt digit]
  rfl

/-- An entry goes into the table being filled. -/
private theorem appendEntry_spec (stage : kernel.Stage last frames limits tops)
    (tracks : kernel.Tracks factory limits tops)
    (reached : kernel.Reached last) (root : level ≤ 3) (next : limits level + 1 = c)
    (room : c / 512 = tops level) :
    ∃ factory' frames',
      appendEntry kernel.layout (3 - level) (kernel.targetOf level c) factory frames =
        .ok (factory', frames') ∧
      kernel.Stage last frames' (Function.update limits level c) tops ∧
      kernel.Tracks factory' (Function.update limits level c) tops ∧
      factory'.metapageCount = factory.metapageCount := by
  have lower := stage.next_lower reached root next
  have index : factory.nextIndices (3 - level) = c % 512 := by
    have := tracks.indices level root
    omega
  have use := stage.inUse root lower room.le
  have ran := appendEntry_eq stage.linked reached use (room ▸ tracks.tables level root) index
    (Nat.mod_lt _ (by decide)) (kernel.targetOf level c)
  refine ⟨_, _, ran, stage.store reached root next room.le,
    ⟨tracks.tables, fun other rootOther => ?_, tracks.nextTable,
    tracks.bootstrapped⟩, rfl⟩
  dsimp only [DynpageFactory.counted]
  by_cases same : other = level
  · subst same
    rw [Function.update_self, Function.update_self]
    omega
  · rw [Function.update_of_ne same, Function.update_of_ne (show 3 - other ≠ 3 - level by omega)]
    exact tracks.indices other rootOther

/-- A full level goes on with the next page of the window. -/
private theorem openTable_spec (stage : kernel.Stage last frames limits tops)
    (tracks : kernel.Tracks factory limits tops)
    (reached : kernel.Reached last) (below : level ≤ 2) (next : tops level + 1 = t)
    (full : limits level + 1 = 512 * t)
    (due : t ≤ (last + 1) / 512 ^ (level + 1)) (page : factory.metapageCount = tablePage level t) :
    ∃ factory' frames', openTable kernel.layout (3 - level) factory frames = .ok (factory', frames') ∧
      kernel.Stage last frames' limits (Function.update tops level t) ∧
      kernel.Tracks factory' limits (Function.update tops level t) ∧
      factory'.metapageCount = factory.metapageCount + 1 := by
  have started := reached.started
  have use : InUse (last + 1) level t := by
    have first := firstEntry_le (show 512 ≤ last by omega) (level + 1)
    have opened := stage.opened level (by omega)
    exact ⟨by omega, by omega, due⟩
  have mapped := reached.tablePage_le use below
  have inside := reached.mapped
  have limit := kernel.limit
  have number : factory.metapageCount + 1 < 2 ^ 32 := by
    have count := use.tablePage_lt below (by omega)
    rw [page]
    unfold tableCount at count
    omega
  have pointer : kernel.pointerAt level t = pageVirt factory.metapageCount := by
    rw [pointerAt, if_neg (by omega), page]
  have behind := stage.linked.pointerAt_behind reached use
  have after : pageVirt factory.metapageCount + PAGE_SIZE = pageVirt (factory.metapageCount + 1) := by
    simp only [pageVirt, PAGE_SIZE]
    omega
  have virt : pageVirt (factory.metapageCount + 1) < 2 ^ 64 := by
    simp only [pageVirt, DYNMEM_START_VIRT, PAGE_SIZE]
    omega
  refine ⟨{ factory with
      tables := Function.update factory.tables (3 - level) (pageVirt factory.metapageCount)
      nextIndices := Function.update factory.nextIndices (3 - level) 0
      nextTable := pageVirt (factory.metapageCount + 1)
      metapageCount := factory.metapageCount + 1 }, _, ?_,
    stage.clear reached below next (by omega) due,
    ⟨fun other rootOther => ?_, fun other rootOther => ?_, rfl, tracks.bootstrapped⟩, rfl⟩
  · rw [pointer] at behind
    rw [openTable, tracks.nextTable, clearTable, behind, after, u64_of_lt virt, u32_of_lt number]
    rfl
  · dsimp only
    by_cases same : other = level
    · subst same
      rw [Function.update_self, Function.update_self, pointer]
    · rw [Function.update_of_ne same, Function.update_of_ne (show 3 - other ≠ 3 - level by omega)]
      exact tracks.tables other rootOther
  · dsimp only
    by_cases same : other = level
    · subst same
      rw [Function.update_self, Function.update_self]
      omega
    · rw [Function.update_of_ne same, Function.update_of_ne (show 3 - other ≠ 3 - level by omega)]
      exact tracks.indices other rootOther

/-! ## The recursion -/

/-- The last entries once page `last + 1` has its entries on the levels from `level` up. -/
def limitsFrom (last level : ℕ) : ℕ → ℕ := fun other =>
  if other < level then last / 512 ^ other else (last + 1) / 512 ^ other

/-- The last tables once page `last + 1` has its tables on the levels below `level`. -/
def topsBelow (last level : ℕ) : ℕ → ℕ := fun other =>
  if other < level then (last + 1) / 512 ^ (other + 1) else last / 512 ^ (other + 1)

/-- The next page enters a level with a new entry exactly at the boundaries of the level. -/
private theorem succ_div_pow (boundary : 512 ^ level ∣ last + 1) :
    last / 512 ^ level + 1 = (last + 1) / 512 ^ level := by
  rw [Nat.succ_div, if_pos boundary]

private theorem succ_div_pow_of_inner (inner : ¬ 512 ^ level ∣ last + 1) {above : ℕ} (le : level ≤ above) :
    last / 512 ^ above = (last + 1) / 512 ^ above := by
  rw [Nat.succ_div, if_neg fun boundary => inner ((pow_dvd_pow 512 le).trans boundary), Nat.add_zero]

private theorem limitsFrom_update (last level : ℕ) :
    Function.update (limitsFrom last (level + 1)) level ((last + 1) / 512 ^ level) =
      limitsFrom last level := by
  funext other
  rcases Nat.lt_trichotomy other level with before | rfl | after
  · rw [Function.update_of_ne before.ne, limitsFrom, limitsFrom, if_pos before,
      if_pos (before.trans (Nat.lt_succ_self _))]
  · rw [Function.update_self, limitsFrom, if_neg (Nat.lt_irrefl _)]
  · rw [Function.update_of_ne after.ne', limitsFrom, limitsFrom, if_neg (by omega), if_neg (by omega)]

private theorem topsBelow_update (last level : ℕ) :
    Function.update (topsBelow last level) level ((last + 1) / 512 ^ (level + 1)) =
      topsBelow last (level + 1) := by
  funext other
  rcases Nat.lt_trichotomy other level with before | rfl | after
  · rw [Function.update_of_ne before.ne, topsBelow, topsBelow, if_pos before,
      if_pos (before.trans (Nat.lt_succ_self _))]
  · rw [Function.update_self, topsBelow, if_pos (Nat.lt_succ_self _)]
  · rw [Function.update_of_ne after.ne', topsBelow, topsBelow, if_neg (by omega), if_neg (by omega)]

/-- Above the boundary nothing changes. -/
private theorem limitsFrom_of_inner (inner : ¬ 512 ^ level ∣ last + 1) :
    limitsFrom last level = fun other => last / 512 ^ other := by
  funext other
  rw [limitsFrom]
  split_ifs with before
  · rfl
  · exact (succ_div_pow_of_inner inner (Nat.le_of_not_lt before)).symm

private theorem topsBelow_of_inner (inner : ¬ 512 ^ (level + 1) ∣ last + 1) :
    topsBelow last level = fun other => (last + 1) / 512 ^ (other + 1) := by
  funext other
  rw [topsBelow]
  split_ifs with before
  · rfl
  · exact succ_div_pow_of_inner inner (by omega)

/-- The pages up to `last` are mapped, and the factory is ready for the next one. -/
structure Steady (kernel : FreshKernel) (last : ℕ) (factory : DynpageFactory) (frames : Frames) : Prop where
  stage : kernel.Stage last frames (fun level => last / 512 ^ level) (fun level => last / 512 ^ (level + 1))
  tracks : kernel.Tracks factory (fun level => last / 512 ^ level) (fun level => last / 512 ^ (level + 1))
  metapages : factory.metapageCount = tableCount last

/-- The tables for page `last + 1` are open, and so are the entries on the levels above. -/
private theorem appendEntry_level (reached : kernel.Reached last) (root : level ≤ 3)
    (boundary : 512 ^ level ∣ last + 1)
    (stage : kernel.Stage last frames (limitsFrom last (level + 1))
      (fun level => (last + 1) / 512 ^ (level + 1)))
    (tracks : kernel.Tracks factory (limitsFrom last (level + 1))
      (fun level => (last + 1) / 512 ^ (level + 1))) :
    ∃ factory' frames',
      appendEntry kernel.layout (3 - level)
      (kernel.targetOf level ((last + 1) / 512 ^ level)) factory frames =
        .ok (factory', frames') ∧
      kernel.Stage last frames' (limitsFrom last level) (fun level => (last + 1) / 512 ^ (level + 1)) ∧
      kernel.Tracks factory' (limitsFrom last level) (fun level => (last + 1) / 512 ^ (level + 1)) ∧
      factory'.metapageCount = factory.metapageCount := by
  have next : limitsFrom last (level + 1) level + 1 = (last + 1) / 512 ^ level := by
    rw [limitsFrom, if_pos (Nat.lt_succ_self level), succ_div_pow boundary]
  have appended := appendEntry_spec stage tracks reached root next (div_pow_succ (last + 1) level).symm
  rwa [limitsFrom_update] at appended

/-- A page inside its table goes into a free entry. -/
private theorem appendEntry_inner (reached : kernel.Reached last) (root : level ≤ 3)
    (boundary : 512 ^ level ∣ last + 1) (inner : ¬ 512 ^ (level + 1) ∣ last + 1)
    (stage : kernel.Stage last frames (fun level => last / 512 ^ level) (topsBelow last level))
    (tracks : kernel.Tracks factory (fun level => last / 512 ^ level) (topsBelow last level)) :
    factory.nextIndices (3 - level) < 512 ∧ ∃ factory' frames',
      appendEntry kernel.layout (3 - level)
      (kernel.targetOf level ((last + 1) / 512 ^ level)) factory frames =
        .ok (factory', frames') ∧
      kernel.Stage last frames' (limitsFrom last level) (fun level => (last + 1) / 512 ^ (level + 1)) ∧
      kernel.Tracks factory' (limitsFrom last level) (fun level => (last + 1) / 512 ^ (level + 1)) ∧
      factory'.metapageCount = factory.metapageCount := by
  rw [topsBelow_of_inner inner] at stage tracks
  constructor
  · have index := tracks.indices level root
    have next := succ_div_pow boundary
    rw [div_pow_succ] at index
    omega
  · rw [← limitsFrom_of_inner inner] at stage tracks
    exact appendEntry_level reached root boundary stage tracks

/-- A page at the boundary of a table opens the next one, which the level above then gets an entry for. -/
theorem openTable_boundary (reached : kernel.Reached last) (below : level ≤ 2)
    (boundary : 512 ^ (level + 1) ∣ last + 1)
    (stage : kernel.Stage last frames (fun level => last / 512 ^ level) (topsBelow last level))
    (tracks : kernel.Tracks factory (fun level => last / 512 ^ level) (topsBelow last level))
    (metapages : factory.metapageCount = tableCount last + level) :
    factory.nextIndices (3 - level) = 512 ∧
      factory.metapageCount = tablePage level ((last + 1) / 512 ^ (level + 1)) ∧ ∃ factory' frames',
      openTable kernel.layout (3 - level) factory frames = .ok (factory', frames') ∧
      kernel.Stage last frames' (fun level => last / 512 ^ level) (topsBelow last (level + 1)) ∧
      kernel.Tracks factory' (fun level => last / 512 ^ level) (topsBelow last (level + 1)) ∧
      factory'.metapageCount = tableCount last + (level + 1) := by
  have index := tracks.indices level (by omega)
  have next := succ_div_pow boundary
  have entry := succ_div_pow ((pow_dvd_pow 512 (Nat.le_succ level)).trans boundary)
  have tops : topsBelow last level level = last / 512 ^ (level + 1) := by
    rw [topsBelow, if_neg (Nat.lt_irrefl level)]
  have whole : 512 ^ (level + 1) * ((last + 1) / 512 ^ (level + 1)) = last + 1 := Nat.mul_div_cancel' boundary
  have full : last / 512 ^ level + 1 = 512 * ((last + 1) / 512 ^ (level + 1)) := by
    rw [div_pow_succ, div_pow_succ] at next
    rw [div_pow_succ]
    omega
  have page : factory.metapageCount = tablePage level ((last + 1) / 512 ^ (level + 1)) := by
    rw [tablePage, if_neg (by omega), whole, metapages, Nat.add_sub_cancel]
  obtain ⟨factory', frames', ran, open', tracks', count⟩ :=
    openTable_spec stage tracks reached below (by rw [tops, next]) full le_rfl page
  rw [topsBelow_update] at open' tracks'
  rw [tops] at index
  exact ⟨by omega, page, factory', frames', ran, open', tracks', by omega⟩

/-! ## Accesses -/

/-- The access goes to page `m` of the window, which is mapped at that moment. It has been handed out before, or it
is one of the three pages whose tables are built when the third is handed out. -/
structure Hits (kernel : FreshKernel) (access : Access) (m : ℕ) : Prop where
  mapped : translateVirt access.frames kernel.layout.root access.table = some (kernel.phys m)
  earlier : m < access.pages ∨ access.pages = 2 ∧ m < 3

/-- The access goes to the root or to a page that becomes a table by the end of the call, and the factory has
counted no more table pages than were handed out before. -/
structure Backed (kernel : FreshKernel) (access : Access) : Prop where
  count : access.metapageCount ≤ access.pages
  place : access.table = kernel.layout.gPagetable ∨ ∃ m < tableCount (access.pages + 512), kernel.Hits access m

/-- The accesses of calls before page `stop` are backed, and some go to each of the pages from `first` to `limit`. -/
structure Records (kernel : FreshKernel) (stop first limit : ℕ) (log : List Access) : Prop where
  accesses : ∀ access ∈ log, access.pages < stop ∧ kernel.Backed access
  used : ∀ m, first ≤ m → m < limit → ∃ access ∈ log, kernel.Hits access m

section Records

variable {stop first middle limit pages table metapageCount : ℕ} {log call : List Access} {access : Access}

theorem Records.nil : kernel.Records stop first first [] where
  accesses _ member := (List.not_mem_nil member).elim
  used _ lower upper := absurd lower (Nat.not_le_of_lt upper)

private theorem Records.single (first : ℕ) (before : access.pages < stop) (backed : kernel.Backed access) :
    kernel.Records stop first first [access] where
  accesses other member := by
    obtain rfl := List.mem_singleton.mp member
    exact ⟨before, backed⟩
  used _ lower upper := absurd lower (Nat.not_le_of_lt upper)

theorem Records.append (records : kernel.Records stop first middle log)
    (later : kernel.Records stop middle limit call) :
    kernel.Records stop first limit (log ++ call) where
  accesses access member := by
    rcases List.mem_append.mp member with old | new
    · exact records.accesses access old
    · exact later.accesses access new
  used m lower upper := by
    rcases Nat.lt_or_ge m middle with old | new
    · obtain ⟨access, member, hits⟩ := records.used m lower old
      exact ⟨access, List.mem_append_left call member, hits⟩
    · obtain ⟨access, member, hits⟩ := later.used m new upper
      exact ⟨access, List.mem_append_right log member, hits⟩

theorem Records.mono (records : kernel.Records middle first limit log) (le : middle ≤ stop) :
    kernel.Records stop first limit log :=
  ⟨fun access member => ⟨(records.accesses access member).1.trans_le le, (records.accesses access member).2⟩, records.used⟩

/-- A boundary of a level lets the factory count a table on each level below. -/
private theorem tableCount_add_le (boundary : 512 ^ level ∣ last + 1) (root : level ≤ 3) :
    tableCount last + level ≤ tableCount (last + 1) := by
  unfold tableCount
  interval_cases level <;> omega

/-- The next table of a level below the root is hit. -/
private theorem Linked.hits (linked : kernel.Linked last frames) (reached : kernel.Reached last) (below : level ≤ 2)
    (own : pages + 511 = last) (pointer : table = kernel.pointerAt level ((last + 1) / 512 ^ (level + 1))) :
    kernel.Hits ⟨pages, table, frames, metapageCount⟩ (tablePage level ((last + 1) / 512 ^ (level + 1))) := by
  have started := reached.started
  have use : InUse (last + 1) level ((last + 1) / 512 ^ (level + 1)) := ⟨by omega, firstEntry_le (by omega) _, le_rfl⟩
  have mapped := reached.tablePage_le use below
  rw [pointerAt, if_neg (by omega)] at pointer
  refine ⟨?_, .inl (by dsimp only; omega)⟩
  dsimp only
  rw [pointer]
  exact linked.translateVirt reached mapped

/-- The next table of every level is backed. -/
private theorem Linked.backed (linked : kernel.Linked last frames) (reached : kernel.Reached last) (root : level ≤ 3)
    (own : pages + 511 = last) (pointer : table = kernel.pointerAt level ((last + 1) / 512 ^ (level + 1)))
    (count : metapageCount ≤ tableCount (last + 1)) : kernel.Backed ⟨pages, table, frames, metapageCount⟩ := by
  have started := reached.started
  have room := tableCount_le started
  have use : InUse (last + 1) level ((last + 1) / 512 ^ (level + 1)) := ⟨root, firstEntry_le (by omega) _, le_rfl⟩
  have next : pages + 512 = last + 1 := by omega
  refine ⟨by dsimp only; omega, ?_⟩
  rcases Nat.lt_or_eq_of_le root with below | rfl
  · refine .inr ⟨_, ?_, linked.hits reached (by omega) own pointer⟩
    dsimp only
    rw [next]
    exact use.tablePage_lt (by omega) (by omega)
  · exact .inl pointer

section NextTable

variable (reached : kernel.Reached last) (below : level ≤ 2) (tracks : kernel.Tracks factory limits tops)
  (page : factory.metapageCount = tablePage level ((last + 1) / 512 ^ (level + 1)))

include reached below tracks page

private theorem nextTable_pointer : factory.nextTable = kernel.pointerAt level ((last + 1) / 512 ^ (level + 1)) := by
  have started := reached.started
  rw [tracks.nextTable, page, pointerAt, if_neg (by omega)]

/-- The table that is opened for a level is the target of the level above. -/
private theorem nextTable_target (low : kernel.TablesLow (last + 1)) (next : last + 1 < pageCount kernel.mmapDyn + 512)
    (bootstrapped : 3 ≤ factory.metapageCount) :
    virtToPhysDynmem factory.nextTable kernel.mmapDyn = .ok (kernel.phys factory.metapageCount) ∧
      kernel.targetOf (level + 1) ((last + 1) / 512 ^ (level + 1)) = u32 (kernel.phys factory.metapageCount) := by
  have limit := kernel.limit
  have started := reached.started
  have use : InUse (last + 1) level ((last + 1) / 512 ^ (level + 1)) := ⟨by omega, firstEntry_le (by omega) _, le_rfl⟩
  have number := use.tablePage_lt (by omega) (by omega)
  have room := reached.tablePage_le use (by omega)
  constructor
  · rw [tracks.nextTable]
    exact kernel.map.virtToPhys_page (by omega)
  · rw [targetOf, frameAt_below (by omega), u32_of_lt (low _ bootstrapped (page ▸ number)), page]

/-- Clearing it is an access to the page it is kept in. -/
private theorem nextTable_records (linked : kernel.Linked last frames) (own : pages + 511 = last)
    (count : factory.metapageCount ≤ tableCount (last + 1)) :
    kernel.Records (pages + 1) factory.metapageCount (factory.metapageCount + 1)
      [⟨pages, factory.nextTable, frames, factory.metapageCount⟩] := by
  have pointer := nextTable_pointer reached below tracks page
  refine ⟨(Records.single 0 (Nat.lt_succ_self pages) ?_).accesses, fun m lower upper => ?_⟩
  · exact linked.backed reached (by omega) own pointer count
  · obtain rfl : m = tablePage level ((last + 1) / 512 ^ (level + 1)) := by omega
    exact ⟨_, .head _, linked.hits reached below own pointer⟩

end NextTable

end Records

/-! ## The recursion with its accesses -/

/-- A new entry of a level, with the tables for the levels below in place. The induction goes up the
levels, which the code counts from the root. -/
private theorem dynpageFactoryNextRecurLogged_spec (low : kernel.TablesLow (last + 1)) (reached : kernel.Reached last)
    (next : last + 1 < pageCount kernel.mmapDyn + 512) {pages : ℕ} (own : pages + 511 = last) (depth : ℕ)
    (sum : depth + level = 3)
    (boundary : 512 ^ level ∣ last + 1)
    (stage : kernel.Stage last frames (fun level => last / 512 ^ level) (topsBelow last level))
    (tracks : kernel.Tracks factory (fun level => last / 512 ^ level) (topsBelow last level))
    (metapages : factory.metapageCount = tableCount last + level) :
    ∃ factory' frames' log,
      dynpageFactoryNextRecurLogged kernel.layout kernel.mmapDyn pages depth
        (kernel.targetOf level ((last + 1) / 512 ^ level)) factory frames = .ok (factory', frames', log) ∧
      kernel.Stage last frames' (limitsFrom last level) (fun level => (last + 1) / 512 ^ (level + 1)) ∧
      kernel.Tracks factory' (limitsFrom last level) (fun level => (last + 1) / 512 ^ (level + 1)) ∧
      factory'.metapageCount = tableCount (last + 1) ∧
      kernel.Records (pages + 1) factory.metapageCount (tableCount (last + 1)) log := by
  have limit := kernel.limit
  have started := reached.started
  induction depth generalizing level factory frames with
  | zero =>
    obtain rfl : level = 3 := by omega
    have inner : ¬ 512 ^ (3 + 1) ∣ last + 1 := fun whole => by
      have := Nat.le_of_dvd (Nat.succ_pos last) whole
      omega
    obtain ⟨_, factory', frames', ran, stage', tracks', count⟩ :=
      appendEntry_inner reached le_rfl boundary inner stage tracks
    have total := tableCount_succ boundary le_rfl (.inl rfl)
    have pointer := tracks.tables 3 le_rfl
    rw [topsBelow_of_inner inner] at pointer
    refine ⟨factory', frames', [⟨pages, factory.tables 0, frames, factory.metapageCount⟩], ?_,
      stage', tracks', ?_, ?_⟩
    · have index := tracks.indices 3 le_rfl
      have entry := succ_div_pow boundary
      rw [dynpageFactoryNextRecurLogged, assertMsg_of, Except.ok_bind]
      · exact Except.bind_ok_iff.mpr ⟨_, ran, rfl⟩
      · rw [Nat.sub_self] at index
        simp only [Bool.not_eq_true', decide_eq_false_iff_not]
        omega
    · rw [count, metapages, total]
    · rw [total, ← metapages]
      exact .single _ (Nat.lt_succ_self pages) (stage.linked.backed reached le_rfl own pointer (by omega))
  | succ depth ih =>
    have code : 3 - level = depth + 1 := by omega
    by_cases carry : 512 ^ (level + 1) ∣ last + 1
    · obtain ⟨full, page, opened, cleared, ran, stageOpen, tracksOpen, countOpen⟩ :=
        openTable_boundary reached (by omega) carry stage tracks metapages
      obtain ⟨linked, frames₁, logUp, ranUp, stageUp, tracksUp, countUp, callUp⟩ :=
        @ih (level + 1) _ _ (by omega) carry stageOpen tracksOpen countOpen
      obtain ⟨factory', frames', ranLast, stage', tracks', count⟩ :=
        appendEntry_level reached (by omega) boundary stageUp tracksUp
      have bootstrapped : 3 ≤ factory.metapageCount := by
        rw [metapages, tableCount]
        omega
      have bound := tableCount_add_le carry (by omega)
      obtain ⟨found, table⟩ := nextTable_target reached (by omega) tracks page low next bootstrapped
      have opening := nextTable_records reached (by omega) tracks page stage.linked own (by omega)
      have closing : kernel.Backed ⟨pages, linked.tables (3 - level), frames₁, linked.metapageCount⟩ :=
        stageUp.linked.backed reached (by omega) own (tracksUp.tables level (by omega)) countUp.le
      rw [countOpen, ← Nat.add_assoc, ← metapages] at callUp
      rw [code] at full ran ranLast closing
      rw [table] at ranUp
      refine ⟨factory', frames', [⟨pages, factory.nextTable, frames, factory.metapageCount⟩] ++ logUp ++
          [⟨pages, linked.tables (depth + 1), frames₁, linked.metapageCount⟩], ?_, stage', tracks',
            by rw [count, countUp],
        (opening.append callUp).append (.single _ (Nat.lt_succ_self pages) closing)⟩
      rw [dynpageFactoryNextRecurLogged,
        if_pos (show factory.nextIndices (depth + 1) ≥ PAGETABLE_LENGTH from full.ge)]
      exact Except.bind_ok_iff.mpr ⟨_, Except.bind_ok_iff.mpr ⟨_, ran, rfl⟩,
        Except.bind_ok_iff.mpr ⟨_, found, Except.bind_ok_iff.mpr ⟨_, ranUp,
        Except.bind_ok_iff.mpr ⟨_, Except.bind_ok_iff.mpr ⟨_, ranLast, rfl⟩, rfl⟩⟩⟩⟩
    · obtain ⟨room, factory', frames', ran, stage', tracks', count⟩ :=
        appendEntry_inner reached (by omega) boundary carry stage tracks
      have total := tableCount_succ boundary (by omega) (.inr carry)
      have pointer := tracks.tables level (by omega)
      rw [topsBelow_of_inner carry] at pointer
      have backed : kernel.Backed ⟨pages, factory.tables (3 - level), frames, factory.metapageCount⟩ :=
        stage.linked.backed reached (by omega) own pointer (by omega)
      rw [code] at room ran backed
      refine ⟨factory', frames', [⟨pages, factory.tables (depth + 1), frames, factory.metapageCount⟩], ?_, stage',
        tracks', ?_, ?_⟩
      · rw [dynpageFactoryNextRecurLogged,
          if_neg (show ¬ factory.nextIndices (depth + 1) ≥ PAGETABLE_LENGTH from room.not_ge)]
        exact Except.bind_ok_iff.mpr ⟨_, ran, rfl⟩
      · rw [count, metapages, total]
      · rw [total, ← metapages]
        exact .single _ (Nat.lt_succ_self pages) backed

/-- Mapping the next page keeps the factory ready. -/
theorem Steady.next (steady : kernel.Steady last factory frames) (low : kernel.TablesLow (last + 1))
    (reached : kernel.Reached last) (next : last + 1 < pageCount kernel.mmapDyn + 512) {pages : ℕ}
    (own : pages + 511 = last) :
    ∃ factory' frames' log,
      dynpageFactoryNextLogged kernel.layout kernel.mmapDyn pages (kernel.phys (last + 1 - 512)) factory frames =
        .ok (factory', frames', log) ∧ kernel.Steady (last + 1) factory' frames' ∧
      kernel.Records (pages + 1) factory.metapageCount factory'.metapageCount log := by
  have start : topsBelow last 0 = fun level => last / 512 ^ (level + 1) := rfl
  have stop : limitsFrom last 0 = fun level => (last + 1) / 512 ^ level := rfl
  obtain ⟨factory', frames', log, ran, stage, tracks, count, records⟩ :=
    @dynpageFactoryNextRecurLogged_spec kernel last 0 _ _ low reached next _ own 3 rfl (one_dvd _)
      (start ▸ steady.stage) (start ▸ steady.tracks) steady.metapages
  rw [pow_zero, Nat.div_one, targetOf] at ran
  rw [stop] at stage tracks
  refine ⟨factory', frames', log, ?_, ⟨?_, tracks, count⟩, ?_⟩
  · rw [dynpageFactoryNextLogged, steady.tracks.bootstrapped, if_neg (Nat.lt_irrefl 3)]
    exact ran
  · exact ⟨stage.built, fun _ _ => le_rfl, fun _ _ => le_rfl, fun _ _ => Nat.div_le_div_right (Nat.le_succ _),
      stage.rest, stage.early⟩
  · rw [count]
    exact records

end FreshKernel

end RubberOS.Model.PageConstruct
