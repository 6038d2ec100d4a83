import Mathlib.Tactic.IntervalCases
import RubberOS.Proofs.DynPages

/-! # Tables that are filled in order

Pages are numbered from address zero here, so the window starts with page 512. An entry of a level
stands for `512 ^ level` pages: entry `c` has index `c % 512` in table `c / 512` of its level, and
leads to table `c` of the level below. The factory fills every level up to a last entry, and takes
the next page of the window wherever a level needs a new table.
-/

namespace RubberOS.Model.PageConstruct

open MemoryMap PageTable

/-! ## Numbers of tables -/

/-- The number of tables below the root once page `last` is mapped. -/
def tableCount (last : ℕ) : ℕ := last / 512 + last / 512 ^ 2 + last / 512 ^ 3 + 2

/-- The first entry of a level that leads into the window. -/
def firstEntry (level : ℕ) : ℕ := 512 / 512 ^ level

/-- The page of the window that becomes table `t` of a level. -/
def tablePage (level t : ℕ) : ℕ :=
  if t = 0 then 2 - level else tableCount (512 ^ (level + 1) * t - 1) + level

/-- The table leads into the window and is opened by the time page `next` is mapped. -/
structure InUse (next level t : ℕ) : Prop where
  root : level ≤ 3
  lower : firstEntry (level + 1) ≤ t
  upper : t ≤ next / 512 ^ (level + 1)

section Numbers

variable {last next level other t u : ℕ}

private theorem firstEntry_succ (level : ℕ) : firstEntry (level + 1) = firstEntry level / 512 := by
  rw [firstEntry, firstEntry, pow_succ, Nat.div_div_eq_div_mul]

theorem tableCount_mono (le : last ≤ next) : tableCount last ≤ tableCount next := by
  unfold tableCount
  omega

/-- Mapping the page at a boundary of a level opens a table on each level below. -/
theorem tableCount_succ (boundary : 512 ^ level ∣ last + 1) (below : level ≤ 3)
    (inner : level = 3 ∨ ¬ 512 ^ (level + 1) ∣ last + 1) :
    tableCount (last + 1) = tableCount last + level := by
  unfold tableCount
  interval_cases level <;> omega

/-- The tables that the next page needs lie in pages that are mapped already. -/
theorem tableCount_le (started : 514 ≤ last) : tableCount (last + 1) + 511 ≤ last := by
  unfold tableCount
  omega

theorem InUse.tablePage_lt (use : InUse next level t) (below : level ≤ 2) (started : 512 ≤ next) :
    tablePage level t < tableCount next := by
  obtain ⟨_, lower, upper⟩ := use
  unfold tablePage tableCount
  simp only [firstEntry] at lower
  interval_cases level <;> split_ifs <;> omega

/-- A table is opened by the first page below it. -/
private theorem tablePage_lt_opening (below : level ≤ 2) (lower : firstEntry (level + 1) ≤ t) (later : t ≠ 0) :
    tablePage level t < tableCount (512 ^ (level + 1) * t) := by
  have power : 0 < 512 ^ (level + 1) := Nat.pow_pos (by decide)
  apply InUse.tablePage_lt ⟨by omega, lower, (Nat.mul_div_cancel_left t power).ge⟩ below
  calc 512 = 512 ^ 1 * 1 := rfl
    _ ≤ 512 ^ (level + 1) * t := Nat.mul_le_mul (Nat.pow_le_pow_right (by decide) (by omega)) (by omega)

/-- Different tables are different pages. -/
private theorem tablePage_injective (below : level ≤ 2) (lower : firstEntry (level + 1) ≤ t) (belowOther : other ≤ 2)
    (lowerOther : firstEntry (other + 1) ≤ u) (same : tablePage level t = tablePage other u) :
    level = other ∧ t = u := by
  have count (last : ℕ) : 2 ≤ tableCount last := Nat.le_add_left 2 _
  have first (level : ℕ) (zero : firstEntry (level + 1) ≤ 0) : level ≠ 0 := by
    rintro rfl
    exact absurd zero (by decide)
  rcases Nat.eq_zero_or_pos t with rfl | later <;> rcases Nat.eq_zero_or_pos u with rfl | laterOther
  · rw [tablePage, tablePage, if_pos rfl, if_pos rfl] at same
    omega
  · have := first level lower
    have := count (512 ^ (other + 1) * u - 1)
    rw [tablePage, tablePage, if_pos rfl, if_neg laterOther.ne'] at same
    omega
  · have := first other lowerOther
    have := count (512 ^ (level + 1) * t - 1)
    rw [tablePage, tablePage, if_neg later.ne', if_pos rfl] at same
    omega
  · have opened := tablePage_lt_opening below lower later.ne'
    have openedOther := tablePage_lt_opening belowOther lowerOther laterOther.ne'
    rw [tablePage, if_neg later.ne'] at same opened
    rw [tablePage, if_neg laterOther.ne'] at same openedOther
    rcases Nat.lt_trichotomy (512 ^ (level + 1) * t) (512 ^ (other + 1) * u) with before | equal | after
    · have := tableCount_mono (Nat.le_sub_one_of_lt before)
      omega
    · obtain rfl : level = other := by
        rw [equal] at same
        omega
      exact ⟨rfl, Nat.eq_of_mul_eq_mul_left (Nat.pow_pos (by decide)) equal⟩
    · have := tableCount_mono (Nat.le_sub_one_of_lt after)
      omega

theorem firstEntry_le (started : 512 ≤ last) (level : ℕ) : firstEntry level ≤ last / 512 ^ level :=
  Nat.div_le_div_right started

theorem div_pow_succ (last level : ℕ) : last / 512 ^ (level + 1) = last / 512 ^ level / 512 := by
  rw [pow_succ, Nat.div_div_eq_div_mul]

end Numbers

/-! ## Tables in memory -/

section Writes

variable {frames : Frames} {frame frame' index index' entry : ℕ}

theorem Frames.write_self : frames.write frame index entry frame index = entry := by
  rw [Frames.write, Function.update_self, Function.update_self]

theorem Frames.write_of_ne (apart : ¬ (frame' = frame ∧ index' = index)) :
    frames.write frame index entry frame' index' = frames frame' index' := by
  rw [Frames.write]
  by_cases same : frame' = frame
  · subst same
    rw [Function.update_self, Function.update_of_ne fun equal => apart ⟨rfl, equal⟩]
  · rw [Function.update_of_ne same]

theorem Frames.write_apply (frame' index' : ℕ) : frames.write frame index entry frame' index' =
    if frame' = frame ∧ index' = index then entry else frames frame' index' := by
  split_ifs with own
  · rw [own.1, own.2, Frames.write_self]
  · exact Frames.write_of_ne own

end Writes

/-- The kernel when it constructs the tables of dynamic memory. The root is part of the image and has
no entry for the lower half, and `tmptable` is a page of the kernel stack. -/
structure FreshKernel where
  layout : KernelLayout
  mmapDyn : Mmap
  boot : Frames
  map : PagedMap mmapDyn
  three : 3 ≤ pageCount mmapDyn
  limit : pageCount mmapDyn + 512 ≤ 2 ^ 35
  rootPage : ImagePage layout.gPagetable
  stackAligned : layout.tmpPhys % PAGE_SIZE = 0
  stackLow : layout.tmpPhys < DYNMEM_START_PHYS_MINIMUM
  stackApart : layout.tmpPhys ≠ layout.root
  vacant : ∀ index < 256, boot layout.root index = 0

namespace FreshKernel

variable (kernel : FreshKernel)

def phys (i : ℕ) : ℕ := pagePhys kernel.mmapDyn i

/-- The physical page of a table. -/
def frameAt (level t : ℕ) : ℕ := if level = 3 then kernel.layout.root else kernel.phys (tablePage level t)

/-- The pointer with which the factory reaches a table. -/
def pointerAt (level t : ℕ) : ℕ := if level = 3 then kernel.layout.gPagetable else pageVirt (tablePage level t)

/-- What entry `c` of a level leads to. -/
def targetOf : ℕ → ℕ → ℕ
  | 0, c => kernel.phys (c - 512)
  | level + 1, c => kernel.frameAt level c

/-- An entry that is not filled yet: the first table of a level keeps what was in memory. -/
def blank (level c : ℕ) : ℕ :=
  if c / 512 = firstEntry (level + 1) then kernel.boot (kernel.frameAt level (c / 512)) (c % 512) else 0

/-- Entry `c` of a level whose last filled entry is `limit`. -/
def cell (limit level c : ℕ) : ℕ :=
  if c ≤ limit then kernel.targetOf level c ||| KERNEL_PAGE_FLAG else kernel.blank level c

/-- The levels are filled up to the entries `limits`, in tables up to `tops`. -/
def Built (frames : Frames) (limits tops : ℕ → ℕ) : Prop :=
  ∀ level ≤ 3, ∀ c, firstEntry level ≤ c → c / 512 ≤ tops level →
    frames (kernel.frameAt level (c / 512)) (c % 512) = kernel.cell (limits level) level c

/-- The pages that the construction may write. -/
def Written (frame : ℕ) : Prop :=
  frame = kernel.layout.root ∨ frame = kernel.layout.tmpPhys ∨ ∃ i < pageCount kernel.mmapDyn, kernel.phys i = frame

/-- The pages up to `last` are mapped; the next one is not above the limit. -/
structure Reached (last : ℕ) : Prop where
  started : 514 ≤ last
  mapped : last < pageCount kernel.mmapDyn + 512

/-- While page `last + 1` is being mapped, some tables and entries for it exist already. -/
structure Stage (last : ℕ) (frames : Frames) (limits tops : ℕ → ℕ) : Prop where
  built : kernel.Built frames limits tops
  filled : ∀ level ≤ 3, last / 512 ^ level ≤ limits level
  opened : ∀ level ≤ 3, last / 512 ^ (level + 1) ≤ tops level
  inTime : ∀ level ≤ 3, tops level ≤ (last + 1) / 512 ^ (level + 1)
  rest : ∀ frame, ¬ kernel.Written frame → frames frame = kernel.boot frame
  -- the entry of the first directory below the window
  early : frames (kernel.frameAt 1 0) 0 = kernel.boot (kernel.frameAt 1 0) 0

variable {kernel} {last level other t u c g : ℕ} {frames : Frames} {limits tops : ℕ → ℕ}

/-! ### Frames of tables -/

theorem phys_bounds {i : ℕ} (inside : i < pageCount kernel.mmapDyn) :
    kernel.phys i % PAGE_SIZE = 0 ∧ DYNMEM_START_PHYS_MINIMUM ≤ kernel.phys i ∧ kernel.phys i < 2 ^ 52 :=
  kernel.map.pagePhys_bounds inside

/-- A table below the root lies in a page that is mapped before the table is opened. -/
theorem Reached.tablePage_le (reached : kernel.Reached last) (use : InUse (last + 1) level t)
    (below : level ≤ 2) :
    tablePage level t + 512 ≤ last := by
  have started := reached.started
  have number := use.tablePage_lt below (by omega)
  have room := tableCount_le started
  omega

private theorem Reached.root_table (reached : kernel.Reached last) (use : InUse (last + 1) 3 t) : t = 0 := by
  have mapped := reached.mapped
  have limit := kernel.limit
  have upper := use.upper
  omega

theorem frameAt_root : kernel.frameAt 3 t = kernel.layout.root := if_pos rfl

theorem frameAt_below (below : level ≤ 2) : kernel.frameAt level t = kernel.phys (tablePage level t) :=
  if_neg (by omega)

theorem root_low : kernel.layout.root % PAGE_SIZE = 0 ∧ kernel.layout.root < DYNMEM_START_PHYS_MINIMUM :=
  kernel.rootPage.bounds

/-- Different tables in use have different pages. -/
theorem Reached.frameAt_injective (reached : kernel.Reached last) (use : InUse (last + 1) level t)
    (useOther : InUse (last + 1) other u) (same : kernel.frameAt level t = kernel.frameAt other u) :
    level = other ∧ t = u := by
  have page {level t : ℕ} (use : InUse (last + 1) level t) (below : level ≤ 2) :
      tablePage level t < pageCount kernel.mmapDyn := by
    have := reached.tablePage_le use below
    have := reached.mapped
    omega
  have apart {level t : ℕ} (use : InUse (last + 1) level t) (below : level ≤ 2) :
      kernel.layout.root ≠ kernel.phys (tablePage level t) := by
    have high := (phys_bounds (page use below)).2.1
    have low := kernel.root_low.2
    exact Nat.ne_of_lt (Nat.lt_of_lt_of_le low high)
  rcases Nat.lt_or_eq_of_le use.root with below | rfl <;> rcases Nat.lt_or_eq_of_le useOther.root
    with belowOther | rfl
  · rw [frameAt_below (by omega), frameAt_below (by omega)] at same
    have pages := kernel.map.pagePhys_injective (page use (by omega)) (page useOther (by omega)) same
    exact tablePage_injective (by omega) use.lower (by omega) useOther.lower pages
  · rw [frameAt_below (by omega), frameAt_root] at same
    exact absurd same.symm (apart use (by omega))
  · rw [frameAt_below (t := u) (by omega), frameAt_root] at same
    exact absurd same (apart useOther (by omega))
  · exact ⟨rfl, (reached.root_table use).trans (reached.root_table useOther).symm⟩

/-- The physical page of a table fits an entry. -/
theorem Reached.frameAt_bounds (reached : kernel.Reached last) (use : InUse (last + 1) level t) :
    kernel.frameAt level t % PAGE_SIZE = 0 ∧ kernel.frameAt level t < 2 ^ 52 := by
  rcases Nat.lt_or_eq_of_le use.root with below | rfl
  · have page := reached.tablePage_le use (by omega)
    have mapped := reached.mapped
    have bounds := @phys_bounds kernel (tablePage level t) (by omega)
    rw [frameAt_below (by omega)]
    exact ⟨bounds.1, bounds.2.2⟩
  · have bounds := kernel.root_low
    rw [frameAt_root]
    simp only [DYNMEM_START_PHYS_MINIMUM] at bounds
    exact ⟨bounds.1, by omega⟩

theorem Reached.written (reached : kernel.Reached last) (use : InUse (last + 1) level t) :
    kernel.Written (kernel.frameAt level t) := by
  rcases Nat.lt_or_eq_of_le use.root with below | rfl
  · have page := reached.tablePage_le use (by omega)
    have mapped := reached.mapped
    exact .inr (.inr ⟨tablePage level t, by omega, (frameAt_below (by omega)).symm⟩)
  · exact .inl frameAt_root

/-! ### Stores -/

/-- The table of an entry is in use if it is opened. -/
theorem Stage.inUse (stage : kernel.Stage last frames limits tops) (root : level ≤ 3)
    (lower : firstEntry level ≤ c)
    (upper : c / 512 ≤ tops level) : InUse (last + 1) level (c / 512) where
  root := root
  lower := by
    rw [firstEntry_succ]
    exact Nat.div_le_div_right lower
  upper := upper.trans (stage.inTime level root)

/-- The directory of the window's first table is open from the start. -/
private theorem first_directory (last : ℕ) : InUse (last + 1) 1 0 := ⟨by decide, by decide, Nat.zero_le _⟩

/-- The next entry of a level is one that the construction fills. -/
theorem Stage.next_lower (stage : kernel.Stage last frames limits tops) (reached : kernel.Reached last)
    (root : level ≤ 3) (next : limits level + 1 = c) : firstEntry level ≤ c := by
  have started := reached.started
  have first := firstEntry_le (show 512 ≤ last by omega) level
  have filled := stage.filled level root
  omega

/-- The next entry of a level goes into a table that is open. -/
theorem Stage.store (stage : kernel.Stage last frames limits tops) (reached : kernel.Reached last)
    (root : level ≤ 3) (next : limits level + 1 = c) (room : c / 512 ≤ tops level) :
    kernel.Stage last (frames.write (kernel.frameAt level (c / 512)) (c % 512)
      (kernel.targetOf level c ||| KERNEL_PAGE_FLAG))
      (Function.update limits level c) tops := by
  have lower := stage.next_lower reached root next
  have use := stage.inUse root lower room
  refine ⟨fun other rootOther d lowerOther roomOther => ?_, fun other rootOther => ?_, stage.opened,
    stage.inTime, fun frame free => ?_, ?_⟩
  · by_cases own : level = other ∧ c = d
    · obtain ⟨rfl, rfl⟩ := own
      rw [Frames.write_self, Function.update_self, cell, if_pos le_rfl]
    · have apart : ¬ (kernel.frameAt other (d / 512) = kernel.frameAt level (c / 512) ∧
          d % 512 = c % 512) := by
        rintro ⟨frame, index⟩
        obtain ⟨rfl, table⟩ := reached.frameAt_injective
          (stage.inUse rootOther lowerOther roomOther) use frame
        exact own ⟨rfl, by omega⟩
      rw [Frames.write_of_ne apart, stage.built other rootOther d lowerOther roomOther]
      by_cases same : other = level
      · subst same
        rw [Function.update_self, cell, cell]
        refine if_congr ?_ rfl rfl
        have : c ≠ d := fun equal => own ⟨rfl, equal⟩
        omega
      · rw [Function.update_of_ne same]
  · have filled := stage.filled other rootOther
    by_cases same : other = level
    · subst same
      rw [Function.update_self]
      omega
    · rwa [Function.update_of_ne same]
  · have apart : frame ≠ kernel.frameAt level (c / 512) := by
      rintro rfl
      exact free (reached.written use)
    rw [Frames.write, Function.update_of_ne apart]
    exact stage.rest frame free
  · rw [Frames.write_of_ne]
    · exact stage.early
    · rintro ⟨frame, index⟩
      obtain ⟨rfl, table⟩ := reached.frameAt_injective (first_directory last) use frame
      omega

/-- A new table starts with empty entries. -/
theorem Stage.clear (stage : kernel.Stage last frames limits tops) (reached : kernel.Reached last)
    (below : level ≤ 2)
    (next : tops level + 1 = t) (full : limits level < 512 * t) (due : t ≤ (last + 1) / 512 ^ (level + 1)) :
    kernel.Stage last (frames.clear (kernel.frameAt level t)) limits (Function.update tops level t) := by
  have started := reached.started
  have first := firstEntry_le (show 512 ≤ last by omega) (level + 1)
  have opened := stage.opened level (by omega)
  have own : InUse (last + 1) level t := ⟨by omega, by omega, due⟩
  refine ⟨fun other rootOther d lowerOther roomOther => ?_, stage.filled, fun other rootOther => ?_,
    fun other rootOther => ?_, fun frame free => ?_, ?_⟩
  · by_cases new : other = level ∧ d / 512 = t
    · obtain ⟨rfl, rfl⟩ := new
      rw [Frames.clear, Function.update_self, cell, if_neg (by omega), blank, if_neg (by omega)]
    · have room : d / 512 ≤ tops other := by
        by_cases same : other = level
        · subst same
          rw [Function.update_self] at roomOther
          have : d / 512 ≠ t := fun equal => new ⟨rfl, equal⟩
          omega
        · rwa [Function.update_of_ne same] at roomOther
      have apart : kernel.frameAt other (d / 512) ≠ kernel.frameAt level t := fun frame =>
        new (reached.frameAt_injective (stage.inUse rootOther lowerOther room) own frame)
      rw [Frames.clear, Function.update_of_ne apart]
      exact stage.built other rootOther d lowerOther room
  · have before := stage.opened other rootOther
    by_cases same : other = level
    · subst same
      rw [Function.update_self]
      omega
    · rwa [Function.update_of_ne same]
  · have before := stage.inTime other rootOther
    by_cases same : other = level
    · subst same
      rwa [Function.update_self]
    · rwa [Function.update_of_ne same]
  · have apart : frame ≠ kernel.frameAt level t := by
      rintro rfl
      exact free (reached.written own)
    rw [Frames.clear, Function.update_of_ne apart]
    exact stage.rest frame free
  · have apart : kernel.frameAt 1 0 ≠ kernel.frameAt level t := by
      intro frame
      obtain ⟨rfl, table⟩ := reached.frameAt_injective (first_directory last) own frame
      omega
    rw [Frames.clear, Function.update_of_ne apart]
    exact stage.early

/-! ### Walks -/

/-- The entries that lead to the pages up to the last one. -/
def Linked (kernel : FreshKernel) (last : ℕ) (frames : Frames) : Prop :=
  ∀ level ≤ 3, ∀ c, firstEntry level ≤ c → c ≤ last / 512 ^ level →
    frames (kernel.frameAt level (c / 512)) (c % 512) = kernel.targetOf level c ||| KERNEL_PAGE_FLAG

theorem Stage.linked (stage : kernel.Stage last frames limits tops) : kernel.Linked last frames := by
  intro level root c lower filled
  have limit := stage.filled level root
  have opened := stage.opened level root
  have table := Nat.div_le_div_right filled (c := 512)
  rw [div_pow_succ] at opened
  rw [stage.built level root c lower (table.trans opened), cell, if_pos (filled.trans limit)]

/-- A store behind the filled entries of a level breaks no link. -/
theorem Linked.write (linked : kernel.Linked last frames) (reached : kernel.Reached last)
    (use : InUse (last + 1) level (c / 512)) (behind : last / 512 ^ level < c) (entry : ℕ) :
    kernel.Linked last (frames.write (kernel.frameAt level (c / 512)) (c % 512) entry) := by
  intro other rootOther d lower filled
  have useOther : InUse (last + 1) other (d / 512) := by
    refine ⟨rootOther, ?_, ?_⟩
    · rw [firstEntry_succ]
      exact Nat.div_le_div_right lower
    · rw [div_pow_succ]
      exact Nat.div_le_div_right (filled.trans (Nat.div_le_div_right (Nat.le_succ last)))
  rw [Frames.write_of_ne, linked other rootOther d lower filled]
  rintro ⟨frame, index⟩
  obtain ⟨rfl, table⟩ := reached.frameAt_injective useOther use frame
  omega

/-- A filled entry on the way of a walk. -/
private theorem Linked.entry (linked : kernel.Linked last frames) (lower : 512 ≤ g) (root : level ≤ 3)
    (filled : g / 512 ^ level ≤ last / 512 ^ level) :
    frames (kernel.frameAt level (g / 512 ^ (level + 1))) (g / 512 ^ level % 512) =
      kernel.targetOf level (g / 512 ^ level) ||| KERNEL_PAGE_FLAG := by
  rw [div_pow_succ g]
  exact linked level root _ (firstEntry_le lower level) filled

theorem tableIndex_eq (virt level : ℕ) : tableIndex level virt = virt / PAGE_SIZE / 512 ^ level % 512 := by
  rw [tableIndex, pow_add, ← Nat.div_div_eq_div_mul, pow_mul]
  rfl

variable (level) in
/-- The walk passes a level whose entry is filled. -/
theorem Linked.walkFrom_filled (linked : kernel.Linked last frames) (reached : kernel.Reached last) (virt : ℕ)
    (lower : 512 ≤ virt / PAGE_SIZE) (root : level + 1 ≤ 3)
    (filled : virt / PAGE_SIZE / 512 ^ (level + 1) ≤ last / 512 ^ (level + 1)) :
    walkFrom frames virt (level + 1) (kernel.frameAt (level + 1) (virt / PAGE_SIZE / 512 ^ (level + 2))) =
      walkFrom frames virt level (kernel.frameAt level (virt / PAGE_SIZE / 512 ^ (level + 1))) := by
  have entry := linked.entry lower root filled
  have use : InUse (last + 1) level (virt / PAGE_SIZE / 512 ^ (level + 1)) :=
    ⟨by omega, firstEntry_le lower _, filled.trans (Nat.div_le_div_right (Nat.le_succ last))⟩
  obtain ⟨aligned, bound⟩ := reached.frameAt_bounds use
  rw [← tableIndex_eq] at entry
  exact walkFrom_link plain_kernel entry aligned bound

variable (level) in
/-- The processor finds every page up to the last one. -/
theorem Linked.walkFrom_mapped (linked : kernel.Linked last frames) (reached : kernel.Reached last) (virt : ℕ)
    (lower : 512 ≤ virt / PAGE_SIZE) (upper : virt / PAGE_SIZE ≤ last) (root : level ≤ 3) :
    walkFrom frames virt level (kernel.frameAt level (virt / PAGE_SIZE / 512 ^ (level + 1))) =
      some ⟨kernel.phys (virt / PAGE_SIZE - 512) ||| KERNEL_PAGE_FLAG, 0⟩ := by
  induction level with
  | zero =>
    have entry := linked.entry lower root (Nat.div_le_div_right upper)
    rw [walkFrom, tableIndex_eq, entry, pow_zero, Nat.div_one, targetOf]
    simp [isPresent_or plain_kernel]
  | succ level ih =>
    rw [linked.walkFrom_filled level reached virt lower root (Nat.div_le_div_right upper)]
    exact ih (by omega)

variable (level) in
/-- The entry that a walk finds in an open table. -/
theorem Stage.tableIndex_entry
    (stage : kernel.Stage last frames (fun level => last / 512 ^ level) tops) (virt : ℕ)
    (lower : 512 ≤ virt / PAGE_SIZE) (root : level ≤ 3)
    (room : virt / PAGE_SIZE / 512 ^ (level + 1) ≤ tops level) :
    frames (kernel.frameAt level (virt / PAGE_SIZE / 512 ^ (level + 1))) (tableIndex level virt) =
      kernel.cell (last / 512 ^ level) level (virt / PAGE_SIZE / 512 ^ level) := by
  rw [tableIndex_eq, div_pow_succ] at *
  exact stage.built level root _ (firstEntry_le lower level) room

variable (level) in
/-- Where the blank entries on the way are empty, the processor finds no page after the last one. -/
theorem Stage.walkFrom_unmapped (stage : kernel.Stage last frames (fun level => last / 512 ^ level) tops)
    (reached : kernel.Reached last) (virt : ℕ) (above : last < virt / PAGE_SIZE)
    (clean : ∀ level ≤ 3, last / 512 ^ level < virt / PAGE_SIZE / 512 ^ level →
      isPresent (kernel.blank level (virt / PAGE_SIZE / 512 ^ level)) = false)
    (root : level ≤ 3) (room : virt / PAGE_SIZE / 512 ^ (level + 1) ≤ tops level) :
    walkFrom frames virt level (kernel.frameAt level (virt / PAGE_SIZE / 512 ^ (level + 1))) = none := by
  have started := reached.started
  have lower : 512 ≤ virt / PAGE_SIZE := by omega
  induction level with
  | zero =>
    have empty : last / 512 ^ 0 < virt / PAGE_SIZE / 512 ^ 0 := by simpa using above
    have entry := stage.tableIndex_entry _ virt lower root room
    rw [cell, if_neg (by omega)] at entry
    rw [walkFrom, entry, clean 0 root empty]
    rfl
  | succ level ih =>
    rcases Nat.lt_or_ge (last / 512 ^ (level + 1)) (virt / PAGE_SIZE / 512 ^ (level + 1)) with empty | filled
    · have entry := stage.tableIndex_entry _ virt lower root room
      rw [cell, if_neg (by omega)] at entry
      exact walkFrom_absent (entry ▸ clean (level + 1) root empty)
    · rw [stage.linked.walkFrom_filled level reached virt lower root filled]
      exact ih (by omega) (filled.trans (stage.opened level (by omega)))

/-- An address in a page of the window up to the last one translates to the page's own. -/
theorem Linked.translateVirt_byte (linked : kernel.Linked last frames) (reached : kernel.Reached last) {i o : ℕ}
    (mapped : i + 512 ≤ last) (small : o < PAGE_SIZE) :
    PageTable.translateVirt frames kernel.layout.root (pageVirt i + o) = some (kernel.phys i + o) := by
  have number : (pageVirt i + o) / PAGE_SIZE = 512 + i := by
    simp only [pageVirt, DYNMEM_START_VIRT, PAGE_SIZE] at *
    omega
  have offset : (pageVirt i + o) % PAGE_SIZE = o := by
    simp only [pageVirt, DYNMEM_START_VIRT, PAGE_SIZE] at *
    omega
  have inside := reached.mapped
  obtain ⟨aligned, _, bound⟩ := @phys_bounds kernel i (by omega)
  have found := linked.walkFrom_mapped 3 reached (pageVirt i + o) (by omega) (by omega) le_rfl
  rw [frameAt_root, number, Nat.add_sub_cancel_left] at found
  rw [PageTable.translateVirt, walk, found, Option.bind_some, physical_or plain_kernel aligned bound, offset]

theorem Linked.translateVirt (linked : kernel.Linked last frames) (reached : kernel.Reached last) {i : ℕ}
    (mapped : i + 512 ≤ last) : translateVirt frames kernel.layout.root (pageVirt i) =
      some (kernel.phys i) :=
  linked.translateVirt_byte (o := 0) reached mapped (by decide)

/-- The kernel's own accesses to the pages mapped so far. -/
theorem Linked.pageBehind (linked : kernel.Linked last frames) (reached : kernel.Reached last) {i : ℕ}
    (mapped : i + 512 ≤ last) : pageBehind kernel.layout frames (pageVirt i) = .ok (kernel.phys i) := by
  have inside := reached.mapped
  have low := @PagedMap.pageVirt_lt _ i kernel.map (by omega)
  rw [PageConstruct.pageBehind, if_neg (by omega), linked.translateVirt reached mapped]

end FreshKernel

end RubberOS.Model.PageConstruct
