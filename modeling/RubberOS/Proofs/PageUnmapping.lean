import RubberOS.Proofs.PageMapping

/-! # The unmapping loop

Each iteration clears the leaf it finds, and so moves on by a page or a block as the mapping did.
A table is examined when the loop leaves its last page. It stays then only if something below it is
still mapped, provided that the tables below it have been examined in their turn.
-/

namespace RubberOS.Model.PageTable

open Buddy MemoryMap Mmio Dynmem

/-- The last page below a table. -/
def TableId.last : TableId → ℕ
  | .directory i => i * 512 * 512 + (512 * 512 - 1)
  | .leaf b => b * 512 + 511

private theorem TableId.Covers.le_last {id : TableId} {page : ℕ} (covers : id.Covers page) : page ≤ id.last := by
  cases id <;> simp only [TableId.Covers, TableId.last] at * <;> omega

/-- The tables below a directory end no later than it. -/
private theorem TableId.last_le {b i : ℕ} (below : b / 512 = i) :
    (TableId.leaf b).last ≤ (TableId.directory i).last := by
  simp only [TableId.last]
  omega

namespace KernelPages

/-- Something below the table is mapped. -/
def Occupied (kernel : KernelPages) (st : PageMemory) (tables : Registry) (id : TableId) : Prop :=
  ∃ page, id.Covers page ∧ kernel.view st tables page ≠ none

/-- Every table has something mapped below it. -/
def Tidy (kernel : KernelPages) (st : PageMemory) (tables : Registry) : Prop :=
  ∀ id, tables id ≠ none → kernel.Occupied st tables id

/-- Memory after the pages from `page` up to `page'` are unmapped, and the tables that end there are
examined. -/
structure Cleared (kernel : KernelPages) (st : PageMemory) (tables : Registry) (page page' : ℕ) (after : PageMemory)
    (tables' : Registry) : Prop where
  shape : kernel.Shape after tables'
  view : ∀ q, kernel.view after tables' q = if page ≤ q ∧ q < page' then none else kernel.view st tables q
  fewer : ∀ id, tables' id = tables id ∨ tables' id = none
  leaf : ∀ b, page ≤ (TableId.leaf b).last → (TableId.leaf b).last < page' → tables' (.leaf b) ≠ none →
    kernel.Occupied after tables' (.leaf b)
  directory : ∀ i, page ≤ (TableId.directory i).last → (TableId.directory i).last < page' →
    tables' (.directory i) ≠ none →
    ∃ b, b / 512 = i ∧ (tables' (.leaf b) ≠ none ∨ kernel.Occupied after tables' (.leaf b))

variable {kernel : KernelPages} {st after : PageMemory} {tables tables' : Registry} {page page' directory table : ℕ}

private theorem releaseEmpty_skip {index nextIndex upper upperIndex : ℕ} {mmapDyn : Mmap}
    (order : index ≤ nextIndex) :
    releaseEmpty index nextIndex table upper upperIndex mmapDyn st = .ok st := by
  rw [releaseEmpty, if_neg (Nat.not_lt.mpr order)]
  rfl

/-- A present entry of the last level maps its page. -/
private theorem occupied_of_entry {b k : ℕ} (grounded : tables (.directory (b / 512)) = some directory)
    (registered : tables (.leaf b) = some table) (small : k < 512)
    (present : isPresent (kernel.read st table k) = true) :
    kernel.Occupied st tables (.leaf b) := by
  have block : (b * 512 + k) / 512 = b := by omega
  refine ⟨b * 512 + k, block, ?_⟩
  rw [view_of_table (block.symm ▸ grounded) (block.symm ▸ registered), show (b * 512 + k) % 512 = k by omega,
    leafOf_of_present present]
  exact nofun

/-- A present entry of a directory without a table maps its block. -/
private theorem occupied_of_block {b : ℕ} (grounded : tables (.directory (b / 512)) = some directory)
    (vacant : tables (.leaf b) = none) (present : isPresent (kernel.read st directory (b % 512)) = true) :
    kernel.Occupied st tables (.leaf b) := by
  have block : b * 512 / 512 = b := by omega
  refine ⟨b * 512, block, ?_⟩
  rw [view_of_block (block.symm ▸ grounded) (block.symm ▸ vacant), block, leafOf_of_present present]
  exact nofun

/-- The leaf of a mapped page is that of its block if the block has no table. -/
private theorem directory_of_mapped (mapped : kernel.view st tables page ≠ none) :
    ∃ directory, tables (.directory (page / 512 / 512)) = some directory := by
  cases found : tables (.directory (page / 512 / 512)) with
  | none => exact absurd (view_of_none found) mapped
  | some directory => exact ⟨directory, rfl⟩

/-- The level of a leaf tells whether its block has a table. -/
private theorem leaf_of_view {leaf : Leaf} (mapped : kernel.view st tables page = some leaf) :
    (leaf.level = 1 ↔ tables (.leaf (page / 512)) = none) := by
  have shown : kernel.view st tables page ≠ none := by simp [mapped]
  obtain ⟨directory, grounded⟩ := directory_of_mapped shown
  cases found : tables (.leaf (page / 512)) with
  | none =>
    rw [view_of_block grounded found, leafOf] at mapped
    split_ifs at mapped
    cases mapped
    simp
  | some table =>
    rw [view_of_table grounded found, leafOf] at mapped
    split_ifs at mapped
    cases mapped
    simp

/-- The directory is examined when the loop leaves it. -/
private theorem Shape.closeDirectory (shape : kernel.Shape st tables) (page' : ℕ)
    (grounded : tables (.directory (page / 512 / 512)) = some directory)
    (later : page < page') (near : page' ≤ page + 512) :
    ∃ after tables', releaseEmpty (page / 512 % 512) (page' / 512 % 512) directory kernel.pdpt
    (page / 512 / 512)
        kernel.mmapDyn st = .ok after ∧
      kernel.Shape after tables' ∧ (∀ q, kernel.view after tables' q = kernel.view st tables q) ∧
      (∀ id, tables' id = tables id ∨ tables' id = none) ∧ (∀ b, tables' (.leaf b) = tables (.leaf b)) ∧
      ∀ i, page ≤ (TableId.directory i).last → (TableId.directory i).last < page' →
        tables' (.directory i) ≠ none →
        ∃ b, b / 512 = i ∧ (tables' (.leaf b) ≠ none ∨ kernel.Occupied after tables' (.leaf b)) := by
  obtain ⟨after, tables', ran, closed⟩ :=
    shape.releaseEmpty_spec _ grounded rfl (page / 512 % 512) (page' / 512 % 512)
  refine ⟨after, tables', ran, closed.shape, closed.view, fun id => ?_, fun b => closed.others _ nofun,
    fun i start stop kept => ?_⟩
  · by_cases same : id = .directory (page / 512 / 512)
    · subst same
      rw [grounded]
      exact closed.own
    · exact .inl (closed.others id same)
  · simp only [TableId.last] at start stop
    obtain rfl : i = page / 512 / 512 := by omega
    have wraps : page' / 512 % 512 < page / 512 % 512 := by omega
    have stays := closed.own.resolve_right kept
    obtain ⟨j, small, present⟩ := closed.kept wraps stays
    have block : (page / 512 / 512 * 512 + j) / 512 = page / 512 / 512 := by omega
    refine ⟨page / 512 / 512 * 512 + j, block, ?_⟩
    cases found : tables' (.leaf (page / 512 / 512 * 512 + j)) with
    | some table => exact .inl nofun
    | none =>
      right
      apply occupied_of_block (block.symm ▸ stays) found
      rwa [show (page / 512 / 512 * 512 + j) % 512 = j by omega]

/-- Clearing a block: its directory entry is the leaf. -/
private theorem Shape.clearLeaf_block (shape : kernel.Shape st tables)
    (grounded : tables (.directory (page / 512 / 512)) = some directory)
    (inside : page < windowPages) (vacant : tables (.leaf (page / 512)) = none)
    (mapped : kernel.view st tables page ≠ none) (aligned : page % 512 = 0) :
    ∃ after, clearLeaf kernel.mmapDyn directory (iteratorAt page) st =
      .ok (0, HUGE_SIZE, iteratorAt (page + 512), after) ∧
      kernel.Shape after tables ∧ ∀ q, kernel.view after tables q =
        if page ≤ q ∧ q < page + 512 then none else kernel.view st tables q := by
  have own := shape.own grounded
  have valid := valid_leaf inside
  have present : isPresent (kernel.read st directory (page / 512 % 512)) = true := by
    rw [view_of_block grounded vacant] at mapped
    by_contra absent
    exact mapped (leafOf_of_absent (Bool.eq_false_iff.mpr absent))
  have linked := shape.links (.leaf (page / 512)) valid directory grounded
  rw [vacant] at linked
  have huge : isHuge (kernel.read st directory (page / 512 % 512)) = true := (linked present).2
  obtain ⟨written, view⟩ := shape.write_block 0 grounded valid vacant
    (fun present => absurd present (by decide))
  refine ⟨_, ?_, written, fun q => ?_⟩
  · rw [clearLeaf, own.load, Except.ok_bind, iteratorAt_pdti, iteratorAt_ptei, assert_of present,
      Except.ok_bind,
      if_pos huge, assert_of (decide_eq_true aligned), Except.ok_bind, own.store, Except.ok_bind,
      pageIteratorNextPdti_at inside, Except.ok_bind]
    rfl
  · rw [view, leafOf_of_absent isPresent_zero]
    by_cases block : q / 512 = page / 512
    · rw [if_pos block, if_pos (by omega)]
    · rw [if_neg block, if_neg (by omega)]

/-- Clearing a page: its block has a table. -/
private theorem Shape.clearLeaf_page (shape : kernel.Shape st tables)
    (grounded : tables (.directory (page / 512 / 512)) = some directory)
    (inside : page < windowPages) (registered : tables (.leaf (page / 512)) = some table) :
    ∃ after, clearLeaf kernel.mmapDyn directory (iteratorAt page) st =
      .ok (table, PAGE_SIZE, iteratorAt (page + 1), after) ∧
      kernel.Shape after tables ∧ ∀ q, kernel.view after tables q =
        if page ≤ q ∧ q < page + 1 then none else kernel.view st tables q := by
  have own := shape.own grounded
  have points : kernel.PointsTo (kernel.read st directory (page / 512 % 512)) table :=
    shape.pointsTo (.leaf (page / 512)) registered grounded
  have found : pageGetAssert directory (page / 512 % 512) kernel.mmapDyn st = .ok table :=
    shape.pageGetAssert_spec (.leaf (page / 512)) registered grounded
  obtain ⟨written, view⟩ := shape.write_page (page % 512) 0 registered
  refine ⟨_, ?_, written, fun q => ?_⟩
  · rw [clearLeaf, own.load, Except.ok_bind, iteratorAt_pdti, iteratorAt_ptei,
      assert_of points.present, Except.ok_bind,
      if_neg (Bool.eq_false_iff.mp points.small), found, Except.ok_bind,
      (shape.own registered).store, Except.ok_bind, pageIteratorNext_at inside, Except.ok_bind]
    rfl
  · rw [view, leafOf_of_absent isPresent_zero]
    by_cases same : q / 512 = page / 512 ∧ q % 512 = page % 512
    · rw [if_pos same, if_pos (by omega)]
    · rw [if_neg same, if_neg (by omega)]

/-- An iteration clears the leaf of a mapped page. -/
private theorem Shape.unmapEntry_spec (shape : kernel.Shape st tables) (inside : page < windowPages) {leaf : Leaf}
    (mapped : kernel.view st tables page = some leaf) (aligned : leaf.level = 1 → page % 512 = 0) :
    ∃ page' after tables', unmapEntry kernel.gPagetable kernel.mmapDyn (iteratorAt page) st =
        .ok ((page' - page) * PAGE_SIZE, iteratorAt page', after) ∧
      page' = page + (if leaf.level = 1 then 512 else 1) ∧
        kernel.Cleared st tables page page' after tables' := by
  have shown : kernel.view st tables page ≠ none := by simp [mapped]
  obtain ⟨directory, grounded⟩ := directory_of_mapped shown
  have level := leaf_of_view mapped
  have third : page / 512 / 512 < 508 := valid_directory inside
  have pdt : pageGetAssert kernel.pdpt (page / 512 / 512) kernel.mmapDyn st = .ok directory :=
    shape.pageGetAssert_spec (.directory (page / 512 / 512)) grounded rfl
  rw [unmapEntry, iteratorAt_pl4i, shape.pageGetAssert_root, Except.ok_bind, iteratorAt_pdpi, pdt,
    Except.ok_bind]
  cases found : tables (.leaf (page / 512)) with
  | none =>
    have huge := level.mpr found
    have start := aligned huge
    obtain ⟨cleared, ran, shape₁, view₁⟩ := shape.clearLeaf_block grounded inside found shown start
    obtain ⟨after, tables', closed, shape₂, view₂, fewer, leaves, examined⟩ :=
      shape₁.closeDirectory (page + 512) grounded (by omega) le_rfl
    refine ⟨page + 512, after, tables', ?_, by rw [if_pos huge], shape₂, fun q => ?_, fewer,
      fun b first last kept => ?_, examined⟩
    · rw [ran, Except.ok_bind]
      dsimp only
      rw [iteratorAt_ptei, iteratorAt_ptei, releaseEmpty_skip (by omega), Except.ok_bind, iteratorAt_pdti,
        iteratorAt_pdti, closed, Except.ok_bind, iteratorAt_pdpi, releaseEmpty_skip (by omega),
        Except.ok_bind, Nat.add_sub_cancel_left]
      rfl
    · rw [view₂, view₁]
    · simp only [TableId.last] at first last
      obtain rfl : b = page / 512 := by omega
      exact absurd ((leaves _).trans found) kept
  | some table =>
    have small : ¬ leaf.level = 1 := fun one => Option.some_ne_none _ (found.symm.trans (level.mp one))
    obtain ⟨cleared, ran, shape₁, view₁⟩ := shape.clearLeaf_page grounded inside found
    obtain ⟨released, tables₁, ranLeaf, closedLeaf⟩ :=
      shape₁.releaseEmpty_spec (.leaf (page / 512)) found grounded
      (page % 512) ((page + 1) % 512)
    rw [TableId.slot] at ranLeaf
    have grounded₁ : tables₁ (.directory (page / 512 / 512)) = some directory :=
      (closedLeaf.others (.directory (page / 512 / 512)) TableId.noConfusion).trans grounded
    obtain ⟨after, tables', closed, shape₂, view₂, fewer, leaves, examined⟩ :=
      closedLeaf.shape.closeDirectory (page + 1) grounded₁ (by omega) (by omega)
    refine ⟨page + 1, after, tables', ?_, by rw [if_neg small], shape₂, fun q => ?_, fun id => ?_,
      fun b first last kept => ?_, examined⟩
    · rw [ran, Except.ok_bind]
      dsimp only
      rw [iteratorAt_ptei, iteratorAt_ptei, iteratorAt_pdti, iteratorAt_pdti, ranLeaf, Except.ok_bind, closed,
        Except.ok_bind, iteratorAt_pdpi, releaseEmpty_skip (by omega), Except.ok_bind,
        Nat.add_sub_cancel_left, Nat.one_mul]
      rfl
    · rw [view₂, closedLeaf.view, view₁]
    · rcases fewer id with same | none
      · rw [same]
        by_cases own : id = .leaf (page / 512)
        · subst own
          rw [found]
          exact closedLeaf.own
        · exact .inl (closedLeaf.others id own)
      · exact .inr none
    · simp only [TableId.last] at first last
      obtain rfl : b = page / 512 := by omega
      rw [leaves] at kept
      have stays := closedLeaf.own.resolve_right kept
      obtain ⟨k, bound, present⟩ := closedLeaf.kept (by omega) stays
      obtain ⟨q, covers, shown⟩ := occupied_of_entry grounded₁ stays bound present
      exact ⟨q, covers, by rwa [view₂]⟩

/-! ## Whole ranges -/

/-- Memory after the pages from `first` up to `page` are unmapped. -/
structure Removed (kernel : KernelPages) (st₀ : PageMemory) (tables₀ : Registry) (first page : ℕ) (st : PageMemory)
    (tables : Registry) : Prop where
  lower : first ≤ page
  shape : kernel.Shape st tables
  view : ∀ q, kernel.view st tables q = if first ≤ q ∧ q < page then none else kernel.view st₀ tables₀ q
  fewer : ∀ id, tables id = tables₀ id ∨ tables id = none
  tidy : kernel.Tidy st₀ tables₀ → ∀ id, tables id ≠ none → id.last < page → kernel.Occupied st tables id

/-- The pages of a range that starts no later than the leaves it holds are mapped, and whole blocks
with them. -/
structure Whole (kernel : KernelPages) (st : PageMemory) (tables : Registry) (first limit : ℕ) : Prop where
  mapped : ∀ q, first ≤ q → q < limit → kernel.view st tables q ≠ none
  blocks : ∀ q leaf, first ≤ q → q < limit → kernel.view st tables q = some leaf → leaf.level = 1 →
    first ≤ q / 512 * 512 ∧ q / 512 * 512 + 512 ≤ limit

variable {st₀ : PageMemory} {tables₀ : Registry} {first limit : ℕ}

/-- A block without a table is mapped as one. -/
private theorem view_same_block {q : ℕ} (vacant : tables (.leaf (page / 512)) = none) (block : q / 512 = page / 512) :
    kernel.view st tables q = kernel.view st tables page := by
  rw [view, view, block, vacant]

/-- What an iteration leaves below an examined table. -/
private theorem Removed.next (removed : kernel.Removed st₀ tables₀ first page st tables) (later : page < page')
    (cleared : kernel.Cleared st tables page page' after tables') :
    kernel.Removed st₀ tables₀ first page' after tables' := by
  obtain ⟨lower, shape, view, fewer, tidy⟩ := removed
  have kept (id : TableId) (stays : tables' id ≠ none) : tables id ≠ none := by
    rcases cleared.fewer id with same | gone
    · rwa [← same]
    · exact absurd gone stays
  -- a table that ends before the iteration's pages loses nothing
  have older (startTidy : kernel.Tidy st₀ tables₀) (id : TableId) (stays : tables' id ≠ none)
    (before : id.last < page) :
      kernel.Occupied after tables' id := by
    obtain ⟨q, covers, shown⟩ := tidy startTidy id (kept id stays) before
    have bound := covers.le_last
    refine ⟨q, covers, ?_⟩
    rwa [cleared.view, if_neg (by omega)]
  refine ⟨by omega, cleared.shape, fun q => ?_, fun id => ?_, fun startTidy id stays ends => ?_⟩
  · rw [cleared.view, view]
    by_cases own : page ≤ q ∧ q < page'
    · rw [if_pos own, if_pos (by omega)]
    · rw [if_neg own]
      by_cases old : first ≤ q ∧ q < page
      · rw [if_pos old, if_pos (by omega)]
      · rw [if_neg old, if_neg (by omega)]
  · rcases cleared.fewer id with same | gone
    · rw [same]
      exact fewer id
    · exact .inr gone
  · rcases Nat.lt_or_ge id.last page with before | own
    · exact older startTidy id stays before
    · cases id with
      | leaf b => exact cleared.leaf b own ends stays
      | directory i =>
        obtain ⟨b, below, inside⟩ := cleared.directory i own ends stays
        have occupied : kernel.Occupied after tables' (.leaf b) := by
          rcases inside with table | mapped
          · have before := Nat.lt_of_le_of_lt (TableId.last_le below) ends
            rcases Nat.lt_or_ge (TableId.leaf b).last page with earlier | now
            · exact older startTidy (.leaf b) table earlier
            · exact cleared.leaf b now before table
          · exact mapped
        obtain ⟨q, covers, shown⟩ := occupied
        have block : q / 512 = b := covers
        exact ⟨q, by rw [TableId.Covers, block, below], shown⟩

/-- From any page of a mapped range the loop unmaps the rest. -/
private theorem Removed.unmapFrom_spec (removed : kernel.Removed st₀ tables₀ first page st tables)
    (upper : page ≤ limit)
    (inside : limit ≤ windowPages) (whole : kernel.Whole st₀ tables₀ first limit) {fuel : ℕ}
    (enough : limit - page < fuel) :
    ∃ after tables', unmapFrom kernel.gPagetable (pageAddress first) (pageAddress limit) kernel.mmapDyn fuel
        (iteratorAt page) ((page - first) * PAGE_SIZE) st = .ok after ∧
      kernel.Removed st₀ tables₀ first limit after tables' := by
  induction fuel generalizing page st tables with
  | zero => exact absurd enough (Nat.not_lt_zero _)
  | succ fuel ih =>
    have lower := removed.lower
    rw [unmapFrom, offset_address lower (by omega)]
    by_cases before : page < limit
    · have address : pageAddress page < pageAddress limit := by
        simp only [pageAddress, PAGE_SIZE]
        omega
      obtain ⟨leaf, mapped⟩ := Option.ne_none_iff_exists'.mp (whole.mapped page lower before)
      have same : kernel.view st tables page = some leaf := by
        rw [removed.view, if_neg (by omega), mapped]
      have aligned (one : leaf.level = 1) : page % 512 = 0 := by
        by_contra odd
        have start := (whole.blocks page leaf lower before mapped one).1
        have vacant := (leaf_of_view same).mp one
        have first : kernel.view st tables (page / 512 * 512) = kernel.view st tables page :=
          view_same_block vacant (by omega)
        rw [removed.view, if_pos ⟨start, by omega⟩, same] at first
        exact absurd first.symm (Option.some_ne_none _)
      obtain ⟨page', after, tables', ran, next, cleared⟩ :=
        removed.shape.unmapEntry_spec (by omega) same aligned
      have later : page < page' := by
        rw [next]
        split <;> omega
      have room : page' ≤ limit := by
        rw [next]
        split_ifs with one
        · have stop := (whole.blocks page leaf lower before mapped one).2
          have start := aligned one
          omega
        · omega
      have offset : u64 ((page - first) * PAGE_SIZE + (page' - page) * PAGE_SIZE) =
          (page' - first) * PAGE_SIZE := by
        simp only [windowPages, IOMAP_VIRT_SIZE, PAGE_SIZE, u64] at *
        omega
      rw [if_pos address, ran, Except.ok_bind]
      dsimp only
      rw [offset]
      exact ih (removed.next later cleared) room (by omega)
    · obtain rfl : page = limit := by omega
      rw [if_neg (Nat.lt_irrefl _)]
      exact ⟨st, tables, rfl, removed⟩

/-- A mapped range is unmapped without an assertion. -/
theorem pagetableMmioUnmap_spec (shape : kernel.Shape st tables) (ordered : first ≤ limit)
    (inside : limit ≤ windowPages) (whole : kernel.Whole st tables first limit) :
    ∃ after tables', pagetableMmioUnmap kernel.gPagetable (pageAddress first)
    (pageAddress limit) kernel.mmapDyn st =
        .ok after ∧ kernel.Removed st tables first limit after tables' := by
  have start : kernel.Removed st tables first first st tables := by
    refine ⟨le_rfl, shape, fun q => ?_, fun id => .inl rfl, fun startTidy id stays _ => startTidy id stays⟩
    rw [if_neg (by omega)]
  have enough := loopBound_enough ordered inside
  rw [pagetableMmioUnmap]
  rcases Nat.lt_or_ge first limit with nonempty | empty
  · have removed := start.unmapFrom_spec ordered inside whole enough
    rwa [Nat.sub_self, Nat.zero_mul, ← pageIteratorFromVirt_page (by omega)] at removed
  · obtain rfl : first = limit := by omega
    refine ⟨st, tables, ?_, start⟩
    rw [loopBound, unmapFrom, offset_zero inside, if_neg (Nat.lt_irrefl _)]

end KernelPages

end RubberOS.Model.PageTable
