import RubberOS.Proofs.PageCalls

/-! # The mapping loop

Each iteration maps one page, or a whole block where the block lies in the range and its directory
entry is free. The invariant says what the window shows after the pages so far, and that the tables
of the blocks ahead are still those the call found.
-/

namespace RubberOS.Model.PageTable

open Buddy MemoryMap Mmio Dynmem BitFields

/-- The pages below a table. -/
def TableId.Covers : TableId → ℕ → Prop
  | .directory i, page => page / 512 / 512 = i
  | .leaf b, page => page / 512 = b

/-- The block lies in the range and has no table. -/
def Wide (tables : Registry) (first limit b : ℕ) : Prop :=
  tables (.leaf b) = none ∧ first ≤ b * 512 ∧ b * 512 + 512 ≤ limit

instance (tables : Registry) (first limit b : ℕ) : Decidable (Wide tables first limit b) :=
  inferInstanceAs (Decidable (_ ∧ _ ∧ _))

/-- The small entry for a page of a mapping that starts at `first`. -/
def entryAt (first phys flags page : ℕ) : ℕ := u64 (phys + (page - first) * PAGE_SIZE) ||| flags

/-- The leaf that the mapping gives a page of its range. -/
def mappedLeaf (tables : Registry) (first limit phys flags page : ℕ) : Leaf :=
  if Wide tables first limit (page / 512) then ⟨entryAt first phys flags (page / 512 * 512) ||| PAGE_FLAG_HUGE, 1⟩
  else ⟨entryAt first phys flags page, 0⟩

/-- The number of parts that the pages from `first` up to `limit` lie in. -/
def parts (part : ℕ → ℕ) (first limit : ℕ) : ℕ := ((Finset.Ico first limit).image part).card

/-- The number of tables for the pages from `first` up to `limit`. -/
def tablesFor (first limit : ℕ) : ℕ := parts (· / 512 / 512) first limit + parts (· / 512) first limit

private theorem parts_mono {part : ℕ → ℕ} {first page limit : ℕ} (le : page ≤ limit) :
    parts part first page ≤ parts part first limit :=
  Finset.card_le_card (Finset.image_mono _ (Finset.Ico_subset_Ico_right le))

/-- A page counts once, unless an earlier one lies in the same part. -/
private theorem parts_step {part : ℕ → ℕ} {first page limit cost : ℕ} (lower : first ≤ page) (before : page < limit)
    (once : cost ≤ 1) (old : ∀ q, first ≤ q → q < page → part q = part page → cost = 0) :
    parts part first page + cost ≤ parts part first limit := by
  by_cases counted : part page ∈ (Finset.Ico first page).image part
  · obtain ⟨q, ranged, same⟩ := Finset.mem_image.mp counted
    obtain ⟨start, stop⟩ := Finset.mem_Ico.mp ranged
    rw [old q start stop same]
    exact parts_mono before.le
  · have grown : insert (part page) ((Finset.Ico first page).image part) ⊆ (Finset.Ico first limit).image part := by
      rw [Finset.insert_subset_iff]
      exact ⟨Finset.mem_image_of_mem _ (Finset.mem_Ico.mpr ⟨lower, before⟩),
        Finset.image_mono _ (Finset.Ico_subset_Ico_right before.le)⟩
    have more := Finset.card_le_card grown
    rw [Finset.card_insert_of_notMem counted] at more
    exact (Nat.add_le_add_left once _).trans more

namespace KernelPages

/-- Memory after the pages from `first` up to `page`. -/
structure Mapped (kernel : KernelPages) (st₀ : PageMemory) (tables₀ : Registry) (first limit phys flags page : ℕ)
    (st : PageMemory) (tables : Registry) : Prop where
  lower : first ≤ page
  upper : page ≤ limit
  shape : kernel.Shape st tables
  view : ∀ q, kernel.view st tables q =
    if first ≤ q ∧ q < page then some (mappedLeaf tables₀ first limit phys flags q) else kernel.view st₀ tables₀ q
  ahead : ∀ b, page ≤ b * 512 → tables (.leaf b) = tables₀ (.leaf b)
  narrow : page % 512 ≠ 0 → ¬ Wide tables₀ first limit (page / 512)
  grown : ∀ id, tables id ≠ none → tables₀ id ≠ none ∨ ∃ q, first ≤ q ∧ q < page ∧ id.Covers q
  spent : ∀ n, RunsOut n st.buddy → RunsOut (n + tablesFor first page) st₀.buddy
  directories : ∀ q, first ≤ q → q < page → tables (.directory (q / 512 / 512)) ≠ none
  leaves : ∀ q, first ≤ q → q < page → ¬ Wide tables₀ first limit (q / 512) → tables (.leaf (q / 512)) ≠ none

variable {kernel : KernelPages} {st₀ st opened : PageMemory} {tables₀ tables : Registry}
  {first limit phys flags page pdt : ℕ} {tables₁ : Registry}

/-- The offset of a page of the range reaches the page. -/
theorem offset_address (lower : first ≤ page) (inside : page ≤ windowPages) :
    u64 (pageAddress first + (page - first) * PAGE_SIZE) = pageAddress page := by
  simp only [pageAddress, windowPages, IOMAP_START_VIRT, IOMAP_VIRT_SIZE, PAGE_SIZE, u64] at *
  omega

private theorem remaining_bytes (lower : first ≤ page) (upper : page ≤ limit) (inside : limit ≤ windowPages) :
    sub64 (sub64 (pageAddress limit) (pageAddress first)) ((page - first) * PAGE_SIZE) =
      (limit - page) * PAGE_SIZE := by
  simp only [windowPages, IOMAP_VIRT_SIZE, PAGE_SIZE] at inside
  rw [sub64_of_le (x := pageAddress limit), sub64_of_le]
  all_goals simp only [pageAddress, IOMAP_START_VIRT, PAGE_SIZE]
  all_goals omega

theorem offset_zero (inside : page ≤ windowPages) : u64 (pageAddress page + 0) = pageAddress page := by
  have same := @offset_address page page le_rfl inside
  rwa [Nat.sub_self, Nat.zero_mul] at same

/-- The bound suffices for a loop over the pages of a range. -/
theorem loopBound_enough (ordered : first ≤ limit) (inside : limit ≤ windowPages) :
    limit - first < loopBound (pageAddress first) (pageAddress limit) := by
  have bytes : sub64 (pageAddress limit) (pageAddress first) = (limit - first) * PAGE_SIZE := by
    simp only [windowPages, IOMAP_VIRT_SIZE, PAGE_SIZE] at inside
    rw [sub64_of_le]
    all_goals simp only [pageAddress, IOMAP_START_VIRT, PAGE_SIZE]
    all_goals omega
  rw [loopBound, bytes, Nat.mul_div_cancel _ (by decide)]
  omega

private theorem next_offset_page (lower : first ≤ page) (inside : page ≤ windowPages) :
    u64 ((page - first) * PAGE_SIZE + PAGE_SIZE) = (page + 1 - first) * PAGE_SIZE := by
  simp only [windowPages, IOMAP_VIRT_SIZE, PAGE_SIZE, u64] at *
  omega

private theorem next_offset_block (lower : first ≤ page) (inside : page ≤ windowPages) :
    u64 ((page - first) * PAGE_SIZE + HUGE_SIZE) = (page + 512 - first) * PAGE_SIZE := by
  simp only [windowPages, IOMAP_VIRT_SIZE, PAGE_SIZE, HUGE_SIZE, u64] at *
  omega

private theorem isPresent_entryAt (plain : Plain flags) :
    isPresent (entryAt first phys flags page) = true := isPresent_or plain

private theorem isPresent_block (plain : Plain flags) :
    isPresent (entryAt first phys flags page ||| PAGE_FLAG_HUGE) = true :=
  isPresent_huge plain

/-- Where nothing is mapped, a directory entry is present only for a table. -/
theorem absent_of_vacant (grounded : tables (.directory (page / 512 / 512)) = some pdt)
    (vacant : tables (.leaf (page / 512)) = none) (unmapped : kernel.view st tables page = none) :
    isPresent (kernel.read st pdt (page / 512 % 512)) = false := by
  rw [view_of_block grounded vacant, leafOf] at unmapped
  simpa using unmapped

/-- A table that was new by a page is new by a later one. -/
private theorem grown_mono {id : TableId} {page' : ℕ} (le : page ≤ page')
    (grown : tables₀ id ≠ none ∨ ∃ q, first ≤ q ∧ q < page ∧ id.Covers q) :
    tables₀ id ≠ none ∨ ∃ q, first ≤ q ∧ q < page' ∧ id.Covers q := by
  refine grown.imp_right fun ranged => ?_
  obtain ⟨q, start, stop, covers⟩ := ranged
  exact ⟨q, start, stop.trans_le le, covers⟩

/-- Memory with the directory of the next page, before that page is mapped. -/
structure Entered (kernel : KernelPages) (st₀ : PageMemory) (tables₀ : Registry) (first limit phys flags page pdt : ℕ)
    (opened : PageMemory) (tables₁ : Registry) : Prop where
  lower : first ≤ page
  before : page < limit
  shape : kernel.Shape opened tables₁
  grounded : tables₁ (.directory (page / 512 / 512)) = some pdt
  unmapped : kernel.view opened tables₁ page = none
  view : ∀ q, kernel.view opened tables₁ q =
    if first ≤ q ∧ q < page then some (mappedLeaf tables₀ first limit phys flags q) else kernel.view st₀ tables₀ q
  ahead : ∀ b, page ≤ b * 512 → tables₁ (.leaf b) = tables₀ (.leaf b)
  narrow : page % 512 ≠ 0 → ¬ Wide tables₀ first limit (page / 512)
  grown : ∀ id, tables₁ id ≠ none → tables₀ id ≠ none ∨ ∃ q, first ≤ q ∧ q < page + 1 ∧ id.Covers q
  spent : ∀ n, RunsOut n opened.buddy →
    RunsOut (n + (parts (· / 512 / 512) first (page + 1) + parts (· / 512) first page)) st₀.buddy
  directories : ∀ q, first ≤ q → q < page → tables₁ (.directory (q / 512 / 512)) ≠ none
  leaves : ∀ q, first ≤ q → q < page → ¬ Wide tables₀ first limit (q / 512) → tables₁ (.leaf (q / 512)) ≠ none

/-- No table is given back. -/
private theorem Opened.kept {id other : TableId} {table : ℕ} (open' : kernel.Opened st tables id table opened tables₁)
    (registered : tables other ≠ none) : tables₁ other ≠ none := by
  by_cases same : other = id
  · rw [same, open'.registered]
    exact nofun
  · rwa [open'.others other same]

private theorem pagesFor_le (tables : Registry) (id : TableId) : pagesFor tables id ≤ 1 := by
  rw [pagesFor]
  split
  · exact le_rfl
  · exact Nat.zero_le 1

/-- The page's directory is new only if it is the first page that lies in it. -/
private theorem Mapped.directory_step (mapped : kernel.Mapped st₀ tables₀ first limit phys flags page st tables)
    {limit' : ℕ}
    (before : page < limit') :
    parts (· / 512 / 512) first page + pagesFor tables (.directory (page / 512 / 512)) ≤
      parts (· / 512 / 512) first limit' := by
  refine parts_step mapped.lower before (pagesFor_le ..) fun q start stop same => ?_
  have registered := mapped.directories q start stop
  rw [same] at registered
  exact if_neg registered

private theorem Mapped.entered (mapped : kernel.Mapped st₀ tables₀ first limit phys flags page st tables)
    (before : page < limit) (vacant : kernel.view st₀ tables₀ page = none)
    (open' : kernel.Opened st tables (.directory (page / 512 / 512)) pdt opened tables₁) :
    kernel.Entered st₀ tables₀ first limit phys flags page pdt opened tables₁ := by
  have step := mapped.directory_step (Nat.lt_add_one page)
  obtain ⟨lower, upper, _, view, ahead, narrow, grown, spent, directories, leaves⟩ := mapped
  have kept (id : TableId) : tables id ≠ none → tables₁ id ≠ none := open'.kept
  obtain ⟨shape, grounded, others, sameView, cost⟩ := open'
  refine ⟨lower, before, shape, grounded, ?_, fun q => ?_, fun b later => ?_, narrow, fun id found => ?_,
    fun n out => ?_, fun q start stop => kept _ (directories q start stop),
    fun q start stop small => kept _ (leaves q start stop small)⟩
  · rw [sameView, view, if_neg (by omega), vacant]
  · rw [sameView, view]
  · rw [others (.leaf b) TableId.noConfusion, ahead b later]
  · by_cases directory : id = .directory (page / 512 / 512)
    · exact .inr ⟨page, lower, Nat.lt_succ_self page, directory ▸ rfl⟩
    · rw [others id directory] at found
      exact grown_mono (Nat.le_succ page) (grown id found)
  · refine (spent _ (cost n out)).mono ?_
    rw [tablesFor]
    omega

/-- The test for a whole block. -/
private theorem Entered.block_iff (entered : kernel.Entered st₀ tables₀ first limit phys flags page pdt opened tables₁) :
    ((!isPresent (kernel.read opened pdt (iteratorAt page).pdti)) = true ∧ (iteratorAt page).ptei = 0 ∧
        (limit - page) * PAGE_SIZE ≥ HUGE_SIZE) ↔
      page % 512 = 0 ∧ tables₁ (.leaf (page / 512)) = none ∧ page + 512 ≤ limit := by
  rw [Bool.not_eq_true']
  constructor
  · rintro ⟨absent, aligned, room⟩
    refine ⟨aligned, ?_, ?_⟩
    · rw [Option.eq_none_iff_forall_not_mem]
      intro table registered
      have points := entered.shape.pointsTo (.leaf (page / 512)) registered entered.grounded
      exact absurd (points.present.symm.trans absent) (by decide)
    · simp only [PAGE_SIZE, HUGE_SIZE] at room
      omega
  · rintro ⟨aligned, none, room⟩
    refine ⟨absent_of_vacant entered.grounded none entered.unmapped, aligned, ?_⟩
    simp only [PAGE_SIZE, HUGE_SIZE]
    omega

private theorem Entered.wide_iff (entered : kernel.Entered st₀ tables₀ first limit phys flags page pdt opened tables₁) :
    (page % 512 = 0 ∧ tables₁ (.leaf (page / 512)) = none ∧ page + 512 ≤ limit) ↔
      Wide tables₀ first limit (page / 512) := by
  have lower := entered.lower
  constructor
  · rintro ⟨aligned, none, room⟩
    refine ⟨?_, by omega, by omega⟩
    rw [← entered.ahead _ (by omega), none]
  · rintro ⟨none, start, room⟩
    by_cases aligned : page % 512 = 0
    · refine ⟨aligned, ?_, by omega⟩
      rw [entered.ahead _ (by omega), none]
    · exact absurd ⟨none, start, room⟩ (entered.narrow aligned)

/-- An iteration maps a whole block. -/
private theorem Entered.mapBlock (entered : kernel.Entered st₀ tables₀ first limit phys flags page pdt opened tables₁)
    (plain : Plain flags) (inside : limit ≤ windowPages) (wide : Wide tables₀ first limit (page / 512)) :
    ∃ after, mapEntry (pageAddress first) (pageAddress limit) phys flags kernel.mmapDyn pdt (iteratorAt page)
        ((page - first) * PAGE_SIZE) opened = .ok (iteratorAt (page + 512), (page + 512 - first) * PAGE_SIZE, after) ∧
      kernel.Mapped st₀ tables₀ first limit phys flags (page + 512) after tables₁ := by
  have own := entered.shape.own entered.grounded
  have lower := entered.lower
  obtain ⟨aligned, none, room⟩ := entered.wide_iff.mpr wide
  have start : page / 512 * 512 = page := by omega
  have condition := entered.block_iff.mpr ⟨aligned, none, room⟩
  obtain ⟨written, writtenView⟩ :=
    entered.shape.write_block (entryAt first phys flags page ||| PAGE_FLAG_HUGE) entered.grounded
      (valid_leaf (entered.before.trans_le inside)) none fun _ => isHuge_huge
  refine ⟨_, ?_, by omega, by omega, written, fun q => ?_, fun b later => ?_, fun odd => ?_, fun id found => ?_,
    fun n out => ?_, fun q start stop => ?_, fun q start stop small => ?_⟩
  · rw [mapEntry, own.load, Except.ok_bind, remaining_bytes lower entered.before.le inside, if_pos condition, own.store,
      Except.ok_bind, pageIteratorNextPdti_at (by omega), Except.ok_bind, ← next_offset_block lower (by omega)]
    rfl
  · rw [writtenView, entered.view]
    by_cases block : q / 512 = page / 512
    · rw [if_pos block, if_pos (by omega), leafOf_of_present (isPresent_block plain), mappedLeaf, block, if_pos wide,
        start]
    · rw [if_neg block]
      by_cases old : first ≤ q ∧ q < page
      · rw [if_pos old, if_pos (by omega)]
      · rw [if_neg old, if_neg (by omega)]
  · rw [entered.ahead b (by omega)]
  · omega
  · exact grown_mono (by omega) (entered.grown id found)
  · refine (entered.spent n out).mono (Nat.add_le_add_left (Nat.add_le_add ?_ ?_) n)
    · exact parts_mono (by omega)
    · exact parts_mono (by omega)
  · rcases Nat.lt_or_ge q page with earlier | own
    · exact entered.directories q start earlier
    · rw [show q / 512 / 512 = page / 512 / 512 by omega, entered.grounded]
      exact nofun
  · rcases Nat.lt_or_ge q page with earlier | own
    · exact entered.leaves q start earlier small
    · rw [show q / 512 = page / 512 by omega] at small
      exact absurd wide small

/-- An iteration maps one page. -/
private theorem Entered.mapPage (entered : kernel.Entered st₀ tables₀ first limit phys flags page pdt opened tables₁)
    (plain : Plain flags) (inside : limit ≤ windowPages) (narrow : ¬ Wide tables₀ first limit (page / 512)) :
    mapEntry (pageAddress first) (pageAddress limit) phys flags kernel.mmapDyn pdt (iteratorAt page)
        ((page - first) * PAGE_SIZE) opened = .error .nullDereference ∧ RunsOut (tablesFor first limit) st₀.buddy ∨
      ∃ after tables', mapEntry (pageAddress first) (pageAddress limit) phys flags kernel.mmapDyn pdt (iteratorAt page)
          ((page - first) * PAGE_SIZE) opened = .ok (iteratorAt (page + 1), (page + 1 - first) * PAGE_SIZE, after) ∧
        kernel.Mapped st₀ tables₀ first limit phys flags (page + 1) after tables' := by
  have shape := entered.shape
  have grounded := entered.grounded
  have lower := entered.lower
  have before := entered.before
  rw [mapEntry, (shape.own grounded).load, Except.ok_bind, remaining_bytes lower before.le inside,
    if_neg fun block => narrow (entered.wide_iff.mp (entered.block_iff.mp block))]
  have answer := shape.pageGetOrAlloc_spec plain (valid_leaf (before.trans_le inside)) grounded
    (fun none => absent_of_vacant grounded none entered.unmapped)
  rw [TableId.slot] at answer
  have step (limit' : ℕ) (before' : page < limit') :
      parts (· / 512) first page + pagesFor tables₁ (.leaf (page / 512)) ≤ parts (· / 512) first limit' := by
    refine parts_step lower before' (pagesFor_le ..) fun q start stop same => ?_
    have registered := entered.leaves q start stop (same ▸ narrow)
    rw [same] at registered
    exact if_neg registered
  rcases answer with ⟨failed, out⟩ | ⟨pt, next, tables₂, ran, open₂⟩
  · left
    refine ⟨?_, (entered.spent _ out).mono ?_⟩
    · rw [iteratorAt_pdti, failed]
      rfl
    · have block := step limit before
      have directory := @parts_mono (· / 512 / 512) first (page + 1) limit before
      rw [tablesFor]
      omega
  · have kept (id : TableId) : tables₁ id ≠ none → tables₂ id ≠ none := open₂.kept
    obtain ⟨shape₂, registered, others₂, view₂, cost⟩ := open₂
    have ptOwn := shape₂.own registered
    obtain ⟨directory, above⟩ := shape₂.registry.grounded _ _ registered
    have leafAbsent : isPresent (kernel.read next pt (page % 512)) = false := by
      have none := (view₂ page).trans entered.unmapped
      rw [view_of_table above registered, leafOf] at none
      simpa using none
    obtain ⟨written, writtenView⟩ := shape₂.write_page (page % 512) (entryAt first phys flags page) registered
    right
    refine ⟨_, tables₂, ?_, by omega, by omega, written, fun q => ?_, fun b later => ?_, fun odd => ?_,
      fun id found => ?_, fun n out => ?_, fun q start stop => ?_, fun q start stop small => ?_⟩
    · rw [iteratorAt_pdti, ran, Except.ok_bind]
      dsimp only
      rw [ptOwn.load, Except.ok_bind, assert_of (by rw [Bool.not_eq_true']; exact leafAbsent), Except.ok_bind,
        ptOwn.store, Except.ok_bind, pageIteratorNext_at (before.trans_le inside), Except.ok_bind,
        ← next_offset_page lower (by omega)]
      rfl
    · rw [writtenView, view₂, entered.view]
      by_cases own : q / 512 = page / 512 ∧ q % 512 = page % 512
      · obtain rfl : q = page := by omega
        rw [if_pos own, if_pos (by omega), leafOf_of_present (isPresent_entryAt plain), mappedLeaf, if_neg narrow]
      · rw [if_neg own]
        by_cases old : first ≤ q ∧ q < page
        · rw [if_pos old, if_pos (by omega)]
        · rw [if_neg old, if_neg (by omega)]
    · rw [others₂ (.leaf b) (by rw [Ne, TableId.leaf.injEq]; omega), entered.ahead b (by omega)]
    · rwa [show (page + 1) / 512 = page / 512 by omega]
    · by_cases leaf : id = .leaf (page / 512)
      · exact .inr ⟨page, lower, Nat.lt_succ_self page, leaf ▸ rfl⟩
      · rw [others₂ id leaf] at found
        exact entered.grown id found
    · refine (entered.spent _ (cost n out)).mono ?_
      have block := step (page + 1) (Nat.lt_succ_self page)
      rw [tablesFor]
      omega
    · rcases Nat.lt_succ_iff_lt_or_eq.mp stop with earlier | rfl
      · exact kept _ (entered.directories q start earlier)
      · apply kept
        rw [entered.grounded]
        exact Option.some_ne_none _
    · rcases Nat.lt_succ_iff_lt_or_eq.mp stop with earlier | rfl
      · exact kept _ (entered.leaves q start earlier small)
      · rw [registered]
        exact Option.some_ne_none _

/-- An iteration maps the block at its first page, or one page. -/
private theorem Mapped.mapEntry_spec (mapped : kernel.Mapped st₀ tables₀ first limit phys flags page st tables)
    (plain : Plain flags) (inside : limit ≤ windowPages) (before : page < limit)
    (vacant : kernel.view st₀ tables₀ page = none)
    (open' : kernel.Opened st tables (.directory (page / 512 / 512)) pdt opened tables₁) :
    mapEntry (pageAddress first) (pageAddress limit) phys flags kernel.mmapDyn pdt (iteratorAt page)
        ((page - first) * PAGE_SIZE) opened = .error .nullDereference ∧ RunsOut (tablesFor first limit) st₀.buddy ∨
      ∃ page' after tables', mapEntry (pageAddress first) (pageAddress limit) phys flags kernel.mmapDyn pdt
          (iteratorAt page) ((page - first) * PAGE_SIZE) opened =
            .ok (iteratorAt page', (page' - first) * PAGE_SIZE, after) ∧
        page < page' ∧ kernel.Mapped st₀ tables₀ first limit phys flags page' after tables' := by
  have entered := mapped.entered before vacant open'
  by_cases wide : Wide tables₀ first limit (page / 512)
  · obtain ⟨after, ran, mapped'⟩ := entered.mapBlock plain inside wide
    exact .inr ⟨page + 512, after, tables₁, ran, by omega, mapped'⟩
  · rcases entered.mapPage plain inside wide with failed | ⟨after, tables', ran, mapped'⟩
    · exact .inl failed
    · exact .inr ⟨page + 1, after, tables', ran, Nat.lt_succ_self page, mapped'⟩

/-- From any page of the range the loop maps the rest, unless the pool runs out of pages for the tables. -/
private theorem Mapped.mapFrom_spec (mapped : kernel.Mapped st₀ tables₀ first limit phys flags page st tables)
    (plain : Plain flags) (inside : limit ≤ windowPages)
    (vacant : ∀ q, first ≤ q → q < limit → kernel.view st₀ tables₀ q = none) {fuel : ℕ}
    (enough : limit - page < fuel) :
    mapFrom kernel.gPagetable (pageAddress first) (pageAddress limit) phys flags kernel.mmapDyn fuel
    (iteratorAt page)
        ((page - first) * PAGE_SIZE) st = .error .nullDereference ∧ RunsOut (tablesFor first limit) st₀.buddy ∨
      ∃ after tables', mapFrom kernel.gPagetable (pageAddress first)
      (pageAddress limit) phys flags kernel.mmapDyn fuel
          (iteratorAt page) ((page - first) * PAGE_SIZE) st = .ok after ∧
        kernel.Mapped st₀ tables₀ first limit phys flags limit after tables' := by
  induction fuel generalizing page st tables with
  | zero => exact absurd enough (Nat.not_lt_zero _)
  | succ fuel ih =>
    have lower := mapped.lower
    have upper := mapped.upper
    rw [mapFrom, offset_address lower (by omega)]
    by_cases before : page < limit
    · have address : pageAddress page < pageAddress limit := by
        simp only [pageAddress, PAGE_SIZE]
        omega
      rw [if_pos address, iteratorAt_pl4i, mapped.shape.pageGetOrAlloc_root, Except.ok_bind]
      dsimp only
      have valid := valid_directory (before.trans_le inside)
      have absent := mapped.shape.absent_directory valid
      have answer := mapped.shape.pageGetOrAlloc_spec plain valid rfl absent
      rw [TableId.slot] at answer
      rw [iteratorAt_pdpi]
      rcases answer with ⟨failed, out⟩ | ⟨pdt, opened, tables₁, ran, open'⟩
      · left
        refine ⟨?_, (mapped.spent _ out).mono ?_⟩
        · rw [failed]
          rfl
        · have step := mapped.directory_step before
          have block := @parts_mono (· / 512) first page limit upper
          rw [tablesFor, tablesFor]
          omega
      · rw [ran, Except.ok_bind]
        dsimp only
        rcases mapped.mapEntry_spec plain inside before (vacant page lower before) open' with
          ⟨failed, out⟩ | ⟨page', after, tables', ran', later, mapped'⟩
        · left
          refine ⟨?_, out⟩
          rw [failed]
          rfl
        · rw [ran', Except.ok_bind]
          exact ih mapped' (by omega)
    · obtain rfl : page = limit := by omega
      rw [if_neg (Nat.lt_irrefl _)]
      exact .inr ⟨st, tables, rfl, mapped⟩

/-- A range of vacant pages is mapped page by page, unless the pool has too few pages left for its tables. -/
theorem pagetableMmioMap_spec (phys : ℕ) (shape : kernel.Shape st tables) (plain : Plain flags)
    (ordered : first ≤ limit)
    (inside : limit ≤ windowPages) (vacant : ∀ q, first ≤ q → q < limit → kernel.view st tables q = none) :
    pagetableMmioMap kernel.gPagetable (pageAddress first) (pageAddress limit) phys flags kernel.mmapDyn st =
        .error .nullDereference ∧ RunsOut (tablesFor first limit) st.buddy ∨
      ∃ after tables', pagetableMmioMap kernel.gPagetable (pageAddress first) (pageAddress limit) phys flags
          kernel.mmapDyn st = .ok after ∧
            kernel.Mapped st tables first limit phys flags limit after tables' := by
  have start : kernel.Mapped st tables first limit phys flags first st tables := by
    refine ⟨le_rfl, ordered, shape, fun q => ?_, fun _ _ => rfl, fun odd wide => ?_,
      fun id found => .inl found, fun n => .mono (Nat.le_add_right ..), fun q start stop => ?_, fun q start stop => ?_⟩
    · rw [if_neg (by omega)]
    · have := wide.2.1
      omega
    · exact absurd stop (Nat.not_lt.mpr start)
    · exact absurd stop (Nat.not_lt.mpr start)
  rw [pagetableMmioMap, assert_of plain.present, Except.ok_bind]
  have enough := loopBound_enough ordered inside
  rcases Nat.lt_or_ge first limit with nonempty | empty
  · have mapped := start.mapFrom_spec plain inside vacant enough
    rwa [Nat.sub_self, Nat.zero_mul, ← pageIteratorFromVirt_page (by omega)] at mapped
  · obtain rfl : first = limit := by omega
    right
    refine ⟨st, tables, ?_, start⟩
    rw [loopBound, mapFrom, offset_zero inside, if_neg (Nat.lt_irrefl _)]

end KernelPages

end RubberOS.Model.PageTable
