import RubberOS.Proofs.PageUnmapping

/-! # What the processor finds

The walk of a page of the window ends at the leaf the registry shows. Walks of other addresses read
none of the cells that the mapping functions write.
-/

namespace RubberOS.Model.PageTable

open MemoryMap Mmio

namespace KernelPages

variable {kernel : KernelPages} {st : PageMemory} {tables : Registry} {page table offset : ℕ}

/-- The walk goes on to the table an entry leads to. -/
private theorem PointsTo.walkFrom {frames : ℕ → ℕ → ℕ} {virt level frame : ℕ}
    (points : kernel.PointsTo (frames frame (tableIndex (level + 1) virt)) table) :
    PageTable.walkFrom frames virt (level + 1) frame =
      PageTable.walkFrom frames virt level (kernel.frame table) := by
  rw [PageTable.walkFrom]
  simp [points.present, points.small, points.address]

/-- The walk of a page of the window, table by table. -/
theorem Shape.walk_eq_view (shape : kernel.Shape st tables) (inside : page < windowPages)
    (small : offset < PAGE_SIZE) :
    walk st.frames kernel.root (pageAddress page + offset) = kernel.view st tables page := by
  obtain ⟨top, third, second, first⟩ := tableIndex_page offset inside small
  have third508 : page / 512 / 512 < 508 := valid_directory inside
  have blockValid := valid_leaf inside
  rw [walk, PointsTo.walkFrom (top ▸ shape.root_pointsTo)]
  have link := shape.links (.directory (page / 512 / 512)) third508 kernel.pdpt rfl
  cases grounded : tables (.directory (page / 512 / 512)) with
  | none =>
    have absent : isPresent (st.frames (kernel.frame kernel.pdpt) (page / 512 / 512)) = false :=
      shape.absent_directory third508 grounded
    rw [view_of_none grounded, walkFrom_absent (third ▸ absent)]
  | some directory =>
    rw [grounded] at link
    rw [PointsTo.walkFrom (third ▸ link)]
    have entry := shape.links (.leaf (page / 512)) blockValid directory grounded
    cases found : tables (.leaf (page / 512)) with
    | none =>
      rw [found] at entry
      rw [view_of_block grounded found, walkFrom, second, leafOf]
      change _ = if isPresent (st.frames (kernel.frame directory) (page / 512 % 512)) then _ else _
      cases present : isPresent (st.frames (kernel.frame directory) (page / 512 % 512)) with
      | false => rfl
      | true =>
        have huge : isHuge (st.frames (kernel.frame directory) (page / 512 % 512)) = true := (entry present).2
        simp [huge, read]
    | some table =>
      rw [found] at entry
      have points : kernel.PointsTo (st.frames (kernel.frame directory) (page / 512 % 512)) table := entry
      rw [view_of_table grounded found, PointsTo.walkFrom (second ▸ points), walkFrom, first, leafOf]
      rfl

/-- The walk reads the cell of its table, and goes on to the table an entry leads to. -/
private theorem PointsTo.mem_walkCells {frames : ℕ → ℕ → ℕ} {virt level frame : ℕ} {cell : ℕ × ℕ}
    (points : kernel.PointsTo (frames frame (tableIndex (level + 1) virt)) table)
    (member : cell ∈ walkCells frames virt (level + 1) frame) :
    cell = (frame, tableIndex (level + 1) virt) ∨ cell ∈ walkCells frames virt level (kernel.frame table) := by
  rw [walkCells, points.present, points.small, points.address] at member
  exact List.mem_cons.mp member

/-- A walk of the window reads the root, the window's own table and the tables of the registry. -/
theorem Shape.walkCells_window (shape : kernel.Shape st tables) (inside : page < windowPages)
    (small : offset < PAGE_SIZE) : ∀ cell ∈ walkCells st.frames (pageAddress page + offset) 3 kernel.root,
      cell.1 = kernel.root ∨ cell.1 = kernel.frame kernel.pdpt ∨ ∃ table ∈ held tables, cell.1 = kernel.frame table := by
  obtain ⟨top, third, second, first⟩ := tableIndex_page offset inside small
  have third508 : page / 512 / 512 < 508 := valid_directory inside
  have blockValid := valid_leaf inside
  have last {table level index : ℕ} {cell : ℕ × ℕ} (digit : tableIndex (level + 1) (pageAddress page + offset) = index)
      (stops : (isPresent (st.frames table index) && !isHuge (st.frames table index)) = false)
      (member : cell ∈ walkCells st.frames (pageAddress page + offset) (level + 1) table) : cell.1 = table := by
    rw [walkCells, digit, stops] at member
    rw [List.mem_singleton.mp member]
  intro cell member
  rcases (top ▸ shape.root_pointsTo : kernel.PointsTo (st.frames kernel.root (tableIndex 3 _)) kernel.pdpt).mem_walkCells member
    with rfl | member
  · exact .inl rfl
  have link := shape.links (.directory (page / 512 / 512)) third508 kernel.pdpt rfl
  cases grounded : tables (.directory (page / 512 / 512)) with
  | none =>
    have absent : isPresent (st.frames (kernel.frame kernel.pdpt) (page / 512 / 512)) = false :=
      shape.absent_directory third508 grounded
    exact .inr (.inl (last third (by rw [absent, Bool.false_and]) member))
  | some directory =>
    rw [grounded] at link
    rcases (third ▸ link : kernel.PointsTo (st.frames _ (tableIndex 2 _)) directory).mem_walkCells member with rfl | member
    · exact .inr (.inl rfl)
    refine .inr (.inr ?_)
    have entry := shape.links (.leaf (page / 512)) blockValid directory grounded
    cases found : tables (.leaf (page / 512)) with
    | none =>
      rw [found] at entry
      refine ⟨directory, ⟨_, grounded⟩, last second ?_ member⟩
      cases present : isPresent (st.frames (kernel.frame directory) (page / 512 % 512)) with
      | false => rfl
      | true =>
        have huge : isHuge (st.frames (kernel.frame directory) (page / 512 % 512)) = true := (entry present).2
        rw [huge]
        rfl
    | some table =>
      rw [found] at entry
      have points : kernel.PointsTo (st.frames (kernel.frame directory) (page / 512 % 512)) table := entry
      rcases (second ▸ points : kernel.PointsTo (st.frames _ (tableIndex 1 _)) table).mem_walkCells member with rfl | member
      · exact ⟨directory, ⟨_, grounded⟩, rfl⟩
      · rw [List.mem_singleton.mp member]
        exact ⟨table, ⟨_, found⟩, rfl⟩

/-- Nothing has been written to the cells behind addresses outside the window. -/
private theorem Shape.cells_elsewhere (shape : kernel.Shape st tables) {virt : ℕ} (canonical : Canonical virt)
    (outside : ¬ InIomap virt) : ∀ cell ∈ walkCells kernel.boot virt 3 kernel.root,
      st.frames cell.1 cell.2 = kernel.boot cell.1 cell.2 := by
  intro cell member
  obtain ⟨static, dynamic⟩ := kernel.elsewhere virt canonical outside cell member
  apply shape.rest
  rintro (⟨same, small⟩ | ⟨table, pool, same⟩)
  · exact absurd (static (same.trans pdpt_frame)) (Nat.not_le_of_lt small)
  · exact dynamic table pool same

/-- No address outside the window is translated differently than at the start. -/
theorem Shape.walk_elsewhere (shape : kernel.Shape st tables) {virt : ℕ} (canonical : Canonical virt)
    (outside : ¬ InIomap virt) : walk st.frames kernel.root virt = walk kernel.boot kernel.root virt :=
  walkFrom_congr (shape.cells_elsewhere canonical outside)

theorem Shape.walkCells_elsewhere (shape : kernel.Shape st tables) {virt : ℕ} (canonical : Canonical virt)
    (outside : ¬ InIomap virt) : walkCells st.frames virt 3 kernel.root = walkCells kernel.boot virt 3 kernel.root :=
  walkCells_congr (shape.cells_elsewhere canonical outside)

end KernelPages

end RubberOS.Model.PageTable
