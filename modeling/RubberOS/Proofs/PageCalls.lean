import RubberOS.Proofs.PageShape

/-! # The calls of the two mapping functions

One lemma for each function that follows an entry, takes a page for a table or gives one back. Taking
fails only where no page is left, and then on the null pointer that the caller clears.
-/

namespace RubberOS.Model.PageTable

open Buddy MemoryMap Mmio Dynmem BitFields

namespace KernelPages

variable {kernel : KernelPages} {st : PageMemory} {tables : Registry} {id : TableId} {above table flags : ℕ}

/-- The entry that the code writes for a table leads to it. -/
private theorem Table.pointsTo (own : kernel.Table table) (plain : Plain flags) :
    kernel.PointsTo (kernel.frame table ||| flags) table where
  present := isPresent_or plain
  small := isHuge_or plain own.reaches.aligned
  address := address_or plain own.reaches.aligned own.reaches.bound

/-- The code follows the entry of a table back to its pointer. -/
private theorem PointsTo.follow {entry : ℕ} (points : kernel.PointsTo entry table) (own : kernel.Table table) :
    physToVirt (entry &&& PAGE_MASK_ADDR) kernel.mmapDyn = .ok table := by
  rw [points.address]
  exact own.reaches.back

namespace Shape

variable (shape : kernel.Shape st tables)
include shape

/-! ## Following entries -/

/-- The root's entry for the window never changes. -/
theorem root_pointsTo : kernel.PointsTo (st.frames kernel.root 511) kernel.pdpt := by
  have entry : st.frames kernel.root 511 = kernel.frame kernel.pdpt ||| KERNEL_PAGE_FLAG := by
    rw [shape.rest _ _ root_not_writable, pdpt_frame]
    exact kernel.link
  rw [entry]
  exact Table.pointsTo (.inl rfl) plain_kernel

theorem pageGetOrAlloc_root :
    pageGetOrAlloc kernel.gPagetable 511 flags kernel.mmapDyn st = .ok (kernel.pdpt, st) := by
  have points := shape.root_pointsTo
  rw [pageGetOrAlloc, root_reaches.load, Except.ok_bind, if_pos points.present, points.follow (.inl rfl)]
  rfl

theorem pageGetAssert_root : pageGetAssert kernel.gPagetable 511 kernel.mmapDyn st = .ok kernel.pdpt := by
  have points := shape.root_pointsTo
  rw [pageGetAssert, root_reaches.load, Except.ok_bind, assert_of points.present, Except.ok_bind,
    points.follow (.inl rfl)]

theorem pageGetAssert_spec (id : TableId) (registered : tables id = some table)
    (placed : kernel.upper tables id = some above) :
    pageGetAssert above id.slot kernel.mmapDyn st = .ok table := by
  have points := shape.pointsTo id registered placed
  rw [pageGetAssert, (shape.upper_own placed).load, Except.ok_bind, assert_of points.present, Except.ok_bind,
    points.follow (shape.own registered)]

end Shape

/-! ## Taking a page -/

/-- One of the next so many pages that are taken from the pool is refused. -/
def RunsOut : ℕ → BuddyBlocks → Prop
  | 0, _ => False
  | n + 1, buddy => ∃ slice next, dynmemAlloc buddy PAGE_SIZE = .ok (slice, next) ∧ (slice.ptr = 0 ∨ RunsOut n next)

theorem RunsOut.mono {buddy : BuddyBlocks} {n m : ℕ} (le : n ≤ m) (out : RunsOut n buddy) : RunsOut m buddy := by
  induction n generalizing buddy m with
  | zero => exact out.elim
  | succ n ih =>
    obtain ⟨m, rfl⟩ : ∃ k, m = k + 1 := ⟨m - 1, by omega⟩
    obtain ⟨slice, next, ran, answer⟩ := out
    exact ⟨slice, next, ran, answer.imp_right (ih (Nat.le_of_succ_le_succ le))⟩

/-- The pages that a table still needs. -/
def pagesFor (tables : Registry) (id : TableId) : ℕ := if tables id = none then 1 else 0

/-- The table is in place, at a page it had or at a new one, and the window maps what it did. -/
structure Opened (kernel : KernelPages) (st : PageMemory) (tables : Registry) (id : TableId) (table : ℕ)
    (after : PageMemory) (tables' : Registry) : Prop where
  shape : kernel.Shape after tables'
  registered : tables' id = some table
  others : ∀ other, other ≠ id → tables' other = tables other
  view : ∀ page, kernel.view after tables' page = kernel.view st tables page
  spent : ∀ n, RunsOut n after.buddy → RunsOut (n + pagesFor tables id) st.buddy

theorem Shape.pageGetOrAlloc_spec (shape : kernel.Shape st tables) (plain : Plain flags) (valid : id.Valid)
    (placed : kernel.upper tables id = some above)
    (absent : tables id = none → isPresent (kernel.read st above id.slot) = false) :
    pageGetOrAlloc above id.slot flags kernel.mmapDyn st = .error .nullDereference ∧
        RunsOut (pagesFor tables id) st.buddy ∨
      ∃ table after tables', pageGetOrAlloc above id.slot flags kernel.mmapDyn st = .ok (table, after) ∧
        kernel.Opened st tables id table after tables' := by
  have aboveOwn := shape.upper_own placed
  cases found : tables id with
  | some table =>
    have points := shape.pointsTo id found placed
    refine .inr ⟨table, st, tables, ?_, shape, found, fun _ _ => rfl, fun _ => rfl, fun _ => .mono (Nat.le_add_right ..)⟩
    rw [pageGetOrAlloc, aboveOwn.load, Except.ok_bind, if_pos points.present, points.follow (shape.own found)]
    rfl
  | none =>
    have missing := absent found
    obtain ⟨slice, buddy, ran, answer⟩ := kernel.supply.alloc shape.owned
    rw [pageGetOrAlloc, aboveOwn.load, Except.ok_bind, if_neg (by simp [missing]), ran, Except.ok_bind]
    dsimp only
    rcases answer with null | ⟨fresh, owned⟩
    · left
      refine ⟨?_, ?_⟩
      · rw [PageMemory.clear, tableFrame, if_pos null]
        rfl
      · rw [pagesFor, if_pos found]
        exact ⟨slice, buddy, ran, .inl null⟩
    · right
      have member : slice.ptr ∈ kernel.pool := kernel.supply.inside owned (Set.mem_insert _ _)
      have own : kernel.Table slice.ptr := .inr member
      obtain ⟨grown, view⟩ := shape.grow valid placed found missing fresh owned (own.pointsTo plain)
      refine ⟨slice.ptr, _, _, ?_, grown, Function.update_self _ _ _, fun other apart => ?_, view, fun n out => ?_⟩
      · rw [own.clear, Except.ok_bind, ((kernel.pages _ member).reaches kernel.map).2.1,
          Except.ok_bind, aboveOwn.store]
        rfl
      · exact Function.update_of_ne apart _ _
      · rw [pagesFor, if_pos found]
        exact ⟨slice, buddy, ran, .inr out⟩

/-! ## Giving a page back -/

private theorem Table.isEmpty (own : kernel.Table table) (st : PageMemory) :
    ∃ empty, pagetableIsEmpty table kernel.mmapDyn st = .ok empty ∧
    (empty = true ↔ ∀ j < 512, isPresent (kernel.read st table j) = false) := by
  refine ⟨_, by rw [pagetableIsEmpty, own.reaches.forth]; rfl, ?_⟩
  rw [List.all_eq_true]
  simp only [PAGETABLE_LENGTH, List.mem_range, Bool.not_eq_eq_eq_not, Bool.not_true]
  rfl

/-- Nothing but the table may have gone, and where its index wrapped around it stays only if it has an
entry; the window maps what it did. -/
structure Closed (kernel : KernelPages) (st : PageMemory) (tables : Registry) (id : TableId) (table : ℕ) (wraps : Prop)
    (after : PageMemory) (tables' : Registry) : Prop where
  shape : kernel.Shape after tables'
  own : tables' id = some table ∨ tables' id = none
  others : ∀ other, other ≠ id → tables' other = tables other
  view : ∀ page, kernel.view after tables' page = kernel.view st tables page
  kept : wraps → tables' id = some table → ∃ j < 512, isPresent (kernel.read after table j) = true

theorem Shape.releaseEmpty_spec (shape : kernel.Shape st tables) (id : TableId)
    (registered : tables id = some table)
    (placed : kernel.upper tables id = some above) (index nextIndex : ℕ) :
    ∃ after tables', releaseEmpty index nextIndex table above id.slot kernel.mmapDyn st = .ok after ∧
      kernel.Closed st tables id table (nextIndex < index) after tables' := by
  rw [releaseEmpty]
  by_cases wraps : index > nextIndex
  · obtain ⟨empty, ran, meaning⟩ := (shape.own registered).isEmpty st
    rw [if_pos wraps, ran, Except.ok_bind]
    cases empty with
    | true =>
      have absent := meaning.mp rfl
      obtain ⟨buddy, given, owned⟩ := kernel.supply.dealloc shape.owned ⟨id, registered⟩
      obtain ⟨released, view⟩ := shape.release registered placed absent owned
      refine ⟨_, _, ?_, released, .inr (Function.update_self _ _ _), fun other apart => ?_, view,
        fun _ found => ?_⟩
      · rw [if_pos rfl, given, Except.ok_bind, (shape.upper_own placed).store]
      · exact Function.update_of_ne apart _ _
      · rw [Function.update_self] at found
        exact absurd found nofun
    | false =>
      refine ⟨st, tables, rfl, shape, .inl registered, fun _ _ => rfl, fun _ => rfl, fun _ _ => ?_⟩
      by_contra none
      push Not at none
      exact absurd (meaning.mpr fun j small => Bool.eq_false_iff.mpr (none j small)) (by decide)
  · rw [if_neg wraps]
    exact ⟨st, tables, rfl, shape, .inl registered, fun _ _ => rfl, fun _ => rfl,
      fun wrapped => absurd wrapped wraps⟩

end KernelPages

end RubberOS.Model.PageTable
