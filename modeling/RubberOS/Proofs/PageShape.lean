import RubberOS.Proofs.PageRegistry

/-! # Edits of the tables below the window

Each edit writes one entry of one table. Since every table has one page and every entry one place, an
edit changes what the window maps at that entry only, and giving a page to an empty table or taking it
away changes nothing.
-/

namespace RubberOS.Model.PageTable

open Buddy MemoryMap Mmio Dynmem

namespace KernelPages

variable {kernel : KernelPages} {st : PageMemory} {tables : Registry} {id : TableId} {above table other entry : ℕ}

/-! ## Memory -/

variable (kernel) in
/-- Memory after a store into a table. -/
def write (st : PageMemory) (table index entry : ℕ) : PageMemory :=
  { st with
    frames := Function.update st.frames (kernel.frame table)
      (Function.update (st.frames (kernel.frame table)) index entry) }

variable (kernel) in
/-- Memory after a table is cleared. -/
def erase (st : PageMemory) (table : ℕ) : PageMemory :=
  { st with frames := Function.update st.frames (kernel.frame table) fun _ => 0 }

section Memory

variable {i j : ℕ}

theorem Table.load (own : kernel.Table table) :
    st.load kernel.mmapDyn table i = .ok (kernel.read st table i) :=
  own.reaches.load

theorem Table.store (own : kernel.Table table) :
    st.store kernel.mmapDyn table i entry = .ok (kernel.write st table i entry) := own.reaches.store

theorem Table.clear (own : kernel.Table table) :
    st.clear kernel.mmapDyn table = .ok (kernel.erase st table) :=
  own.reaches.clear

private theorem read_write_self : kernel.read (kernel.write st table i entry) table i = entry := by
  simp only [read, write, Function.update_self]

private theorem read_write_of_ne (own : kernel.Table table) (ownOther : kernel.Table other)
    (apart : other = table → j ≠ i) :
    kernel.read (kernel.write st table i entry) other j = kernel.read st other j := by
  rw [read, write, read]
  dsimp only
  by_cases same : kernel.frame other = kernel.frame table
  · rw [same, Function.update_self, Function.update_of_ne (apart (ownOther.frame_injective own same))]
  · rw [Function.update_of_ne same]

private theorem read_erase_self : kernel.read (kernel.erase st table) table i = 0 := by
  simp only [read, erase, Function.update_self]

private theorem read_erase_of_ne (own : kernel.Table table) (ownOther : kernel.Table other) (apart : other ≠ table) :
    kernel.read (kernel.erase st table) other i = kernel.read st other i := by
  have frames : kernel.frame other ≠ kernel.frame table :=
    fun same => apart (ownOther.frame_injective own same)
  simp only [read, erase, Function.update_of_ne frames]

private theorem write_rest {frame index : ℕ} (inside : kernel.Writable (kernel.frame table) i)
    (outside : ¬ kernel.Writable frame index) :
    (kernel.write st table i entry).frames frame index = st.frames frame index := by
  rw [write]
  dsimp only
  by_cases same : frame = kernel.frame table
  · subst same
    rw [Function.update_self, Function.update_of_ne]
    rintro rfl
    exact outside inside
  · rw [Function.update_of_ne same]

private theorem erase_rest {frame index : ℕ} (member : table ∈ kernel.pool)
    (outside : ¬ kernel.Writable frame index) :
    (kernel.erase st table).frames frame index = st.frames frame index := by
  have apart : frame ≠ kernel.frame table := by
    rintro rfl
    exact outside (.inr ⟨table, member, rfl⟩)
  simp only [erase, Function.update_of_ne apart]

end Memory

/-! ## Places -/

namespace Shape

variable (shape : kernel.Shape st tables)
include shape

private theorem mem_pool (registered : tables id = some table) : table ∈ kernel.pool :=
  kernel.supply.inside shape.owned ⟨id, registered⟩

theorem own (registered : tables id = some table) : kernel.Table table := .inr (shape.mem_pool registered)

theorem upper_own (placed : kernel.upper tables id = some above) : kernel.Table above := by
  cases id with
  | directory i => exact .inl (Option.some.inj placed).symm
  | leaf b => exact shape.own placed

/-- A table of the last level is above no other. -/
private theorem upper_ne_leaf {b : ℕ} (id : TableId) (placed : kernel.upper tables id = some above)
    (registered : tables (.leaf b) = some table) :
    above ≠ table := by
  rintro rfl
  cases id with
  | directory i =>
    cases placed
    exact pdpt_not_pool (shape.mem_pool registered)
  | leaf c => exact TableId.noConfusion (shape.registry.distinct _ _ _ placed registered)

/-- Every table has an entry of its own. -/
private theorem slot_injective (id id' : TableId) (placed : kernel.upper tables id = some above)
    (placed' : kernel.upper tables id' = some above) (same : id.slot = id'.slot) : id = id' := by
  cases id with
  | directory i =>
    cases placed
    cases id' with
    | directory j => exact congrArg _ same
    | leaf c => exact (pdpt_not_pool (shape.mem_pool placed')).elim
  | leaf b =>
    cases id' with
    | directory j =>
      cases placed'
      exact (pdpt_not_pool (shape.mem_pool placed)).elim
    | leaf c =>
      have block := TableId.directory.inj (shape.registry.distinct _ _ _ placed placed')
      simp only [TableId.slot] at same
      exact congrArg _ (by omega)

private theorem upper_writable (valid : id.Valid) (placed : kernel.upper tables id = some above) :
    kernel.Writable (kernel.frame above) id.slot := by
  cases id with
  | directory i =>
    cases placed
    exact .inl ⟨rfl, valid⟩
  | leaf b => exact .inr ⟨above, shape.mem_pool placed, rfl⟩

/-! ## Edits -/

/-- A directory entry without a table may map a block or nothing. -/
theorem write_block {b : ℕ} (entry : ℕ) (placed : kernel.upper tables (.leaf b) = some above)
    (valid : (TableId.leaf b).Valid)
    (vacant : tables (.leaf b) = none) (block : isPresent entry = true → isHuge entry = true) :
    kernel.Shape (kernel.write st above (b % 512) entry) tables ∧
      ∀ page, kernel.view (kernel.write st above (b % 512) entry) tables page =
        if page / 512 = b then leafOf 1 entry else kernel.view st tables page := by
  have aboveOwn := shape.upper_own placed
  have inside : kernel.Writable (kernel.frame above) (b % 512) := shape.upper_writable valid placed
  constructor
  · constructor
    · exact shape.registry
    · exact shape.owned
    · intro id idValid top idPlaced
      by_cases same : id = .leaf b
      · subst same
        obtain rfl : top = above := Option.some.inj (idPlaced.symm.trans placed)
        rw [vacant, TableId.slot, read_write_self]
        exact fun present => ⟨⟨b, rfl⟩, block present⟩
      · have linked := shape.links id idValid top idPlaced
        rwa [read_write_of_ne aboveOwn (shape.upper_own idPlaced)]
        intro equal slot
        subst equal
        exact same (shape.slot_injective _ _ idPlaced placed slot)
    · intro frame index outside
      rw [write_rest inside outside, shape.rest frame index outside]
  · intro page
    by_cases same : page / 512 = b
    · subst same
      rw [if_pos rfl, view_of_block placed vacant, read_write_self]
    · rw [if_neg same]
      refine view_congr rfl rfl (fun table registered => ?_) fun top directory => ?_
      · rw [read_write_of_ne aboveOwn (shape.own registered)]
        exact fun equal => absurd equal.symm (shape.upper_ne_leaf _ placed registered)
      · rw [read_write_of_ne aboveOwn (shape.own directory)]
        rintro rfl slot
        exact same (TableId.leaf.inj (shape.slot_injective (.leaf (page / 512)) _ directory placed slot))

/-- An entry of a table of the last level maps one page. -/
theorem write_page {b : ℕ} (k entry : ℕ) (registered : tables (.leaf b) = some table) :
    kernel.Shape (kernel.write st table k entry) tables ∧
      ∀ page, kernel.view (kernel.write st table k entry) tables page =
        if page / 512 = b ∧ page % 512 = k then leafOf 0 entry else kernel.view st tables page := by
  have own := shape.own registered
  constructor
  · constructor
    · exact shape.registry
    · exact shape.owned
    · intro id idValid top idPlaced
      have linked := shape.links id idValid top idPlaced
      rwa [read_write_of_ne own (shape.upper_own idPlaced)]
      exact fun equal => absurd equal (shape.upper_ne_leaf _ idPlaced registered)
    · intro frame index outside
      rw [write_rest (.inr ⟨table, shape.mem_pool registered, rfl⟩) outside, shape.rest frame index outside]
  · intro page
    obtain ⟨top, grounded⟩ := shape.registry.grounded b table registered
    by_cases same : page / 512 = b ∧ page % 512 = k
    · obtain ⟨rfl, rfl⟩ := same
      rw [if_pos ⟨rfl, rfl⟩, view_of_table grounded registered, read_write_self]
    · rw [if_neg same]
      refine view_congr rfl rfl (fun leaf other => ?_) fun top directory => ?_
      · rw [read_write_of_ne own (shape.own other)]
        rintro rfl equal
        exact same ⟨TableId.leaf.inj (shape.registry.distinct _ _ _ other registered), equal⟩
      · rw [read_write_of_ne own (shape.own directory)]
        exact fun equal => absurd equal (shape.upper_ne_leaf (.leaf (page / 512)) directory registered)

/-- The entry of a registered table leads to it. -/
theorem pointsTo (id : TableId) (registered : tables id = some table)
    (placed : kernel.upper tables id = some above) :
    kernel.PointsTo (kernel.read st above id.slot) table := by
  have linked := shape.links id (shape.registry.valid id table registered) above placed
  rwa [registered] at linked

end Shape

/-- A page outside the registry is above no table. -/
private theorem upper_ne_fresh (placed : kernel.upper tables id = some above) (member : table ∈ kernel.pool)
    (fresh : table ∉ held tables) : above ≠ table := by
  rintro rfl
  cases id with
  | directory i =>
    cases placed
    exact pdpt_not_pool member
  | leaf b => exact fresh ⟨_, placed⟩

/-- Registering a table moves nothing but the tables below it. -/
private theorem upper_update_of_ne {id' : TableId} {answer : Option ℕ}
    (apart : ∀ b, id' = .leaf b → id ≠ .directory (b / 512)) :
    kernel.upper (Function.update tables id answer) id' = kernel.upper tables id' := by
  cases id' with
  | directory i => rfl
  | leaf b => exact Function.update_of_ne (apart b rfl).symm _ _

variable (kernel) in
/-- Memory `after` an edit of the entry of a table reads as before, but for the entry and for a page `spare`. -/
structure Relinked (st after : PageMemory) (above slot entry : ℕ) (spare : Option ℕ) : Prop where
  linked : kernel.read after above slot = entry
  kept : ∀ other, kernel.Table other → spare ≠ some other → ∀ j, (other = above → j ≠ slot) →
    kernel.read after other j = kernel.read st other j

section Relinked

variable {after : PageMemory} {spare answer : Option ℕ}

private theorem relinked_write (buddy : BuddyBlocks) (aboveOwn : kernel.Table above) (slot : ℕ) :
    kernel.Relinked st (kernel.write { st with buddy } above slot entry) above slot entry none where
  linked := read_write_self
  kept _ own _ _ place := read_write_of_ne aboveOwn own place

private theorem relinked_erase (buddy : BuddyBlocks) (aboveOwn : kernel.Table above) (own : kernel.Table table)
    (slot : ℕ) :
    kernel.Relinked st (kernel.write (kernel.erase { st with buddy } table) above slot entry) above slot entry
      (some table) where
  linked := read_write_self
  kept other otherOwn apart j place := by
    rw [read_write_of_ne aboveOwn otherOwn place, read_erase_of_ne own otherOwn fun same => apart (same ▸ rfl)]
    rfl

variable (shape : kernel.Shape st tables) (relinked : kernel.Relinked st after above id.slot entry spare)
  (placed : kernel.upper tables id = some above) (fresh : ∀ table, spare = some table → table ∈ kernel.pool ∧ table ∉ held tables)

include shape relinked placed fresh

/-- The entries of the tables that lie elsewhere. -/
private theorem Relinked.linked_of_ne {id' : TableId} {top : ℕ} (idValid : id'.Valid)
    (idPlaced : kernel.upper tables id' = some top) (same : id' ≠ id) :
    kernel.Linked id' (kernel.read after top id'.slot) (Function.update tables id answer id') := by
  rw [Function.update_of_ne same, relinked.kept top (shape.upper_own idPlaced) fun equal =>
    upper_ne_fresh idPlaced (fresh top equal).1 (fresh top equal).2 rfl]
  · exact shape.links id' idValid top idPlaced
  · intro equal slot
    subst equal
    exact same (shape.slot_injective _ _ idPlaced placed slot)

/-- The pages below other entries. -/
private theorem Relinked.view_of_ne {page : ℕ} (directory : id ≠ .directory (page / 512 / 512))
    (leaf : id ≠ .leaf (page / 512)) :
    kernel.view after (Function.update tables id answer) page = kernel.view st tables page := by
  refine view_congr (Function.update_of_ne (Ne.symm directory) _ _) (Function.update_of_ne (Ne.symm leaf) _ _)
    (fun table registered => ?_) fun top found => ?_
  · refine relinked.kept table (shape.own registered) (fun equal => (fresh table equal).2 ⟨_, registered⟩) _ ?_
    exact fun equal => absurd equal.symm (shape.upper_ne_leaf _ placed registered)
  · refine relinked.kept top (shape.own found) (fun equal => (fresh top equal).2 ⟨_, found⟩) _ ?_
    rintro rfl slot
    exact leaf (shape.slot_injective _ (.leaf (page / 512)) placed found slot.symm)

end Relinked

namespace Shape

variable (shape : kernel.Shape st tables)
include shape

/-- A cleared page becomes a table where there was none. -/
theorem grow {buddy : BuddyBlocks} (valid : id.Valid) (placed : kernel.upper tables id = some above)
    (vacant : tables id = none) (absent : isPresent (kernel.read st above id.slot) = false)
    (fresh : table ∉ held tables) (owned : kernel.Owned buddy (insert table (held tables)))
    (points : kernel.PointsTo entry table) :
    kernel.Shape (kernel.write (kernel.erase { st with buddy } table) above id.slot entry)
        (Function.update tables id (some table)) ∧
      ∀ page, kernel.view (kernel.write (kernel.erase { st with buddy } table) above id.slot entry)
        (Function.update tables id (some table)) page = kernel.view st tables page := by
  have member : table ∈ kernel.pool := kernel.supply.inside owned (Set.mem_insert _ _)
  have own : kernel.Table table := .inr member
  have aboveOwn := shape.upper_own placed
  have aboveOther := upper_ne_fresh placed member fresh
  have spare : ∀ other, some table = some other → other ∈ kernel.pool ∧ other ∉ held tables := by
    rintro other ⟨⟩
    exact ⟨member, fresh⟩
  have relinked : kernel.Relinked st (kernel.write (kernel.erase { st with buddy } table) above id.slot entry) above
    id.slot entry (some table) := relinked_erase buddy aboveOwn own id.slot
  have cleared (j : ℕ) :
      kernel.read (kernel.write (kernel.erase { st with buddy } table) above id.slot entry) table j = 0 := by
    rw [read_write_of_ne aboveOwn own (fun equal => absurd equal.symm aboveOther), read_erase_self]
  have childless (b : ℕ) (below : id = .directory (b / 512)) : tables (.leaf b) = none :=
    shape.registry.childless (below ▸ vacant)
  constructor
  · constructor
    · refine shape.registry.grow valid fresh fun b leaf => ?_
      subst leaf
      exact ⟨above, placed⟩
    · rw [held_grow vacant]
      exact owned
    · intro id' idValid top idPlaced
      by_cases same : id' = id
      · subst same
        rw [upper_update_of_ne (fun b leaf => leaf ▸ TableId.noConfusion), placed] at idPlaced
        rw [← Option.some.inj idPlaced, Function.update_self, relinked.linked]
        exact points
      · by_cases below : ∃ b, id' = .leaf b ∧ id = .directory (b / 512)
        · obtain ⟨b, rfl, rfl⟩ := below
          rw [upper, Function.update_self] at idPlaced
          rw [Function.update_of_ne same, ← Option.some.inj idPlaced, cleared, childless b rfl]
          exact fun present => absurd present (by decide)
        · rw [upper_update_of_ne fun b leaf directory => below ⟨b, leaf, directory⟩] at idPlaced
          exact relinked.linked_of_ne shape placed spare idValid idPlaced same
    · intro frame index outside
      rw [write_rest (shape.upper_writable valid placed) outside, erase_rest member outside]
      exact shape.rest frame index outside
  · intro page
    by_cases directory : id = .directory (page / 512 / 512)
    · subst directory
      have leaf := childless (page / 512) rfl
      rw [view_of_none vacant, view_of_block (Function.update_self _ _ _)
        ((Function.update_of_ne TableId.noConfusion _ _).trans leaf), cleared]
      exact leafOf_of_absent isPresent_zero
    · by_cases leaf : id = .leaf (page / 512)
      · subst leaf
        rw [view_of_table ((Function.update_of_ne (Ne.symm directory) _ _).trans placed) (Function.update_self _ _ _),
          cleared, view_of_block placed vacant, leafOf_of_absent isPresent_zero]
        exact (leafOf_of_absent absent).symm
      · exact relinked.view_of_ne shape placed spare directory leaf

/-- A directory without present entries has no tables below it. -/
private theorem childless {i b : ℕ} (registered : tables (.directory i) = some table)
    (empty : ∀ j < 512, isPresent (kernel.read st table j) = false) (below : b / 512 = i) :
    tables (.leaf b) = none := by
  subst below
  rw [Option.eq_none_iff_forall_not_mem]
  intro leaf found
  have points := shape.pointsTo (.leaf b) found registered
  have absent := empty (b % 512) (Nat.mod_lt _ (by decide))
  exact absurd (points.present.symm.trans absent) (by decide)

/-- Nothing is present where no directory is registered. -/
theorem absent_directory {i : ℕ} (valid : (TableId.directory i).Valid) (vacant : tables (.directory i) = none) :
    isPresent (kernel.read st kernel.pdpt i) = false := by
  have linked := shape.links _ valid kernel.pdpt rfl
  rw [vacant] at linked
  rw [Bool.eq_false_iff]
  intro present
  obtain ⟨b, leaf⟩ := (linked present).1
  exact TableId.noConfusion leaf

/-- The page of an empty table goes back, and its entry with it. -/
theorem release {buddy : BuddyBlocks} (registered : tables id = some table)
    (placed : kernel.upper tables id = some above)
    (empty : ∀ j < 512, isPresent (kernel.read st table j) = false)
    (owned : kernel.Owned buddy (held tables \ {table})) :
    kernel.Shape (kernel.write { st with buddy } above id.slot 0) (Function.update tables id none) ∧
      ∀ page, kernel.view (kernel.write { st with buddy } above id.slot 0)
      (Function.update tables id none) page =
        kernel.view st tables page := by
  have aboveOwn := shape.upper_own placed
  have valid := shape.registry.valid id table registered
  have relinked : kernel.Relinked st (kernel.write { st with buddy } above id.slot 0) above id.slot 0 none :=
    relinked_write buddy aboveOwn id.slot
  have spare : ∀ other, none = some other → other ∈ kernel.pool ∧ other ∉ held tables := by
    rintro other ⟨⟩
  have childless (b : ℕ) (below : id = .directory (b / 512)) : tables (.leaf b) = none := by
    subst below
    exact shape.childless registered empty rfl
  constructor
  · constructor
    · exact shape.registry.release childless
    · rw [held_release shape.registry registered]
      exact owned
    · intro id' idValid top idPlaced
      by_cases same : id' = id
      · subst same
        rw [upper_update_of_ne (fun b leaf => leaf ▸ TableId.noConfusion), placed] at idPlaced
        rw [← Option.some.inj idPlaced, Function.update_self, relinked.linked]
        exact fun present => absurd present (by decide)
      · by_cases below : ∃ b, id' = .leaf b ∧ id = .directory (b / 512)
        · obtain ⟨b, rfl, rfl⟩ := below
          rw [upper, Function.update_self] at idPlaced
          cases idPlaced
        · rw [upper_update_of_ne fun b leaf directory => below ⟨b, leaf, directory⟩] at idPlaced
          exact relinked.linked_of_ne shape placed spare idValid idPlaced same
    · intro frame index outside
      rw [write_rest (shape.upper_writable valid placed) outside]
      exact shape.rest frame index outside
  · intro page
    by_cases directory : id = .directory (page / 512 / 512)
    · subst directory
      have leaf := childless (page / 512) rfl
      rw [view_of_none (Function.update_self _ _ _), view_of_block registered leaf]
      exact (leafOf_of_absent (empty _ (Nat.mod_lt _ (by decide)))).symm
    · by_cases leaf : id = .leaf (page / 512)
      · subst leaf
        rw [view_of_block ((Function.update_of_ne (Ne.symm directory) _ _).trans placed) (Function.update_self _ _ _),
          view_of_table placed registered, leafOf_of_absent (empty _ (Nat.mod_lt _ (by decide)))]
        exact leafOf_of_absent ((congrArg isPresent relinked.linked).trans isPresent_zero)
      · exact relinked.view_of_ne shape placed spare directory leaf

end Shape

end KernelPages

end RubberOS.Model.PageTable
