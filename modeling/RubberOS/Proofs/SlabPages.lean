import Mathlib.Data.List.Perm.Subperm
import RubberOS.Proofs.SlabSlots
import RubberOS.ToMathlib.SinglyLinked

/-! # Pages and their free chains

`Page` ties a page's memory to the list of its free slots: the chain through `free_index` and the
slots' `next` visits exactly them, and `alloc_count` counts the others. Setting a page up, taking
its first free slot and giving a slot back each keep this for the expected list.
-/

namespace RubberOS.Model.Slab

open SinglyLinked

/-- An index read from memory, where zero is the sentinel. -/
def ofIndex (index : ℕ) : Option ℕ := if index = 0 then none else some index

/-- The links of a page's free chain: the dummy is `free_index`, a node is a slot's offset. -/
def freeLinks (memory : Memory) (page : ℕ) : Option ℕ → Option ℕ
  | none => ofIndex (load16 memory (freeIndexAt page))
  | some offset => ofIndex (load16 memory (nextAt (page + offset)))

/-- A page whose free slots are `free`, first to last. -/
structure Page (slab : SlabAllocator) (memory : Memory) (page : ℕ) (free : List ℕ) : Prop where
  chain : Chain (freeLinks memory page) none free
  nodup : free.Nodup
  slots : ∀ offset ∈ free, offset ∈ slotOffsets slab
  count : load16 memory (allocCountAt page) + free.length = slotCount slab
  empty : ∀ offset ∈ free, EmptySlot slab memory (page + offset)
  object : ∀ offset ∈ slotOffsets slab, offset ∉ free → ObjectSlot slab memory (page + offset)

section Pages

variable {slab : SlabAllocator} {memory memory' : Memory} {page offset : ℕ} {free rest : List ℕ}

@[simp] theorem ofIndex_eq_none {index : ℕ} : ofIndex index = none ↔ index = 0 := by
  unfold ofIndex
  split_ifs with zero <;> simp [zero]

theorem ofIndex_eq_some {index : ℕ} : ofIndex index = some offset ↔ index = offset ∧ index ≠ 0 := by
  unfold ofIndex
  split_ifs with zero <;> simp [zero]

theorem ofIndex_inj {index index' : ℕ} : ofIndex index = ofIndex index' ↔ index = index' := by
  refine ⟨fun same => ?_, congrArg ofIndex⟩
  unfold ofIndex at same
  split_ifs at same with zero zero'
  · rw [zero, zero']
  · exact Option.some.inj same

/-- A slot's offset fits in the index fields. -/
private theorem Geometry.index_bounds (geometry : Geometry slab) (member : offset ∈ slotOffsets slab) :
    offset ≠ 0 ∧ u16 offset = offset := by
  obtain ⟨lower, upper⟩ := geometry.offset_bounds member
  exact ⟨by omega, u16_of_lt (by omega)⟩

theorem Geometry.slotCount_le (geometry : Geometry slab) : slotCount slab ≤ 4096 := by
  have positive := slotCount_pos slab
  obtain ⟨_, last⟩ := geometry.slot_end (i := slotCount slab - 1) (by omega)
  have small := geometry.slotSize_pos
  have product := Nat.le_mul_of_pos_right (slotCount slab - 1) (show 0 < slab.slotSize by omega)
  unfold slotOffset SLAB_PAGE at last
  omega

/-- Two links that are read from equal bytes are equal. -/
private theorem freeLinks_congr (place : Option ℕ)
    (same : ∀ a, a = place.elim (freeIndexAt page) (fun offset => nextAt (page + offset)) ∨
      a = place.elim (freeIndexAt page) (fun offset => nextAt (page + offset)) + 1 → memory' a = memory a) :
    freeLinks memory' page place = freeLinks memory page place := by
  cases place with
  | none => exact congrArg ofIndex (load16_congr (same _ (.inl rfl)) (same _ (.inr rfl)))
  | some offset => exact congrArg ofIndex (load16_congr (same _ (.inl rfl)) (same _ (.inr rfl)))

/-- The free slots of a chain are those before its end. -/
private theorem Page.free_index (held : Page slab memory page free) :
    load16 memory (freeIndexAt page) = 0 ↔ free = [] := by
  rw [← ofIndex_eq_none, ← List.head?_eq_none_iff, ← held.chain.next_eq]
  rfl

/-- A page only depends on its bytes outside the payloads in use. -/
theorem Page.congr (geometry : Geometry slab) (held : Page slab memory page free)
    (same : ∀ a, page + 16 ≤ a → a < page + 4096 → (∀ offset ∈ slotOffsets slab, offset ∉ free →
      a < page + offset + slab.payloadOffset ∨ page + offset + slab.payloadOffset + slab.objectSize ≤ a) →
      memory' a = memory a) : Page slab memory' page free := by
  have header := geometry.header
  have redzone := geometry.redzone
  -- neither the header of the page nor a byte of another slot is in a payload in use
  have head (a : ℕ) (lower : page + 16 ≤ a) (upper : a < page + 24) : memory' a = memory a := by
    refine same a lower (by omega) fun offset member _ => ?_
    have := geometry.offset_bounds member
    omega
  have slot (own : ℕ) (member : own ∈ slotOffsets slab) (a : ℕ) (lower : page + own ≤ a)
      (upper : a < page + own + slab.slotSize) (outside : own ∉ free → a < page + own + slab.payloadOffset ∨
        page + own + slab.payloadOffset + slab.objectSize ≤ a) : memory' a = memory a := by
    have bounds := geometry.offset_bounds member
    refine same a (by omega) (by omega) fun other otherMember used => ?_
    rcases eq_or_ne other own with rfl | apart
    · exact outside used
    · rcases offsets_apart otherMember member apart <;> omega
  refine ⟨held.chain.reroute ?_ ?_, held.nodup, held.slots, ?_, fun own member => ?_,
    fun own member used => ?_⟩
  · refine freeLinks_congr none fun a at' => head a ?_ ?_ <;> simp only [Option.elim, freeIndexAt]
      at at' <;> omega
  · intro own member
    have inside := held.slots own member
    have size := geometry.slotSize_pos
    refine freeLinks_congr (some own) fun a at' => slot own inside a ?_ ?_ fun used => (used member).elim <;>
      simp only [Option.elim, nextAt] at at' <;> omega
  · rw [load16_congr (head _ (by unfold allocCountAt; omega) (by unfold allocCountAt; omega))
      (head _ (by unfold allocCountAt; omega) (by unfold allocCountAt; omega))]
    exact held.count
  · exact (held.empty own member).congr geometry fun a lower upper _ =>
      slot own (held.slots own member) a lower upper fun used => (used member).elim
  · exact (held.object own member used).congr geometry fun a lower upper outside =>
      slot own member a lower upper fun _ => outside

/-! ## Taking a slot -/

/-- What `page_pop_front` writes: the two fields of the page and the popped slot's index. -/
theorem pagePopFront_spec (first : load16 memory (freeIndexAt page) = offset) (behind : 24 ≤ offset)
    (room : load16 memory (allocCountAt page) + 1 < 2 ^ 16) :
    ∃ popped, pagePopFront memory page =
      .ok (page + offset, load16 memory (nextAt (page + offset)) = 0, popped) ∧
      load16 popped (freeIndexAt page) = load16 memory (nextAt (page + offset)) ∧
      load16 popped (nextAt (page + offset)) = 0 ∧
      load16 popped (allocCountAt page) = load16 memory (allocCountAt page) + 1 ∧
      ∀ a, a < page + 16 ∨ page + 20 ≤ a → a < page + offset + 2 ∨ page + offset + 4 ≤ a →
        popped a = memory a := by
  subst first
  have index : load16 memory (freeIndexAt page) ≠ 0 := by omega
  refine ⟨_, by rw [pagePopFront, assertMsg_of (decide_eq_true index), Except.ok_bind]; rfl, ?_⟩
  simp only [freeIndexAt, nextAt, allocCountAt] at *
  refine ⟨?_, ?_, ?_, fun a outside other => ?_⟩
  · rw [load16_store16_of_disjoint (by omega), load16_store16_of_disjoint (by omega), load16_store16]
    exact u16_of_lt (load16_lt ..)
  · rw [load16_store16_of_disjoint (by omega), load16_store16]
    rfl
  · rw [load16_store16, load16_store16_of_disjoint (by omega), load16_store16_of_disjoint (by omega)]
    exact u16_of_lt room
  · rw [store16_apply (by omega) (by omega), store16_apply (by omega) (by omega),
      store16_apply (by omega) (by omega)]

/-- What changes one slot and the two fields of the page only leaves the other slots. -/
private theorem Geometry.others_kept (geometry : Geometry slab) (member : offset ∈ slotOffsets slab)
    (others : ∀ a, a < page + 16 ∨ page + 20 ≤ a → a < page + offset ∨ page + offset + slab.slotSize ≤ a →
      memory' a = memory a) {own : ℕ} (inside : own ∈ slotOffsets slab) (apart : own ≠ offset) (a : ℕ)
    (lower : page + own ≤ a) (upper : a < page + own + slab.slotSize) : memory' a = memory a := by
  have ownBounds := geometry.offset_bounds inside
  refine others a (by omega) ?_
  rcases offsets_apart inside member apart <;> omega

/-- Popping the first free slot and readying it for its owner. -/
theorem Page.take (geometry : Geometry slab) (held : Page slab memory page (offset :: rest)) :
    ∃ popped memory', pagePopFront memory page = .ok (page + offset, rest = [], popped) ∧
      slotOnAlloc popped (page + offset) slab = .ok memory' ∧ Page slab memory' page rest ∧
      (∀ i < slab.objectSize, memory' (page + offset + slab.payloadOffset + i) = 0) ∧
      ∀ a, a < page + 16 ∨ page + 20 ≤ a → a < page + offset ∨ page + offset + slab.slotSize ≤ a →
        memory' a = memory a := by
  have member := held.slots offset (.head _)
  have bounds := geometry.offset_bounds member
  have size := geometry.slotSize_pos
  obtain ⟨absent, nodup⟩ := List.nodup_cons.mp held.nodup
  have next := held.chain.2.next_eq
  rw [freeLinks] at next
  have full : load16 memory (nextAt (page + offset)) = 0 ↔ rest = [] := by
    rw [← ofIndex_eq_none, next, List.head?_eq_none_iff]
  have count := held.count
  have most := geometry.slotCount_le
  obtain ⟨popped, pop, poppedFree, poppedNext, poppedCount, poppedRest⟩ :=
    pagePopFront_spec (ofIndex_eq_some.mp held.chain.1).1 bounds.1 (by omega)
  have poppedEmpty : EmptySlot slab popped (page + offset) :=
    (held.empty offset (.head _)).congr geometry fun a lower upper outside => poppedRest a
      (by omega) (by omega)
  obtain ⟨memory', ran, object, zero, outside⟩ := slotOnAlloc_spec geometry poppedEmpty poppedNext
  have header' (a : ℕ) (lower : page + 16 ≤ a) (upper : a < page + 20) : memory' a = popped a :=
    outside a (by omega)
  have others (a : ℕ) (away : a < page + 16 ∨ page + 20 ≤ a)
      (other : a < page + offset ∨ page + offset + slab.slotSize ≤ a) : memory' a = memory a := by
    rw [outside a other, poppedRest a away (by omega)]
  have slot (own : ℕ) (inside : own ∈ slotOffsets slab) (apart : own ≠ offset) :=
    geometry.others_kept member others inside apart
  refine ⟨popped, memory', by simpa only [full] using pop, ran,
    ⟨held.chain.2.reroute ?_ ?_, nodup, fun own inside => held.slots own (.tail _ inside),
    ?_, fun own inside => ?_, fun own inside used => ?_⟩, zero, others⟩
  · rw [freeLinks, freeLinks, ← poppedFree, freeIndexAt]
    exact congrArg ofIndex (load16_congr (header' _ (by omega) (by omega)) (header' _ (by omega) (by omega)))
  · intro own inside
    have apart : own ≠ offset := fun same => absent (same ▸ inside)
    refine freeLinks_congr (some own) fun a at' => slot own
      (held.slots own (.tail _ inside)) apart a ?_ ?_ <;>
      simp only [Option.elim, nextAt] at at' <;> omega
  · have kept : load16 memory' (allocCountAt page) = load16 popped (allocCountAt page) :=
      load16_congr (header' _ (by unfold allocCountAt; omega) (by unfold allocCountAt; omega))
        (header' _ (by unfold allocCountAt; omega) (by unfold allocCountAt; omega))
    rw [List.length_cons] at count
    omega
  · have apart : own ≠ offset := fun same => absent (same ▸ inside)
    exact (held.empty own (.tail _ inside)).congr geometry fun a lower upper _ =>
      slot own (held.slots own (.tail _ inside)) apart a lower upper
  · rcases eq_or_ne own offset with rfl | apart
    · exact object
    · refine (held.object own inside fun listed => ?_).congr geometry fun a lower upper _ =>
        slot own inside apart a lower upper
      rcases List.mem_cons.mp listed with same | later
      · exact apart same
      · exact used later

/-! ## Giving a slot back -/

/-- A page with a slot in use has fewer free slots than slots. -/
theorem Page.length_lt (held : Page slab memory page free) (member : offset ∈ slotOffsets slab)
    (used : offset ∉ free) :
    free.length < slotCount slab := by
  have inside : offset :: free ⊆ slotOffsets slab := List.cons_subset.mpr ⟨member, held.slots⟩
  have bound := ((List.nodup_cons.mpr ⟨used, held.nodup⟩).subperm inside).length_le
  rwa [length_slotOffsets] at bound

/-- What `page_push_front` writes: the slot's index and the two fields of the page. -/
theorem pagePushFront_spec (behind : 24 ≤ offset) (inside : offset < 4096) (small : page + offset < 2 ^ 64)
    (counted : 1 ≤ load16 memory (allocCountAt page)) :
    load16 (pagePushFront memory page (page + offset)) (freeIndexAt page) = offset ∧
      load16 (pagePushFront memory page (page + offset)) (nextAt (page + offset)) =
        load16 memory (freeIndexAt page) ∧
      load16 (pagePushFront memory page (page + offset)) (allocCountAt page) =
        load16 memory (allocCountAt page) - 1 ∧
      ∀ a, a < page + 16 ∨ page + 20 ≤ a → a < page + offset + 2 ∨ page + offset + 4 ≤ a →
        pagePushFront memory page (page + offset) a = memory a := by
  have bound := load16_lt memory (allocCountAt page)
  have index : sub64 (page + offset) page = offset := by
    rw [sub64_of_le (by omega) small, Nat.add_sub_cancel_left]
  simp only [pagePushFront, index, freeIndexAt, nextAt, allocCountAt] at *
  refine ⟨?_, ?_, ?_, fun a outside other => ?_⟩
  · rw [load16_store16_of_disjoint (by omega), load16_store16, u16_of_lt (by omega)]
  · rw [load16_store16_of_disjoint (by omega), load16_store16_of_disjoint (by omega), load16_store16]
    exact u16_of_lt (load16_lt ..)
  · rw [load16_store16, load16_store16_of_disjoint (by omega), load16_store16_of_disjoint (by omega),
      sub64_of_le counted (by omega), u16_of_lt (by omega)]
  · rw [store16_apply (by omega) (by omega), store16_apply (by omega) (by omega),
      store16_apply (by omega) (by omega)]

/-- Emptying a slot in use and putting it in front of the free chain. -/
theorem Page.give (geometry : Geometry slab) (held : Page slab memory page free)
    (small : page + 4096 ≤ 2 ^ 64) (member : offset ∈ slotOffsets slab) (used : offset ∉ free) :
    ∃ emptied, slotOnDealloc memory (page + offset) slab = .ok emptied ∧
      (load16 emptied (freeIndexAt page) = 0 ↔ free = []) ∧
      Page slab (pagePushFront emptied page (page + offset)) page (offset :: free) ∧
      ∀ a, a < page + 16 ∨ page + 20 ≤ a → a < page + offset ∨ page + offset + slab.slotSize ≤ a →
        pagePushFront emptied page (page + offset) a = memory a := by
  have bounds := geometry.offset_bounds member
  have size := geometry.slotSize_pos
  obtain ⟨emptied, ran, empty, outside⟩ := slotOnDealloc_spec geometry (held.object offset member used)
  have head (a : ℕ) (lower : page + 16 ≤ a) (upper : a < page + 20) : emptied a = memory a :=
    outside a (by omega)
  have freeSame : load16 emptied (freeIndexAt page) = load16 memory (freeIndexAt page) :=
    load16_congr (head _ (by unfold freeIndexAt; omega) (by unfold freeIndexAt; omega))
      (head _ (by unfold freeIndexAt; omega) (by unfold freeIndexAt; omega))
  have countSame : load16 emptied (allocCountAt page) = load16 memory (allocCountAt page) :=
    load16_congr (head _ (by unfold allocCountAt; omega) (by unfold allocCountAt; omega))
      (head _ (by unfold allocCountAt; omega) (by unfold allocCountAt; omega))
  have count := held.count
  have fewer := held.length_lt member used
  obtain ⟨first, next, counted, rest⟩ :=
    pagePushFront_spec bounds.1 (by omega) (show page + offset < 2 ^ 64 by omega)
    (show 1 ≤ load16 emptied (allocCountAt page) by omega)
  refine ⟨emptied, ran, by rw [freeSame, held.free_index], ?_⟩
  generalize pagePushFront emptied page (page + offset) = memory' at first next counted rest ⊢
  have others (a : ℕ) (away : a < page + 16 ∨ page + 20 ≤ a)
      (other : a < page + offset ∨ page + offset + slab.slotSize ≤ a) : memory' a = memory a := by
    rw [rest a away (by omega), outside a other]
  have slot (own : ℕ) (inside : own ∈ slotOffsets slab) (apart : own ≠ offset) :=
    geometry.others_kept member others inside apart
  refine ⟨⟨⟨?_, held.chain.reroute ?_ ?_⟩, List.nodup_cons.mpr ⟨used, held.nodup⟩, ?_, ?_,
    fun own inside => ?_, fun own inside unlisted => ?_⟩, others⟩
  · rw [freeLinks, first, ofIndex, if_neg (by omega)]
  · rw [freeLinks, freeLinks, next, freeSame]
  · intro own inside
    have apart : own ≠ offset := fun same => used (same ▸ inside)
    refine freeLinks_congr (some own) fun a at' => slot own (held.slots own inside) apart a ?_ ?_ <;>
      simp only [Option.elim, nextAt] at at' <;> omega
  · intro own inside
    rcases List.mem_cons.mp inside with rfl | later
    · exact member
    · exact held.slots own later
  · rw [counted, countSame, List.length_cons]
    omega
  · rcases eq_or_ne own offset with rfl | apart
    · exact empty.congr geometry fun a lower upper away => rest a (by omega) (by omega)
    · have later := List.mem_of_ne_of_mem apart inside
      exact (held.empty own later).congr geometry fun a lower upper _ => slot own
        (held.slots own later) apart a lower upper
  · have apart : own ≠ offset := fun same => unlisted (same ▸ .head _)
    exact (held.object own inside fun listed => unlisted
      (.tail _ listed)).congr geometry fun a lower upper _ =>
      slot own inside apart a lower upper

/-! ## Setting a page up -/

/-- The loop of `page_init` from its slot `i` on. -/
private theorem threadSlots_spec (geometry : Geometry slab) (page : ℕ) {i fuel : ℕ} (inside : i < slotCount slab)
    (enough : slotCount slab ≤ i + fuel) (memory : Memory) :
    ∃ memory', threadSlots slab page fuel (slotOffset slab i) memory = .ok memory' ∧
      (∀ j, i ≤ j → j < slotCount slab → EmptySlot slab memory' (page + slotOffset slab j) ∧
        load16 memory' (nextAt (page + slotOffset slab j)) = if j + 1 <
          slotCount slab then slotOffset slab (j + 1) else 0) ∧
      ∀ a, a < page + slotOffset slab i ∨ page + 4096 ≤ a → memory' a = memory a := by
  have size := geometry.slotSize_pos
  induction fuel generalizing i memory with
  | zero => omega
  | succ fuel ih =>
    obtain ⟨empty, outside⟩ := slotInit_spec geometry memory (page + slotOffset slab i)
    obtain ⟨_, last⟩ := geometry.slot_end inside
    unfold SLAB_PAGE at last
    -- storing the slot's own index leaves the slot empty and the bytes in front alone
    have linked (value : ℕ) : EmptySlot slab (store16 (slotInit memory (page + slotOffset slab i) slab)
        (nextAt (page + slotOffset slab i)) value) (page + slotOffset slab i) :=
      empty.congr geometry fun a lower upper away => by
        unfold nextAt
        exact store16_apply (by omega) (by omega)
    have front (value a : ℕ) (away : a < page + slotOffset slab i ∨ page + 4096 ≤ a) :
        store16 (slotInit memory (page + slotOffset slab i) slab)
            (nextAt (page + slotOffset slab i)) value a = memory a := by
      unfold nextAt
      rw [store16_apply (by omega) (by omega), outside a (by omega)]
    rw [threadSlots, ← slotOffset_succ]
    by_cases more : i + 1 < slotCount slab
    · rw [if_pos ((geometry.next_iff i).mpr more)]
      have after := slotOffset_succ slab i
      obtain ⟨memory', ran, slots, rest⟩ := ih more (by omega)
        (store16 (slotInit memory (page + slotOffset slab i) slab)
          (nextAt (page + slotOffset slab i)) (slotOffset slab (i + 1)))
      refine ⟨memory', ran, fun j lower upper => ?_, fun a away => ?_⟩
      · rcases Nat.eq_or_lt_of_le lower with rfl | later
        · refine ⟨(linked (slotOffset slab (i + 1))).congr geometry fun a _ upper _ => rest a (by omega), ?_⟩
          rw [if_pos more, load16_congr (rest _ (by unfold nextAt; omega))
            (rest _ (by unfold nextAt; omega)), load16_store16]
          exact (geometry.index_bounds (mem_slotOffsets.mpr ⟨i + 1, more, rfl⟩)).2
        · exact slots j later upper
      · rw [rest a (by omega)]
        exact front _ a away
    · rw [if_neg fun below => more ((geometry.next_iff i).mp below)]
      refine ⟨_, rfl, fun j lower upper => ?_, fun a away => front _ a away⟩
      obtain rfl : j = i := by omega
      refine ⟨linked 0, ?_⟩
      rw [if_neg more, load16_store16]
      rfl

/-- A page that was set up has all of its slots free, in order. -/
theorem pageInit_spec (geometry : Geometry slab) (memory : Memory) (page : ℕ) :
    ∃ memory', pageInit memory page slab = .ok memory' ∧ Page slab memory' page (slotOffsets slab) ∧
      ∀ a, a < page + 16 ∨ page + 4096 ≤ a → memory' a = memory a := by
  have positive := slotCount_pos slab
  have most := geometry.slotCount_le
  have zero : pageObjectOffset slab.objectAlign = slotOffset slab 0 := by
    rw [slotOffset, Nat.zero_mul, Nat.add_zero, firstOffset]
  have firstMember : slotOffset slab 0 ∈ slotOffsets slab := mem_slotOffsets.mpr ⟨0, positive, rfl⟩
  have bounds := geometry.offset_bounds firstMember
  have index := geometry.index_bounds firstMember
  have enough : slotCount slab ≤ 0 + SLAB_PAGE := by
    rw [Nat.zero_add]
    exact most
  obtain ⟨memory', ran, slots, rest⟩ := threadSlots_spec geometry page positive enough
    (store16 (store16 memory (freeIndexAt page) (slotOffset slab 0)) (allocCountAt page) 0)
  have free : load16 memory' (freeIndexAt page) = slotOffset slab 0 := by
    rw [load16_congr (rest _ (by unfold freeIndexAt; omega)) (rest _ (by unfold freeIndexAt; omega)),
      load16_store16_of_disjoint (by unfold freeIndexAt allocCountAt; omega), load16_store16]
    exact index.2
  have count : load16 memory' (allocCountAt page) = 0 := by
    rw [load16_congr (rest _ (by unfold allocCountAt; omega))
      (rest _ (by unfold allocCountAt; omega)), load16_store16]
    rfl
  refine ⟨memory', by simp only [pageInit, zero, ran],
    ⟨?_, geometry.nodup_slotOffsets, fun _ member => member, ?_, ?_, ?_⟩,
    fun a away => ?_⟩
  · rw [slotOffsets, List.range_eq_range', ← Nat.sub_zero (slotCount slab)]
    refine Chain.of_range ?_ fun j _ upper => ?_
    · rw [if_pos positive, freeLinks, free, ofIndex, if_neg index.1]
    · rw [freeLinks, (slots j (Nat.zero_le j) upper).2, ofIndex]
      by_cases more : j + 1 < slotCount slab
      · rw [if_pos more, if_pos more,
          if_neg (geometry.index_bounds (mem_slotOffsets.mpr ⟨j + 1, more, rfl⟩)).1]
      · rw [if_neg more, if_neg more, if_pos rfl]
  · rw [count, length_slotOffsets, Nat.zero_add]
  · intro offset member
    obtain ⟨j, upper, rfl⟩ := mem_slotOffsets.mp member
    exact (slots j (Nat.zero_le j) upper).1
  · exact fun offset member used => (used member).elim
  · rw [rest a (by omega), store16_apply (by unfold allocCountAt; omega) (by unfold allocCountAt; omega),
      store16_apply (by unfold freeIndexAt; omega) (by unfold freeIndexAt; omega)]

end Pages

end RubberOS.Model.Slab
