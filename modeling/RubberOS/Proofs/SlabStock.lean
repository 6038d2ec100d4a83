import RubberOS.Proofs.SlabPages

/-! # The pages and objects of a slab

`Stock` relates memory to the pages that the allocator owns, the free slots of each and the live
objects. It is kept by acquiring a page, taking a slot, giving one back, releasing a page without
objects and by every write that spares what the allocator keeps in its pages.
-/

namespace RubberOS.Model.Slab

/-- The memory of the owned pages, whose free slots are `free page` and whose other slots are live. -/
structure Stock (slab : SlabAllocator) (memory : Memory) (owned live : List ℕ) (free : ℕ → List ℕ) : Prop where
  geometry : Geometry slab
  nodup : owned.Nodup
  aligned : ∀ page ∈ owned, page ≠ 0 ∧ page % SLAB_PAGE = 0 ∧ page < 2 ^ 64
  pages : ∀ page ∈ owned, Page slab memory page (free page)
  distinct : live.Nodup
  live : ∀ ptr, ptr ∈ live ↔
    ∃ page ∈ owned, ∃ offset ∈ slotOffsets slab, offset ∉ free page ∧ page + offset + slab.payloadOffset = ptr

section Steps

variable {slab : SlabAllocator} {memory memory' : Memory} {owned live rest : List ℕ} {free : ℕ → List ℕ}
  {page page' offset offset' ptr : ℕ}

/-! ## What does not depend on the list -/

theorem Geometry.setList (geometry : Geometry slab) (list : Linkedlist.Links ℕ) :
    Geometry { slab with partialList := list } :=
  ⟨geometry.payload, geometry.header, geometry.redzone, geometry.pageHeader, geometry.inside⟩

theorem Page.setList {free : List ℕ} (held : Page slab memory page free) (list : Linkedlist.Links ℕ) :
    Page { slab with partialList := list } memory page free where
  chain := held.chain
  nodup := held.nodup
  slots := held.slots
  count := held.count
  empty offset member := (held.empty offset member).setList list
  object offset member used := (held.object offset member used).setList list

theorem Stock.setList (stock : Stock slab memory owned live free) (list : Linkedlist.Links ℕ) :
    Stock { slab with partialList := list } memory owned live free :=
  ⟨stock.geometry.setList list, stock.nodup, stock.aligned,
    fun page member => (stock.pages page member).setList list,
    stock.distinct, stock.live⟩

/-! ## Addresses -/

/-- An object's address determines its page and slot. -/
private theorem Geometry.locate (geometry : Geometry slab) (aligned : page % SLAB_PAGE = 0)
    (aligned' : page' % SLAB_PAGE = 0)
    (member : offset ∈ slotOffsets slab) (member' : offset' ∈ slotOffsets slab)
    (same : page + offset + slab.payloadOffset = page' + offset' + slab.payloadOffset) :
    page = page' ∧ offset = offset' := by
  have bounds := geometry.offset_bounds member
  have bounds' := geometry.offset_bounds member'
  have size := geometry.slotSize_pos
  unfold SLAB_PAGE at aligned aligned'
  omega

/-- Two owned pages do not overlap. -/
theorem Stock.apart (stock : Stock slab memory owned live free) (member : page ∈ owned)
    (member' : page' ∈ owned)
    (other : page ≠ page') : page + 4096 ≤ page' ∨ page' + 4096 ≤ page := by
  obtain ⟨_, aligned, _⟩ := stock.aligned page member
  obtain ⟨_, aligned', _⟩ := stock.aligned page' member'
  unfold SLAB_PAGE at aligned aligned'
  omega

theorem Stock.small (stock : Stock slab memory owned live free) (member : page ∈ owned) :
    page + 4096 ≤ 2 ^ 64 := by
  obtain ⟨_, aligned, bound⟩ := stock.aligned page member
  unfold SLAB_PAGE at aligned
  omega

/-- A slot's page by its address. -/
theorem Stock.pageFromSlot (stock : Stock slab memory owned live free) (owns : page ∈ owned)
    (member : offset ∈ slotOffsets slab) : pageFromSlot (page + offset) = page := by
  have bounds := stock.geometry.offset_bounds member
  have small := stock.small owns
  have size := stock.geometry.slotSize_pos
  exact pageFromSlot_eq (stock.aligned page owns).2.1 (by omega) (by omega) (by omega)

/-- A live object, with its page and slot. -/
theorem Stock.find (stock : Stock slab memory owned live free) (member : ptr ∈ live) :
    ∃ page ∈ owned, ∃ offset ∈ slotOffsets slab, offset ∉ free page ∧
      page + offset + slab.payloadOffset = ptr :=
  (stock.live ptr).mp member

/-- Whether a slot of an owned page is live. -/
theorem Stock.live_iff (stock : Stock slab memory owned live free) (owns : page ∈ owned)
    (member : offset ∈ slotOffsets slab) : page + offset + slab.payloadOffset ∈ live ↔
      offset ∉ free page := by
  refine ⟨fun listed => ?_, fun used => (stock.live _).mpr ⟨page, owns, offset, member, used, rfl⟩⟩
  obtain ⟨page', owns', offset', member', used, same⟩ := stock.find listed
  obtain ⟨rfl, rfl⟩ := stock.geometry.locate (stock.aligned page' owns').2.1 (stock.aligned page owns).2.1
    member' member same
  exact used

/-- The first free slot holds no live object. -/
theorem Stock.dead (stock : Stock slab memory owned live free) (owns : page ∈ owned)
    (first : free page = offset :: rest) :
    page + offset + slab.payloadOffset ∉ live := by
  have held := stock.pages page owns
  rw [first] at held
  rw [stock.live_iff owns (held.slots offset (.head _)), not_not, first]
  exact .head _

/-- Writes inside one page leave the others alone. -/
private theorem Stock.other_page (stock : Stock slab memory owned live free) (owns : page ∈ owned)
    (owns' : page' ∈ owned)
    (other : page' ≠ page) (same : ∀ a, a < page + 16 ∨ page + 4096 ≤ a → memory' a = memory a) :
    Page slab memory' page' (free page') := by
  have apart := stock.apart owns' owns other
  exact (stock.pages page' owns').congr stock.geometry fun a lower upper _ => same a (by omega)

/-! ## Steps -/

/-- The first free slot of an owned page becomes a live object with a zeroed payload. -/
theorem Stock.take (stock : Stock slab memory owned live free) (owns : page ∈ owned)
    (first : free page = offset :: rest) :
    ∃ popped memory', pagePopFront memory page = .ok (page + offset, rest = [], popped) ∧
      slotOnAlloc popped (page + offset) slab = .ok memory' ∧
      Stock slab memory' owned ((page + offset + slab.payloadOffset) :: live)
      (Function.update free page rest) ∧
      ∀ i < slab.objectSize, memory' (page + offset + slab.payloadOffset + i) = 0 := by
  have held := stock.pages page owns
  rw [first] at held
  have member := held.slots offset (.head _)
  have bounds := stock.geometry.offset_bounds member
  have fresh := stock.dead owns first
  obtain ⟨popped, memory', pop, ran, after, zero, same⟩ := held.take stock.geometry
  refine ⟨popped, memory', pop, ran, ⟨stock.geometry, stock.nodup, stock.aligned, fun page' owns' => ?_,
    List.nodup_cons.mpr ⟨fresh, stock.distinct⟩, fun ptr => ?_⟩, zero⟩
  · rcases eq_or_ne page' page with rfl | other
    · rwa [Function.update_self]
    · rw [Function.update_of_ne other]
      exact stock.other_page owns owns' other fun a outside => same a (by omega) (by omega)
  · rw [List.mem_cons]
    constructor
    · rintro (rfl | old)
      · refine ⟨page, owns, offset, member, ?_, rfl⟩
        rw [Function.update_self]
        exact (List.nodup_cons.mp held.nodup).1
      · obtain ⟨page', owns', offset', member', used, rfl⟩ := stock.find old
        refine ⟨page', owns', offset', member', fun listed => used ?_, rfl⟩
        rcases eq_or_ne page' page with rfl | other
        · rw [Function.update_self] at listed
          rw [first]
          exact .tail _ listed
        · rwa [Function.update_of_ne other] at listed
    · rintro ⟨page', owns', offset', member', used, rfl⟩
      rcases eq_or_ne page' page with rfl | other
      · rw [Function.update_self] at used
        rw [stock.live_iff owns' member', first, List.mem_cons, or_iff_not_imp_left]
        intro apart
        exact not_or.mpr ⟨fun same => apart (same ▸ rfl), used⟩
      · rw [Function.update_of_ne other] at used
        exact .inr ((stock.live_iff owns' member').mpr used)

/-- A live object goes back to the front of its page's chain. -/
theorem Stock.give (stock : Stock slab memory owned live free) (owns : page ∈ owned)
    (member : offset ∈ slotOffsets slab) (used : offset ∉ free page) :
    ∃ emptied, slotOnDealloc memory (page + offset) slab = .ok emptied ∧
      (load16 emptied (freeIndexAt page) = 0 ↔ free page = []) ∧
      Stock slab (pagePushFront emptied page (page + offset)) owned
      (live.erase (page + offset + slab.payloadOffset))
        (Function.update free page (offset :: free page)) := by
  have held := stock.pages page owns
  have bounds := stock.geometry.offset_bounds member
  obtain ⟨emptied, ran, full, after, same⟩ := held.give stock.geometry (stock.small owns) member used
  refine ⟨emptied, ran, full, stock.geometry, stock.nodup, stock.aligned, fun page' owns' => ?_,
    stock.distinct.erase _, fun ptr => ?_⟩
  · rcases eq_or_ne page' page with rfl | other
    · rwa [Function.update_self]
    · rw [Function.update_of_ne other]
      exact stock.other_page owns owns' other fun a outside => same a (by omega) (by omega)
  · rw [stock.distinct.mem_erase_iff, stock.live]
    constructor
    · rintro ⟨apart, page', owns', offset', member', used', rfl⟩
      refine ⟨page', owns', offset', member', ?_, rfl⟩
      rcases eq_or_ne page' page with rfl | other
      · rw [Function.update_self, List.mem_cons]
        exact not_or.mpr ⟨fun same => apart (same ▸ rfl), used'⟩
      · rwa [Function.update_of_ne other]
    · rintro ⟨page', owns', offset', member', used', rfl⟩
      refine ⟨fun same => ?_, page', owns', offset', member', fun listed => used' ?_, rfl⟩
      · obtain ⟨rfl, rfl⟩ := stock.geometry.locate (stock.aligned page' owns').2.1
          (stock.aligned page owns).2.1
          member' member same
        rw [Function.update_self] at used'
        exact used' (.head _)
      · rcases eq_or_ne page' page with rfl | other
        · rw [Function.update_self]
          exact .tail _ listed
        · rwa [Function.update_of_ne other]

/-- A page all of whose slots are free may leave. -/
theorem Stock.release (stock : Stock slab memory owned live free) (owns : page ∈ owned)
    (all : (free page).length = slotCount slab) : Stock slab memory (owned.erase page) live free := by
  refine ⟨stock.geometry, stock.nodup.erase _,
    fun page' owns' => stock.aligned page' (List.mem_of_mem_erase owns'),
    fun page' owns' => stock.pages page' (List.mem_of_mem_erase owns'), stock.distinct, fun ptr => ?_⟩
  rw [stock.live]
  constructor
  · rintro ⟨page', owns', offset, member, used, same⟩
    have other : page' ≠ page := by
      rintro rfl
      have fewer := (stock.pages page' owns').length_lt member used
      omega
    exact ⟨page', (List.mem_erase_of_ne other).mpr owns', offset, member, used, same⟩
  · rintro ⟨page', owns', rest⟩
    exact ⟨page', List.mem_of_mem_erase owns', rest⟩

/-- A new page arrives with all slots free. -/
theorem Stock.acquire (stock : Stock slab memory owned live free) (nonzero : page ≠ 0)
    (aligned : page % SLAB_PAGE = 0) (small : page < 2 ^ 64) (fresh : page ∉ owned) :
    ∃ memory', pageInit memory page slab = .ok memory' ∧
      Stock slab memory' (page :: owned) live (Function.update free page (slotOffsets slab)) := by
  obtain ⟨memory', ran, held, same⟩ := pageInit_spec stock.geometry memory page
  have other {page' : ℕ} (owns' : page' ∈ owned) : page' ≠ page := fun same => fresh (same ▸ owns')
  refine ⟨memory', ran, stock.geometry, List.nodup_cons.mpr ⟨fresh, stock.nodup⟩, fun page' owns' => ?_,
    fun page' owns' => ?_, stock.distinct, fun ptr => ?_⟩
  · rcases List.mem_cons.mp owns' with rfl | old
    · exact ⟨nonzero, aligned, small⟩
    · exact stock.aligned page' old
  · rcases List.mem_cons.mp owns' with rfl | old
    · rwa [Function.update_self]
    · rw [Function.update_of_ne (other old)]
      obtain ⟨_, aligned', _⟩ := stock.aligned page' old
      have apart := other old
      unfold SLAB_PAGE at aligned aligned'
      exact (stock.pages page' old).congr stock.geometry fun a lower upper _ => same a (by omega)
  · rw [stock.live]
    constructor
    · rintro ⟨page', owns', offset, member, used, same⟩
      refine ⟨page', .tail _ owns', offset, member, ?_, same⟩
      rwa [Function.update_of_ne (other owns')]
    · rintro ⟨page', owns', offset, member, used, same⟩
      rcases List.mem_cons.mp owns' with rfl | old
      · rw [Function.update_self] at used
        exact (used member).elim
      · rw [Function.update_of_ne (other old)] at used
        exact ⟨page', old, offset, member, used, same⟩

/-- A write outside the owned pages or inside a live payload. -/
theorem Stock.write (stock : Stock slab memory owned live free) {address : ℕ} (byte : BitVec 8)
    (allowed : (∃ ptr ∈ live, ptr ≤ address ∧ address < ptr + slab.objectSize) ∨
      ∀ page ∈ owned, address < page ∨ page + SLAB_PAGE ≤ address) :
    Stock slab (Function.update memory address byte) owned live free := by
  refine ⟨stock.geometry, stock.nodup, stock.aligned, fun page owns => ?_, stock.distinct, stock.live⟩
  refine (stock.pages page owns).congr stock.geometry fun a lower upper spared => Function.update_of_ne ?_ _ _
  rintro rfl
  rcases allowed with ⟨ptr, listed, above, below⟩ | outside
  · obtain ⟨page', owns', offset, member, used, rfl⟩ := stock.find listed
    have bounds := stock.geometry.offset_bounds member
    have redzone := stock.geometry.redzone
    rcases eq_or_ne page' page with rfl | other
    · have := spared offset member used
      omega
    · have := stock.apart owns' owns other
      omega
  · have := outside page owns
    unfold SLAB_PAGE at this
    omega

end Steps

end RubberOS.Model.Slab
