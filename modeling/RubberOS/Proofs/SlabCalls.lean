import RubberOS.Proofs.LinkLists
import RubberOS.Proofs.SlabStock

/-! # The two calls of the slab allocator

`Books` adds the list of partial pages to the stock: it links exactly the owned pages with a free
slot, and no owned page is without objects. `slab_alloc` and `slab_dealloc` pass all their checks
and keep the books, whatever the page allocator answers.
-/

namespace RubberOS.Model.Slab

open Linkedlist

/-- The state between two calls. -/
structure Books (slab : SlabAllocator) (memory : Memory) (owned live : List ℕ) (free : ℕ → List ℕ)
    (partials : List ℕ) : Prop where
  stock : Stock slab memory owned live free
  used : ∀ page ∈ owned, (free page).length < slotCount slab
  linked : Linked slab.partialList partials
  distinct : partials.Nodup
  listed : ∀ page, page ∈ partials ↔ page ∈ owned ∧ free page ≠ []

/-- The answers of a page allocator that hands out whole pages which are not owned yet, or null. -/
def Answers (owned : List ℕ) (answer : ℕ) : Prop :=
  answer = 0 ∨ answer % SLAB_PAGE = 0 ∧ answer < 2 ^ 64 ∧ answer ∉ owned

/-- What an allocation that returns an object leaves. -/
structure Allocated (slab : SlabAllocator) (owned live : List ℕ) (ptr : ℕ) (outcome : Outcome) : Prop where
  shape : ∃ list, outcome.slab = { slab with partialList := list }
  books : ∃ free partials, Books outcome.slab outcome.memory owned (ptr :: live) free partials
  zeroed : ∀ i < slab.objectSize, outcome.memory (ptr + i) = 0
  nonnull : ptr ≠ 0

/-- The page's slots that hold a live object. -/
def liveSlots (slab : SlabAllocator) (live : List ℕ) (page : ℕ) : List ℕ :=
  (slotOffsets slab).filter fun offset => page + offset + slab.payloadOffset ∈ live

section Calls

variable {slab : SlabAllocator} {memory : Memory} {owned live partials others : List ℕ} {free : ℕ → List ℕ}
  {page offset answer ptr : ℕ} {calls : List PageCall}

theorem Stock.mem_liveSlots (stock : Stock slab memory owned live free) (owns : page ∈ owned) :
    offset ∈ liveSlots slab live page ↔ offset ∈ slotOffsets slab ∧ offset ∉ free page := by
  rw [liveSlots, List.mem_filter, decide_eq_true_eq]
  exact and_congr_right fun member => stock.live_iff owns member

/-- Every slot of an owned page is live or free. -/
theorem Stock.length_liveSlots (stock : Stock slab memory owned live free) (owns : page ∈ owned) :
    (liveSlots slab live page).length + (free page).length = slotCount slab := by
  have held := stock.pages page owns
  have nodup := stock.geometry.nodup_slotOffsets
  have same : ((slotOffsets slab).filter fun offset => !decide
      (page + offset + slab.payloadOffset ∈ live)).Perm (free page) := by
    refine (List.perm_ext_iff_of_nodup (nodup.filter _) held.nodup).mpr fun offset => ?_
    rw [List.mem_filter, Bool.not_eq_true', decide_eq_false_iff_not]
    refine ⟨fun ⟨member, dead⟩ => ?_, fun member => ⟨held.slots offset member, fun listed => ?_⟩⟩
    · rw [stock.live_iff owns member, not_not] at dead
      exact dead
    · exact (stock.live_iff owns (held.slots offset member)).mp listed member
  have split := List.length_eq_length_filter_add (l := slotOffsets slab)
    fun offset => decide (page + offset + slab.payloadOffset ∈ live)
  rw [same.length_eq, length_slotOffsets] at split
  rw [liveSlots, ← split]

/-! ## Allocation -/

private theorem slotOnAlloc_setList (memory : Memory) (slot : ℕ) (list : Linkedlist.Links ℕ) :
    slotOnAlloc memory slot { slab with partialList := list } = slotOnAlloc memory slot slab := rfl

/-- Taking a slot from the first partial page, which leaves the list with its last free slot. -/
private theorem takeSlot_spec (stock : Stock slab memory owned live free)
    (linked : Linked slab.partialList (page :: others))
    (distinct : (page :: others).Nodup) (listed : ∀ p, p ∈ page :: others ↔ p ∈ owned ∧ free p ≠ [])
    (used : ∀ p ∈ owned, p ≠ page → (free p).length < slotCount slab) (calls : List PageCall) :
    ∃ ptr outcome, takeSlot slab memory page calls = .ok (ptr, outcome) ∧
      outcome.calls = calls ∧ Allocated slab owned live ptr outcome := by
  obtain ⟨owns, nonempty⟩ := (listed page).mp (.head _)
  obtain ⟨offset, rest, first⟩ := List.exists_cons_of_ne_nil nonempty
  obtain ⟨popped, memory', pop, ran, after, zero⟩ := stock.take owns first
  have held := stock.pages page owns
  have bounds := stock.geometry.offset_bounds (held.slots offset (first ▸ .head _))
  have count := held.count
  rw [first, List.length_cons] at count
  have fewer : rest.length < slotCount slab := by omega
  have busy (p : ℕ) (owns' : p ∈ owned) : (Function.update free page rest p).length < slotCount slab := by
    rcases eq_or_ne p page with rfl | apart
    · rwa [Function.update_self]
    · rw [Function.update_of_ne apart]
      exact used p owns' apart
  have elsewhere {p : ℕ} (apart : p ≠ page) :
      p ∈ others ↔ p ∈ owned ∧ Function.update free page rest p ≠ [] := by
    rw [Function.update_of_ne apart, ← listed, List.mem_cons, or_iff_right apart]
  rw [takeSlot, pop, Except.ok_bind]
  dsimp only
  rcases rest with _ | ⟨next, rest⟩
  · have removed := Linked.remove (show Linked slab.partialList ([] ++ page :: others) from linked) distinct
    rw [List.nil_append] at removed
    rw [if_pos (by rfl), slotOnAlloc_setList, ran]
    refine ⟨_, _, rfl, rfl, ⟨_, rfl⟩,
      ⟨_, others, after.setList _, busy, removed, (List.nodup_cons.mp distinct).2,
      fun p => ?_⟩, zero, by unfold slotPayload; omega⟩
    rcases eq_or_ne p page with rfl | apart
    · refine iff_of_false (List.nodup_cons.mp distinct).1 fun kept => kept.2 ?_
      rw [Function.update_self]
    · exact elsewhere apart
  · rw [if_neg (by simp), ran]
    refine ⟨_, _, rfl, rfl, ⟨slab.partialList, rfl⟩,
      ⟨_, page :: others, after, busy, linked, distinct, fun p => ?_⟩,
      zero, by unfold slotPayload; omega⟩
    rcases eq_or_ne p page with rfl | apart
    · refine iff_of_true (.head _) ⟨owns, ?_⟩
      rw [Function.update_self]
      exact List.cons_ne_nil _ _
    · rw [List.mem_cons, or_iff_right apart]
      exact elsewhere apart

/-- A page that has free slots is at the head of the list. -/
theorem pickPage_head (linked : Linked slab.partialList (page :: others)) :
    pickPage slab memory answer = .ok (some page, slab, memory, []) := by
  have some : isEmpty slab.partialList ≠ true := fun none => List.cons_ne_nil _ _ (linked.isEmpty_iff.mp none)
  rw [pickPage, if_neg some, linked.head_eq]
  rfl

theorem pickPage_null (linked : Linked slab.partialList []) :
    pickPage slab memory 0 = .ok (none, slab, memory, [.alloc 0]) := by
  rw [pickPage, if_pos (linked.isEmpty_iff.mpr rfl), slabAllocPage, if_pos rfl]
  rfl

/-- Without such a page a new one is set up. -/
theorem pickPage_new {memory' : Memory} (linked : Linked slab.partialList []) (nonnull : answer ≠ 0)
    (ran : pageInit memory answer slab = .ok memory') : pickPage slab memory answer =
      .ok (some answer, { slab with partialList := pushFront (init slab.partialList) answer },
        memory', [.alloc answer]) := by
  rw [pickPage, if_pos (linked.isEmpty_iff.mpr rfl), slabAllocPage, if_neg nonnull, ran]
  rfl

/-- `slab_alloc` takes a slot from the list, from a new page, or reports that there is none. -/
theorem slabAlloc_spec (books : Books slab memory owned live free partials) (answers : Answers owned answer) :
    ∃ ptr outcome, slabAlloc slab memory answer = .ok (ptr, outcome) ∧
      (partials ≠ [] ∧ outcome.calls = [] ∧ Allocated slab owned live ptr outcome ∨
        partials = [] ∧ answer ≠ 0 ∧ outcome.calls = [.alloc answer] ∧
          Allocated slab (answer :: owned) live ptr outcome ∨
        partials = [] ∧ answer = 0 ∧ ptr = 0 ∧ outcome = ⟨slab, memory, [.alloc 0]⟩) := by
  have stock := books.stock
  rcases partials with _ | ⟨page, others⟩
  · rcases eq_or_ne answer 0 with rfl | nonnull
    · refine ⟨0, ⟨slab, memory, [.alloc 0]⟩, ?_, .inr (.inr ⟨rfl, rfl, rfl, rfl⟩)⟩
      rw [slabAlloc, pickPage_null books.linked]
      rfl
    · obtain ⟨aligned, small, fresh⟩ := answers.resolve_left nonnull
      obtain ⟨memory', ran, acquired⟩ := stock.acquire nonnull aligned small fresh
      have linked := (init_linked slab.partialList).pushFront List.nodup_nil (List.not_mem_nil (a := answer))
      have listed (p : ℕ) : p ∈ [answer] ↔ p ∈ answer :: owned ∧
          Function.update free answer (slotOffsets slab) p ≠ [] := by
        rw [List.mem_singleton, List.mem_cons]
        rcases eq_or_ne p answer with rfl | apart
        · refine iff_of_true rfl ⟨.inl rfl, ?_⟩
          rw [Function.update_self, ← List.length_pos_iff_ne_nil, length_slotOffsets]
          exact slotCount_pos slab
        · rw [Function.update_of_ne apart, or_iff_right apart, ← books.listed]
          exact iff_of_false apart List.not_mem_nil
      have used (p : ℕ) (owns : p ∈ answer :: owned) (apart : p ≠ answer) :
          (Function.update free answer (slotOffsets slab) p).length < slotCount slab := by
        rw [Function.update_of_ne apart]
        exact books.used p (List.mem_of_ne_of_mem apart owns)
      obtain ⟨ptr, outcome, taken, called, allocated⟩ := takeSlot_spec (acquired.setList _) linked
        (List.nodup_singleton _) listed used [.alloc answer]
      refine ⟨ptr, outcome, ?_, .inr (.inl ⟨rfl, nonnull, called, ?_⟩)⟩
      · rw [slabAlloc, pickPage_new books.linked nonnull ran]
        exact taken
      · exact ⟨allocated.shape, allocated.books, allocated.zeroed, allocated.nonnull⟩
  · obtain ⟨ptr, outcome, taken, called, allocated⟩ :=
      takeSlot_spec stock books.linked books.distinct books.listed
      (fun p owns _ => books.used p owns) []
    refine ⟨ptr, outcome, ?_, .inl ⟨List.cons_ne_nil _ _, called, allocated⟩⟩
    rw [slabAlloc, pickPage_head books.linked]
    exact taken

/-! ## Release -/

/-- What a release of an object of this page leaves. -/
structure Released (slab : SlabAllocator) (owned live : List ℕ) (outcome : Outcome) : Prop where
  shape : ∃ list, outcome.slab = { slab with partialList := list }
  books : ∃ free partials, Books outcome.slab outcome.memory owned live free partials

/-- The page keeps an object: it returns to the list when it was full. -/
private theorem settlePage_keep (stock : Stock slab memory owned live
    (Function.update free page (offset :: free page)))
    (owns : page ∈ owned) (linked : Linked slab.partialList partials) (distinct : partials.Nodup)
    (listed : ∀ p, p ∈ partials ↔ p ∈ owned ∧ free p ≠ [])
    (used : ∀ p ∈ owned, (free p).length < slotCount slab)
    (kept : (free page).length + 1 < slotCount slab) (wasFull : Bool)
    (full : wasFull = true ↔ free page = []) :
    ∃ slab', settlePage slab memory page wasFull = (slab', []) ∧
      Released slab owned live ⟨slab', memory, []⟩ := by
  have count := (stock.pages page owns).count
  rw [Function.update_self, List.length_cons] at count
  have busy (p : ℕ) (owns' : p ∈ owned) :
      (Function.update free page (offset :: free page) p).length < slotCount slab := by
    rcases eq_or_ne p page with rfl | apart
    · rwa [Function.update_self]
    · rw [Function.update_of_ne apart]
      exact used p owns'
  have open' : Function.update free page (offset :: free page) page ≠ [] := by
    rw [Function.update_self]
    exact List.cons_ne_nil _ _
  have elsewhere {p : ℕ} (apart : p ≠ page) :
      p ∈ partials ↔ p ∈ owned ∧ Function.update free page (offset :: free page) p ≠ [] := by
    rw [Function.update_of_ne apart, listed]
  rw [settlePage, if_neg (by omega)]
  cases wasFull with
  | true =>
    have fresh : page ∉ partials := fun member => ((listed page).mp member).2 (full.mp rfl)
    refine ⟨_, if_pos rfl, ⟨_, rfl⟩, _, partials ++ [page], stock.setList _, busy,
      linked.pushBack distinct fresh, ?_, fun p => ?_⟩
    · exact List.nodup_append_comm.mp (List.nodup_cons.mpr ⟨fresh, distinct⟩)
    · rw [List.mem_append, List.mem_singleton]
      rcases eq_or_ne p page with rfl | apart
      · exact iff_of_true (.inr rfl) ⟨owns, open'⟩
      · rw [or_iff_left apart, elsewhere apart]
  | false =>
    refine ⟨slab, if_neg (by simp), ⟨slab.partialList, rfl⟩, _, partials, stock, busy, linked,
      distinct, fun p => ?_⟩
    rcases eq_or_ne p page with rfl | apart
    · refine iff_of_true ((listed p).mpr ⟨owns, fun none => ?_⟩) ⟨owns, open'⟩
      exact Bool.false_ne_true (full.mpr none)
    · exact elsewhere apart

/-- The page's last object went: the page leaves the list, where it was unless it was full. -/
private theorem settlePage_drop (stock : Stock slab memory owned live
    (Function.update free page (offset :: free page)))
    (owns : page ∈ owned) (linked : Linked slab.partialList partials) (distinct : partials.Nodup)
    (listed : ∀ p, p ∈ partials ↔ p ∈ owned ∧ free p ≠ [])
    (used : ∀ p ∈ owned, (free p).length < slotCount slab)
    (last : (free page).length + 1 = slotCount slab) (wasFull : Bool)
    (full : wasFull = true ↔ free page = []) :
    ∃ slab', settlePage slab memory page wasFull = (slab', [.dealloc page]) ∧
      Released slab (owned.erase page) live ⟨slab', memory, [.dealloc page]⟩ := by
  have count := (stock.pages page owns).count
  rw [Function.update_self, List.length_cons] at count
  have released := stock.release owns (by rw [Function.update_self, List.length_cons, last])
  have other {p : ℕ} (owns' : p ∈ owned.erase page) : p ≠ page :=
    fun same => stock.nodup.not_mem_erase (same ▸ owns')
  have busy (p : ℕ) (owns' : p ∈ owned.erase page) :
      (Function.update free page (offset :: free page) p).length < slotCount slab := by
    rw [Function.update_of_ne (other owns')]
    exact used p (List.mem_of_mem_erase owns')
  have elsewhere (p : ℕ) : p ∈ owned.erase page ∧ Function.update free page (offset :: free page) p ≠ [] ↔
      p ≠ page ∧ p ∈ partials := by
    rw [stock.nodup.mem_erase_iff, and_assoc, listed]
    exact and_congr_right fun apart => by rw [Function.update_of_ne apart]
  rw [settlePage, if_pos (by omega)]
  cases wasFull with
  | true =>
    have absent : page ∉ partials := fun member => ((listed page).mp member).2 (full.mp rfl)
    refine ⟨slab, rfl, ⟨slab.partialList, rfl⟩, _, partials, released, busy, linked, distinct, fun p => ?_⟩
    rw [elsewhere]
    refine (and_iff_right_of_imp fun member => ?_).symm
    rintro rfl
    exact absent member
  | false =>
    have member : page ∈ partials := (listed page).mpr ⟨owns, fun none => Bool.false_ne_true (full.mpr none)⟩
    obtain ⟨before, after, rfl⟩ := List.append_of_mem member
    refine ⟨_, rfl, ⟨_, rfl⟩, _, before ++ after, released.setList _, busy, linked.remove distinct,
      ?_, fun p => ?_⟩
    · exact distinct.sublist ((List.Sublist.refl before).append (List.sublist_cons_self ..))
    · have absent := (List.nodup_cons.mp (List.nodup_middle.mp distinct)).1
      rw [elsewhere, List.mem_append, List.mem_append, List.mem_cons]
      rw [List.mem_append] at absent
      refine ⟨fun inside => ⟨?_, ?_⟩, fun ⟨apart, inside⟩ => ?_⟩
      · rintro rfl
        exact absent inside
      · exact inside.imp_right .inr
      · exact inside.imp_right fun later => later.resolve_left apart

/-- `slab_dealloc` of a live object puts its slot back, and releases the page with its last object. -/
theorem slabDealloc_spec (books : Books slab memory owned live free partials) (owns : page ∈ owned)
    (member : offset ∈ slotOffsets slab) (dead : offset ∉ free page) :
    ∃ outcome, slabDealloc slab memory (page + offset + slab.payloadOffset) = .ok outcome ∧
      ((free page).length + 1 < slotCount slab ∧ outcome.calls = [] ∧
          Released slab owned (live.erase (page + offset + slab.payloadOffset)) outcome ∨
        (free page).length + 1 = slotCount slab ∧ outcome.calls = [.dealloc page] ∧
          Released slab (owned.erase page) (live.erase (page + offset + slab.payloadOffset)) outcome) := by
  have stock := books.stock
  have bounds := stock.geometry.offset_bounds member
  have small := stock.small owns
  have redzone := stock.geometry.redzone
  unfold REDZONE_SIZE at redzone
  obtain ⟨emptied, ran, full, after⟩ := stock.give owns member dead
  have slot : sub64 (page + offset + slab.payloadOffset) (slotPayloadOffset slab) = page + offset := by
    rw [stock.geometry.payload, sub64_of_le (by omega) (by omega), Nat.add_sub_cancel]
  have masked : pageFromSlot (page + offset) = page :=
    pageFromSlot_eq (stock.aligned page owns).2.1 (by omega) (by omega) (by omega)
  have fewer := (stock.pages page owns).length_lt member dead
  rw [slabDealloc, slot, ran, Except.ok_bind, masked]
  have decided : decide (load16 emptied (freeIndexAt page) = 0) = true ↔ free page = [] := by
    rw [decide_eq_true_eq, full]
  rcases Nat.eq_or_lt_of_le fewer with last | kept
  · obtain ⟨slab', settled, released⟩ :=
      settlePage_drop after owns books.linked books.distinct books.listed books.used
      last _ decided
    dsimp only
    rw [settled]
    exact ⟨_, rfl, .inr ⟨last, rfl, released⟩⟩
  · obtain ⟨slab', settled, released⟩ :=
      settlePage_keep after owns books.linked books.distinct books.listed books.used
      kept _ decided
    dsimp only
    rw [settled]
    exact ⟨_, rfl, .inl ⟨kept, rfl, released⟩⟩

end Calls

end RubberOS.Model.Slab
