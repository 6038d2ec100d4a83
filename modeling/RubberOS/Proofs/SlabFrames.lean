import RubberOS.Proofs.SlabTampering

/-! # What the slab allocator reads and writes

The books of a slab depend on the bytes of its own pages only. A call writes the two fields of one
page, one slot, and all of a page that was just acquired, so everything else keeps its contents.
-/

namespace RubberOS.Model.Slab

open Linkedlist

section Frames

variable {slab : SlabAllocator} {memory memory' : Memory} {owned live partials : List ℕ} {free : ℕ → List ℕ}
  {page offset answer ptr : ℕ} {outcome : Outcome}

/-- Memory that agrees on the owned pages has the same books. -/
private theorem Stock.congr (stock : Stock slab memory owned live free)
    (same : ∀ page ∈ owned, ∀ a, page ≤ a → a < page + SLAB_PAGE → memory' a = memory a) :
    Stock slab memory' owned live free where
  geometry := stock.geometry
  nodup := stock.nodup
  aligned := stock.aligned
  pages page owns := by
    refine (stock.pages page owns).congr stock.geometry fun a lower upper _ => ?_
    exact same page owns a (by omega) upper
  distinct := stock.distinct
  live := stock.live

theorem Books.congr (books : Books slab memory owned live free partials)
    (same : ∀ page ∈ owned, ∀ a, page ≤ a → a < page + SLAB_PAGE → memory' a = memory a) :
    Books slab memory' owned live free partials :=
  ⟨books.stock.congr same, books.used, books.linked, books.distinct, books.listed⟩

/-- A slot is taken from a page with free slots by writing to the page's fields and to the slot. -/
private theorem Page.takeSlot_frame {rest : List ℕ} (geometry : Geometry slab)
    (held : Page slab memory page (offset :: rest)) (list : Links ℕ) {calls : List PageCall}
    (ran : takeSlot { slab with partialList := list } memory page calls = .ok (ptr, outcome)) :
    ptr = page + offset + slab.payloadOffset ∧ Touches slab memory outcome.memory page offset := by
  obtain ⟨member, front, room, empty⟩ := held.front geometry
  obtain ⟨memory', taken, eq⟩ := takeSlot_ok geometry member front room empty
  cases (eq list calls).symm.trans ran
  exact ⟨rfl, taken.touches⟩

/-- `slab_alloc` writes to the fields of one owned page and to the new object's slot, or to the page
it was given. -/
theorem slabAlloc_frame (books : Books slab memory owned live free partials)
    (ran : slabAlloc slab memory answer = .ok (ptr, outcome)) {a : ℕ}
    (headers : ∀ page ∈ owned, a < page + 16 ∨ page + 20 ≤ a)
    (slot : a < ptr - slab.payloadOffset ∨ ptr - slab.payloadOffset + slab.slotSize ≤ a)
    (fresh : partials = [] → a < answer ∨ answer + SLAB_PAGE ≤ a) : outcome.memory a = memory a := by
  have geometry := books.stock.geometry
  rcases partials with _ | ⟨page, others⟩
  · rcases eq_or_ne answer 0 with rfl | nonnull
    · rw [slabAlloc, pickPage_null books.linked] at ran
      cases ran
      rfl
    · obtain ⟨memory', started, held, outside⟩ := pageInit_spec geometry memory answer
      obtain ⟨offset, rest, first⟩ : ∃ offset rest, slotOffsets slab = offset :: rest :=
        List.exists_cons_of_length_pos (length_slotOffsets ▸ slotCount_pos slab)
      rw [first] at held
      rw [slabAlloc, pickPage_new books.linked nonnull started, Except.ok_bind] at ran
      obtain ⟨rfl, touches⟩ := held.takeSlot_frame geometry _ ran
      have away := fresh rfl
      unfold SLAB_PAGE at away
      rw [Nat.add_sub_cancel] at slot
      rw [touches a (by omega) slot, outside a (by omega)]
  · obtain ⟨owns, nonempty⟩ := (books.listed page).mp (.head _)
    obtain ⟨offset, rest, first⟩ := List.exists_cons_of_ne_nil nonempty
    have held := books.stock.pages page owns
    rw [first] at held
    rw [slabAlloc, pickPage_head books.linked, Except.ok_bind] at ran
    obtain ⟨rfl, touches⟩ := held.takeSlot_frame geometry slab.partialList ran
    rw [Nat.add_sub_cancel] at slot
    exact touches a (headers page owns) slot

/-- `slab_dealloc` writes to the fields of the object's page and to its slot. -/
theorem slabDealloc_frame (books : Books slab memory owned live free partials) (member : ptr ∈ live)
    (ran : slabDealloc slab memory ptr = .ok outcome) {a : ℕ}
    (headers : ∀ page ∈ owned, a < page + 16 ∨ page + 20 ≤ a)
    (slot : a < ptr - slab.payloadOffset ∨ ptr - slab.payloadOffset + slab.slotSize ≤ a) :
    outcome.memory a = memory a := by
  have stock := books.stock
  obtain ⟨page, owns, offset, inside, used, rfl⟩ := stock.find member
  obtain ⟨_, aligned, _⟩ := stock.aligned page owns
  have held := stock.pages page owns
  have fewer := held.length_lt inside used
  have count := held.count
  obtain ⟨memory', returned, eq⟩ := slabDealloc_ok stock.geometry inside aligned (stock.small owns)
    (by omega) (held.object offset inside used)
  cases (eq slab.partialList).symm.trans ran
  rw [Nat.add_sub_cancel] at slot
  exact returned.touches a (headers page owns) slot

end Frames

end RubberOS.Model.Slab
