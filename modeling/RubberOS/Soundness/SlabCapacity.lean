import RubberOS.Proofs.SlabCalls
import RubberOS.Soundness.SlabRuns

/-! # How many slots a page holds

`page_init` goes on while the next slot ends strictly before the end of the page, but `slab_init` accepts a
slot that ends at it. The two agree unless the slots fill the page exactly and are more than one: then the last
of them is not threaded.
-/

namespace RubberOS.Soundness.SlabCapacity

open Model Model.Slab SinglyLinked

/-- The calls to the page allocator that consecutive calls of `slab_alloc` make. -/
def allocCalls : SlabAllocator → Memory → List ℕ → Result (List (List PageCall))
  | _, _, [] => .ok []
  | slab, memory, answer :: answers => do
    let (_, outcome) ← slabAlloc slab memory answer
    let rest ← allocCalls outcome.slab outcome.memory answers
    return outcome.calls :: rest

/-- `page_init` threads this number of slots, and from a new page as many calls of `slab_alloc` are served
before the next one asks for another page. -/
structure Fills (slab : SlabAllocator) (count : ℕ) : Prop where
  threads : ∀ memory page, ∃ memory', pageInit memory page slab = .ok memory' ∧
    Chain (freeLinks memory' page) none
      ((List.range count).map fun i => pageObjectOffset slab.objectAlign + i * slab.slotSize)
  serves : ∀ memory page answers next, page ≠ 0 → Answers [] page → (∀ answer ∈ answers, Answers [page] answer) →
    Answers [page] next → answers.length + 1 = count →
      allocCalls slab memory (page :: answers ++ [next]) =
        .ok ([.alloc page] :: List.replicate answers.length [] ++ [[.alloc next]])

/-- The slots that the page has room for. -/
def room (slab : SlabAllocator) : ℕ := (SLAB_PAGE - pageObjectOffset slab.objectAlign) / slab.slotSize

/-- The slots do not end exactly at the end of the page, or there is only one. -/
def LosesNoSlot (slab : SlabAllocator) : Prop :=
  ¬slab.slotSize ∣ SLAB_PAGE - pageObjectOffset slab.objectAlign ∨
    SLAB_PAGE - pageObjectOffset slab.objectAlign = slab.slotSize

section Pages

variable {slab raw : SlabAllocator} {memory : Memory} {live partials : List ℕ} {free : ℕ → List ℕ}
  {page next size k count : ℕ}

/-- With one page, every live object is in one of its slots. -/
private theorem length_live (stock : Stock slab memory [page] live free) :
    live.length + (free page).length = slotCount slab := by
  have owns : page ∈ [page] := List.mem_singleton_self page
  have total := stock.length_liveSlots owns
  have listed : live.Perm ((liveSlots slab live page).map fun offset => page + offset + slab.payloadOffset) := by
    have injective : Function.Injective fun offset => page + offset + slab.payloadOffset := by
      intro a b same
      dsimp only at same
      omega
    have distinct : ((liveSlots slab live page).map fun offset => page + offset + slab.payloadOffset).Nodup :=
      (stock.geometry.nodup_slotOffsets.filter _).map injective
    refine (List.perm_ext_iff_of_nodup stock.distinct distinct).mpr fun ptr => ?_
    rw [List.mem_map]
    constructor
    · intro member
      obtain ⟨page', owns', offset, inside, dead, same⟩ := stock.find member
      obtain rfl := List.mem_singleton.mp owns'
      exact ⟨offset, (stock.mem_liveSlots owns).mpr ⟨inside, dead⟩, same⟩
    · rintro ⟨offset, member, rfl⟩
      obtain ⟨inside, dead⟩ := (stock.mem_liveSlots owns).mp member
      exact (stock.live_iff owns inside).mpr dead
  rw [listed.length_eq, List.length_map, total]

/-- While the only page has a free slot, no page is requested; the call after that requests one. -/
private theorem allocCalls_served (books : Books slab memory [page] live free partials) {answers : List ℕ}
    (lawful : ∀ answer ∈ answers, Answers [page] answer) (last : Answers [page] next)
    (left : answers.length = (free page).length) :
    allocCalls slab memory (answers ++ [next]) = .ok (List.replicate answers.length [] ++ [[.alloc next]]) := by
  induction answers generalizing slab memory live free partials with
  | nil =>
    have full : partials = [] := by
      refine List.eq_nil_iff_forall_not_mem.mpr fun p member => ?_
      obtain ⟨owns, some⟩ := (books.listed p).mp member
      rw [List.mem_singleton.mp owns] at some
      exact some (List.length_eq_zero_iff.mp left.symm)
    obtain ⟨ptr, outcome, ran, found⟩ := slabAlloc_spec books last
    have calls : outcome.calls = [.alloc next] := by
      rcases found with ⟨some, _⟩ | ⟨_, _, calls, _⟩ | ⟨_, rfl, _, rfl⟩
      · exact absurd full some
      · exact calls
      · rfl
    rw [List.nil_append, allocCalls, ran, Except.ok_bind]
    dsimp only
    rw [calls]
    rfl
  | cons answer answers ih =>
    have open' : page ∈ partials := by
      refine (books.listed page).mpr ⟨List.mem_singleton_self page, fun none => ?_⟩
      rw [none] at left
      cases left
    obtain ⟨ptr, outcome, ran, found⟩ := slabAlloc_spec books (lawful answer List.mem_cons_self)
    obtain ⟨calls, allocated⟩ : outcome.calls = [] ∧ Allocated slab [page] live ptr outcome := by
      rcases found with ⟨_, calls, allocated⟩ | ⟨none, _⟩ | ⟨none, _⟩
      · exact ⟨calls, allocated⟩
      · exact absurd (none ▸ open') List.not_mem_nil
      · exact absurd (none ▸ open') List.not_mem_nil
    obtain ⟨⟨list, shape⟩, ⟨free', partials', books'⟩, _⟩ := allocated
    have before := length_live books.stock
    have after := length_live books'.stock
    have same : slotCount outcome.slab = slotCount slab := by rw [shape]; rfl
    rw [List.length_cons] at left after
    have rest := ih books' (fun a member => lawful a (List.mem_cons_of_mem _ member)) (by omega)
    rw [List.cons_append, allocCalls, ran, Except.ok_bind]
    dsimp only
    rw [rest, calls]
    rfl

/-- An accepted slab fills its pages with the slots that `page_init` threads, and with no other number. -/
private theorem fills_iff (accepted : slabInit raw size (2 ^ k) = .ok slab) (count : ℕ) :
    Fills slab count ↔ count = slotCount slab := by
  obtain ⟨geometry, _, _, list⟩ := slabInit_geometry (Nat.two_pow_pos k) accepted
  constructor
  · intro fills
    obtain ⟨memory', ran, chain⟩ := fills.threads (fun _ => 0) 0
    obtain ⟨memory'', ran', held, _⟩ := pageInit_spec geometry (fun _ => 0) 0
    obtain rfl := Except.ok.inj (ran.symm.trans ran')
    have same := congrArg List.length (chain.unique held.chain)
    rwa [List.length_map, List.length_range, length_slotOffsets] at same
  · rintro rfl
    refine ⟨fun memory page => ?_, fun memory page answers next nonnull answer lawful last left => ?_⟩
    · obtain ⟨memory', ran, held, _⟩ := pageInit_spec geometry memory page
      exact ⟨memory', ran, held.chain⟩
    · have empty : Linkedlist.Linked slab.partialList [] := list ▸ Linkedlist.init_linked _
      have start : SlabRuns.Holds slab (SlabRuns.initial slab memory) := SlabRuns.initial_holds geometry empty
      obtain ⟨_, free, partials, books⟩ := start
      obtain ⟨ptr, outcome, ran, found⟩ := slabAlloc_spec books answer
      obtain ⟨calls, allocated⟩ : outcome.calls = [.alloc page] ∧ Allocated slab [page] [] ptr outcome := by
        rcases found with ⟨some, _⟩ | ⟨_, _, calls, allocated⟩ | ⟨_, null, _⟩
        · obtain ⟨p, member⟩ := List.exists_mem_of_ne_nil _ some
          exact absurd ((books.listed p).mp member).1 List.not_mem_nil
        · exact ⟨calls, allocated⟩
        · exact absurd null nonnull
      obtain ⟨⟨list', shape⟩, ⟨free', partials', books'⟩, _⟩ := allocated
      have after := length_live books'.stock
      have same : slotCount outcome.slab = slotCount slab := by rw [shape]; rfl
      rw [List.length_singleton] at after
      have rest := allocCalls_served books' lawful last (by omega)
      rw [List.cons_append, allocCalls, show slabAlloc slab memory page = _ from ran, Except.ok_bind]
      dsimp only
      rw [rest, calls]
      rfl

/-- The threaded slots are all that the page has room for, unless more than one slot fills it exactly. -/
private theorem room_iff (geometry : Geometry slab) : room slab = slotCount slab ↔ LosesNoSlot slab := by
  have positive : 0 < slab.slotSize := Nat.lt_of_lt_of_le (by decide) geometry.slotSize_pos
  have inside := geometry.inside
  rw [firstOffset] at inside
  rw [room, slotCount, LosesNoSlot, firstOffset]
  generalize pageObjectOffset slab.objectAlign = offset at inside ⊢
  obtain ⟨space, hspace⟩ : ∃ space, SLAB_PAGE - offset = space + 1 := ⟨SLAB_PAGE - offset - 1, by omega⟩
  have less : SLAB_PAGE - 1 - offset = space := by omega
  rw [hspace, less, Nat.succ_div]
  have fits : slab.slotSize ≤ space + 1 := by omega
  split_ifs with whole
  · rw [or_iff_right (not_not.mpr whole)]
    have single : space / slab.slotSize = 0 ↔ space + 1 = slab.slotSize := by
      rw [Nat.div_eq_zero_iff_lt positive]
      omega
    rw [← single]
    omega
  · have differs : slab.slotSize ≠ space + 1 := fun same => whole (same ▸ Nat.dvd_refl _)
    have some : 1 ≤ space / slab.slotSize := (Nat.one_le_div_iff positive).mpr (by omega)
    exact iff_of_true (by omega) (.inl whole)

/-- `page_init` threads a slot for all the room in a page exactly when its slots do not fill the page, or when the
page holds only one. -/
theorem fills_room_iff (accepted : slabInit raw size (2 ^ k) = .ok slab) :
    Fills slab (room slab) ↔ LosesNoSlot slab := by
  rw [fills_iff accepted, room_iff (slabInit_geometry (Nat.two_pow_pos k) accepted).1]

/-- Objects of 64 bytes that are aligned to 8: the page has bytes to spare. -/
theorem fills_room_iff_64 : ∃ slab, slabInit SlabRuns.unset 64 (2 ^ 3) = .ok slab ∧
    (Fills slab (room slab) ↔ LosesNoSlot slab) := by
  obtain ⟨slab, accepted⟩ : ∃ slab, slabInit SlabRuns.unset 64 (2 ^ 3) = .ok slab := ⟨_, rfl⟩
  exact ⟨slab, accepted, fills_room_iff accepted⟩

/-- Two slots for 2000 bytes fill a page behind its header, and only one of them is threaded. -/
theorem one_of_two_slots : ∃ slab, slabInit SlabRuns.unset 2000 (2 ^ 2) = .ok slab ∧
    pageObjectOffset slab.objectAlign + 2 * slab.slotSize = SLAB_PAGE ∧ room slab = 2 ∧ Fills slab 1 ∧
      ¬Fills slab (room slab) := by
  obtain ⟨slab, accepted, fills, space, count⟩ : ∃ slab, slabInit SlabRuns.unset 2000 (2 ^ 2) = .ok slab ∧
      pageObjectOffset slab.objectAlign + 2 * slab.slotSize = SLAB_PAGE ∧ room slab = 2 ∧ slotCount slab = 1 :=
    ⟨_, rfl, by decide +kernel, by decide +kernel, by decide +kernel⟩
  refine ⟨slab, accepted, fills, space, (fills_iff accepted 1).mpr count.symm, fun whole => ?_⟩
  have same := (fills_iff accepted (room slab)).mp whole
  rw [space, count] at same
  cases same

end Pages

end RubberOS.Soundness.SlabCapacity
