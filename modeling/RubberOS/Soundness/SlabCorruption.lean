import RubberOS.Proofs.SlabTampering
import RubberOS.Soundness.SlabRuns

/-! # What the checks of the slab allocator catch

A run interleaves the two calls with writes by anyone, to any byte that is not in the header of an owned page. Next
to each object and slot the state remembers the memory when it was last taken or left. In every state reached the
checks stop at exactly the slots whose bytes changed since then.
-/

namespace RubberOS.Soundness.SlabCorruption

open Model Model.Slab LabelledRuns
open SlabRuns (Event afterCall slotOf)

/-- The allocator with memory, the pages it owns and the objects in use. For an object `taken` is the memory when
`slab_alloc` returned it, and for a slot `left` is the memory when it was freed or `page_init` returned. -/
structure State where
  slab : SlabAllocator
  memory : Memory
  owned : List ℕ
  live : List ℕ
  taken : ℕ → Memory
  left : ℕ → Memory

def initial (slab : SlabAllocator) (memory : Memory) : State := ⟨slab, memory, [], [], fun _ => memory, fun _ => memory⟩

/-- The slot that `slab_alloc` takes from a page it has. -/
def Pops (s : State) (slot : ℕ) : Prop :=
  ∃ page, Linkedlist.isEmpty s.slab.partialList = false ∧ Linkedlist.head s.slab.partialList = some page ∧
    slot = page + load16 s.memory (freeIndexAt page)

/-- A run ends where `slab_alloc` would go on with a chain index that was overwritten in a free slot. -/
def Enabled (s : State) : Event → Prop
  | .alloc answer => Answers s.owned answer ∧
      ∀ slot, Pops s slot → load16 s.memory (nextAt slot) = load16 (s.left slot) (nextAt slot)
  | .dealloc ptr => ptr ∈ s.live
  | .write address _ => ∀ page ∈ s.owned, address < page ∨ page + sizeofPage ≤ address

def exec (s : State) : Event → Result State
  | .alloc answer => do
    let (_, _, filled, calls) ← pickPage s.slab s.memory answer
    let (ptr, outcome) ← slabAlloc s.slab s.memory answer
    return { slab := outcome.slab, memory := outcome.memory, owned := outcome.calls.foldl afterCall s.owned,
             live := if ptr = 0 then s.live else ptr :: s.live
             taken := Function.update s.taken ptr outcome.memory
             left := fun slot => if .alloc (pageFromSlot slot) ∈ calls then filled else s.left slot }
  | .dealloc ptr => do
    let outcome ← slabDealloc s.slab s.memory ptr
    return { s with
             slab := outcome.slab, memory := outcome.memory, owned := outcome.calls.foldl afterCall s.owned,
             live := s.live.erase ptr
             left := Function.update s.left (slotOf s.slab ptr) outcome.memory }
  | .write address byte => .ok { s with memory := Function.update s.memory address byte }

abbrev Reaches (slab : SlabAllocator) (memory : Memory) : List Event → State → Prop :=
  Run (Guarded Enabled exec) (initial slab memory)

/-! ## What is claimed of a state -/

def InSlot (slab : SlabAllocator) (slot address : ℕ) : Prop := slot ≤ address ∧ address < slot + slab.slotSize

def InPayload (slab : SlabAllocator) (slot address : ℕ) : Prop :=
  slotPayload slot slab ≤ address ∧ address < slotPayload slot slab + slab.objectSize

def InRedzone (slab : SlabAllocator) (slot address : ℕ) : Prop :=
  slotRedzone1 slot ≤ address ∧ address < slotPayload slot slab ∨
    slotRedzone2 slot slab ≤ address ∧ address < slot + slab.slotSize

/-- Since a slot was left, its magic or a redzone changed, or its payload is not the free fill. -/
def Changed (slab : SlabAllocator) (left memory : Memory) (slot : ℕ) : Prop :=
  (∃ address, slot ≤ address ∧ address < nextAt slot ∧ memory address ≠ left address) ∨
    (∃ address, InRedzone slab slot address ∧ memory address ≠ left address) ∨
      ∃ address, InPayload slab slot address ∧ memory address ≠ UNUSED_FILL

/-- Since an object was taken, a byte of its slot outside the payload changed. -/
def Overwritten (slab : SlabAllocator) (taken memory : Memory) (slot : ℕ) : Prop :=
  ∃ address, InSlot slab slot address ∧ ¬InPayload slab slot address ∧ memory address ≠ taken address

def Panics {α : Type} (result : Result α) : Prop := ∃ message, result = .error (.panic message)

/-- The calls stop at the slots that changed, and at no others. A release of a free slot stops at its first check,
which comes before everything it writes. -/
structure Detects (s : State) : Prop where
  live : ∀ ptr ∈ s.live,
    (Panics (slabDealloc s.slab s.memory ptr) ↔ Overwritten s.slab (s.taken ptr) s.memory (slotOf s.slab ptr)) ∧
      (¬Overwritten s.slab (s.taken ptr) s.memory (slotOf s.slab ptr) →
        ∃ outcome, slabDealloc s.slab s.memory ptr = .ok outcome)
  free : ∀ page ∈ s.owned, ∀ offset ∈ slotOffsets s.slab, page + offset + s.slab.payloadOffset ∉ s.live →
    (∀ address, page + offset ≤ address → address < page + offset + sizeofSlot →
      s.memory address = s.left (page + offset) address) →
        slabDealloc s.slab s.memory (page + offset + s.slab.payloadOffset) = .error (.panic
          ("try to deallocate an object that is not allocated" ++ " : " ++ "slot->magic == 0x6b5c && slot->next == 0"))
  popped : ∀ answer, Answers s.owned answer →
    (Panics (slabAlloc s.slab s.memory answer) ↔ ∃ slot, Pops s slot ∧ Changed s.slab (s.left slot) s.memory slot) ∧
      ∀ slot, Pops s slot → ¬Changed s.slab (s.left slot) s.memory slot →
        ∃ result, slabAlloc s.slab s.memory answer = .ok result

/-! ## The invariant -/

/-- Clients that write only where they may could have reached the same state with some memory. -/
def Kept (slab : SlabAllocator) (s : State) : Prop :=
  ∃ clean, SlabRuns.Holds slab ⟨s.slab, clean, s.owned, s.live⟩ ∧
    Shadow slab s.memory clean s.owned s.live s.taken s.left

section Steps

variable {slab : SlabAllocator} {list : Linkedlist.Links ℕ} {memory left : Memory} {s t : State} {es : List Event}
  {slot ptr answer : ℕ}

private theorem overwritten_iff (geometry : Geometry slab) (was : ObjectSlot slab left slot) :
    Overwritten slab left memory slot ↔ ¬ObjectSlot slab memory slot := by
  rw [was.same_iff geometry]
  unfold Overwritten InSlot InPayload slotPayload
  constructor
  · rintro ⟨a, ⟨lower, upper⟩, outside, other⟩ same
    exact other (same a lower upper (by omega))
  · intro broken
    by_contra none
    refine broken fun a lower upper outside => ?_
    by_contra other
    exact none ⟨a, ⟨lower, upper⟩, by omega, other⟩

private theorem changed_iff (was : EmptySlot slab left slot) :
    Changed slab left memory slot ↔ ¬EmptySlot slab memory slot := by
  rw [was.same_iff, Changed]
  simp only [InRedzone, InPayload, slotPayload, slotRedzone1, slotRedzone2, slotRedzone1Offset, slotRedzone2Offset,
    sizeofSlot, nextAt, ← Nat.add_assoc]
  constructor
  · rintro changed ⟨magic, zones, unused⟩
    rcases changed with ⟨a, lower, upper, other⟩ | ⟨a, zone, other⟩ | ⟨a, ⟨lower, upper⟩, other⟩
    · exact other (magic a lower upper)
    · exact other (zones a zone)
    · exact other (unused a lower upper)
  · intro broken
    by_contra same
    obtain ⟨magic, rest⟩ := not_or.mp same
    obtain ⟨zones, unused⟩ := not_or.mp rest
    refine broken ⟨fun a lower upper => ?_, fun a zone => ?_, fun a lower upper => ?_⟩
    · by_contra other
      exact magic ⟨a, lower, upper, other⟩
    · by_contra other
      exact zones ⟨a, zone, other⟩
    · by_contra other
      exact unused ⟨a, ⟨lower, upper⟩, other⟩

private theorem initial_kept (geometry : Geometry slab) (empty : Linkedlist.Linked slab.partialList []) :
    Kept slab (initial slab memory) := by
  refine ⟨memory, SlabRuns.initial_holds geometry empty, ⟨?_, ?_, ?_, ?_⟩⟩
  all_goals simp [initial]

/-- After `page_init` the slots of the new page are left with the memory that it returned, and the others as they
were. -/
private theorem acquired_shadow {clean filled clean' : Memory} {owned live : List ℕ} {taken left : ℕ → Memory}
    {free : ℕ → List ℕ} (shadow : Shadow slab memory clean owned live taken left)
    (stock : Stock slab clean owned live free) (acquired : Stock slab clean' (answer :: owned) live
      (Function.update free answer (slotOffsets slab)))
    (aligned : answer % SLAB_PAGE = 0) (fresh : answer ∉ owned)
    (ready : pageInit memory answer { slab with partialList := list } = .ok filled)
    (ready' : pageInit clean answer { slab with partialList := list } = .ok clean') :
    Shadow slab filled clean' (answer :: owned) live taken fun slot =>
      if PageCall.alloc (pageFromSlot slot) ∈ [PageCall.alloc answer] then filled else left slot := by
  refine shadow.acquire stock aligned fresh ready ready' (fun offset member => ?_)
    fun page owns offset member => if_neg ?_
  · rw [acquired.pageFromSlot List.mem_cons_self member, if_pos (List.mem_singleton_self _)]
  · rw [stock.pageFromSlot owns member, List.mem_singleton]
    rintro ⟨rfl⟩
    exact fresh owns

private theorem Kept.alloc (kept : Kept slab s) (enabled : Enabled s (.alloc answer))
    (ran : exec s (.alloc answer) = .ok t) :
    Kept slab t := by
  obtain ⟨sl, memory, owned, live, taken, left⟩ := s
  obtain ⟨clean, holds, shadow⟩ := kept
  obtain ⟨answers, intact⟩ := enabled
  obtain ⟨ptr', outcome', ran', after⟩ := holds.alloc answers
  obtain ⟨⟨list, shape⟩, free, partials, books⟩ := holds
  dsimp only at ran' after books answers shape shadow
  subst shape
  have stock : Stock slab clean owned live free := books.stock.setList slab.partialList
  obtain ⟨⟨_, _, filled, calls⟩, picked, rest⟩ := Except.bind_ok_iff.mp ran
  obtain ⟨⟨ptr, outcome⟩, alloc, rest⟩ := Except.bind_ok_iff.mp rest
  obtain rfl := Except.pure_ok_iff.mp rest
  rw [slabAlloc] at alloc ran'
  rcases partials with _ | ⟨page, others⟩
  · rcases eq_or_ne answer 0 with rfl | nonnull
    · rw [pickPage_null books.linked] at picked alloc ran'
      cases picked
      cases alloc
      cases ran'
      refine ⟨clean, after, shadow.relabel (fun ptr listed => ?_) (fun page owns offset member => if_neg ?_)⟩
      · obtain ⟨page, _, offset, _, _, rfl⟩ := stock.find listed
        have header := stock.geometry.header
        exact Function.update_of_ne (by omega) _ _
      · rw [stock.pageFromSlot owns member, List.mem_singleton]
        rintro ⟨rfl⟩
        exact (stock.aligned 0 owns).1 rfl
    · obtain ⟨aligned, small, fresh⟩ := answers.resolve_left nonnull
      obtain ⟨filled', ready, _⟩ := pageInit_spec (stock.geometry.setList list) memory answer
      obtain ⟨clean', ready', acquired⟩ := books.stock.acquire nonnull aligned small fresh
      have stock' : Stock slab clean' (answer :: owned) live (Function.update free answer (slotOffsets slab)) :=
        acquired.setList slab.partialList
      rw [pickPage_new books.linked nonnull ready] at picked alloc
      rw [pickPage_new books.linked nonnull ready'] at ran'
      cases picked
      have owns : answer ∈ answer :: owned := List.mem_cons_self
      have shadow' := acquired_shadow shadow stock stock' aligned fresh ready ready'
      obtain ⟨offset, rest, first⟩ : ∃ offset rest, slotOffsets slab = offset :: rest :=
        List.exists_cons_of_length_pos (length_slotOffsets ▸ slotCount_pos slab)
      have first' : Function.update free answer (slotOffsets slab) answer = offset :: rest := by
        rw [Function.update_self, first]
      obtain ⟨member, _⟩ := Page.front stock'.geometry (first' ▸ stock'.pages answer owns)
      have dead := stock'.dead owns first'
      have next := (shadow'.left answer owns offset member dead).2
      rw [stock'.pageFromSlot owns member, if_pos (List.mem_singleton_self _)] at next
      obtain ⟨rfl, object, same, called, called', shadow''⟩ := shadow'.takeSlot stock' owns first' next alloc ran'
      rw [called', same, if_neg object] at after
      refine ⟨outcome'.memory, ?_, ?_⟩
      · dsimp only
        rw [called, if_neg object]
        exact after
      · dsimp only
        rw [called, if_neg object, List.foldl_cons, List.foldl_nil, afterCall, if_neg nonnull]
        exact shadow''
  · obtain ⟨owns, nonempty⟩ := (books.listed page).mp (.head _)
    obtain ⟨offset, rest, first⟩ := List.exists_cons_of_ne_nil nonempty
    obtain ⟨member, front, _⟩ := Page.front stock.geometry (first ▸ stock.pages page owns)
    have dead := stock.dead owns first
    have pops : Pops ⟨{ slab with partialList := list }, memory, owned, live, taken, left⟩ (page + offset) := by
      refine ⟨page, ?_, books.linked.head_eq, by rw [shadow.front page owns, front]⟩
      exact Bool.eq_false_iff.mpr fun none => List.cons_ne_nil _ _ (books.linked.isEmpty_iff.mp none)
    have next := (intact (page + offset) pops).trans (shadow.left page owns offset member dead).2
    rw [pickPage_head books.linked] at picked alloc ran'
    cases picked
    obtain ⟨rfl, object, same, called, called', shadow'⟩ := shadow.takeSlot stock owns first next alloc ran'
    rw [called', same, if_neg object] at after
    refine ⟨outcome'.memory, ?_, ?_⟩
    · dsimp only
      rw [called, if_neg object]
      exact after
    · dsimp only
      rw [called, if_neg object]
      exact shadow'.relabel (fun _ _ => rfl) fun _ _ _ _ => if_neg List.not_mem_nil

private theorem Kept.dealloc (kept : Kept slab s) (member : ptr ∈ s.live)
    (ran : exec s (.dealloc ptr) = .ok t) : Kept slab t := by
  obtain ⟨sl, memory, owned, live, taken, left⟩ := s
  obtain ⟨clean, holds, shadow⟩ := kept
  obtain ⟨_, _, outcome', _, ran', after, _⟩ := holds.dealloc member
  obtain ⟨⟨list, shape⟩, free, partials, books⟩ := holds
  dsimp only at ran' after books shape shadow member
  subst shape
  have stock : Stock slab clean owned live free := books.stock.setList slab.partialList
  obtain ⟨outcome, dealloc, rest⟩ := Except.bind_ok_iff.mp ran
  obtain rfl := Except.pure_ok_iff.mp rest
  obtain ⟨page, owns, offset, inside, used, rfl⟩ := stock.find member
  obtain ⟨same, called, calls, shadow'⟩ := shadow.slabDealloc stock owns inside used dealloc ran'
  rw [called, same] at after
  have slot : slotOf { slab with partialList := list } (page + offset + slab.payloadOffset) = page + offset :=
    Nat.add_sub_cancel ..
  refine ⟨outcome'.memory, after, ?_⟩
  dsimp only
  rw [slot]
  refine shadow'.mono fun page' owns' => ?_
  rcases calls with none | released
  · rwa [none] at owns'
  · rw [released] at owns'
    exact List.mem_of_mem_erase owns'

private theorem Kept.step (kept : Kept slab s) {e : Event} (step : Guarded Enabled exec s e t) : Kept slab t := by
  obtain ⟨enabled, ran⟩ := step
  cases e with
  | alloc answer => exact kept.alloc enabled ran
  | dealloc ptr => exact kept.dealloc enabled ran
  | write address byte =>
    obtain ⟨clean, holds, shadow⟩ := kept
    obtain rfl := Except.ok.inj ran
    exact ⟨clean, holds, shadow.write byte enabled⟩

/-! ## What holds of a kept state -/

private theorem not_panics {α : Type} (result : α) : ¬Panics (.ok result : Result α) := by
  rintro ⟨message, panicked⟩
  cases panicked

section Detection

variable {clean : Memory} {owned live partials : List ℕ} {free : ℕ → List ℕ} {taken left : ℕ → Memory} {page offset : ℕ}

private theorem release_detected (stock : Stock slab clean owned live free)
    (shadow : Shadow slab memory clean owned live taken left)
    (listed : ptr ∈ live) :
    (Panics (slabDealloc { slab with partialList := list } memory ptr) ↔
        Overwritten slab (taken ptr) memory (slotOf slab ptr)) ∧
      (¬Overwritten slab (taken ptr) memory (slotOf slab ptr) →
        ∃ outcome, slabDealloc { slab with partialList := list } memory ptr = .ok outcome) := by
  have geometry := stock.geometry
  obtain ⟨page, owns, offset, member, used, rfl⟩ := stock.find listed
  obtain ⟨_, aligned, _⟩ := stock.aligned page owns
  have small := stock.small owns
  have held := stock.pages page owns
  have total := held.count
  have fewer := held.length_lt member used
  have counted : 1 ≤ load16 memory (allocCountAt page) := by
    have same : load16 memory (allocCountAt page) = load16 clean (allocCountAt page) := shadow.count page owns
    omega
  have was := shadow.taken _ listed
  rw [Nat.add_sub_cancel] at was
  rw [show slotOf slab (page + offset + slab.payloadOffset) = page + offset from Nat.add_sub_cancel ..,
    overwritten_iff geometry was]
  by_cases object : ObjectSlot slab memory (page + offset)
  · obtain ⟨_, _, eq⟩ := slabDealloc_ok geometry member aligned small counted object
    rw [eq]
    exact ⟨iff_of_false (not_panics _) (not_not.mpr object), fun _ => ⟨_, rfl⟩⟩
  · obtain ⟨message, panicked⟩ := slotOnDealloc_panics geometry object
    rw [slabDealloc_eq geometry member aligned small, panicked, Except.error_bind]
    exact ⟨iff_of_true ⟨message, rfl⟩ object, fun whole => absurd object whole⟩

/-- The first check refuses a slot that is free. -/
private theorem free_refused (stock : Stock slab clean owned live free)
    (shadow : Shadow slab memory clean owned live taken left)
    (owns : page ∈ owned) (member : offset ∈ slotOffsets slab) (dead : page + offset + slab.payloadOffset ∉ live)
    (same : ∀ address, page + offset ≤ address → address < page + offset + sizeofSlot →
      memory address = left (page + offset) address) :
    slabDealloc { slab with partialList := list } memory (page + offset + slab.payloadOffset) = .error (.panic
      ("try to deallocate an object that is not allocated" ++ " : " ++ "slot->magic == 0x6b5c && slot->next == 0")) := by
  obtain ⟨_, aligned, _⟩ := stock.aligned page owns
  obtain ⟨empty, _⟩ := shadow.left page owns offset member dead
  have magic : load16 memory (magicAt (page + offset)) = EMPTY_MAGIC := by
    rw [← empty.magic]
    exact load16_congr (same _ (by unfold magicAt; omega) (by unfold magicAt sizeofSlot; omega))
      (same _ (by unfold magicAt; omega) (by unfold magicAt sizeofSlot; omega))
  have other : ¬(load16 memory (magicAt (page + offset)) = OBJECT_MAGIC ∧
      load16 memory (nextAt (page + offset)) = 0) := fun both => by
    rw [magic] at both
    exact absurd both.1 (by decide)
  rw [slabDealloc_eq stock.geometry member aligned (stock.small owns), slotOnDealloc_unallocated other,
    Except.error_bind]

/-- Where no page has a free slot, a new one is taken. -/
private theorem slabAlloc_fresh (memory : Memory) (geometry : Geometry slab) (linked : Linkedlist.Linked list [])
    (answers : Answers owned answer) :
    ∃ result, slabAlloc { slab with partialList := list } memory answer = .ok result := by
  rcases eq_or_ne answer 0 with rfl | nonnull
  · exact ⟨_, by rw [slabAlloc, pickPage_null linked]; rfl⟩
  · obtain ⟨aligned, small, fresh⟩ := answers.resolve_left nonnull
    obtain ⟨filled, ready, _⟩ := pageInit_spec (geometry.setList list) memory answer
    obtain ⟨result, taken⟩ := takeSlot_new (geometry.setList list) ready
      (Linkedlist.pushFront (Linkedlist.init list) answer) [.alloc answer]
    refine ⟨result, ?_⟩
    rw [slabAlloc, pickPage_new linked nonnull ready]
    exact taken

/-- A pop takes the slot in front of the chain of the first page that has one. -/
private theorem pops_front (linked : Linkedlist.Linked list (page :: partials))
    (front : load16 memory (freeIndexAt page) = offset) :
    Pops ⟨{ slab with partialList := list }, memory, owned, live, taken, left⟩ slot ↔ slot = page + offset := by
  constructor
  · rintro ⟨page', _, head, rfl⟩
    obtain rfl : page = page' := Option.some.inj (linked.head_eq.symm.trans head)
    rw [front]
  · rintro rfl
    refine ⟨page, ?_, linked.head_eq, by rw [front]⟩
    exact Bool.eq_false_iff.mpr fun none => List.cons_ne_nil _ _ (linked.isEmpty_iff.mp none)

private theorem pop_detected (stock : Stock slab clean owned live free)
    (shadow : Shadow slab memory clean owned live taken left)
    (books : Books { slab with partialList := list } clean owned live free partials) (answers : Answers owned answer) :
    (Panics (slabAlloc { slab with partialList := list } memory answer) ↔
      ∃ slot, Pops ⟨{ slab with partialList := list }, memory, owned, live, taken, left⟩ slot ∧
        Changed slab (left slot) memory slot) ∧
      ∀ slot, Pops ⟨{ slab with partialList := list }, memory, owned, live, taken, left⟩ slot →
        ¬Changed slab (left slot) memory slot →
          ∃ result, slabAlloc { slab with partialList := list } memory answer = .ok result := by
  have geometry := stock.geometry
  rcases partials with _ | ⟨page, others⟩
  · obtain ⟨result, ran⟩ := slabAlloc_fresh memory geometry books.linked answers
    rw [ran]
    refine ⟨iff_of_false (not_panics _) ?_, fun _ _ _ => ⟨result, rfl⟩⟩
    -- no page has a free slot, so none is popped that was there before
    rintro ⟨_, ⟨_, filled, _⟩, _⟩
    exact Bool.false_ne_true (filled.symm.trans (books.linked.isEmpty_iff.mpr rfl))
  · obtain ⟨owns, nonempty⟩ := (books.listed page).mp (.head _)
    obtain ⟨offset, rest, first⟩ := List.exists_cons_of_ne_nil nonempty
    obtain ⟨member, front, room, _⟩ := Page.front geometry (first ▸ stock.pages page owns)
    have dead := stock.dead owns first
    have front' := (shadow.front page owns).trans front
    have room' : load16 memory (allocCountAt page) + 1 < 2 ^ 16 := by rwa [shadow.count page owns]
    have was := (shadow.left page owns offset member dead).1
    have alloc : slabAlloc { slab with partialList := list } memory answer =
        takeSlot { slab with partialList := list } memory page [] := by
      rw [slabAlloc, pickPage_head books.linked]
      rfl
    simp only [pops_front books.linked front', forall_eq, exists_eq_left, alloc]
    rw [changed_iff was]
    by_cases empty : EmptySlot slab memory (page + offset)
    · obtain ⟨_, _, eq⟩ := takeSlot_ok geometry member front' room' empty
      rw [eq]
      exact ⟨iff_of_false (not_panics _) (not_not.mpr empty), fun _ => ⟨_, rfl⟩⟩
    · obtain ⟨message, panicked⟩ := takeSlot_panics geometry member front' room' empty list []
      exact ⟨iff_of_true ⟨message, panicked⟩ empty, fun whole => absurd empty whole⟩

end Detection

private theorem Kept.detects (kept : Kept slab s) : Detects s := by
  obtain ⟨sl, memory, owned, live, taken, left⟩ := s
  obtain ⟨clean, ⟨⟨list, shape⟩, free, partials, books⟩, shadow⟩ := kept
  dsimp only at books shape shadow
  subst shape
  have stock : Stock slab clean owned live free := books.stock.setList slab.partialList
  exact ⟨fun ptr listed => release_detected stock shadow listed,
    fun page owns offset member dead same => free_refused stock shadow owns member dead same,
    fun answer answers => pop_detected stock shadow books answers⟩

end Steps

/-! ## An alignment of zero

`slab_init` accepts it. The slots have no size then, and `page_init` does not return. -/

section Zero

variable {raw slab : SlabAllocator} {memory : Memory} {s t : State} {es : List Event} {size offset fuel page : ℕ}

private theorem alignCeil_zero (x : ℕ) : alignCeil x 0 = 0 := by
  rw [alignCeil, show sub64 0 1 = 2 ^ 64 - 1 from rfl, Nat.xor_self, Nat.and_zero]

private theorem slabInit_zero (accepted : slabInit raw size 0 = .ok slab) :
    slab.objectAlign = 0 ∧ slab.slotSize = 0 ∧ slab.partialList = Linkedlist.init raw.partialList := by
  simp only [slabInit, Except.bind_ok_iff, assertMsg_ok_iff, decide_eq_true_eq, Except.pure_ok_iff] at accepted
  obtain ⟨_, _, _, _, _, _, _, _, rfl⟩ := accepted
  exact ⟨rfl, alignCeil_zero _, rfl⟩

private theorem threadSlots_stuck (empty : slab.slotSize = 0) (inside : offset < SLAB_PAGE) :
    threadSlots slab page fuel offset memory = .error .nonterminating := by
  induction fuel generalizing memory with
  | zero => rfl
  | succ fuel ih =>
    rw [threadSlots, empty]
    exact (if_pos inside).trans ih

private theorem pageInit_stuck (zero : slab.objectAlign = 0) (empty : slab.slotSize = 0) :
    pageInit memory page slab = .error .nonterminating := by
  rw [pageInit, zero]
  exact threadSlots_stuck empty (by decide)

/-- No page was ever set up. -/
structure Idle (slab : SlabAllocator) (s : State) : Prop where
  slab : s.slab = slab
  owned : s.owned = []
  live : s.live = []

/-- A call of the idle allocator gets no page, or never returns. -/
private theorem Idle.pickPage (idle : Idle slab s) (zero : slab.objectAlign = 0) (empty : slab.slotSize = 0)
    (linked : Linkedlist.Linked slab.partialList []) (answer : ℕ) :
    answer = 0 ∧ pickPage s.slab s.memory answer = .ok (none, slab, s.memory, [.alloc 0]) ∨
      pickPage s.slab s.memory answer = .error .nonterminating := by
  rw [idle.slab]
  rcases eq_or_ne answer 0 with rfl | nonnull
  · exact .inl ⟨rfl, pickPage_null linked⟩
  · right
    rw [Slab.pickPage, if_pos (linked.isEmpty_iff.mpr rfl), slabAllocPage, if_neg nonnull, pageInit_stuck zero empty]
    rfl

private theorem Idle.step (idle : Idle slab s) (zero : slab.objectAlign = 0) (empty : slab.slotSize = 0)
    (linked : Linkedlist.Linked slab.partialList []) {e : Event}
    (step : Guarded Enabled exec s e t) : Idle slab t := by
  obtain ⟨enabled, ran⟩ := step
  cases e with
  | alloc answer =>
    rcases idle.pickPage zero empty linked answer with ⟨rfl, picked⟩ | stuck
    · rw [exec, slabAlloc, picked] at ran
      obtain rfl := Except.ok.inj ran
      exact ⟨rfl, idle.owned, idle.live⟩
    · rw [exec, stuck, Except.error_bind] at ran
      cases ran
  | dealloc ptr =>
    have listed : ptr ∈ s.live := enabled
    rw [idle.live] at listed
    exact absurd listed List.not_mem_nil
  | write address byte =>
    obtain rfl := Except.ok.inj ran
    exact ⟨idle.slab, idle.owned, idle.live⟩

private theorem Idle.detects (idle : Idle slab s) (zero : slab.objectAlign = 0) (empty : slab.slotSize = 0)
    (linked : Linkedlist.Linked slab.partialList []) : Detects s := by
  refine ⟨fun ptr listed => ?_, fun page owns => ?_, fun answer _ => ?_⟩
  · rw [idle.live] at listed
    exact absurd listed List.not_mem_nil
  · rw [idle.owned] at owns
    exact absurd owns List.not_mem_nil
  · have none (slot : ℕ) : ¬Pops s slot := by
      rintro ⟨_, filled, _⟩
      rw [idle.slab, linked.isEmpty_iff.mpr rfl] at filled
      cases filled
    refine ⟨iff_of_false (fun ⟨_, panicked⟩ => ?_) fun ⟨slot, pops, _⟩ => none slot pops,
      fun slot pops => absurd pops (none slot)⟩
    rw [slabAlloc] at panicked
    rcases idle.pickPage zero empty linked answer with ⟨_, picked⟩ | stuck
    · rw [picked] at panicked
      cases panicked
    · rw [stuck, Except.error_bind] at panicked
      cases panicked

end Zero

section Claims

variable {raw slab : SlabAllocator} {size align : ℕ} {memory : Memory} {es : List Event} {s : State}

/-- Whatever size and alignment `slab_init` accepts, the checks of both calls detect every change of a slot, and
nothing else, in every state reached. -/
theorem corruption_detected (accepted : slabInit raw size align = .ok slab) (run : Reaches slab memory es s) :
    Detects s := by
  rcases Nat.eq_zero_or_pos align with rfl | positive
  · obtain ⟨zero, empty, list⟩ := slabInit_zero accepted
    have linked : Linkedlist.Linked slab.partialList [] := list ▸ Linkedlist.init_linked raw.partialList
    have idle : Idle slab s :=
      Run.invariant run ⟨rfl, rfl, rfl⟩ fun _ _ _ idle step => idle.step zero empty linked step
    exact idle.detects zero empty linked
  · obtain ⟨geometry, _, _, list⟩ := slabInit_geometry positive accepted
    have linked : Linkedlist.Linked slab.partialList [] := list ▸ Linkedlist.init_linked raw.partialList
    have kept : Kept slab s := Run.invariant run (initial_kept geometry linked) fun _ _ _ kept step => kept.step step
    exact kept.detects

/-- What a step of the allocator does, with the books of its slots. -/
private theorem exec_of_runs {e : Event} {u : SlabRuns.State}
    (ran : SlabRuns.exec ⟨s.slab, s.memory, s.owned, s.live⟩ e = .ok u) :
    ∃ taken left, exec s e = .ok ⟨u.slab, u.memory, u.owned, u.live, taken, left⟩ ∧
      ∀ answer ptr, e = .alloc answer → u.live = ptr :: s.live → taken ptr = u.memory := by
  cases e with
  | alloc answer =>
    obtain ⟨⟨ptr, outcome⟩, allocated, made⟩ := Except.bind_ok_iff.mp ran
    obtain ⟨⟨_, _, filled, calls⟩, picked, _⟩ := Except.bind_ok_iff.mp allocated
    obtain rfl := Except.pure_ok_iff.mp made
    refine ⟨Function.update s.taken ptr outcome.memory,
      fun slot => if .alloc (pageFromSlot slot) ∈ calls then filled else s.left slot, ?_, fun _ other _ live => ?_⟩
    · dsimp only at picked allocated
      rw [exec, picked, Except.ok_bind, allocated]
      rfl
    · dsimp only at live
      split at live
      · exact absurd live.symm (List.cons_ne_self _ _)
      · rw [(List.cons.inj live).1, Function.update_self]
  | dealloc ptr =>
    obtain ⟨outcome, released, made⟩ := Except.bind_ok_iff.mp ran
    obtain rfl := Except.pure_ok_iff.mp made
    dsimp only at released
    refine ⟨s.taken, Function.update s.left (slotOf s.slab ptr) outcome.memory, ?_, fun _ _ same => nomatch same⟩
    rw [exec, released]
    rfl
  | write address byte =>
    cases ran
    exact ⟨s.taken, s.left, rfl, fun _ _ same => nomatch same⟩

/-- Without live objects the allocator has no page to take a slot from. -/
private theorem not_pops (sound : SlabRuns.Sound ⟨s.slab, s.memory, s.owned, s.live⟩) (empty : s.live = []) (slot : ℕ) :
    s.owned = [] ∧ ¬Pops s slot := by
  have none : s.owned = [] := by
    refine List.eq_nil_iff_forall_not_mem.mpr fun page owns => ?_
    have busy := (sound.pages page owns).busy
    simp [liveSlots, empty] at busy
  obtain ⟨pages, linked, _, listed⟩ := sound.partials
  have unlisted : pages = [] := by
    refine List.eq_nil_iff_forall_not_mem.mpr fun page member => ?_
    have owns := ((listed page).mp member).1
    dsimp only at owns
    rw [none] at owns
    cases owns
  refine ⟨none, ?_⟩
  rintro ⟨page, filled, _⟩
  exact absurd (filled.symm.trans (linked.isEmpty_iff.mpr unlisted)) Bool.false_ne_true

/-- An object is given back, and then the byte in front of another one is changed: the release of that one panics. -/
theorem corruption_detected_first : ∃ slab s ptr other byte, slabInit SlabRuns.unset 64 (2 ^ 3) = .ok slab ∧
    Reaches slab (fun _ => 0) [.alloc 0x8000, .dealloc ptr, .alloc 0x9000, .write (other - 1) byte] s ∧
    s.live = [other] ∧ Panics (slabDealloc s.slab s.memory other) := by
  obtain ⟨slab, accepted⟩ : ∃ slab, slabInit SlabRuns.unset 64 (2 ^ 3) = .ok slab := ⟨_, rfl⟩
  obtain ⟨geometry, _, _, list⟩ := slabInit_geometry (by decide) accepted
  have linked : Linkedlist.Linked slab.partialList [] := list ▸ Linkedlist.init_linked SlabRuns.unset.partialList
  have start : SlabRuns.Holds slab (SlabRuns.initial slab fun _ => 0) := SlabRuns.initial_holds geometry linked
  have fresh : SlabRuns.Enabled (SlabRuns.initial slab fun _ => 0) (.alloc 0x8000) :=
    .inr ⟨by decide, by decide, List.not_mem_nil⟩
  obtain ⟨ptr, one, ranOne, live₁, _⟩ := start.alloc_object fresh (by decide)
  have run₁ : SlabRuns.Reaches slab (fun _ => 0) [.alloc 0x8000] one := .single ⟨fresh, ranOne⟩
  have given : SlabRuns.Enabled one (.dealloc ptr) := by
    show ptr ∈ one.live
    rw [live₁]
    exact List.mem_cons_self
  obtain ⟨two, ranTwo, holds₂⟩ := (run₁.holds start).step given
  have live₂ : two.live = [] := by
    have ran := ranTwo
    simp only [SlabRuns.exec, Except.bind_ok_iff, Except.pure_ok_iff] at ran
    obtain ⟨outcome, _, rfl⟩ := ran
    dsimp only
    rw [live₁, List.erase_cons_head]
    rfl
  obtain ⟨taken₁, left₁, exec₁, _⟩ := @exec_of_runs (initial slab fun _ => 0) _ _ ranOne
  obtain ⟨taken₂, left₂, exec₂, _⟩ :=
    @exec_of_runs ⟨one.slab, one.memory, one.owned, one.live, taken₁, left₁⟩ _ _ ranTwo
  have idle (slot : ℕ) := @not_pops ⟨two.slab, two.memory, two.owned, two.live, taken₂, left₂⟩ holds₂.sound live₂ slot
  have none : two.owned = [] := (idle 0).1
  have next : Answers two.owned 0x9000 := .inr ⟨by decide, by decide, by rw [none]; exact List.not_mem_nil⟩
  obtain ⟨other, three, ranThree, live₃, owned₃⟩ := holds₂.alloc_object next (by decide)
  obtain ⟨taken₃, left₃, exec₃, taken⟩ :=
    @exec_of_runs ⟨two.slab, two.memory, two.owned, two.live, taken₂, left₂⟩ _ _ ranThree
  have idleFirst := @not_pops (initial slab fun _ => 0) start.sound rfl
  have run : Reaches slab (fun _ => 0) [.alloc 0x8000, .dealloc ptr, .alloc 0x9000] _ :=
    ((Run.single ⟨⟨fresh, fun slot pops => absurd pops (idleFirst slot).2⟩, exec₁⟩).snoc ⟨given, exec₂⟩).snoc
      ⟨⟨next, fun slot pops => absurd pops (idle slot).2⟩, exec₃⟩
  obtain ⟨three', ranThree', holds₃⟩ := holds₂.step (e := .alloc 0x9000) next
  obtain rfl := Except.ok.inj (ranThree.symm.trans ranThree')
  rw [live₂] at live₃
  have member : other ∈ three.live := by
    rw [live₃]
    exact List.mem_cons_self
  obtain ⟨page, owns, _, behind, within, place⟩ := holds₃.object member
  obtain ⟨list₃, shape⟩ := holds₃.shape
  have header := geometry.header
  have redzone := geometry.redzone
  have sole (page : ℕ) (owns : page ∈ three.owned) : page = 0x9000 := by
    have owned := owned₃ owns
    rw [none] at owned
    exact List.mem_singleton.mp owned
  obtain rfl := sole page owns
  have offset : three.slab.payloadOffset = slab.payloadOffset := by rw [shape]
  rw [offset] at place
  have inside : Enabled ⟨three.slab, three.memory, three.owned, three.live, taken₃, left₃⟩
      (.write (other - 1) (three.memory (other - 1) + 1)) := by
    intro page owns
    rw [sole page owns]
    omega
  have overwritten : Overwritten three.slab (taken₃ other)
      (Function.update three.memory (other - 1) (three.memory (other - 1) + 1)) (slotOf three.slab other) := by
    have size : three.slab.slotSize = slab.slotSize := by rw [shape]
    refine ⟨other - 1, ⟨by omega, by omega⟩, ?_, ?_⟩
    · rintro ⟨lower, _⟩
      unfold slotPayload at lower
      omega
    · rw [Function.update_self, taken 0x9000 other rfl (live₃.trans (by rw [live₂]))]
      bv_omega
  have corrupted := run.snoc ⟨inside, rfl⟩
  exact ⟨slab, _, ptr, other, _, accepted, corrupted, live₃,
    ((corruption_detected accepted corrupted).live other member).1.mpr overwritten⟩

end Claims

end RubberOS.Soundness.SlabCorruption
