import RubberOS.Proofs.SlabCalls

/-! # Pages that anyone writes to

The steps of the allocator on memory whose slots anyone may have written to. Whether a step passes
is decided by the bytes of the one slot that it takes or gives back. `Shadow` compares the rest of
the bookkeeping with a second memory, in which clients wrote only where they may.
-/

namespace RubberOS.Model.Slab

open SinglyLinked

/-- Only the page's two fields and one of its slots were written. -/
def Touches (slab : SlabAllocator) (memory memory' : Memory) (page offset : ℕ) : Prop :=
  ∀ a, a < page + 16 ∨ page + 20 ≤ a → a < page + offset ∨ page + offset + slab.slotSize ≤ a → memory' a = memory a

/-- What taking a page's first free slot does to memory. -/
structure Taken (slab : SlabAllocator) (memory memory' : Memory) (page offset : ℕ) : Prop where
  front : load16 memory' (freeIndexAt page) = load16 memory (nextAt (page + offset))
  count : load16 memory' (allocCountAt page) = load16 memory (allocCountAt page) + 1
  object : ObjectSlot slab memory' (page + offset)
  touches : Touches slab memory memory' page offset

/-- What giving a slot back to its page does to memory. -/
structure Returned (slab : SlabAllocator) (memory memory' : Memory) (page offset : ℕ) : Prop where
  front : load16 memory' (freeIndexAt page) = offset
  next : load16 memory' (nextAt (page + offset)) = load16 memory (freeIndexAt page)
  count : load16 memory' (allocCountAt page) = load16 memory (allocCountAt page) - 1
  empty : EmptySlot slab memory' (page + offset)
  touches : Touches slab memory memory' page offset

section Steps

variable {slab : SlabAllocator} {list : Linkedlist.Links ℕ} {memory memory' : Memory} {page page' offset offset' : ℕ}

/-! ## One slot -/

/-- Taking a slot is popping it and passing the checks of `slot_on_alloc`, which ask for an empty slot. -/
private theorem takeSlot_eq (geometry : Geometry slab) (member : offset ∈ slotOffsets slab)
    (first : load16 memory (freeIndexAt page) = offset) (room : load16 memory (allocCountAt page) + 1 < 2 ^ 16) :
    ∃ popped, (EmptySlot slab popped (page + offset) ↔ EmptySlot slab memory (page + offset)) ∧
      load16 popped (nextAt (page + offset)) = 0 ∧
      (∀ memory', ObjectSlot slab memory' (page + offset) →
        (∀ a, a < page + offset ∨ page + offset + slab.slotSize ≤ a →
        memory' a = popped a) → Taken slab memory memory' page offset) ∧
      ∀ list calls, takeSlot { slab with partialList := list } memory page calls =
        slotOnAlloc popped (page + offset) slab >>= fun memory' => .ok (page + offset + slab.payloadOffset,
          { slab := { slab with partialList := if load16 memory (nextAt (page + offset)) = 0
                                               then Linkedlist.remove list page else list }
            memory := memory', calls }) := by
  have bounds := geometry.offset_bounds member
  have size := geometry.slotSize_pos
  obtain ⟨popped, pop, poppedFree, poppedNext, poppedCount, poppedRest⟩ := pagePopFront_spec first bounds.1 room
  refine ⟨popped, ⟨fun empty => ?_, fun empty => ?_⟩, poppedNext, fun memory' object outside => ?_,
    fun list calls => ?_⟩
  · exact empty.congr geometry fun a lower upper away => (poppedRest a (by omega) (by omega)).symm
  · exact empty.congr geometry fun a lower upper away => poppedRest a (by omega) (by omega)
  · have header (a : ℕ) (lower : page + 16 ≤ a) (upper : a < page + 20) : memory' a = popped a := outside a (by omega)
    refine ⟨?_, ?_, object, fun a away other => by rw [outside a other, poppedRest a away (by omega)]⟩
    · rw [← poppedFree]
      exact load16_congr (header _ (by unfold freeIndexAt; omega) (by unfold freeIndexAt; omega))
        (header _ (by unfold freeIndexAt; omega) (by unfold freeIndexAt; omega))
    · rw [← poppedCount]
      exact load16_congr (header _ (by unfold allocCountAt; omega) (by unfold allocCountAt; omega))
        (header _ (by unfold allocCountAt; omega) (by unfold allocCountAt; omega))
  · rw [takeSlot, pop, Except.ok_bind]
    by_cases last : load16 memory (nextAt (page + offset)) = 0
    · simp only [last, decide_true, if_true]
      rfl
    · simp only [last, decide_false, if_false, Bool.false_eq_true]
      rfl

theorem takeSlot_ok (geometry : Geometry slab) (member : offset ∈ slotOffsets slab)
    (first : load16 memory (freeIndexAt page) = offset) (room : load16 memory (allocCountAt page) + 1 < 2 ^ 16)
    (empty : EmptySlot slab memory (page + offset)) :
    ∃ memory', Taken slab memory memory' page offset ∧
      ∀ list calls, takeSlot { slab with partialList := list } memory page calls =
        .ok (page + offset + slab.payloadOffset,
          { slab := { slab with partialList := if load16 memory (nextAt (page + offset)) = 0
                                               then Linkedlist.remove list page else list }
            memory := memory', calls }) := by
  obtain ⟨popped, same, unlinked, taken, eq⟩ := takeSlot_eq geometry member first room
  obtain ⟨memory', ran, object, _, outside⟩ := slotOnAlloc_spec geometry (same.mpr empty) unlinked
  refine ⟨memory', taken memory' object outside, fun list calls => ?_⟩
  rw [eq, ran, Except.ok_bind]

theorem takeSlot_panics (geometry : Geometry slab) (member : offset ∈ slotOffsets slab)
    (first : load16 memory (freeIndexAt page) = offset) (room : load16 memory (allocCountAt page) + 1 < 2 ^ 16)
    (broken : ¬EmptySlot slab memory (page + offset)) (list : Linkedlist.Links ℕ) (calls : List PageCall) :
    ∃ message, takeSlot { slab with partialList := list } memory page calls = .error (.panic message) := by
  obtain ⟨popped, same, unlinked, _, eq⟩ := takeSlot_eq geometry member first room
  obtain ⟨message, ran⟩ := slotOnAlloc_panics geometry unlinked fun empty => broken (same.mp empty)
  exact ⟨message, by rw [eq, ran, Except.error_bind]⟩

/-- Giving a slot back is passing the checks of `slot_on_dealloc` and putting it in front of its page's chain. -/
theorem slabDealloc_eq (geometry : Geometry slab) (member : offset ∈ slotOffsets slab)
    (aligned : page % SLAB_PAGE = 0) (small : page + 4096 ≤ 2 ^ 64) (list : Linkedlist.Links ℕ) :
    slabDealloc { slab with partialList := list } memory (page + offset + slab.payloadOffset) =
      slotOnDealloc memory (page + offset) slab >>= fun emptied =>
        let memory' := pagePushFront emptied page (page + offset)
        let settled := settlePage { slab with partialList := list } memory' page
          (load16 emptied (freeIndexAt page) = 0)
        .ok { slab := settled.1, memory := memory', calls := settled.2 } := by
  have bounds := geometry.offset_bounds member
  have redzone := geometry.redzone
  unfold REDZONE_SIZE at redzone
  have slot : sub64 (page + offset + slab.payloadOffset) (slotPayloadOffset { slab with partialList := list }) =
      page + offset := by
    rw [show slotPayloadOffset { slab with partialList := list } = slab.payloadOffset from geometry.payload,
      sub64_of_le (by omega) (by omega), Nat.add_sub_cancel]
  have masked : pageFromSlot (page + offset) = page := pageFromSlot_eq aligned (by omega) (by omega) (by omega)
  rw [slabDealloc, slot, masked]
  rfl

theorem slabDealloc_ok (geometry : Geometry slab) (member : offset ∈ slotOffsets slab)
    (aligned : page % SLAB_PAGE = 0) (small : page + 4096 ≤ 2 ^ 64)
    (counted : 1 ≤ load16 memory (allocCountAt page)) (object : ObjectSlot slab memory (page + offset)) :
    ∃ memory', Returned slab memory memory' page offset ∧
      ∀ list, slabDealloc { slab with partialList := list } memory (page + offset + slab.payloadOffset) =
        .ok { slab := (settlePage { slab with partialList := list } memory' page
                (load16 memory (freeIndexAt page) = 0)).1
              memory := memory'
              calls := (settlePage { slab with partialList := list } memory' page
                (load16 memory (freeIndexAt page) = 0)).2 } := by
  have bounds := geometry.offset_bounds member
  have size := geometry.slotSize_pos
  obtain ⟨emptied, ran, empty, outside⟩ := slotOnDealloc_spec geometry object
  have head (a : ℕ) (lower : page + 16 ≤ a) (upper : a < page + 20) : emptied a = memory a := outside a (by omega)
  have frontSame : load16 emptied (freeIndexAt page) = load16 memory (freeIndexAt page) :=
    load16_congr (head _ (by unfold freeIndexAt; omega) (by unfold freeIndexAt; omega))
      (head _ (by unfold freeIndexAt; omega) (by unfold freeIndexAt; omega))
  have countSame : load16 emptied (allocCountAt page) = load16 memory (allocCountAt page) :=
    load16_congr (head _ (by unfold allocCountAt; omega) (by unfold allocCountAt; omega))
      (head _ (by unfold allocCountAt; omega) (by unfold allocCountAt; omega))
  obtain ⟨first, next, fewer, rest⟩ := pagePushFront_spec bounds.1 (show offset < 4096 by omega)
    (show page + offset < 2 ^ 64 by omega) (show 1 ≤ load16 emptied (allocCountAt page) by rwa [countSame])
  refine ⟨pagePushFront emptied page (page + offset), ⟨first, by rw [next, frontSame], by rw [fewer, countSame],
    empty.congr geometry fun a lower upper away => rest a (by omega) (by omega),
    fun a away other => ?_⟩, fun list => ?_⟩
  · rw [rest a away (by omega), outside a other]
  · rw [slabDealloc_eq geometry member aligned small, ran, Except.ok_bind, frontSame]

/-- The page's settlement reads only its count. -/
private theorem settlePage_congr
    (same : load16 memory' (allocCountAt page) = load16 memory (allocCountAt page)) (wasFull : Bool) :
    settlePage slab memory' page wasFull = settlePage slab memory page wasFull := by
  rw [settlePage, settlePage, same]

private theorem settlePage_calls (wasFull : Bool) :
    (settlePage slab memory page wasFull).2 = [] ∨ (settlePage slab memory page wasFull).2 = [.dealloc page] := by
  rw [settlePage]
  split_ifs <;> simp

/-- Writes to one page spare the fields of the others. -/
private theorem Touches.header (touches : Touches slab memory memory' page offset) (member : offset ∈ slotOffsets slab)
    (geometry : Geometry slab) (apart : page + 4096 ≤ page' ∨ page' + 4096 ≤ page) :
    load16 memory' (freeIndexAt page') = load16 memory (freeIndexAt page') ∧
      load16 memory' (allocCountAt page') = load16 memory (allocCountAt page') := by
  have bounds := geometry.offset_bounds member
  have same (a : ℕ) (lower : page' + 16 ≤ a) (upper : a < page' + 20) : memory' a = memory a :=
    touches a (by omega) (by omega)
  unfold freeIndexAt allocCountAt
  exact ⟨load16_congr (same _ (by omega) (by omega)) (same _ (by omega) (by omega)),
    load16_congr (same _ (by omega) (by omega)) (same _ (by omega) (by omega))⟩

/-- Writes to one slot spare the index of the others. -/
private theorem Touches.next (touches : Touches slab memory memory' page offset) (geometry : Geometry slab)
    (member : offset ∈ slotOffsets slab) (member' : offset' ∈ slotOffsets slab)
    (apart : page + 4096 ≤ page' ∨ page' + 4096 ≤ page ∨ page' = page ∧ offset' ≠ offset) :
    load16 memory' (nextAt (page' + offset')) = load16 memory (nextAt (page' + offset')) := by
  have bounds := geometry.offset_bounds member
  have bounds' := geometry.offset_bounds member'
  have size := geometry.slotSize_pos
  have same (a : ℕ) (lower : page' + offset' ≤ a) (upper : a < page' + offset' + slab.slotSize) :
      memory' a = memory a := by
    rcases apart with before | after | ⟨rfl, other⟩
    · exact touches a (by omega) (by omega)
    · exact touches a (by omega) (by omega)
    · exact touches a (by omega) (by rcases offsets_apart member' member other <;> omega)
  unfold nextAt
  exact load16_congr (same _ (by omega) (by omega)) (same _ (by omega) (by omega))

/-- The first free slot of a page. -/
theorem Page.front {rest : List ℕ} (geometry : Geometry slab) (held : Page slab memory page (offset :: rest)) :
    offset ∈ slotOffsets slab ∧ load16 memory (freeIndexAt page) = offset ∧
      load16 memory (allocCountAt page) + 1 < 2 ^ 16 ∧ EmptySlot slab memory (page + offset) := by
  have count := held.count
  have most := geometry.slotCount_le
  exact ⟨held.slots offset (.head _), (ofIndex_eq_some.mp held.chain.1).1, by omega, held.empty offset (.head _)⟩

/-- A slot is taken from a page that was just set up, whatever the memory was before. -/
theorem takeSlot_new (geometry : Geometry slab) (ran : pageInit memory page slab = .ok memory')
    (list : Linkedlist.Links ℕ) (calls : List PageCall) :
    ∃ result, takeSlot { slab with partialList := list } memory' page calls = .ok result := by
  obtain ⟨_, again, held, _⟩ := pageInit_spec geometry memory page
  obtain rfl := Except.ok.inj (ran.symm.trans again)
  obtain ⟨offset, rest, first⟩ : ∃ offset rest, slotOffsets slab = offset :: rest :=
    List.exists_cons_of_length_pos (length_slotOffsets ▸ slotCount_pos slab)
  rw [first] at held
  obtain ⟨member, front, room, empty⟩ := held.front geometry
  obtain ⟨_, _, eq⟩ := takeSlot_ok geometry member front room empty
  exact ⟨_, eq list calls⟩

end Steps

/-! ## The two memories -/

/-- Memory that anyone writes to, next to one in which clients wrote only where they may. The headers of the
pages agree, each slot was in order when it was last taken or left, and the free chains run as they were left. -/
structure Shadow (slab : SlabAllocator) (memory clean : Memory) (owned live : List ℕ) (taken left : ℕ → Memory) :
    Prop where
  front : ∀ page ∈ owned, load16 memory (freeIndexAt page) = load16 clean (freeIndexAt page)
  count : ∀ page ∈ owned, load16 memory (allocCountAt page) = load16 clean (allocCountAt page)
  taken : ∀ ptr ∈ live, ObjectSlot slab (taken ptr) (ptr - slab.payloadOffset)
  left : ∀ page ∈ owned, ∀ offset ∈ slotOffsets slab, page + offset + slab.payloadOffset ∉ live →
    EmptySlot slab (left (page + offset)) (page + offset) ∧
      load16 (left (page + offset)) (nextAt (page + offset)) = load16 clean (nextAt (page + offset))

section Shadows

variable {slab : SlabAllocator} {memory memory' clean clean' : Memory} {owned owned' live : List ℕ}
  {taken left left' : ℕ → Memory} {free : ℕ → List ℕ} {page offset : ℕ}

theorem Shadow.mono (shadow : Shadow slab memory clean owned live taken left)
    (fewer : ∀ page ∈ owned', page ∈ owned) :
    Shadow slab memory clean owned' live taken left where
  front page owns := shadow.front page (fewer page owns)
  count page owns := shadow.count page (fewer page owns)
  taken := shadow.taken
  left page owns := shadow.left page (fewer page owns)

/-- A write that spares the headers of the owned pages. -/
theorem Shadow.write (shadow : Shadow slab memory clean owned live taken left) {address : ℕ} (byte : BitVec 8)
    (spared : ∀ page ∈ owned, address < page ∨ page + sizeofPage ≤ address) :
    Shadow slab (Function.update memory address byte) clean owned live taken left where
  front page owns := by
    have outside := spared page owns
    unfold sizeofPage at outside
    rw [← shadow.front page owns]
    unfold freeIndexAt
    exact load16_congr (Function.update_of_ne (by omega) _ _) (Function.update_of_ne (by omega) _ _)
  count page owns := by
    have outside := spared page owns
    unfold sizeofPage at outside
    rw [← shadow.count page owns]
    unfold allocCountAt
    exact load16_congr (Function.update_of_ne (by omega) _ _) (Function.update_of_ne (by omega) _ _)
  taken := shadow.taken
  left := shadow.left

/-- A slot is taken in both memories, whose free chains go on in the same way. -/
private theorem Shadow.take (shadow : Shadow slab memory clean owned live taken left)
    (stock : Stock slab clean owned live free)
    (owns : page ∈ owned) (member : offset ∈ slotOffsets slab) (moved : Taken slab memory memory' page offset)
    (moved' : Taken slab clean clean' page offset)
    (next : load16 memory (nextAt (page + offset)) = load16 clean (nextAt (page + offset))) :
    Shadow slab memory' clean' owned ((page + offset + slab.payloadOffset) :: live)
      (Function.update taken (page + offset + slab.payloadOffset) memory') left := by
  refine ⟨fun page' owns' => ?_, fun page' owns' => ?_, fun ptr listed => ?_,
    fun page' owns' offset' member' dead => ?_⟩
  · rcases eq_or_ne page page' with rfl | apart
    · rw [moved.front, moved'.front, next]
    · have away := stock.apart owns owns' apart
      rw [(moved.touches.header member stock.geometry away).1, (moved'.touches.header member stock.geometry away).1,
        shadow.front page' owns']
  · rcases eq_or_ne page page' with rfl | apart
    · rw [moved.count, moved'.count, shadow.count page owns]
    · have away := stock.apart owns owns' apart
      rw [(moved.touches.header member stock.geometry away).2, (moved'.touches.header member stock.geometry away).2,
        shadow.count page' owns']
  · rcases eq_or_ne ptr (page + offset + slab.payloadOffset) with rfl | apart
    · rw [Function.update_self, Nat.add_sub_cancel]
      exact moved.object
    · rw [Function.update_of_ne apart]
      exact shadow.taken ptr (List.mem_of_ne_of_mem apart listed)
  · obtain ⟨other, idle⟩ := not_or.mp (mt List.mem_cons.mpr dead)
    obtain ⟨empty, kept⟩ := shadow.left page' owns' offset' member' idle
    refine ⟨empty, ?_⟩
    rw [kept, moved'.touches.next stock.geometry member member' ?_]
    rcases eq_or_ne page page' with rfl | apart
    · exact .inr (.inr ⟨rfl, fun same => other (same ▸ rfl)⟩)
    · rcases stock.apart owns owns' apart with before | after
      · exact .inl before
      · exact .inr (.inl after)

/-- A live object's slot is given back in both memories. -/
private theorem Shadow.give (shadow : Shadow slab memory clean owned live taken left)
    (stock : Stock slab clean owned live free)
    (owns : page ∈ owned) (member : offset ∈ slotOffsets slab) (moved : Returned slab memory memory' page offset)
    (moved' : Returned slab clean clean' page offset) :
    Shadow slab memory' clean' owned (live.erase (page + offset + slab.payloadOffset)) taken
      (Function.update left (page + offset) memory') := by
  refine ⟨fun page' owns' => ?_, fun page' owns' => ?_,
    fun ptr listed => shadow.taken ptr (List.mem_of_mem_erase listed),
    fun page' owns' offset' member' dead => ?_⟩
  · rcases eq_or_ne page page' with rfl | apart
    · rw [moved.front, moved'.front]
    · have away := stock.apart owns owns' apart
      rw [(moved.touches.header member stock.geometry away).1, (moved'.touches.header member stock.geometry away).1,
        shadow.front page' owns']
  · rcases eq_or_ne page page' with rfl | apart
    · rw [moved.count, moved'.count, shadow.count page owns]
    · have away := stock.apart owns owns' apart
      rw [(moved.touches.header member stock.geometry away).2, (moved'.touches.header member stock.geometry away).2,
        shadow.count page' owns']
  · rcases eq_or_ne (page' + offset') (page + offset) with same | apart
    · rw [same, Function.update_self, moved.next, moved'.next, shadow.front page owns]
      exact ⟨moved.empty, rfl⟩
    · have other : page' + offset' + slab.payloadOffset ≠ page + offset + slab.payloadOffset := fun same =>
        apart (Nat.add_right_cancel same)
      obtain ⟨empty, kept⟩ := shadow.left page' owns' offset' member' fun listed =>
        dead ((List.mem_erase_of_ne other).mpr listed)
      rw [Function.update_of_ne apart]
      refine ⟨empty, ?_⟩
      rw [kept, moved'.touches.next stock.geometry member member' ?_]
      rcases eq_or_ne page page' with rfl | distinct
      · exact .inr (.inr ⟨rfl, fun same => apart (same ▸ rfl)⟩)
      · rcases stock.apart owns owns' distinct with before | after
        · exact .inl before
        · exact .inr (.inl after)

/-- What was remembered of other objects and slots does not matter. -/
theorem Shadow.relabel {taken' : ℕ → Memory} (shadow : Shadow slab memory clean owned live taken left)
    (sameTaken : ∀ ptr ∈ live, taken' ptr = taken ptr)
    (sameLeft : ∀ page ∈ owned, ∀ offset ∈ slotOffsets slab, left' (page + offset) = left (page + offset)) :
    Shadow slab memory clean owned live taken' left' where
  front := shadow.front
  count := shadow.count
  taken ptr listed := by
    rw [sameTaken ptr listed]
    exact shadow.taken ptr listed
  left page owns offset member dead := by
    rw [sameLeft page owns offset member]
    exact shadow.left page owns offset member dead

/-- A new page is set up in both memories. -/
theorem Shadow.acquire (shadow : Shadow slab memory clean owned live taken left)
    (stock : Stock slab clean owned live free) (aligned : page % SLAB_PAGE = 0) (fresh : page ∉ owned)
    {list : Linkedlist.Links ℕ} (ran : pageInit memory page { slab with partialList := list } = .ok memory')
    (ran' : pageInit clean page { slab with partialList := list } = .ok clean')
    (initialised : ∀ offset ∈ slotOffsets slab, left' (page + offset) = memory')
    (kept : ∀ page ∈ owned, ∀ offset ∈ slotOffsets slab, left' (page + offset) = left (page + offset)) :
    Shadow slab memory' clean' (page :: owned) live taken left' := by
  have geometry := stock.geometry
  obtain ⟨_, again, fits, outside⟩ := pageInit_spec (geometry.setList list) memory page
  obtain rfl := Except.ok.inj (ran.symm.trans again)
  obtain ⟨_, again', fits', outside'⟩ := pageInit_spec (geometry.setList list) clean page
  obtain rfl := Except.ok.inj (ran'.symm.trans again')
  have held : Page slab memory' page (slotOffsets slab) := fits.setList slab.partialList
  have held' : Page slab clean' page (slotOffsets slab) := fits'.setList slab.partialList
  have links (place : Option ℕ) (inside : place = none ∨ ∃ offset ∈ slotOffsets slab, place = some offset) :
      freeLinks memory' page place = freeLinks clean' page place := held.chain.next_congr held'.chain inside
  have apart {page' : ℕ} (owns' : page' ∈ owned) : page + 4096 ≤ page' ∨ page' + 4096 ≤ page := by
    obtain ⟨_, aligned', _⟩ := stock.aligned page' owns'
    have other : page' ≠ page := fun same => fresh (same ▸ owns')
    unfold SLAB_PAGE at aligned aligned'
    omega
  refine ⟨fun page' owns' => ?_, fun page' owns' => ?_, shadow.taken, fun page' owns' offset' member' dead => ?_⟩
  · rcases List.mem_cons.mp owns' with rfl | old
    · exact ofIndex_inj.mp (links none (.inl rfl))
    · have away := apart old
      unfold freeIndexAt
      rw [load16_congr (outside _ (by omega)) (outside _ (by omega)),
        load16_congr (outside' _ (by omega)) (outside' _ (by omega))]
      exact shadow.front page' old
  · rcases List.mem_cons.mp owns' with rfl | old
    · have total := held.count
      have total' := held'.count
      omega
    · have away := apart old
      unfold allocCountAt
      rw [load16_congr (outside _ (by omega)) (outside _ (by omega)),
        load16_congr (outside' _ (by omega)) (outside' _ (by omega))]
      exact shadow.count page' old
  · have bounds := geometry.offset_bounds member'
    have size := geometry.slotSize_pos
    rcases List.mem_cons.mp owns' with rfl | old
    · rw [initialised offset' member']
      exact ⟨held.empty offset' member', ofIndex_inj.mp (links (some offset') (.inr ⟨offset', member', rfl⟩))⟩
    · obtain ⟨empty, same⟩ := shadow.left page' old offset' member' dead
      have away := apart old
      rw [kept page' old offset' member']
      refine ⟨empty, same.trans ?_⟩
      unfold nextAt
      exact (load16_congr (outside' _ (by omega)) (outside' _ (by omega))).symm

/-- When `slab_alloc` passes on a page's first free slot, it does the same in both memories. -/
theorem Shadow.takeSlot (shadow : Shadow slab memory clean owned live taken left)
    (stock : Stock slab clean owned live free) (owns : page ∈ owned) {rest : List ℕ}
    (first : free page = offset :: rest)
    (next : load16 memory (nextAt (page + offset)) = load16 clean (nextAt (page + offset)))
    {list : Linkedlist.Links ℕ} {calls : List PageCall} {ptr ptr' : ℕ} {outcome outcome' : Outcome}
    (ran : takeSlot { slab with partialList := list } memory page calls = .ok (ptr, outcome))
    (ran' : takeSlot { slab with partialList := list } clean page calls = .ok (ptr', outcome')) :
    ptr' = ptr ∧ ptr ≠ 0 ∧ outcome'.slab = outcome.slab ∧ outcome.calls = calls ∧ outcome'.calls = calls ∧
      Shadow slab outcome.memory outcome'.memory owned (ptr :: live)
          (Function.update taken ptr outcome.memory) left := by
  obtain ⟨member, front, room, empty'⟩ := Page.front stock.geometry (first ▸ stock.pages page owns)
  have header := stock.geometry.header
  have front' := (shadow.front page owns).trans front
  have room' : load16 memory (allocCountAt page) + 1 < 2 ^ 16 := by rwa [shadow.count page owns]
  by_cases empty : EmptySlot slab memory (page + offset)
  · obtain ⟨_, moved, eq⟩ := takeSlot_ok stock.geometry member front' room' empty
    obtain ⟨_, moved', eq'⟩ := takeSlot_ok stock.geometry member front room empty'
    obtain ⟨rfl, rfl⟩ := Prod.mk.inj (Except.ok.inj (ran.symm.trans (eq list calls)))
    obtain ⟨rfl, rfl⟩ := Prod.mk.inj (Except.ok.inj (ran'.symm.trans (eq' list calls)))
    dsimp only
    rw [next]
    exact ⟨rfl, by omega, rfl, rfl, rfl, shadow.take stock owns member moved moved' next⟩
  · obtain ⟨message, panicked⟩ := takeSlot_panics stock.geometry member front' room' empty list calls
    cases ran.symm.trans panicked

/-- When `slab_dealloc` of a live object passes, it does the same in both memories. -/
theorem Shadow.slabDealloc (shadow : Shadow slab memory clean owned live taken left)
    (stock : Stock slab clean owned live free) (owns : page ∈ owned) (member : offset ∈ slotOffsets slab)
    (used : offset ∉ free page) {list : Linkedlist.Links ℕ} {outcome outcome' : Outcome}
    (ran : slabDealloc { slab with partialList := list } memory (page + offset + slab.payloadOffset) = .ok outcome)
    (ran' : slabDealloc { slab with partialList := list } clean (page + offset + slab.payloadOffset) = .ok outcome') :
    outcome'.slab = outcome.slab ∧ outcome'.calls = outcome.calls ∧
      (outcome.calls = [] ∨ outcome.calls = [.dealloc page]) ∧
      Shadow slab outcome.memory outcome'.memory owned (live.erase (page + offset + slab.payloadOffset)) taken
        (Function.update left (page + offset) outcome.memory) := by
  obtain ⟨_, aligned, _⟩ := stock.aligned page owns
  have held := stock.pages page owns
  have count := held.count
  have fewer := held.length_lt member used
  have counted : 1 ≤ load16 clean (allocCountAt page) := by omega
  have counted' : 1 ≤ load16 memory (allocCountAt page) := by rwa [shadow.count page owns]
  by_cases object : ObjectSlot slab memory (page + offset)
  · obtain ⟨memory', moved, eq⟩ := slabDealloc_ok stock.geometry member aligned (stock.small owns) counted' object
    obtain ⟨clean', moved', eq'⟩ := slabDealloc_ok stock.geometry member aligned (stock.small owns) counted
      (held.object offset member used)
    have same : load16 memory' (allocCountAt page) = load16 clean' (allocCountAt page) := by
      rw [moved.count, moved'.count, shadow.count page owns]
    obtain rfl := Except.ok.inj (ran.symm.trans (eq list))
    obtain rfl := Except.ok.inj (ran'.symm.trans (eq' list))
    dsimp only
    rw [settlePage_congr same, shadow.front page owns]
    exact ⟨rfl, rfl, settlePage_calls _, shadow.give stock owns member moved moved'⟩
  · obtain ⟨message, panicked⟩ := slotOnDealloc_panics stock.geometry object
    rw [slabDealloc_eq stock.geometry member aligned (stock.small owns), panicked] at ran
    cases ran

end Shadows

end RubberOS.Model.Slab
