import RubberOS.Proofs.SlabCalls
import RubberOS.ToMathlib.LabelledRuns

/-! # Runs of the slab allocator

A run starts with an initialised allocator and any memory. It interleaves allocations, for which the
page allocator gives any answer it may, releases of live objects, and writes by anyone outside the
owned pages or inside live payloads. The bookkeeping in the pages follows the live objects, every
call passes its checks, and live objects are disjoint.
-/

namespace RubberOS.Soundness.SlabRuns

open Model Model.Slab SinglyLinked LabelledRuns

/-- The allocator with memory, the pages it owns and the objects in use. -/
structure State where
  slab : SlabAllocator
  memory : Memory
  owned : List ℕ
  live : List ℕ

inductive Event where
  | alloc (answer : ℕ)
  | dealloc (ptr : ℕ)
  | write (address : ℕ) (byte : BitVec 8)

def initial (slab : SlabAllocator) (memory : Memory) : State := ⟨slab, memory, [], []⟩

/-- Answers that a page allocator may give, releases of live objects, and writes that spare what the
allocator keeps in its pages. -/
def Enabled (s : State) : Event → Prop
  | .alloc answer => Answers s.owned answer
  | .dealloc ptr => ptr ∈ s.live
  | .write address _ => (∃ ptr ∈ s.live, ptr ≤ address ∧ address < ptr + s.slab.objectSize) ∨
      ∀ page ∈ s.owned, address < page ∨ page + SLAB_PAGE ≤ address

/-- The pages owned after a call to the page allocator. -/
def afterCall (owned : List ℕ) : PageCall → List ℕ
  | .alloc answer => if answer = 0 then owned else answer :: owned
  | .dealloc page => owned.erase page

def exec (s : State) : Event → Result State
  | .alloc answer => do
    let (ptr, outcome) ← slabAlloc s.slab s.memory answer
    return { slab := outcome.slab, memory := outcome.memory, owned := outcome.calls.foldl afterCall s.owned,
             live := if ptr = 0 then s.live else ptr :: s.live }
  | .dealloc ptr => do
    let outcome ← slabDealloc s.slab s.memory ptr
    return { slab := outcome.slab, memory := outcome.memory, owned := outcome.calls.foldl afterCall s.owned,
             live := s.live.erase ptr }
  | .write address byte => .ok { s with memory := Function.update s.memory address byte }

abbrev Reaches (slab : SlabAllocator) (memory : Memory) : List Event → State → Prop :=
  Run (Guarded Enabled exec) (initial slab memory)

/-! ## What is claimed of a state -/

/-- An owned page with a slot that holds no live object. -/
def HasFree (s : State) (page : ℕ) : Prop := ∃ offset ∈ slotOffsets s.slab, offset ∉ liveSlots s.slab s.live page

/-- The bookkeeping of an owned page agrees with its live slots. -/
structure PageSound (s : State) (page : ℕ) : Prop where
  count : load16 s.memory (allocCountAt page) = (liveSlots s.slab s.live page).length
  busy : 1 ≤ (liveSlots s.slab s.live page).length
  chain : ∃ free, Chain (freeLinks s.memory page) none free ∧ free.Nodup ∧
    ∀ offset, offset ∈ free ↔ offset ∈ slotOffsets s.slab ∧ offset ∉ liveSlots s.slab s.live page

structure Sound (s : State) : Prop where
  owned : s.owned.Nodup
  live : s.live.Nodup
  placed : ∀ ptr ∈ s.live, ∃ page ∈ s.owned, ∃ offset ∈ liveSlots s.slab s.live page,
    page + offset + s.slab.payloadOffset = ptr
  partials : ∃ pages, Linkedlist.Linked s.slab.partialList pages ∧ pages.Nodup ∧
    ∀ page, page ∈ pages ↔ page ∈ s.owned ∧ HasFree s page
  pages : ∀ page ∈ s.owned, PageSound s page

/-- The address of an object's slot. -/
def slotOf (slab : SlabAllocator) (ptr : ℕ) : ℕ := ptr - slab.payloadOffset

/-! ## The invariant -/

/-- The books of a state, for a slab that differs from the initial one only in its list. -/
structure Holds (slab : SlabAllocator) (s : State) : Prop where
  shape : ∃ list, s.slab = { slab with partialList := list }
  books : ∃ free partials, Books s.slab s.memory s.owned s.live free partials

section Steps

variable {slab : SlabAllocator} {memory : Memory} {s : State} {es : List Event} {free : ℕ → List ℕ} {partials : List ℕ}
  {page ptr answer : ℕ}

theorem initial_holds (geometry : Geometry slab) (empty : Linkedlist.Linked slab.partialList []) :
    Holds slab (initial slab memory) := by
  refine ⟨⟨slab.partialList, rfl⟩, fun _ => [], [],
    ⟨geometry, List.nodup_nil, ?_, ?_, List.nodup_nil, fun ptr => ?_⟩, ?_,
    empty, List.nodup_nil, fun page => ?_⟩
  all_goals simp [initial]

/-- The answer to an allocation by the books. -/
theorem Holds.alloc (holds : Holds slab s) (answers : Answers s.owned answer) :
    ∃ ptr outcome, slabAlloc s.slab s.memory answer = .ok (ptr, outcome) ∧
      Holds slab ⟨outcome.slab, outcome.memory, outcome.calls.foldl afterCall s.owned,
        if ptr = 0 then s.live else ptr :: s.live⟩ := by
  obtain ⟨⟨list, shape⟩, free, partials, books⟩ := holds
  obtain ⟨ptr, outcome, ran, found⟩ := slabAlloc_spec books answers
  refine ⟨ptr, outcome, ran, ?_⟩
  rcases found with ⟨_, calls, done⟩ | ⟨_, nonnull, calls, done⟩ | ⟨_, rfl, rfl, rfl⟩
  · rw [if_neg done.nonnull, calls]
    obtain ⟨list', same⟩ := done.shape
    exact ⟨⟨list', by rw [same, shape]⟩, done.books⟩
  · rw [if_neg done.nonnull, calls, List.foldl_cons, List.foldl_nil, afterCall, if_neg nonnull]
    obtain ⟨list', same⟩ := done.shape
    exact ⟨⟨list', by rw [same, shape]⟩, done.books⟩
  · exact ⟨⟨list, shape⟩, free, partials, books⟩

/-- A release of a live object, with the page it lies in. -/
theorem Holds.dealloc (holds : Holds slab s) (member : ptr ∈ s.live) :
    ∃ page ∈ s.owned, ∃ outcome, (page ≤ ptr ∧ ptr < page + SLAB_PAGE) ∧
      slabDealloc s.slab s.memory ptr = .ok outcome ∧
      Holds slab ⟨outcome.slab, outcome.memory, outcome.calls.foldl afterCall s.owned, s.live.erase ptr⟩ ∧
      outcome.calls = if liveSlots s.slab (s.live.erase ptr) page = [] then [.dealloc page] else [] := by
  obtain ⟨⟨list, shape⟩, free, partials, books⟩ := holds
  have stock := books.stock
  obtain ⟨page, owns, offset, inside, dead, rfl⟩ := stock.find member
  have bounds := stock.geometry.offset_bounds inside
  have redzone := stock.geometry.redzone
  unfold REDZONE_SIZE at redzone
  obtain ⟨outcome, ran, released⟩ := slabDealloc_spec books owns inside dead
  -- the page's live slots after the release, counted by the stock of one step
  obtain ⟨_, _, _, after⟩ := stock.give owns inside dead
  have remaining := after.length_liveSlots owns
  rw [Function.update_self, List.length_cons] at remaining
  refine ⟨page, owns, outcome, ⟨by omega, by unfold SLAB_PAGE; omega⟩, ran, ?_⟩
  rcases released with ⟨kept, calls, done⟩ | ⟨last, calls, done⟩
  · obtain ⟨list', same⟩ := done.shape
    rw [calls, if_neg (fun none => by rw [none, List.length_nil] at remaining; omega)]
    exact ⟨⟨⟨list', by rw [same, shape]⟩, done.books⟩, rfl⟩
  · obtain ⟨list', same⟩ := done.shape
    rw [calls, if_pos (List.length_eq_zero_iff.mp (by omega))]
    exact ⟨⟨⟨list', by rw [same, shape]⟩, done.books⟩, rfl⟩

/-- Every call that is allowed returns, and keeps the books. -/
theorem Holds.step (holds : Holds slab s) {e : Event} (enabled : Enabled s e) :
    ∃ t, exec s e = .ok t ∧ Holds slab t := by
  cases e with
  | alloc answer =>
    obtain ⟨ptr, outcome, ran, kept⟩ := holds.alloc enabled
    exact ⟨_, by rw [exec, ran, Except.ok_bind]; rfl, kept⟩
  | dealloc ptr =>
    obtain ⟨page, owns, outcome, _, ran, kept, _⟩ := holds.dealloc enabled
    exact ⟨_, by rw [exec, ran, Except.ok_bind]; rfl, kept⟩
  | write address byte =>
    obtain ⟨shape, free, partials, books⟩ := holds
    exact ⟨_, rfl, shape, free, partials, books.stock.write byte enabled, books.used, books.linked,
      books.distinct, books.listed⟩

theorem Reaches.holds (start : Holds slab (initial slab memory)) (run : Reaches slab memory es s) :
    Holds slab s :=
  Run.invariant run start fun _ _ _ holds step => by
    obtain ⟨t, ran, kept⟩ := holds.step step.1
    rwa [← Except.ok.inj (step.2.symm.trans ran)] at kept

/-! ## Reading the books -/

private theorem hasFree_iff (books : Books s.slab s.memory s.owned s.live free partials) (owns : page ∈ s.owned) :
    HasFree s page ↔ free page ≠ [] := by
  have same (offset : ℕ) : offset ∈ liveSlots s.slab s.live page ↔ _ := books.stock.mem_liveSlots owns
  constructor
  · rintro ⟨offset, member, dead⟩ none
    rw [same, none] at dead
    exact dead ⟨member, List.not_mem_nil⟩
  · intro nonempty
    obtain ⟨offset, rest, first⟩ := List.exists_cons_of_ne_nil nonempty
    have member : offset ∈ free page := first ▸ .head _
    refine ⟨offset, (books.stock.pages page owns).slots offset member, fun live => ?_⟩
    exact ((same offset).mp live).2 member

theorem Holds.sound (holds : Holds slab s) : Sound s := by
  obtain ⟨_, free, partials, books⟩ := holds
  have stock := books.stock
  refine ⟨stock.nodup, stock.distinct, fun ptr member => ?_,
    ⟨partials, books.linked, books.distinct, fun page => ?_⟩,
    fun page owns => ?_⟩
  · obtain ⟨page, owns, offset, inside, dead, same⟩ := stock.find member
    exact ⟨page, owns, offset, (stock.mem_liveSlots owns).mpr ⟨inside, dead⟩, same⟩
  · rw [books.listed]
    exact and_congr_right fun owns => (hasFree_iff books owns).symm
  · have held := stock.pages page owns
    have length := stock.length_liveSlots owns
    have count := held.count
    have used := books.used page owns
    refine ⟨by omega, by omega, free page, held.chain, held.nodup, fun offset => ?_⟩
    rw [stock.mem_liveSlots owns, not_and, not_not]
    exact ⟨fun member => ⟨held.slots offset member, fun _ => member⟩, fun member => member.2 member.1⟩

/-- A live object is aligned as its slab is. -/
private theorem Holds.aligned (holds : Holds slab s) (aligned : Aligned slab) (member : ptr ∈ s.live) :
    ptr % slab.objectAlign = 0 := by
  obtain ⟨⟨list, shape⟩, free, partials, books⟩ := holds
  obtain ⟨page, owns, offset, inside, _, rfl⟩ := books.stock.find member
  obtain ⟨_, pageAligned, _⟩ := books.stock.aligned page owns
  rw [shape] at inside ⊢
  exact aligned.payload_aligned pageAligned inside

/-- A live object's slot lies in one owned page behind its header. -/
theorem Holds.object (holds : Holds slab s) (member : ptr ∈ s.live) :
    ∃ page ∈ s.owned, pageFromSlot (slotOf s.slab ptr) = page ∧
      page + sizeofPage ≤ slotOf s.slab ptr ∧ slotOf s.slab ptr + s.slab.slotSize ≤ page + SLAB_PAGE ∧
      slotOf s.slab ptr + s.slab.payloadOffset = ptr := by
  obtain ⟨_, free, partials, books⟩ := holds
  have stock := books.stock
  obtain ⟨page, owns, offset, inside, _, rfl⟩ := stock.find member
  obtain ⟨_, aligned, _⟩ := stock.aligned page owns
  have bounds := stock.geometry.offset_bounds inside
  have size := stock.geometry.slotSize_pos
  have small := stock.small owns
  have slot : slotOf s.slab (page + offset + s.slab.payloadOffset) = page + offset := Nat.add_sub_cancel ..
  rw [slot]
  refine ⟨page, owns, pageFromSlot_eq aligned (by omega) (by omega) (by omega), ?_, ?_, rfl⟩
  · exact Nat.add_le_add_left bounds.1 page
  · unfold SLAB_PAGE
    omega

/-- The slots of distinct live objects do not overlap. -/
theorem Holds.apart (holds : Holds slab s) {other : ℕ} (member : ptr ∈ s.live) (member' : other ∈ s.live)
    (distinct : ptr ≠ other) : slotOf s.slab ptr + s.slab.slotSize ≤ slotOf s.slab other ∨
      slotOf s.slab other + s.slab.slotSize ≤ slotOf s.slab ptr := by
  obtain ⟨_, free, partials, books⟩ := holds
  have stock := books.stock
  obtain ⟨page, owns, offset, inside, _, rfl⟩ := stock.find member
  obtain ⟨page', owns', offset', inside', _, rfl⟩ := stock.find member'
  have bounds := stock.geometry.offset_bounds inside
  have bounds' := stock.geometry.offset_bounds inside'
  simp only [slotOf, Nat.add_sub_cancel]
  rcases eq_or_ne page page' with rfl | apart
  · have slots := offsets_apart inside inside' fun same => distinct (same ▸ rfl)
    omega
  · have pages := stock.apart owns owns' apart
    omega

/-- The slot of a live object meets no owned page's header. -/
theorem Holds.header (holds : Holds slab s) (member : ptr ∈ s.live) (owns : page ∈ s.owned) :
    slotOf s.slab ptr + s.slab.slotSize ≤ page ∨ page + sizeofPage ≤ slotOf s.slab ptr := by
  obtain ⟨page', owns', _, lower, upper, _⟩ := holds.object member
  obtain ⟨_, free, partials, books⟩ := holds
  rcases eq_or_ne page' page with rfl | apart
  · exact .inr lower
  · have pages := books.stock.apart owns' owns apart
    unfold SLAB_PAGE sizeofPage at *
    omega

end Steps

section Claims

variable {raw slab : SlabAllocator} {size k : ℕ} {memory : Memory} {es : List Event} {s : State}

theorem holds_of_accepted (accepted : slabInit raw size (2 ^ k) = .ok slab) (run : Reaches slab memory es s) :
    Holds slab s := by
  obtain ⟨geometry, _, _, list⟩ := slabInit_geometry (Nat.two_pow_pos k) accepted
  exact Reaches.holds (initial_holds geometry (list ▸ Linkedlist.init_linked raw.partialList)) run

/-- In every state reached the partial list, the counters and the free chains agree with the live
objects, and the calls to the page allocator are those that this calls for. -/
theorem slab_pages_sound (accepted : slabInit raw size (2 ^ k) = .ok slab) (run : Reaches slab memory es s) :
    Sound s ∧
    (∀ answer, Enabled s (.alloc answer) → ∃ ptr outcome, slabAlloc s.slab s.memory answer = .ok (ptr, outcome) ∧
      (outcome.calls = [] ∧ (∃ page ∈ s.owned, HasFree s page) ∨
        outcome.calls = [.alloc answer] ∧ ∀ page ∈ s.owned, ¬ HasFree s page) ∧
      (outcome.calls = [.alloc 0] → ptr = 0 ∧ outcome.slab = s.slab ∧ outcome.memory = s.memory)) ∧
    (∀ ptr ∈ s.live, ∃ page ∈ s.owned, ∃ outcome, (page ≤ ptr ∧ ptr < page + SLAB_PAGE) ∧
      slabDealloc s.slab s.memory ptr = .ok outcome ∧
      outcome.calls = if liveSlots s.slab (s.live.erase ptr) page = [] then [.dealloc page] else []) := by
  have holds := holds_of_accepted accepted run
  refine ⟨holds.sound, fun answer answers => ?_, fun ptr member => ?_⟩
  · obtain ⟨_, free, partials, books⟩ := holds
    have none (empty : partials = []) (page : ℕ) (owns : page ∈ s.owned) : ¬ HasFree s page := fun open' => by
      have listed := (books.listed page).mpr ⟨owns, (hasFree_iff books owns).mp open'⟩
      rw [empty] at listed
      exact List.not_mem_nil listed
    obtain ⟨ptr, outcome, ran, found⟩ := slabAlloc_spec books answers
    refine ⟨ptr, outcome, ran, ?_⟩
    rcases found with ⟨some, calls, _⟩ | ⟨empty, nonnull, calls, _⟩ | ⟨empty, rfl, rfl, rfl⟩
    · obtain ⟨page, rest, rfl⟩ := List.exists_cons_of_ne_nil some
      obtain ⟨owns, nonempty⟩ := (books.listed page).mp (.head _)
      rw [calls]
      exact ⟨.inl ⟨rfl, page, owns, (hasFree_iff books owns).mpr nonempty⟩, fun called => by cases called⟩
    · rw [calls]
      refine ⟨.inr ⟨rfl, none empty⟩, fun called => ?_⟩
      cases called
      exact (nonnull rfl).elim
    · exact ⟨.inr ⟨rfl, none empty⟩, fun _ => ⟨rfl, rfl, rfl⟩⟩
  · obtain ⟨page, owns, outcome, inside, ran, _, calls⟩ := holds.dealloc member
    exact ⟨page, owns, outcome, inside, ran, calls⟩

/-- An allocator whose fields are still unset. -/
def unset : SlabAllocator := ⟨⟨fun _ => none, fun _ => none⟩, 0, 0, 0, 0⟩

/-- An allocation that gets the page it may need returns an object. -/
theorem Holds.alloc_object (holds : Holds slab s) (answers : Answers s.owned answer) (given : answer ≠ 0) :
    ∃ ptr t, exec s (.alloc answer) = .ok t ∧ t.live = ptr :: s.live ∧ t.owned ⊆ answer :: s.owned := by
  obtain ⟨_, free, partials, books⟩ := holds
  obtain ⟨ptr, outcome, ran, found⟩ := slabAlloc_spec books answers
  refine ⟨ptr, _, by rw [exec, ran, Except.ok_bind]; rfl, ?_⟩
  rcases found with ⟨_, calls, done⟩ | ⟨_, _, calls, done⟩ | ⟨_, null, _⟩
  · exact ⟨if_neg done.nonnull, by rw [calls]; exact List.subset_cons_self _ _⟩
  · refine ⟨if_neg done.nonnull, ?_⟩
    rw [calls, List.foldl_cons, List.foldl_nil, afterCall, if_neg given]
    exact List.Subset.refl _
  · exact absurd null given

/-- Two objects, of which the first is written to and given back. -/
def firstCalls (ptr : ℕ) : List Event := [.alloc 0x8000, .alloc 0x9000, .write ptr 7, .dealloc ptr]

/-- The run of these calls on objects of 64 bytes aligned to 8. -/
private theorem first_run : ∃ slab s ptr other, slabInit unset 64 (2 ^ 3) = .ok slab ∧
    Reaches slab (fun _ => 0) (firstCalls ptr) s ∧ s.live = [other] := by
  obtain ⟨slab, accepted⟩ : ∃ slab, slabInit unset 64 (2 ^ 3) = .ok slab := ⟨_, rfl⟩
  have size : slab.objectSize = 64 := (slabInit_geometry (by decide) accepted).2.1
  have start : Holds slab (initial slab fun _ => 0) := holds_of_accepted accepted .nil
  have answers : Enabled (initial slab fun _ => 0) (.alloc 0x8000) := .inr ⟨by decide, by decide, List.not_mem_nil⟩
  obtain ⟨ptr, one, ranOne, live₁, owned₁⟩ := start.alloc_object answers (by decide)
  have run₁ : Reaches slab (fun _ => 0) [.alloc 0x8000] one := .single ⟨answers, ranOne⟩
  have next : Enabled one (.alloc 0x9000) :=
    .inr ⟨by decide, by decide, fun owns => absurd (List.mem_singleton.mp (owned₁ owns)) (by decide)⟩
  obtain ⟨other, two, ranTwo, live₂, _⟩ := (holds_of_accepted accepted run₁).alloc_object next (by decide)
  have run₂ := run₁.snoc (e := .alloc 0x9000) ⟨next, ranTwo⟩
  have holds₂ := holds_of_accepted accepted run₂
  rw [live₁] at live₂
  have member : ptr ∈ two.live := by
    rw [live₂]
    exact .tail _ (.head _)
  have inside : Enabled two (.write ptr 7) := by
    obtain ⟨list, shape⟩ := holds₂.shape
    refine .inl ⟨ptr, member, le_rfl, ?_⟩
    rw [shape, size]
    exact Nat.lt_add_of_pos_right (by decide)
  obtain ⟨three, ranThree, _⟩ := holds₂.step inside
  cases ranThree
  have run₃ := run₂.snoc (e := .write ptr 7) ⟨inside, rfl⟩
  have given : Enabled { two with memory := Function.update two.memory ptr 7 } (.dealloc ptr) := member
  obtain ⟨four, ranFour, _⟩ := (holds_of_accepted accepted run₃).step given
  refine ⟨slab, four, ptr, other, accepted, run₃.snoc ⟨given, ranFour⟩, ?_⟩
  have distinct := holds₂.sound.live
  rw [live₂, List.nodup_cons] at distinct
  have ran := ranFour
  simp only [exec, Except.bind_ok_iff, Except.pure_ok_iff] at ran
  obtain ⟨outcome, _, rfl⟩ := ran
  have apart : other ≠ ptr := fun same => distinct.1 (same ▸ List.mem_singleton_self _)
  rw [live₂, List.erase_cons_tail (by simpa using apart), List.erase_cons_head]
  rfl

theorem slab_pages_sound_first : ∃ slab s ptr other, slabInit unset 64 (2 ^ 3) = .ok slab ∧
    Reaches slab (fun _ => 0) (firstCalls ptr) s ∧ s.live = [other] ∧ Sound s := by
  obtain ⟨slab, s, ptr, other, accepted, run, live⟩ := first_run
  exact ⟨slab, s, ptr, other, accepted, run, live, (slab_pages_sound accepted run).1⟩

/-- No call of a client that writes only inside its live payloads fails a check. Every object that
an allocation returns is aligned, zeroed and inside an owned page, and live slots are disjoint from
each other and from the headers. -/
theorem slab_objects_sound (accepted : slabInit raw size (2 ^ k) = .ok slab) (run : Reaches slab memory es s) :
    (∀ e, Enabled s e → ∃ t, exec s e = .ok t) ∧
    (∀ answer ptr outcome, Enabled s (.alloc answer) → slabAlloc s.slab s.memory answer = .ok (ptr, outcome) → ptr ≠ 0 →
      ptr % 2 ^ k = 0 ∧ (∀ i < size, outcome.memory (ptr + i) = 0) ∧
      ∃ page ∈ outcome.calls.foldl afterCall s.owned, page + sizeofPage ≤ ptr ∧ ptr + size ≤ page + SLAB_PAGE) ∧
    (∀ ptr ∈ s.live, (∃ page ∈ s.owned, pageFromSlot (slotOf s.slab ptr) = page ∧ page + sizeofPage ≤ slotOf s.slab ptr ∧
        slotOf s.slab ptr + s.slab.slotSize ≤ page + SLAB_PAGE) ∧
      (∀ other ∈ s.live, ptr ≠ other → slotOf s.slab ptr + s.slab.slotSize ≤ slotOf s.slab other ∨
        slotOf s.slab other + s.slab.slotSize ≤ slotOf s.slab ptr) ∧
      ∀ page ∈ s.owned, slotOf s.slab ptr + s.slab.slotSize ≤ page ∨ page + sizeofPage ≤ slotOf s.slab ptr) := by
  have holds := holds_of_accepted accepted run
  obtain ⟨geometry, objectSize, objectAlign, _⟩ := slabInit_geometry (Nat.two_pow_pos k) accepted
  refine ⟨fun e enabled => ?_, fun answer ptr outcome answers ran nonnull => ?_,
    fun ptr member => ⟨?_, ?_, ?_⟩⟩
  · obtain ⟨t, ran, _⟩ := holds.step enabled
    exact ⟨t, ran⟩
  · obtain ⟨⟨list, shape⟩, free, partials, books⟩ := id holds
    -- the object is live in the state after the call
    obtain ⟨ptr', outcome', ran', kept⟩ := holds.alloc answers
    obtain ⟨rfl, rfl⟩ := Prod.mk.inj (Except.ok.inj (ran.symm.trans ran'))
    rw [if_neg nonnull] at kept
    have aligned := kept.aligned (slabInit_aligned accepted) List.mem_cons_self
    obtain ⟨page, owns, _, lower, upper, payload⟩ := kept.object List.mem_cons_self
    obtain ⟨list', shape'⟩ := kept.shape
    dsimp only at shape' lower upper payload owns
    have redzone := geometry.redzone
    rw [shape'] at lower upper payload
    simp only [slotOf] at lower upper payload
    refine ⟨objectAlign ▸ aligned, ?_, page, owns, by omega, by omega⟩
    obtain ⟨ptr'', outcome'', ran'', found⟩ := slabAlloc_spec books answers
    obtain ⟨rfl, rfl⟩ := Prod.mk.inj (Except.ok.inj (ran.symm.trans ran''))
    have zeroed : ∀ i < s.slab.objectSize, outcome.memory (ptr + i) = 0 := by
      rcases found with ⟨_, _, done⟩ | ⟨_, _, _, done⟩ | ⟨_, _, null, _⟩
      · exact done.zeroed
      · exact done.zeroed
      · exact (nonnull null).elim
    rw [shape] at zeroed
    exact objectSize ▸ zeroed
  · obtain ⟨page, owns, masked, lower, upper, _⟩ := holds.object member
    exact ⟨page, owns, masked, lower, upper⟩
  · exact fun other member' distinct => holds.apart member member' distinct
  · exact fun page owns => holds.header member owns

theorem slab_objects_sound_first : ∃ slab s ptr other, slabInit unset 64 (2 ^ 3) = .ok slab ∧
    Reaches slab (fun _ => 0) (firstCalls ptr) s ∧ s.live = [other] ∧ (∀ e, Enabled s e → ∃ t, exec s e = .ok t) ∧
    ∀ ptr ∈ s.live, ∃ page ∈ s.owned, pageFromSlot (slotOf s.slab ptr) = page := by
  obtain ⟨slab, s, ptr, other, accepted, run, live⟩ := first_run
  obtain ⟨passes, _, objects⟩ := slab_objects_sound accepted run
  refine ⟨slab, s, ptr, other, accepted, run, live, passes, fun ptr member => ?_⟩
  obtain ⟨⟨page, owns, masked, _⟩, _⟩ := objects ptr member
  exact ⟨page, owns, masked⟩

end Claims

end RubberOS.Soundness.SlabRuns
