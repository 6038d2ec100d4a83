import Mathlib.Data.Finset.Basic
import RubberOS.Proofs.Arraylist
import RubberOS.ToMathlib.LabelledRuns

/-! # An array list is a list of bytes

Runs of the operations over any allocator that hands out fresh regions. The bytes of the list behave as a list
that is opened, cut and extended, whatever the order of the operations and wherever the data move. The
requests to the allocator are recorded: a region is released once, and never while the list uses it.
-/

namespace RubberOS.Soundness.ArraylistBytes

open Model Model.Collections Windows LabelledRuns

/-! ## Allocators -/

/-- The region ends within the address space and shares no address with the others. -/
structure Fresh (regions : Set TaggedPtr) (region : TaggedPtr) : Prop where
  space : region.ptr + region.len ≤ 2 ^ 64
  apart : ∀ other ∈ regions, region.ptr + region.len ≤ other.ptr ∨ other.ptr + other.len ≤ region.ptr

/-- What a list relies on. `live` are the regions in use: an allocation adds a fresh region or answers with a
null pointer, and a region in use can be shrunk and released. -/
structure Lawful {σ : Type} (pa : Allocator σ) (live : σ → Set TaggedPtr) : Prop where
  alloc : ∀ len s, 0 < len → ∃ data capacity after, pa.alloc len s = .ok ((data, capacity), after) ∧
    (data = 0 ∧ live after = live s ∨ data ≠ 0 ∧ len ≤ capacity ∧ Fresh (live s) ⟨data, capacity⟩ ∧
      live after = insert ⟨data, capacity⟩ (live s))
  dealloc : ∀ region s, region ∈ live s →
    ∃ after, pa.dealloc region.ptr region.len s = .ok after ∧ live after = live s \ {region}
  shrink : ∀ region newLen s, region ∈ live s → 0 < newLen → newLen < region.len →
    ∃ capacity after, pa.shrink region.ptr region.len newLen s = .ok (capacity, after) ∧ newLen ≤ capacity ∧
      Fresh (live s \ {region}) ⟨region.ptr, capacity⟩ ∧
      live after = insert ⟨region.ptr, capacity⟩ (live s \ {region})

/-- A request that the allocator has answered. -/
inductive Request where
  | obtained (region : TaggedPtr)
  | shrunk (region : TaggedPtr) (capacity : ℕ)
  | released (region : TaggedPtr)
deriving DecidableEq

/-- The regions that are held after a request. Only a region that is held can be shrunk or released. -/
def settle (held : Finset TaggedPtr) : Request → Option (Finset TaggedPtr)
  | .obtained region => if region ∈ held then none else some (insert region held)
  | .shrunk region capacity =>
    if region ∈ held then some (insert ⟨region.ptr, capacity⟩ (held.erase region)) else none
  | .released region => if region ∈ held then some (held.erase region) else none

/-- The regions that are held after a log, if every request in it was of a region held then. -/
def settled (log : List Request) : Option (Finset TaggedPtr) := log.foldlM settle ∅

private theorem settled_concat {log : List Request} {held : Finset TaggedPtr} (before : settled log = some held)
    (request : Request) : settled (log ++ [request]) = settle held request := by
  rw [settled, List.foldlM_append, show log.foldlM settle ∅ = some held from before]
  exact Option.bind_fun_some (settle held request)

/-- The allocator with a log of the requests. -/
def recorded {σ : Type} (pa : Allocator σ) : Allocator (σ × List Request) where
  alloc len s := do
    let ((data, capacity), after) ← pa.alloc len s.1
    return ((data, capacity), after, if data = 0 then s.2 else s.2 ++ [.obtained ⟨data, capacity⟩])
  dealloc ptr len s := do
    let after ← pa.dealloc ptr len s.1
    return (after, s.2 ++ [.released ⟨ptr, len⟩])
  shrink ptr oldLen newLen s := do
    let (capacity, after) ← pa.shrink ptr oldLen newLen s.1
    return (capacity, after, s.2 ++ [.shrunk ⟨ptr, oldLen⟩ capacity])

private theorem recorded_alloc {σ : Type} {pa : Allocator σ} {len data capacity : ℕ} {s : σ × List Request} {after : σ}
    (ran : pa.alloc len s.1 = .ok ((data, capacity), after)) : (recorded pa).alloc len s =
      .ok ((data, capacity), after, if data = 0 then s.2 else s.2 ++ [.obtained ⟨data, capacity⟩]) := by
  change (pa.alloc len s.1 >>= _) = _
  rw [ran]
  rfl

private theorem recorded_dealloc {σ : Type} {pa : Allocator σ} {ptr len : ℕ} {s : σ × List Request} {after : σ}
    (ran : pa.dealloc ptr len s.1 = .ok after) :
    (recorded pa).dealloc ptr len s = .ok (after, s.2 ++ [.released ⟨ptr, len⟩]) := by
  change (pa.dealloc ptr len s.1 >>= _) = _
  rw [ran]
  rfl

/-- A list with the memory, the allocator and its log. -/
abbrev State (σ : Type) := Heap (σ × List Request)

inductive Event where
  | init (initialCapacity : ℕ)
  | reserve (newCapacity : ℕ)
  | resize (newSize : ℕ)
  | shrinkTo (newSize : ℕ)
  | pushBack (dataSize : ℕ)
  | popBack (dataSize : ℕ)
  | insert (pos dataSize : ℕ)
  | remove (pos dataSize : ℕ)
  /-- Anybody stores a byte anywhere. -/
  | store (address : ℕ) (value : BitVec 8)

section Runs

variable {σ : Type} (pa : Allocator σ)

/-- The sizes stay below 2^63 and the asserted bounds hold. -/
def Enabled (s : State σ) : Event → Prop
  | .init n | .reserve n | .resize n | .shrinkTo n => n < 2 ^ 63
  | .pushBack n => s.list.size + n < 2 ^ 63
  | .popBack n => n ≤ s.list.size
  | .insert pos n => pos ≤ s.list.size ∧ s.list.size + n < 2 ^ 63
  | .remove pos n => pos + n ≤ s.list.size
  | .store _ _ => True

/-- One call, and the pointer that it returns. -/
def exec (s : State σ) : Event → Result (Option ℕ × State σ)
  | .init n => return (none, ← arraylistInit (recorded pa) s n)
  | .reserve n => return (none, ← arraylistReserve (recorded pa) s n)
  | .resize n => return (none, ← arraylistResize (recorded pa) s n)
  | .shrinkTo n => return (none, ← arraylistShrinkTo (recorded pa) s n)
  | .pushBack n => return ((← arraylistPushBack (recorded pa) s n).map some id)
  | .popBack n => return (none, ← arraylistPopBack s n)
  | .insert pos n => return ((← arraylistInsert (recorded pa) s pos n).map some id)
  | .remove pos n => return (none, ← arraylistRemove s pos n)
  | .store address value => .ok (none, { s with memory := Function.update s.memory address value })

def Steps (s : State σ) (e : Event) (t : State σ) : Prop := Enabled s e ∧ ∃ pointer, exec pa s e = .ok (pointer, t)

/-- The first `size` bytes of the data. -/
def contents (s : State σ) : List (BitVec 8) := window s.memory s.list.data s.list.size

/-- What a call does to the list of bytes. The bytes of a gap are whatever the memory held. -/
def Effect (s : State σ) (pointer : Option ℕ) (t : State σ) : Event → Prop
  | .init _ => contents t = []
  | .reserve _ => contents t = contents s
  | .resize n => (contents t).length = n ∧ (contents t).take (contents s).length = (contents s).take n
  | .shrinkTo n => contents t = (contents s).take n
  | .pushBack n => pointer = some (u64 (t.list.data + s.list.size)) ∧
      ∃ gap, gap.length = n ∧ contents t = contents s ++ gap
  | .popBack n => contents t = (contents s).take ((contents s).length - n)
  | .insert pos n => pointer = some (u64 (t.list.data + pos)) ∧
      ∃ gap, gap.length = n ∧ contents t = (contents s).take pos ++ gap ++ (contents s).drop pos
  | .remove pos n => contents t = (contents s).take pos ++ (contents s).drop (pos + n)
  | .store address value =>
      contents t = if s.list.data ≤ address ∧ address < s.list.data + s.list.size then
        (contents s).set (address - s.list.data) value else contents s

/-- What a call asks the allocator for, where it asks for anything. -/
def demand (list : Arraylist) : Event → Option ℕ
  | .init n => if n = 0 then none else some n
  | .reserve n => if n ≤ list.capacity then none else some n
  | .resize n => if n ≤ list.capacity then none else some (capacityForSize n list.capacity)
  | .pushBack n =>
    if list.size + n ≤ list.capacity then none else some (capacityForSize (list.size + n) list.capacity)
  | .insert _ n => if list.size + n ≤ list.capacity then none else some (list.size + n)
  | .shrinkTo _ | .popBack _ | .remove _ _ | .store _ _ => none

/-- The allocator answers what the call asks it for with a null pointer. -/
def Refused (s : State σ) (e : Event) : Prop :=
  ∃ need, demand s.list e = some need ∧ ∃ capacity after, pa.alloc need s.allocator.1 = .ok ((0, capacity), after)

end Runs

/-! ## The list's region -/

/-- What every call keeps: the list's data are a region that is held, and everything held is in use. -/
structure Kept {σ : Type} (live : σ → Set TaggedPtr) (s : State σ) : Prop where
  fits : s.list.size ≤ s.list.capacity
  held : ∃ held, settled s.allocator.2 = some held ∧ (∀ region ∈ held, region ∈ live s.allocator.1) ∧
    (s.list.data = 0 ∧ s.list.capacity = 0 ∨
      s.list.data ≠ 0 ∧ s.list.object ∈ held ∧ s.list.data + s.list.capacity ≤ 2 ^ 64)

variable {σ : Type} {pa : Allocator σ} {live : σ → Set TaggedPtr} {s t : State σ} {need data capacity newSize pos n : ℕ}
  {memory : Memory} {list : Arraylist}

private theorem Kept.space (kept : Kept live s) :
    s.list.data + s.list.capacity ≤ 2 ^ 64 ∧ s.list.capacity < 2 ^ 64 := by
  obtain ⟨_, _, _, _, null | valid⟩ := kept
  · omega
  · omega

/-- Neither a smaller size nor the contents matter. -/
private theorem Kept.update (kept : Kept live s) (fits : newSize ≤ s.list.capacity) (memory : Memory) :
    Kept live ⟨{ s.list with size := newSize }, memory, s.allocator⟩ := by
  obtain ⟨_, held, settled, used, region⟩ := kept
  exact ⟨fits, held, settled, used, region⟩

/-- Fresh data for a list, with the log that records them. -/
private theorem Kept.obtain (lawful : Lawful pa live) (kept : Kept live s) (positive : 0 < need) :
    OutOfMemory (recorded pa) s need ∨ ∃ data capacity taken,
      (recorded pa).alloc need s.allocator = .ok ((data, capacity), taken) ∧ data ≠ 0 ∧ need ≤ capacity ∧
        Fresh (live s.allocator.1) ⟨data, capacity⟩ ∧ ∃ held, settled s.allocator.2 = some held ∧
          settled taken.2 = some (insert ⟨data, capacity⟩ held) ∧ ⟨data, capacity⟩ ∉ held ∧
            (∀ region ∈ held, region ∈ live s.allocator.1) ∧
            live taken.1 = insert ⟨data, capacity⟩ (live s.allocator.1) := by
  obtain ⟨data, capacity, after, ran, answer⟩ := lawful.alloc need s.allocator.1 positive
  rcases answer with ⟨rfl, _⟩ | ⟨valid, enough, fresh, grown⟩
  · left
    exact ⟨capacity, (after, s.allocator.2), recorded_alloc ran⟩
  · right
    obtain ⟨_, held, log, used, _⟩ := kept
    have absent : (⟨data, capacity⟩ : TaggedPtr) ∉ held := by
      intro member
      have own := fresh.apart _ (used _ member)
      dsimp only at own
      omega
    refine ⟨data, capacity, (after, s.allocator.2 ++ [.obtained ⟨data, capacity⟩]), ?_, valid, enough, fresh, held,
      log, ?_, absent, used, grown⟩
    · rw [recorded_alloc ran, if_neg valid]
    · rw [settled_concat log, settle, if_neg absent]

/-- A region that is held can be released, and is not held afterwards. -/
private theorem release_held (lawful : Lawful pa live) {region : TaggedPtr} {held : Finset TaggedPtr}
    {taken : σ × List Request} (log : settled taken.2 = some held) (used : ∀ r ∈ held, r ∈ live taken.1)
    (member : region ∈ held) : ∃ after, (recorded pa).dealloc region.ptr region.len taken = .ok after ∧
      settled after.2 = some (held.erase region) ∧ ∀ r ∈ held.erase region, r ∈ live after.1 := by
  obtain ⟨after, ran, rest⟩ := lawful.dealloc region taken.1 (used region member)
  refine ⟨(after, taken.2 ++ [.released region]), recorded_dealloc ran, ?_, fun r inside => ?_⟩
  · rw [settled_concat log, settle, if_pos member]
  · rw [rest]
    obtain ⟨differs, inside⟩ := Finset.mem_erase.mp inside
    exact ⟨used r inside, differs⟩

/-- A growth takes fresh data and gives the old ones back. -/
private theorem Kept.grow (lawful : Lawful pa live) (kept : Kept live s) (less : s.list.capacity < need) :
    OutOfMemory (recorded pa) s need ∨ ∃ data capacity after, Growth (recorded pa) s need data capacity after ∧
      (s.list.data = 0 ∨ data + capacity ≤ s.list.data ∨ s.list.data + s.list.capacity ≤ data) ∧
      ∀ size memory, size ≤ capacity → Kept live ⟨⟨data, size, capacity⟩, memory, after⟩ := by
  rcases kept.obtain lawful (Nat.zero_lt_of_lt less) with null | found
  · exact .inl null
  · right
    obtain ⟨data, capacity, taken, ran, valid, enough, fresh, held, log, log', absent, used, grown⟩ := found
    obtain ⟨_, held', same, _, region⟩ := kept
    obtain rfl : held' = held := Option.some.inj (same.symm.trans log)
    have used' : ∀ r ∈ insert ⟨data, capacity⟩ held', r ∈ live taken.1 := by
      intro r inside
      rw [grown]
      rcases Finset.mem_insert.mp inside with rfl | inside
      · exact Set.mem_insert _ _
      · exact Set.mem_insert_of_mem _ (used r inside)
    rcases region with ⟨null, _⟩ | ⟨old, member, _⟩
    · refine ⟨data, capacity, taken, ⟨⟨taken, ran, if_neg (not_not.mpr null)⟩, valid, enough, fresh.space⟩, .inl null,
        fun size memory fits => ⟨fits, _, log', used', .inr ⟨valid, Finset.mem_insert_self _ _, fresh.space⟩⟩⟩
    · obtain ⟨after, freed, log'', used''⟩ := release_held lawful log' used' (Finset.mem_insert_of_mem member)
      have differs : (⟨data, capacity⟩ : TaggedPtr) ≠ s.list.object := fun same => absent (same ▸ member)
      refine ⟨data, capacity, after, ⟨⟨taken, ran, (if_pos old).trans freed⟩, valid, enough, fresh.space⟩,
        .inr (fresh.apart _ (used _ member)),
        fun size memory fits => ⟨fits, _, log'', used'', .inr ⟨valid, ?_, fresh.space⟩⟩⟩
      exact Finset.mem_erase.mpr ⟨differs, Finset.mem_insert_self _ _⟩

/-! ## The bytes -/

private theorem Kept.null (kept : Kept live s) : s.list.data = 0 → s.list.size = 0 := by
  obtain ⟨fits, _, _, _, region⟩ := kept
  omega

/-- A list that `arraylist_init` has just set up, whatever its fields were before. -/
def Started (pa : Allocator σ) (s : State σ) : Prop :=
  ∃ garbage memory allocator n pointer, exec pa ⟨garbage, memory, allocator, []⟩ (.init n) = .ok (pointer, s)

structure Arena where
  next : ℕ
  regions : Finset TaggedPtr
  positive : 0 < next
  bound : next ≤ 2 ^ 64
  below : ∀ region ∈ regions, region.ptr + region.len ≤ next
  apart : ∀ region ∈ regions, ∀ other ∈ regions, other ≠ region →
    region.ptr + region.len ≤ other.ptr ∨ other.ptr + other.len ≤ region.ptr

def Arena.take (a : Arena) (len : ℕ) (room : a.next + len ≤ 2 ^ 64) : Arena where
  next := a.next + len
  regions := insert ⟨a.next, len⟩ a.regions
  positive := Nat.add_pos_left a.positive len
  bound := room
  below region member := by
    rcases Finset.mem_insert.mp member with rfl | member
    · exact le_rfl
    · exact (a.below region member).trans (Nat.le_add_right _ _)
  apart region member other member' differs := by
    rcases Finset.mem_insert.mp member with rfl | member <;> rcases Finset.mem_insert.mp member' with rfl | member'
    · exact absurd rfl differs
    · exact .inr (a.below other member')
    · exact .inl (a.below region member)
    · exact a.apart region member other member' differs

def Arena.give (a : Arena) (region : TaggedPtr) : Arena where
  next := a.next
  regions := a.regions.erase region
  positive := a.positive
  bound := a.bound
  below region member := a.below region (Finset.mem_of_mem_erase member)
  apart region member other member' differs :=
    a.apart region (Finset.mem_of_mem_erase member) other (Finset.mem_of_mem_erase member') differs

end RubberOS.Soundness.ArraylistBytes
