import Mathlib.Data.List.FinRange
import RubberOS.Model.Freec
import RubberOS.Model.LinkLists
import RubberOS.Model.MemoryMap

/-! # The free list of the device mapping window

`mmio_alloc_mapping` and `mmio_dealloc_mapping` reserve and release ranges of virtual addresses.
The free ranges are nodes of a fixed pool, linked in ascending order, and a node outside the list
has `begin` zero. The page tables that the two functions edit afterwards are a parameter: the free
list never depends on them, so everything here holds whatever they do.
-/

namespace RubberOS.Model.Mmio

open MemoryMap

def IOMAP_VIRT_SIZE : ℕ := 0x0000007f00000000
def IOMAP_START_VIRT : ℕ := 0xffffff8000000000

/-- The length of `nodes` in `struct mmio_freelist`. -/
abbrev NodeIndex := Fin 24

/-- `struct mmio_free_node` without its link; `limit` is the field `end`. -/
structure MmioFreeNode where
  begin : ℕ
  limit : ℕ
deriving DecidableEq, Repr

/-- `struct mmio_freelist`. -/
structure MmioFreelist where
  list : Singlylist.Links NodeIndex
  nodes : NodeIndex → MmioFreeNode

/-- The page tables below the window and the two functions that edit them. -/
structure PageTables (σ : Type) where
  mmioMap : (beginVirt endVirt phys : ℕ) → σ → Result σ
  mmioUnmap : (beginVirt endVirt : ℕ) → σ → Result σ

/-- The part of `g_meminfo` that the two functions use, and the page tables. -/
structure Meminfo (σ : Type) where
  mmioFreelist : MmioFreelist
  tables : σ

def mmioFreelistInit : MmioFreelist where
  list := Singlylist.pushFront (Singlylist.init fun _ => none) 0
  nodes := Function.update (fun _ => ⟨0, 0⟩) 0 ⟨IOMAP_START_VIRT, u64 (IOMAP_START_VIRT + IOMAP_VIRT_SIZE)⟩

def MmioFreelist.setNode (freelist : MmioFreelist) (node : NodeIndex) (value : MmioFreeNode) : MmioFreelist :=
  { freelist with nodes := Function.update freelist.nodes node value }

/-- The first node of the pool that is not in use. -/
def mmioFreelistNewnode (freelist : MmioFreelist) : Result NodeIndex :=
  match (List.finRange 24).find? fun i => (freelist.nodes i).begin = 0 with
  | some i => .ok i
  | none => panic "mmio virtual memory space is too fragmented"

/-! ## Allocation -/

/-- What the first fitting node becomes: it is used up, or it loses its front. -/
def carve (freelist : MmioFreelist) (before : Option NodeIndex) (node : NodeIndex) (nodeLen alignedLen : ℕ) :
    Result MmioFreelist :=
  let value := freelist.nodes node
  if nodeLen = alignedLen then do
    let freelist := freelist.setNode node { value with begin := 0 }
    let list ← Singlylist.removeAfter freelist.list before
    return { freelist with list }
  else .ok (freelist.setNode node { value with begin := u64 (value.begin + alignedLen) })

/-- The first-fit loop of `mmio_alloc_mapping`; it ends with `link == NULL` or with a range's begin. -/
def allocFrom (freelist : MmioFreelist) (alignedLen : ℕ) :
    ℕ → Option NodeIndex → Option NodeIndex → Result (Option (ℕ × MmioFreelist))
  | 0, _, _ => .error .nonterminating
  | _ + 1, _, none => .ok none
  | fuel + 1, before, some node =>
    let begin := (freelist.nodes node).begin
    let nodeLen := sub64 (freelist.nodes node).limit begin
    if nodeLen < alignedLen then allocFrom freelist alignedLen fuel (some node) (freelist.list (some node))
    else do
      let freelist ← carve freelist before node nodeLen alignedLen
      return some (begin, freelist)

variable {σ : Type} (pageTables : PageTables σ)

/-- `mmio_alloc_mapping`: the mapping's first address. -/
def mmioAllocMapping (meminfo : Meminfo σ) (beginPhys endPhys : ℕ) : Result (ℕ × Meminfo σ) := do
  let alignedBeginPhys := beginPhys / PAGE_SIZE * PAGE_SIZE
  let alignedLen := u64 (uptrdivCeil (sub64 endPhys alignedBeginPhys) PAGE_SIZE * PAGE_SIZE)
  let freelist := meminfo.mmioFreelist
  let found ← allocFrom freelist alignedLen 25 none (freelist.list none)
  let (begin, freelist) ← assertSome found "mmio virtual memory space is run out" "link != ((void *)0)"
  let tables ← pageTables.mmioMap begin (u64 (begin + alignedLen)) alignedBeginPhys meminfo.tables
  return (begin, { mmioFreelist := freelist, tables })

/-! ## Release -/

/-- The last merge of the loop's body: the grown range may reach its left neighbour. -/
def mergeLeft (freelist : MmioFreelist) (before : Option NodeIndex) (node : NodeIndex) : Result MmioFreelist :=
  match before with
  | none => .ok freelist
  | some left =>
    if (freelist.nodes left).limit = (freelist.nodes node).begin then do
      let freelist := freelist.setNode left { freelist.nodes left with limit := (freelist.nodes node).limit }
      let freelist := freelist.setNode node { freelist.nodes node with begin := 0 }
      let list ← Singlylist.removeAfter freelist.list before
      return { freelist with list }
    else .ok freelist

/-- Whether the node before the found one ends where the released range begins. -/
def touchesLeft (freelist : MmioFreelist) (before : Option NodeIndex) (alignedBegin : ℕ) : Option NodeIndex :=
  before.filter fun left => (freelist.nodes left).limit = alignedBegin

/-- The four shapes of a release in front of `node`. -/
def releaseBefore (freelist : MmioFreelist) (before : Option NodeIndex) (node : NodeIndex)
    (alignedBegin alignedLen : ℕ) : Result MmioFreelist :=
  if u64 (alignedBegin + alignedLen) = (freelist.nodes node).begin then
    mergeLeft (freelist.setNode node { freelist.nodes node with begin := alignedBegin }) before node
  else match touchesLeft freelist before alignedBegin with
    | some left =>
      let value := freelist.nodes left
      mergeLeft (freelist.setNode left { value with limit := u64 (value.limit + alignedLen) }) before node
    | none => do
      let newnode ← mmioFreelistNewnode freelist
      let freelist := freelist.setNode newnode ⟨alignedBegin, u64 (alignedBegin + alignedLen)⟩
      return { freelist with list := Singlylist.insertAfter freelist.list before newnode }

/-- `before_end`: where the free range in front ends, or the start of the window. -/
def beforeEnd (freelist : MmioFreelist) : Option NodeIndex → ℕ
  | some left => (freelist.nodes left).limit
  | none => IOMAP_START_VIRT

/-- The loop of `mmio_dealloc_mapping`; it ends with `link == NULL` or at the first node beyond. -/
def deallocFrom (freelist : MmioFreelist) (alignedBegin alignedLen alignedEnd : ℕ) :
    ℕ → Option NodeIndex → Option NodeIndex → Result (Option MmioFreelist)
  | 0, _, _ => .error .nonterminating
  | _ + 1, _, none => .ok none
  | fuel + 1, before, some node =>
    if alignedBegin ≥ (freelist.nodes node).begin then
      deallocFrom freelist alignedBegin alignedLen alignedEnd fuel (some node) (freelist.list (some node))
    else do
      assertMsg (beforeEnd freelist before ≤ alignedBegin ∧ alignedEnd ≤ (freelist.nodes node).begin) "invalid mmio address"
        "before_end <= aligned_begin && aligned_end <= node->begin"
      some <$> releaseBefore freelist before node alignedBegin alignedLen

def mmioDeallocMapping (meminfo : Meminfo σ) (beginVirt endVirt : ℕ) : Result (Meminfo σ) := do
  let alignedBegin := beginVirt / PAGE_SIZE * PAGE_SIZE
  let alignedLen := u64 (uptrdivCeil (sub64 endVirt alignedBegin) PAGE_SIZE * PAGE_SIZE)
  let alignedEnd := u64 (alignedBegin + alignedLen)
  let freelist := meminfo.mmioFreelist
  let found ← deallocFrom freelist alignedBegin alignedLen alignedEnd 25 none (freelist.list none)
  let freelist ← assertSome found "invalid mmio address" "link != ((void *)0)"
  let tables ← pageTables.mmioUnmap alignedBegin (u64 (alignedBegin + alignedLen)) meminfo.tables
  return { mmioFreelist := freelist, tables }

end RubberOS.Model.Mmio
