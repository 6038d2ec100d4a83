import Mathlib.Data.Fintype.Card
import RubberOS.Proofs.MmioFreelist
import RubberOS.ToMathlib.LabelledRuns

/-! # Runs of device mappings

A run starts with the initial free list and interleaves reservations with releases of live ranges.
While the page-rounded length of every reservation fits in a word, the listed nodes and the live
ranges partition the window. A length that wraps to zero breaks this at once: the source hands out
an address for a range that it never reserved.
-/

namespace RubberOS.Soundness.MmioRuns

open Model Model.Mmio Model.MemoryMap SinglyLinked SpacedRanges LabelledRuns

variable {σ : Type}

/-- The kernel's state with the book of live virtual ranges. -/
structure State (σ : Type) where
  meminfo : Meminfo σ
  live : List (ℕ × ℕ)

inductive Event where
  | alloc (beginPhys endPhys : ℕ)
  | dealloc (range : ℕ × ℕ) (beginVirt endVirt : ℕ)

def initial (tables : σ) : State σ := ⟨⟨mmioFreelistInit, tables⟩, []⟩

/-- The page-rounded length of a physical range. -/
def roundedLen (beginPhys endPhys : ℕ) : ℕ :=
  uptrdivCeil (endPhys - beginPhys / PAGE_SIZE * PAGE_SIZE) PAGE_SIZE * PAGE_SIZE

/-- The arguments of a release that round to the given range. -/
def Names (range : ℕ × ℕ) (beginVirt endVirt : ℕ) : Prop :=
  beginVirt / PAGE_SIZE * PAGE_SIZE = range.1 ∧ uptrdivCeil endVirt PAGE_SIZE * PAGE_SIZE = range.2 ∧ endVirt < 2 ^ 64

instance (range : ℕ × ℕ) (beginVirt endVirt : ℕ) : Decidable (Names range beginVirt endVirt) :=
  inferInstanceAs (Decidable (_ ∧ _))

def Enabled (s : State σ) : Event → Prop
  | .alloc beginPhys endPhys => beginPhys < endPhys ∧ endPhys < 2 ^ 64
  | .dealloc range beginVirt endVirt => range ∈ s.live ∧ Names range beginVirt endVirt

/-- One call, with the range that a reservation stands for entered in the book. -/
def exec (pageTables : PageTables σ) (s : State σ) : Event → Result (State σ)
  | .alloc beginPhys endPhys => do
    let (begin, meminfo) ← mmioAllocMapping pageTables s.meminfo beginPhys endPhys
    return { meminfo, live := (begin, begin + roundedLen beginPhys endPhys) :: s.live }
  | .dealloc range beginVirt endVirt => do
    let meminfo ← mmioDeallocMapping pageTables s.meminfo beginVirt endVirt
    return { meminfo, live := s.live.erase range }

/-- The free list is in order and its nodes are those in use, and with the live ranges it partitions
the window. -/
structure Sound (s : State σ) : Prop where
  partition : ∃ order, Ordered s.meminfo.mmioFreelist order ∧ ∀ point,
    covering (s.live ++ order.map s.meminfo.mmioFreelist.range) point =
      if IOMAP_START_VIRT ≤ point ∧ point < iomapEnd then 1 else 0
  live : ∀ range ∈ s.live, range.1 < range.2

/-- The calls whose page-rounded length fits in a word. -/
def Fits : Event → Prop
  | .alloc beginPhys endPhys => roundedLen beginPhys endPhys < 2 ^ 64
  | .dealloc _ _ _ => True

private theorem initial_ordered : Ordered mmioFreelistInit [0] where
  chain := ⟨rfl, rfl⟩
  nodup := by decide
  used := by decide
  spaced := ⟨by decide, List.pairwise_singleton _ _⟩
  inside := by decide

theorem initial_sound (tables : σ) : Sound (initial tables) := by
  have first : mmioFreelistInit.range 0 = (IOMAP_START_VIRT, iomapEnd) := by decide
  refine ⟨⟨[0], initial_ordered, fun point => ?_⟩, fun range member => (List.not_mem_nil member).elim⟩
  change covering ([] ++ [mmioFreelistInit.range 0]) point = _
  rw [first, List.nil_append, covering_cons]
  rfl

section Steps

variable {pageTables : PageTables σ} {s t : State σ} {order : List NodeIndex}

/-- The rounded length of a nonempty physical range, as the source computes it. -/
theorem alignedLen_eq {beginPhys endPhys : ℕ} (nonempty : beginPhys < endPhys) (small : endPhys < 2 ^ 64)
    (fits : roundedLen beginPhys endPhys < 2 ^ 64) :
    u64 (uptrdivCeil (sub64 endPhys (beginPhys / PAGE_SIZE * PAGE_SIZE)) PAGE_SIZE * PAGE_SIZE) =
      roundedLen beginPhys endPhys ∧ 0 < roundedLen beginPhys endPhys := by
  have page := Nat.div_mul_le_self beginPhys PAGE_SIZE
  have length := uptrdivCeil_bounds (endPhys - beginPhys / PAGE_SIZE * PAGE_SIZE) (y := PAGE_SIZE) (by decide)
  rw [sub64_of_le (by omega) small]
  refine ⟨u64_of_lt fits, ?_⟩
  unfold roundedLen
  omega

/-- The aligned bounds that a release computes are those of the range its arguments name. -/
private theorem Names.rounded {range : ℕ × ℕ} {beginVirt endVirt : ℕ} (names : Names range beginVirt endVirt)
    (nonempty : range.1 < range.2) (bound : range.2 < 2 ^ 64) :
    beginVirt / PAGE_SIZE * PAGE_SIZE = range.1 ∧
      u64 (uptrdivCeil (sub64 endVirt range.1) PAGE_SIZE * PAGE_SIZE) = range.2 - range.1 := by
  obtain ⟨first, last, small⟩ := names
  have round := uptrdivCeil_bounds endVirt (y := 4096) (by decide)
  have length := uptrdivCeil_bounds (endVirt - range.1) (y := 4096) (by decide)
  rw [show PAGE_SIZE = 4096 from rfl] at first last ⊢
  rw [← first, ← last] at nonempty
  rw [← last] at bound
  rw [← first] at length
  have whole : uptrdivCeil (endVirt - beginVirt / 4096 * 4096) 4096 * 4096 =
      uptrdivCeil endVirt 4096 * 4096 - beginVirt / 4096 * 4096 := by
    clear bound first last
    generalize beginVirt / 4096 = bottom at *
    omega
  have below : beginVirt / 4096 * 4096 ≤ endVirt := by
    clear bound first last length whole
    generalize beginVirt / 4096 = bottom at *
    omega
  refine ⟨first, ?_⟩
  rw [← first, ← last, sub64_of_le below small, whole, u64_of_lt (by omega)]

theorem Ordered.length_lt {freelist : MmioFreelist} (ordered : Ordered freelist order) :
    order.length < 25 := by
  have bound := ordered.nodup.length_le_card
  rw [Fintype.card_fin] at bound
  omega

/-- A range with a covered first and last point lies in the window. -/
theorem within_window {ranges : List (ℕ × ℕ)} {range : ℕ × ℕ} (nonempty : range.1 < range.2)
    (covered : ∀ point, covering (range :: ranges) point =
      if IOMAP_START_VIRT ≤ point ∧ point < iomapEnd then 1 else 0) :
    IOMAP_START_VIRT ≤ range.1 ∧ range.2 ≤ iomapEnd := by
  have inside (point : ℕ) (left : range.1 ≤ point) (right : point < range.2) :
      IOMAP_START_VIRT ≤ point ∧ point < iomapEnd := by
    by_contra outside
    have counted := covered point
    rw [if_neg outside, covering_cons, if_pos ⟨left, right⟩] at counted
    omega
  have first := inside range.1 le_rfl nonempty
  have last := inside (range.2 - 1) (by omega) (by omega)
  omega

/-- A reservation of fitting length moves a range from the free list to the book. -/
theorem Sound.alloc (sound : Sound s) {beginPhys endPhys : ℕ} (nonempty : beginPhys < endPhys)
    (small : endPhys < 2 ^ 64) (fits : roundedLen beginPhys endPhys < 2 ^ 64)
    (ran : exec pageTables s (.alloc beginPhys endPhys) = .ok t) : Sound t := by
  obtain ⟨⟨order, ordered, covered⟩, live⟩ := sound
  obtain ⟨length, positive⟩ := alignedLen_eq nonempty small fits
  simp only [exec, mmioAllocMapping, Except.bind_ok_iff, Except.pure_ok_iff, assertSome_ok_iff, length] at ran
  obtain ⟨⟨begin, meminfo⟩, ⟨found, scanned, ⟨begin', result⟩, rfl, tables, _, same⟩, rfl⟩ := ran
  obtain ⟨rfl, rfl⟩ := Prod.mk.inj same
  have head := ordered.chain.next_eq
  rw [head] at scanned
  have listed : Ordered s.meminfo.mmioFreelist ([] ++ order) := ordered
  rcases allocFrom_spec listed positive (Ordered.length_lt ordered) with none |
    ⟨start, _, after, order', hit, _, kept, moved⟩
  · cases scanned.symm.trans none
  · cases scanned.symm.trans hit
    refine ⟨⟨order', kept, fun point => ?_⟩, fun range member => ?_⟩
    · have change' := moved point
      rw [List.nil_append, covering_cons] at change'
      rw [← covered point, List.cons_append, covering_cons, covering_append, covering_append, ← change']
      dsimp only
      omega
    · rcases List.mem_cons.mp member with rfl | old
      · exact Nat.lt_add_of_pos_right positive
      · exact live range old

/-- A live range is nonempty, lies in the window and meets no listed node. -/
theorem live_apart {order : List NodeIndex} (ordered : Ordered s.meminfo.mmioFreelist order)
    (covered : ∀ point, covering (s.live ++ order.map s.meminfo.mmioFreelist.range) point =
      if IOMAP_START_VIRT ≤ point ∧ point < iomapEnd then 1 else 0) {range : ℕ × ℕ} (member : range ∈ s.live)
    (nonempty : range.1 < range.2) :
    (∀ point, covering (range :: (s.live.erase range ++ order.map s.meminfo.mmioFreelist.range)) point =
      if IOMAP_START_VIRT ≤ point ∧ point < iomapEnd then 1 else 0) ∧
    ∀ i ∈ order, (s.meminfo.mmioFreelist.nodes i).limit ≤ range.1 ∨
      range.2 ≤ (s.meminfo.mmioFreelist.nodes i).begin := by
  have split := List.perm_cons_erase member
  have whole (point : ℕ) : covering
    (range :: (s.live.erase range ++ order.map s.meminfo.mmioFreelist.range)) point =
      if IOMAP_START_VIRT ≤ point ∧ point < iomapEnd then 1 else 0 := by
    rw [← covered point, ← List.cons_append]
    exact covering_perm ((split.append_right _).symm)
  refine ⟨whole, fun i listed => ?_⟩
  obtain ⟨front, back, rfl⟩ := List.append_of_mem listed
  have own := ordered.nonempty
  by_contra meets
  -- the larger of the two first points lies in both
  have twice := whole (max range.1 (s.meminfo.mmioFreelist.nodes i).begin)
  rw [covering_cons, List.map_append, List.map_cons, covering_append, covering_append, covering_cons,
    if_pos (by omega), MmioFreelist.range, if_pos (by dsimp only; omega)] at twice
  split_ifs at twice
  all_goals omega

/-- The scan of a release, for an aligned range. -/
def releaseScan (freelist : MmioFreelist) (range : ℕ × ℕ) : Result (Option MmioFreelist) :=
  deallocFrom freelist range.1 (range.2 - range.1) range.2 25 none (freelist.list none)

/-- A release is its scan, the check that the scan found a place, and the edit of the page tables. -/
theorem Names.dealloc_eq {ρ : Type} (tablesEdit : PageTables ρ) (freelist : MmioFreelist)
    (tables : ρ) {range : ℕ × ℕ}
    {beginVirt endVirt : ℕ} (names : Names range beginVirt endVirt) (nonempty : range.1 < range.2)
    (bound : range.2 < 2 ^ 64) :
    mmioDeallocMapping tablesEdit ⟨freelist, tables⟩ beginVirt endVirt = (do
      let found ← releaseScan freelist range
      let freelist ← assertSome found "invalid mmio address" "link != ((void *)0)"
      let tables ← tablesEdit.mmioUnmap range.1 range.2 tables
      return { mmioFreelist := freelist, tables }) := by
  obtain ⟨first, length⟩ := names.rounded nonempty bound
  have stop : range.1 + (range.2 - range.1) = range.2 := Nat.add_sub_cancel' nonempty.le
  rw [mmioDeallocMapping]
  dsimp only
  rw [first, length, stop, u64_of_lt bound]
  rfl

/-- The scan passes the whole list when no listed node lies above the range. Otherwise it finds a
place, unless all nodes of the pool are in use. -/
theorem scan_outcome {order : List NodeIndex} (ordered : Ordered s.meminfo.mmioFreelist order)
    (covered : ∀ point, covering (s.live ++ order.map s.meminfo.mmioFreelist.range) point =
      if IOMAP_START_VIRT ≤ point ∧ point < iomapEnd then 1 else 0) {range : ℕ × ℕ} (member : range ∈ s.live)
    (nonempty : range.1 < range.2) :
    (releaseScan s.meminfo.mmioFreelist range = .ok none ∧
      ∀ i ∈ order, (s.meminfo.mmioFreelist.nodes i).begin ≤ range.1) ∨
    (∃ i ∈ order, range.2 ≤ (s.meminfo.mmioFreelist.nodes i).begin) ∧
      (releaseScan s.meminfo.mmioFreelist range = .error tooFragmented ∨
      ∃ result, releaseScan s.meminfo.mmioFreelist range = .ok (some result) ∧
        Released s.meminfo.mmioFreelist order range.1 (range.2 - range.1) result) := by
  obtain ⟨whole, apart⟩ := live_apart ordered covered member nonempty
  obtain ⟨low, _⟩ := within_window nonempty whole
  have stop : range.1 + (range.2 - range.1) = range.2 := Nat.add_sub_cancel' nonempty.le
  have outcome := @deallocFrom_spec _ [] range.1 (range.2 - range.1) order ordered 25 low
    (Nat.sub_pos_of_lt nonempty) (Ordered.length_lt ordered) (by rwa [stop]) (by simp)
  rw [stop, ← ordered.chain.next_eq] at outcome
  exact outcome

/-- A release moves its range from the book back to the free list. -/
theorem Sound.dealloc (sound : Sound s) {range : ℕ × ℕ} {beginVirt endVirt : ℕ} (member : range ∈ s.live)
    (names : Names range beginVirt endVirt)
    (ran : exec pageTables s (.dealloc range beginVirt endVirt) = .ok t) : Sound t := by
  obtain ⟨⟨order, ordered, covered⟩, live⟩ := sound
  have nonempty := live range member
  have whole := (live_apart ordered covered member nonempty).1
  have bound := (within_window nonempty whole).2.trans_lt iomapEnd_lt
  simp only [exec, Except.bind_ok_iff, Except.pure_ok_iff] at ran
  obtain ⟨meminfo, ran, rfl⟩ := ran
  rw [names.dealloc_eq pageTables s.meminfo.mmioFreelist s.meminfo.tables nonempty bound] at ran
  simp only [Except.bind_ok_iff, Except.pure_ok_iff, assertSome_ok_iff] at ran
  obtain ⟨found, scanned, result, rfl, tables, _, rfl⟩ := ran
  rcases scan_outcome ordered covered member nonempty
    with ⟨none, _⟩ | ⟨_, stopped | ⟨after, hit, order', kept, moved⟩⟩
  · cases scanned.symm.trans none
  · cases scanned.symm.trans stopped
  · cases scanned.symm.trans hit
    refine ⟨⟨order', kept, fun point => ?_⟩, fun other inside => live other (List.mem_of_mem_erase inside)⟩
    have change' := moved point
    rw [Nat.add_sub_cancel' nonempty.le, covering_cons] at change'
    rw [← whole point, covering_cons, covering_append, covering_append, change']
    dsimp only
    omega

end Steps

/-- In every run whose reservations have a page-rounded length that fits in a word, every state
reached without a panic keeps the free list in order and partitions the window. -/
theorem mmio_freelist_sound (pageTables : PageTables σ) (tables : σ) {es : List Event} {s : State σ}
    (run : Run (Guarded (fun s e => Enabled s e ∧ Fits e) (exec pageTables)) (initial tables) es s) : Sound s := by
  refine Run.invariant run (initial_sound tables) fun t e u sound step => ?_
  obtain ⟨⟨enabled, fits⟩, ran⟩ := step
  cases e with
  | alloc beginPhys endPhys => exact sound.alloc enabled.1 enabled.2 fits ran
  | dealloc range beginVirt endVirt => exact sound.dealloc enabled.1 enabled.2 ran

/-- Page tables that are not looked at. -/
def unobserved : PageTables Unit := ⟨fun _ _ _ _ => .ok (), fun _ _ _ => .ok ()⟩

/-- Two reservations, of which the first is released: a node with its pages is put in front of the rest. -/
def releasingCalls : List Event :=
  [.alloc 0xfee00123 0xfee01004, .alloc 0xfec00000 0xfec01000,
    .dealloc (0xffffff8000000000, 0xffffff8000002000) 0xffffff8000000123 0xffffff8000001004]

private theorem releasing_run : ∃ s,
    Run (Guarded (fun s e => Enabled s e ∧ Fits e) (exec unobserved)) (initial ()) releasingCalls s ∧
      s.live = [(0xffffff8000002000, 0xffffff8000003000)] ∧
      (s.meminfo.mmioFreelist.nodes 0).begin = 0xffffff8000003000 := by
  have alloc (s t : State Unit) (b e : ℕ) (small : b < e ∧ e < 2 ^ 64 ∧ roundedLen b e < 2 ^ 64)
      (ran : exec unobserved s (.alloc b e) = .ok t) :
      Guarded (fun s e => Enabled s e ∧ Fits e) (exec unobserved) s (.alloc b e) t :=
    ⟨⟨⟨small.1, small.2.1⟩, small.2.2⟩, ran⟩
  have dealloc (s t : State Unit) (range : ℕ × ℕ) (b e : ℕ) (member : range ∈ s.live) (names : Names range b e)
      (ran : exec unobserved s (.dealloc range b e) = .ok t) :
      Guarded (fun s e => Enabled s e ∧ Fits e) (exec unobserved) s (.dealloc range b e) t :=
    ⟨⟨⟨member, names⟩, trivial⟩, ran⟩
  have first := Run.single (alloc (initial ()) _ 0xfee00123 0xfee01004 (by decide) rfl)
  have second := first.snoc (alloc _ _ 0xfec00000 0xfec01000 (by decide) rfl)
  have third := second.snoc (dealloc _ _ (0xffffff8000000000, 0xffffff8000002000) 0xffffff8000000123
    0xffffff8000001004 (.tail _ (.head _)) (by decide) rfl)
  exact ⟨_, third, rfl, rfl⟩

theorem mmio_freelist_sound_two : ∃ s,
    Run (Guarded (fun s e => Enabled s e ∧ Fits e) (exec unobserved)) (initial ()) releasingCalls s ∧
      s.live = [(0xffffff8000002000, 0xffffff8000003000)] ∧ Sound s := by
  obtain ⟨s, run, live, _⟩ := releasing_run
  exact ⟨s, run, live, mmio_freelist_sound unobserved () run⟩

/-- A request for all of physical memory rounds to the length zero: the call returns the window's
first address and reserves nothing. -/
theorem mmio_length_wraps : ∃ s,
    Run (Guarded Enabled (exec unobserved)) (initial ()) [.alloc 0 0xffffffffffffffff] s ∧ ¬ Sound s := by
  refine ⟨_, .single ⟨⟨by decide, by decide⟩, rfl⟩, fun sound => ?_⟩
  obtain ⟨order, _, covered⟩ := sound.partition
  have beyond := covered iomapEnd
  rw [if_neg (by decide), List.cons_append, covering_cons, if_pos (by decide)] at beyond
  omega

/-! ## Releases that are refused -/

/-- The release stops at one of its two address assertions, whatever the page tables do. -/
def Refused (freelist : MmioFreelist) (beginVirt endVirt : ℕ) : Prop :=
  ∃ text, ∀ (ρ : Type) (pageTables : PageTables ρ) (tables : ρ),
    mmioDeallocMapping pageTables ⟨freelist, tables⟩ beginVirt endVirt =
      .error (.panic ("invalid mmio address : " ++ text))

/-- Running out of nodes is another panic than an address assertion. -/
private theorem tooFragmented_ne (text : String) : tooFragmented ≠ .panic ("invalid mmio address : " ++ text) := by
  intro same
  have texts := congrArg (fun fault => match fault with | .panic msg => msg.toList.head? | _ => none) same
  simp [tooFragmented] at texts

/-- In every state reached by reservations that fit, the release of a live range is refused exactly
when no free node lies above it: the scan looks for a node beyond the range to stop at. -/
theorem dealloc_refused_iff (pageTables : PageTables σ) (tables : σ) {es : List Event} {s : State σ}
    (run : Run (Guarded (fun s e => Enabled s e ∧ Fits e) (exec pageTables)) (initial tables) es s) {range : ℕ × ℕ}
    {beginVirt endVirt : ℕ} (member : range ∈ s.live) (names : Names range beginVirt endVirt) :
    ¬ Refused s.meminfo.mmioFreelist beginVirt endVirt ↔
      ∃ i, (s.meminfo.mmioFreelist.nodes i).begin ≠ 0 ∧ range.2 ≤ (s.meminfo.mmioFreelist.nodes i).begin := by
  obtain ⟨⟨order, ordered, covered⟩, live⟩ := mmio_freelist_sound pageTables tables run
  have nonempty := live range member
  have whole := (live_apart ordered covered member nonempty).1
  have bound := (within_window nonempty whole).2.trans_lt iomapEnd_lt
  rcases scan_outcome ordered covered member nonempty with ⟨scanned, below⟩ | ⟨⟨i, listed, above⟩, outcome⟩
  · refine iff_of_false (not_not.mpr ⟨"link != ((void *)0)", fun ρ edit tables => ?_⟩) fun ⟨i, used, above⟩ => ?_
    · rw [names.dealloc_eq edit _ tables nonempty bound, scanned]
      rfl
    · have := below i ((ordered.used i).mpr used)
      omega
  · refine iff_of_true (fun ⟨text, refused⟩ => ?_) ⟨i, (ordered.used i).mp listed, above⟩
    have stopped := refused Unit unobserved ()
    rw [names.dealloc_eq unobserved _ () nonempty bound] at stopped
    rcases outcome with failed | ⟨result, found, _⟩
    · rw [failed, Except.error_bind] at stopped
      exact tooFragmented_ne text (Except.error.inj stopped)
    · rw [found] at stopped
      cases stopped

theorem dealloc_refused_iff_two : ∃ s,
    Run (Guarded (fun s e => Enabled s e ∧ Fits e) (exec unobserved)) (initial ()) releasingCalls s ∧
      ¬ Refused s.meminfo.mmioFreelist 0xffffff8000002000 0xffffff8000003000 := by
  obtain ⟨s, run, live, above⟩ := releasing_run
  have names : Names (0xffffff8000002000, 0xffffff8000003000) 0xffffff8000002000 0xffffff8000003000 := by decide
  have member : (0xffffff8000002000, 0xffffff8000003000) ∈ s.live := by
    rw [live]
    exact List.mem_singleton_self _
  refine ⟨s, run, (dealloc_refused_iff unobserved () run member names).mpr ⟨0, ?_, ?_⟩⟩
  · rw [above]
    decide
  · rw [above]

/-- A mapping of the whole window leaves no free node, and its release is refused. -/
theorem full_window_refused : ∃ s,
    Run (Guarded Enabled (exec unobserved)) (initial ()) [.alloc 0 0x7f00000000] s ∧
      s.live = [(IOMAP_START_VIRT, iomapEnd)] ∧ Names (IOMAP_START_VIRT, iomapEnd) IOMAP_START_VIRT iomapEnd ∧
      Refused s.meminfo.mmioFreelist IOMAP_START_VIRT iomapEnd := by
  refine ⟨_, .single ⟨⟨by decide, by decide⟩, rfl⟩, rfl, by decide, "link != ((void *)0)", fun ρ edit tables => ?_⟩
  rfl

end RubberOS.Soundness.MmioRuns
