import RubberOS.Soundness.MmioRuns

/-! # What address a device mapping returns

A mapping starts at the page of its physical range, and the source returns that page's address. The
address stands for the first byte of the range only when the range starts at a page boundary. The
reserved pages follow from the alignment of all ranges, which every run keeps.
-/

namespace RubberOS.Soundness.MmioAddresses

open Model Model.Mmio Model.MemoryMap SinglyLinked SpacedRanges LabelledRuns MmioRuns

/-- A call of the two page-table functions. -/
inductive TableCall where
  | map (beginVirt endVirt beginPhys : ℕ)
  | unmap (beginVirt endVirt : ℕ)
deriving DecidableEq

/-- Page tables that keep the list of their calls. -/
def recorded : PageTables (List TableCall) where
  mmioMap beginVirt endVirt phys calls := .ok (calls ++ [.map beginVirt endVirt phys])
  mmioUnmap beginVirt endVirt calls := .ok (calls ++ [.unmap beginVirt endVirt])

/-- Byte `virt + i` of the mapped range is byte `beginPhys + i` of the physical pages behind it. -/
def StandsFor (virt beginPhys endPhys : ℕ) (range : ℕ × ℕ) : Prop :=
  ∀ i < endPhys - beginPhys, range.1 ≤ virt + i ∧ virt + i < range.2 ∧
    virt + i - range.1 = beginPhys + i - beginPhys / PAGE_SIZE * PAGE_SIZE

/-- The free list holds the point. -/
def FreePoint (freelist : MmioFreelist) (point : ℕ) : Prop :=
  ∃ i, (freelist.nodes i).begin ≠ 0 ∧ (freelist.nodes i).begin ≤ point ∧ point < (freelist.nodes i).limit

/-- As long as the range is live, a release with these arguments unmaps it and frees just its points. -/
def Releases (s : State (List TableCall)) (beginVirt endVirt : ℕ) (range : ℕ × ℕ) : Prop :=
  ∀ es t meminfo, Run (Guarded Enabled (exec recorded)) s es t → range ∈ t.live →
    mmioDeallocMapping recorded t.meminfo beginVirt endVirt = .ok meminfo →
    meminfo.tables = t.meminfo.tables ++ [.unmap range.1 range.2] ∧
      ∀ point, FreePoint meminfo.mmioFreelist point ↔
        FreePoint t.meminfo.mmioFreelist point ∨ range.1 ≤ point ∧ point < range.2

/-- The reservation mapped a range that the address stands for, and a release gives back. -/
def Addresses (before : State (List TableCall)) (beginPhys endPhys virt : ℕ) (after : Meminfo (List TableCall)) : Prop :=
  ∃ range : ℕ × ℕ,
    after.tables = before.meminfo.tables ++ [.map range.1 range.2 (beginPhys / PAGE_SIZE * PAGE_SIZE)] ∧
    StandsFor virt beginPhys endPhys range ∧
    Releases ⟨after, range :: before.live⟩ virt (u64 (virt + (endPhys - beginPhys))) range

/-! ## Aligned ranges -/

section Runs

variable {σ : Type} {pageTables : PageTables σ} {s t : State σ} {order : List NodeIndex}

/-- The book without the reservations whose length wrapped to zero: no release can name them. -/
def wordSized (s : State σ) : State σ := { s with live := s.live.filter fun range => range.2 ≤ 2 ^ 64 }

private theorem wordSized_meminfo : (wordSized s).meminfo = s.meminfo := rfl

/-- The state is sound up to wrapped reservations, and its live ranges consist of whole pages. -/
structure Tidy (s : State σ) : Prop where
  sound : Sound (wordSized s)
  aligned : ∀ range ∈ (wordSized s).live, PAGE_SIZE ∣ range.1 ∧ PAGE_SIZE ∣ range.2

private theorem initial_tidy (tables : σ) : Tidy (initial tables) :=
  ⟨initial_sound tables, fun _ member => (List.not_mem_nil member).elim⟩

private theorem freePoint_iff {freelist : MmioFreelist} (ordered : Ordered freelist order) {point : ℕ} :
    FreePoint freelist point ↔ 0 < covering (order.map freelist.range) point := by
  rw [covering, List.countP_pos_iff]
  simp only [List.mem_map, decide_eq_true_eq]
  constructor
  · rintro ⟨i, used, held⟩
    exact ⟨_, ⟨i, (ordered.used i).mpr used, rfl⟩, held⟩
  · rintro ⟨_, ⟨i, listed, rfl⟩, held⟩
    exact ⟨i, (ordered.used i).mp listed, held⟩

/-- A listed node begins where the window or a live range borders it. -/
theorem Tidy.begin_aligned (tidy : Tidy s) (ordered : Ordered s.meminfo.mmioFreelist order)
    (covered : ∀ point, covering ((wordSized s).live ++ order.map s.meminfo.mmioFreelist.range) point =
      if IOMAP_START_VIRT ≤ point ∧ point < iomapEnd then 1 else 0) {node : NodeIndex} (listed :
      node ∈ order) :
    PAGE_SIZE ∣ (s.meminfo.mmioFreelist.nodes node).begin := by
  obtain ⟨front, back, rfl⟩ := List.append_of_mem listed
  have nonempty := ordered.nonempty
  have inside := ordered.inside node listed
  have spaced := ordered.spaced
  rw [List.map_append, List.map_cons] at spaced
  have around := spaced.around
  generalize start : (s.meminfo.mmioFreelist.nodes node).begin = begin at *
  generalize stop : (s.meminfo.mmioFreelist.nodes node).limit = limit at *
  have own : s.meminfo.mmioFreelist.range node = (begin, limit) := Prod.ext start stop
  rcases eq_or_ne begin IOMAP_START_VIRT with first | later
  · rw [first]
    decide
  · -- the point just below belongs to a live range, since the other nodes keep a distance
    have below := covered (begin - 1)
    rw [if_pos (by omega)] at below
    obtain ⟨range, member, held⟩ := List.countP_pos_iff.mp (by rw [← covering, below]; exact Nat.one_pos)
    rw [decide_eq_true_eq] at held
    rcases List.mem_append.mp member with live | free
    · have apart := (live_apart (s := wordSized s) ordered covered live
        (tidy.sound.live range live)).2 node (by simp)
      rw [wordSized_meminfo, start, stop] at apart
      have ends : range.2 = begin := by omega
      rw [← ends]
      exact (tidy.aligned range live).2
    · rw [List.map_append, List.map_cons, own] at free
      rcases List.mem_append.mp free with before | (_ | ⟨_, after⟩)
      · have := around.1 range before
        omega
      · dsimp only at held
        omega
      · have := around.2 range after
        omega

/-- A reservation is a scan from the first free range on, and the mapping of what it finds. -/
private theorem alloc_scanned {order : List NodeIndex} (ordered : Ordered s.meminfo.mmioFreelist order)
    {beginPhys endPhys virt len : ℕ} {meminfo : Meminfo σ}
    (length : u64 (uptrdivCeil (sub64 endPhys (beginPhys / PAGE_SIZE * PAGE_SIZE)) PAGE_SIZE * PAGE_SIZE) = len)
    (ran : mmioAllocMapping pageTables s.meminfo beginPhys endPhys = .ok (virt, meminfo)) :
    allocFrom s.meminfo.mmioFreelist len 25 none order.head? = .ok (some (virt, meminfo.mmioFreelist)) ∧
      pageTables.mmioMap virt (u64 (virt + len)) (beginPhys / PAGE_SIZE * PAGE_SIZE) s.meminfo.tables =
        .ok meminfo.tables := by
  simp only [mmioAllocMapping, Except.bind_ok_iff, Except.pure_ok_iff, assertSome_ok_iff, length] at ran
  obtain ⟨found, scanned, ⟨begin, result⟩, rfl, tables, mapped, same⟩ := ran
  obtain ⟨rfl, rfl⟩ := Prod.mk.inj same
  have head : s.meminfo.mmioFreelist.list none = order.head? := ordered.chain.next_eq
  rw [head] at scanned
  exact ⟨scanned, mapped⟩

/-- A reservation of fitting length returns the first address of the pages that it maps. -/
private theorem Tidy.alloc_fits (tidy : Tidy s) {beginPhys endPhys virt : ℕ} {meminfo : Meminfo σ}
    (nonempty : beginPhys < endPhys) (small : endPhys < 2 ^ 64) (fits : roundedLen beginPhys endPhys < 2 ^ 64)
    (ran : mmioAllocMapping pageTables s.meminfo beginPhys endPhys = .ok (virt, meminfo)) :
    PAGE_SIZE ∣ virt ∧ virt + roundedLen beginPhys endPhys < 2 ^ 64 ∧
      pageTables.mmioMap virt (virt + roundedLen beginPhys endPhys) (beginPhys / PAGE_SIZE * PAGE_SIZE)
        s.meminfo.tables = .ok meminfo.tables ∧
      Sound ⟨meminfo, (virt, virt + roundedLen beginPhys endPhys) :: (wordSized s).live⟩ := by
  have kept : Sound ⟨meminfo, (virt, virt + roundedLen beginPhys endPhys) :: (wordSized s).live⟩ :=
    tidy.sound.alloc nonempty small fits (Except.bind_ok_iff.mpr ⟨_, ran, rfl⟩)
  obtain ⟨order, ordered, covered⟩ := tidy.sound.partition
  obtain ⟨length, positive⟩ := alignedLen_eq nonempty small fits
  obtain ⟨scanned, mapped⟩ := alloc_scanned (show Ordered s.meminfo.mmioFreelist order from ordered) length ran
  have listed : Ordered s.meminfo.mmioFreelist ([] ++ order) := ordered
  rcases allocFrom_spec listed positive (Ordered.length_lt ordered) with none | ⟨node, member, _, _,
    hit, inside, _⟩
  · cases scanned.symm.trans none
  · cases scanned.symm.trans hit
    have word := inside.trans_lt iomapEnd_lt
    rw [u64_of_lt word] at mapped
    exact ⟨tidy.begin_aligned ordered covered member, word, mapped, kept⟩

/-- A reservation whose length wraps to zero reserves nothing, maps nothing and returns the first free address. -/
private theorem Tidy.alloc_wraps (tidy : Tidy s) {beginPhys endPhys virt : ℕ} {meminfo : Meminfo σ}
    (small : endPhys < 2 ^ 64) (nonempty : beginPhys < endPhys)
    (wraps : ¬ roundedLen beginPhys endPhys < 2 ^ 64)
    (ran : mmioAllocMapping pageTables s.meminfo beginPhys endPhys = .ok (virt, meminfo)) :
    0 < virt ∧ meminfo.mmioFreelist = s.meminfo.mmioFreelist ∧
      pageTables.mmioMap virt virt (beginPhys / PAGE_SIZE * PAGE_SIZE) s.meminfo.tables =
        .ok meminfo.tables := by
  obtain ⟨order, ordered, covered⟩ := tidy.sound.partition
  have page := Nat.div_mul_le_self beginPhys PAGE_SIZE
  have length : u64 (uptrdivCeil
      (sub64 endPhys (beginPhys / PAGE_SIZE * PAGE_SIZE)) PAGE_SIZE * PAGE_SIZE) = 0 := by
    have round := uptrdivCeil_bounds (endPhys - beginPhys / PAGE_SIZE * PAGE_SIZE) (y := PAGE_SIZE)
      (by decide)
    rw [sub64_of_le (by omega) small]
    unfold roundedLen at wraps
    rw [u64]
    simp only [PAGE_SIZE] at *
    omega
  obtain ⟨scanned, mapped⟩ := alloc_scanned (show Ordered s.meminfo.mmioFreelist order from ordered) length ran
  cases order with
  | nil => cases scanned
  | cons node rest =>
    have listed : Ordered s.meminfo.mmioFreelist ([] ++ node :: rest) := ordered
    have full := listed.nonempty
    have inside := listed.inside node List.mem_cons_self
    have word := inside.2.trans_lt iomapEnd_lt
    have start : 0 < (s.meminfo.mmioFreelist.nodes node).begin := Nat.lt_of_lt_of_le (by decide) inside.1
    rw [List.head?_cons, allocFrom, listed.sub64_eq, if_neg (Nat.not_lt_zero _), carve, if_neg (by omega),
      u64_of_lt (by omega)] at scanned
    -- the node is written back as it was
    obtain ⟨rfl, kept⟩ := Prod.mk.inj (Option.some.inj (Except.ok.inj scanned))
    refine ⟨start, ?_, ?_⟩
    · rw [← kept]
      exact congrArg (MmioFreelist.mk s.meminfo.mmioFreelist.list) (Function.update_eq_self node _)
    · rwa [u64_of_lt (by omega)] at mapped

/-- Every call keeps the live ranges aligned; the wrapped ones cannot be released. -/
private theorem tidy_run (tables : σ) {es : List Event}
    (run : Run (Guarded Enabled (exec pageTables)) (initial tables) es s) :
    Tidy s := by
  refine Run.invariant run (initial_tidy tables) fun t e u tidy step => ?_
  obtain ⟨enabled, ran⟩ := step
  cases e with
  | alloc beginPhys endPhys =>
    obtain ⟨nonempty, small⟩ := enabled
    simp only [exec, Except.bind_ok_iff, Except.pure_ok_iff] at ran
    obtain ⟨⟨virt, meminfo⟩, ran, rfl⟩ := ran
    by_cases fits : roundedLen beginPhys endPhys < 2 ^ 64
    · obtain ⟨first, word, _, kept⟩ := tidy.alloc_fits nonempty small fits ran
      have book : wordSized ⟨meminfo, (virt, virt + roundedLen beginPhys endPhys) :: t.live⟩ =
          ⟨meminfo, (virt, virt + roundedLen beginPhys endPhys) :: (wordSized t).live⟩ := by
        rw [wordSized, List.filter_cons_of_pos (by simpa using word.le)]
        rfl
      refine ⟨book ▸ kept, fun range member => ?_⟩
      rw [book] at member
      rcases List.mem_cons.mp member with rfl | old
      · exact ⟨first, (Nat.dvd_add_right first).mpr (Nat.dvd_mul_left _ _)⟩
      · exact tidy.aligned range old
    · obtain ⟨positive, same, _⟩ := tidy.alloc_wraps small nonempty fits ran
      have book : (wordSized ⟨meminfo, (virt, virt + roundedLen beginPhys endPhys) :: t.live⟩).live =
          (wordSized t).live := by
        rw [wordSized, List.filter_cons_of_neg (by simp only [decide_eq_true_eq]; omega)]
        rfl
      obtain ⟨⟨order, ordered, covered⟩, live⟩ := tidy.sound
      refine ⟨⟨⟨order, ?_, ?_⟩, ?_⟩, ?_⟩
      · exact same ▸ ordered
      · rw [book]
        exact same ▸ covered
      · rw [book]
        exact live
      · rw [book]
        exact tidy.aligned
  | dealloc range beginVirt endVirt =>
    obtain ⟨member, names⟩ := enabled
    have word : range.2 ≤ 2 ^ 64 := by
      have round := uptrdivCeil_bounds endVirt (y := PAGE_SIZE) (by decide)
      have small := names.2.2
      rw [← names.2.1]
      simp only [PAGE_SIZE] at *
      omega
    have listed : range ∈ (wordSized t).live := List.mem_filter.mpr ⟨member, decide_eq_true word⟩
    have book : (t.live.erase range).filter (fun range => range.2 ≤ 2 ^ 64) =
        (wordSized t).live.erase range :=
      List.erase_filter.symm
    simp only [exec, Except.bind_ok_iff, Except.pure_ok_iff] at ran
    obtain ⟨meminfo, ran, rfl⟩ := ran
    have kept : Sound ⟨meminfo, (wordSized t).live.erase range⟩ :=
      tidy.sound.dealloc listed names (Except.bind_ok_iff.mpr ⟨_, ran, rfl⟩)
    rw [← book] at kept
    refine ⟨kept, fun other inside => ?_⟩
    have old : other ∈ (t.live.erase range).filter (fun range => range.2 ≤ 2 ^ 64) := inside
    rw [book] at old
    exact tidy.aligned other (List.mem_of_mem_erase old)

end Runs

/-! ## Addresses and releases -/

/-- A live range is released by all arguments that round to it. -/
private theorem releases_of_names {s : State (List TableCall)} (tables : List TableCall) {es : List Event}
    {range : ℕ × ℕ}
    {beginVirt endVirt : ℕ} (run : Run (Guarded Enabled (exec recorded)) (initial tables) es s)
    (names : Names range beginVirt endVirt) (word : range.2 ≤ 2 ^ 64) :
    Releases s beginVirt endVirt range := by
  intro es' t meminfo later member ran
  have tidy := tidy_run tables (run.append later)
  obtain ⟨order, ordered, covered⟩ := tidy.sound.partition
  have listed : range ∈ (wordSized t).live := List.mem_filter.mpr ⟨member, decide_eq_true word⟩
  have nonempty := tidy.sound.live range listed
  have whole := (live_apart (s := wordSized t) ordered covered listed nonempty).1
  have bound := (within_window nonempty whole).2.trans_lt iomapEnd_lt
  rw [names.dealloc_eq recorded t.meminfo.mmioFreelist t.meminfo.tables nonempty bound] at ran
  simp only [Except.bind_ok_iff, Except.pure_ok_iff, assertSome_ok_iff] at ran
  obtain ⟨found, scanned, result, rfl, calls, unmapped, rfl⟩ := ran
  refine ⟨(Except.ok.inj unmapped).symm, fun point => ?_⟩
  rcases scan_outcome (s := wordSized t) ordered covered listed nonempty with
    ⟨none, _⟩ | ⟨_, stopped | ⟨after, hit, order', kept, moved⟩⟩
  · cases scanned.symm.trans none
  · cases scanned.symm.trans stopped
  · cases scanned.symm.trans hit
    have free : FreePoint t.meminfo.mmioFreelist point ↔ _ := freePoint_iff ordered
    rw [freePoint_iff kept, free, moved point, covering_cons, Nat.add_sub_cancel' nonempty.le,
      wordSized_meminfo]
    split_ifs with held
    · exact iff_of_true (by omega) (.inr held)
    · simpa using fun first second => absurd ⟨first, second⟩ held

/-- The address that a reservation returns stands for the beginning of its physical range exactly when
that range begins at a page boundary and its page-rounded length fits in a word. -/
theorem mapping_addresses_iff (tables : List TableCall) {es : List Event} {s : State (List TableCall)}
    (run : Run (Guarded Enabled (exec recorded)) (initial tables) es s) {beginPhys endPhys virt : ℕ}
    {meminfo : Meminfo (List TableCall)} (nonempty : beginPhys < endPhys) (small : endPhys < 2 ^ 64)
    (ran : mmioAllocMapping recorded s.meminfo beginPhys endPhys = .ok (virt, meminfo)) :
    Addresses s beginPhys endPhys virt meminfo ↔ beginPhys % PAGE_SIZE = 0 ∧ roundedLen beginPhys endPhys < 2 ^ 64 := by
  have tidy := tidy_run tables run
  constructor
  · rintro ⟨⟨start, stop⟩, mapped, stands, _⟩
    obtain ⟨low, high, offset⟩ := stands 0 (Nat.sub_pos_of_lt nonempty)
    dsimp only at mapped low high offset
    by_cases fits : roundedLen beginPhys endPhys < 2 ^ 64
    · obtain ⟨_, _, calls, _⟩ := tidy.alloc_fits nonempty small fits ran
      have same := List.append_cancel_left (mapped.symm.trans (Except.ok.inj calls).symm)
      simp only [List.cons.injEq, TableCall.map.injEq, and_true] at same
      refine ⟨?_, fits⟩
      simp only [PAGE_SIZE] at *
      omega
    · obtain ⟨_, _, calls⟩ := tidy.alloc_wraps small nonempty fits ran
      have same := List.append_cancel_left (mapped.symm.trans (Except.ok.inj calls).symm)
      simp only [List.cons.injEq, TableCall.map.injEq, and_true] at same
      omega
  · rintro ⟨whole, fits⟩
    obtain ⟨aligned, word, calls, _⟩ := tidy.alloc_fits nonempty small fits ran
    have page : beginPhys / PAGE_SIZE * PAGE_SIZE = beginPhys :=
      Nat.div_mul_cancel (Nat.dvd_of_mod_eq_zero whole)
    have length := uptrdivCeil_bounds (endPhys - beginPhys) (y := PAGE_SIZE) (by decide)
    have rounded : roundedLen beginPhys endPhys =
        uptrdivCeil (endPhys - beginPhys) PAGE_SIZE * PAGE_SIZE := by
      rw [roundedLen, page]
    rw [← rounded] at length
    refine ⟨(virt, virt + roundedLen beginPhys endPhys), (Except.ok.inj calls).symm, fun i inside => ?_, ?_⟩
    · refine ⟨Nat.le_add_right virt i, ?_, ?_⟩
      · dsimp only
        omega
      · rw [page, Nat.add_sub_cancel_left, Nat.add_sub_cancel_left]
    · -- the released length rounds up to the reserved one
      have names : Names (virt, virt + roundedLen beginPhys endPhys) virt
          (u64 (virt + (endPhys - beginPhys))) := by
        rw [u64_of_lt (by omega)]
        refine ⟨Nat.div_mul_cancel aligned, ?_, by omega⟩
        obtain ⟨pages, rfl⟩ := aligned
        rw [uptrdivCeil_mul_add _ _ (by decide), rounded, Nat.add_mul, Nat.mul_comm pages]
      have reserved : Run (Guarded Enabled (exec recorded)) s [.alloc beginPhys endPhys]
          ⟨meminfo, (virt, virt + roundedLen beginPhys endPhys) :: s.live⟩ :=
        .single ⟨⟨nonempty, small⟩, Except.bind_ok_iff.mpr ⟨_, ran, rfl⟩⟩
      exact releases_of_names tables (run.append reserved) names word.le

/-- A device whose registers begin inside a page: the address names the page's first byte instead. -/
theorem unaligned_device_misplaced : ∃ virt meminfo,
    mmioAllocMapping recorded (initial []).meminfo 0xfee00123 0xfee01004 = .ok (virt, meminfo) ∧
      ¬ Addresses (initial []) 0xfee00123 0xfee01004 virt meminfo := by
  refine ⟨IOMAP_START_VIRT, _, rfl, ?_⟩
  rintro ⟨⟨start, stop⟩, mapped, stands, _⟩
  have same := List.append_cancel_left mapped
  simp only [List.cons.injEq, TableCall.map.injEq, and_true] at same
  have first : start = IOMAP_START_VIRT := same.1.symm
  obtain ⟨low, _, offset⟩ := stands 0 (by decide)
  dsimp only at low offset
  simp only [PAGE_SIZE] at offset
  omega

theorem mapping_addresses_iff_local : ∃ virt meminfo,
    mmioAllocMapping recorded (initial []).meminfo 0xfee00000 0xfee01004 = .ok (virt, meminfo) ∧
      Addresses (initial []) 0xfee00000 0xfee01004 virt meminfo :=
  ⟨IOMAP_START_VIRT, _, rfl, (mapping_addresses_iff [] .nil (by decide) (by decide) rfl).mpr (by decide)⟩

end RubberOS.Soundness.MmioAddresses
