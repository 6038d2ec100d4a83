import RubberOS.Model.Mmio
import RubberOS.ToMathlib.SinglyLinked
import RubberOS.ToMathlib.SpacedRanges

/-! # Edits of the mapping free list

`Ordered` names the nodes of the list in order. Each edit of the two functions keeps it for a new
order, and the points that the listed ranges cover change by exactly the range taken or given back.
-/

namespace RubberOS.Model.Mmio

open SinglyLinked SpacedRanges

/-- The end of the window. -/
def iomapEnd : ℕ := IOMAP_START_VIRT + IOMAP_VIRT_SIZE

def MmioFreelist.range (freelist : MmioFreelist) (i : NodeIndex) : ℕ × ℕ :=
  ((freelist.nodes i).begin, (freelist.nodes i).limit)

/-- The free list's nodes in order: they are the nodes in use, and their ranges are spaced. -/
structure Ordered (freelist : MmioFreelist) (order : List NodeIndex) : Prop where
  chain : Chain freelist.list none order
  nodup : order.Nodup
  used : ∀ i, i ∈ order ↔ (freelist.nodes i).begin ≠ 0
  spaced : Spaced (order.map freelist.range)
  inside : ∀ i ∈ order, IOMAP_START_VIRT ≤ (freelist.nodes i).begin ∧ (freelist.nodes i).limit ≤ iomapEnd

section Edits

variable {freelist : MmioFreelist} {before after : List NodeIndex} {node other : NodeIndex} {value : MmioFreeNode}

theorem iomapEnd_lt : iomapEnd < 2 ^ 64 := by decide

@[simp] theorem setNode_list : (freelist.setNode node value).list = freelist.list := rfl

@[simp] theorem setNode_self : (freelist.setNode node value).nodes node = value := Function.update_self ..

private theorem setNode_other (apart : other ≠ node) :
    (freelist.setNode node value).nodes other = freelist.nodes other :=
  Function.update_of_ne apart ..

variable (value) in
private theorem range_setNode (absent : node ∉ before) :
    before.map (freelist.setNode node value).range = before.map freelist.range := by
  refine List.map_congr_left fun i member => ?_
  have apart : i ≠ node := fun same => absent (same ▸ member)
  rw [MmioFreelist.range, setNode_other apart, MmioFreelist.range]

theorem Ordered.nonempty (ordered : Ordered freelist (before ++ node :: after)) :
    (freelist.nodes node).begin < (freelist.nodes node).limit :=
  ordered.spaced.nonempty (freelist.range node) (by simp)

/-- The node is not among its neighbours. -/
private theorem Ordered.absent (ordered : Ordered freelist (before ++ node :: after)) :
    node ∉ before ∧ node ∉ after := by
  have parts := List.nodup_append.mp ordered.nodup
  exact ⟨fun member => parts.2.2 node member node (.head _) rfl, (List.nodup_cons.mp parts.2.1).1⟩

/-- Rewriting one listed node in the gaps around it. -/
private theorem Ordered.setNode (ordered : Ordered freelist (before ++ node :: after))
    (nonempty : value.begin < value.limit)
    (left : ∀ range ∈ before.map freelist.range, range.2 < value.begin)
    (right : ∀ range ∈ after.map freelist.range, value.limit < range.1)
    (low : IOMAP_START_VIRT ≤ value.begin) (high : value.limit ≤ iomapEnd) :
    Ordered (freelist.setNode node value) (before ++ node :: after) := by
  obtain ⟨absentBefore, absentAfter⟩ := ordered.absent
  refine ⟨ordered.chain, ordered.nodup, fun i => ?_, ?_, fun i member => ?_⟩
  · rcases eq_or_ne i node with rfl | apart
    · refine iff_of_true (by simp) ?_
      simp only [setNode_self, IOMAP_START_VIRT] at *
      omega
    · rw [setNode_other apart]
      exact ordered.used i
  · have spaced := ordered.spaced
    rw [List.map_append, List.map_cons] at spaced ⊢
    rw [range_setNode _ absentBefore, range_setNode _ absentAfter, MmioFreelist.range, setNode_self]
    exact spaced.replace nonempty left right
  · rcases eq_or_ne i node with rfl | apart
    · rw [setNode_self]
      exact ⟨low, high⟩
    · rw [setNode_other apart]
      exact ordered.inside i member

variable (value) in
/-- Unlinking a node and marking it unused. -/
private theorem Ordered.remove (ordered : Ordered freelist (before ++ node :: after)) (unused : value.begin = 0) :
    ∃ list, Singlylist.removeAfter freelist.list (place none before) = .ok list ∧
      Ordered { freelist.setNode node value with list } (before ++ after) := by
  obtain ⟨absentBefore, absentAfter⟩ := ordered.absent
  have here := ordered.chain.rest.next_eq
  have kept : (before ++ after).Sublist (before ++ node :: after) :=
    (List.Sublist.refl before).append (List.sublist_cons_self _ _)
  refine ⟨Function.update freelist.list (place none before) (freelist.list (some node)), ?_, ?_, ?_,
    ?_, ?_, ?_⟩
  · rw [Singlylist.removeAfter, here, assert_of (by simp)]
    rfl
  · exact ordered.chain.remove (places_nodup ordered.nodup)
  · exact ordered.nodup.sublist kept
  · intro i
    rcases eq_or_ne i node with rfl | apart
    · refine iff_of_false (by simp [absentBefore, absentAfter]) ?_
      simp [unused]
    · have used := ordered.used i
      simp only [List.mem_append, List.mem_cons, apart, false_or] at used ⊢
      rw [used, setNode_other apart]
  · have spaced := ordered.spaced
    rw [List.map_append, List.map_cons] at spaced
    have rest := spaced.remove
    rw [← List.map_append] at rest
    have same : (before ++ after).map (freelist.setNode node value).range =
        (before ++ after).map freelist.range :=
      range_setNode _ (by simp [absentBefore, absentAfter])
    rw [← same] at rest
    exact rest
  · intro i member
    have apart : i ≠ node := by
      rintro rfl
      simp [absentBefore, absentAfter] at member
    dsimp only
    rw [setNode_other apart]
    exact ordered.inside i (kept.subset member)

variable (value) in
/-- Linking an unused node in with a range inside the gap. -/
private theorem Ordered.insert (ordered : Ordered freelist (before ++ after))
    (fresh : (freelist.nodes node).begin = 0)
    (nonempty : value.begin < value.limit) (left : ∀ range ∈ before.map freelist.range, range.2 < value.begin)
    (right : ∀ range ∈ after.map freelist.range, value.limit < range.1)
    (low : IOMAP_START_VIRT ≤ value.begin) (high : value.limit ≤ iomapEnd) :
    Ordered { freelist.setNode node value with
      list := Singlylist.insertAfter freelist.list (place none before) node }
      (before ++ node :: after) := by
  have absent : node ∉ before ++ after := fun member => (ordered.used node).mp member fresh
  have absentBefore : node ∉ before := fun member => absent (List.mem_append_left _ member)
  have absentAfter : node ∉ after := fun member => absent (List.mem_append_right _ member)
  refine ⟨?_, ?_, fun i => ?_, ?_, fun i member => ?_⟩
  · refine ordered.chain.insert (places_nodup ordered.nodup) ?_
    simpa using absent
  · exact List.perm_middle.nodup_iff.mpr (List.nodup_cons.mpr ⟨absent, ordered.nodup⟩)
  · rcases eq_or_ne i node with rfl | apart
    · refine iff_of_true (by simp) ?_
      simp only [setNode_self, IOMAP_START_VIRT] at *
      omega
    · have used := ordered.used i
      simp only [List.mem_append, List.mem_cons, apart, false_or] at used ⊢
      rw [used, setNode_other apart]
  · have spaced := ordered.spaced
    rw [List.map_append] at spaced
    have own : (freelist.setNode node value).range node = (value.begin, value.limit) := by
      rw [MmioFreelist.range, setNode_self]
    have joined := spaced.insert nonempty left right
    rw [← range_setNode value absentBefore, ← range_setNode value absentAfter, ← own,
      ← List.map_cons, ← List.map_append] at joined
    exact joined
  · dsimp only
    rcases eq_or_ne i node with rfl | apart
    · rw [setNode_self]
      exact ⟨low, high⟩
    · rw [setNode_other apart]
      refine ordered.inside i ?_
      simpa [apart] using member

/-! ## Taking a range -/

theorem Ordered.sub64_eq (ordered : Ordered freelist (before ++ node :: after)) :
    sub64 (freelist.nodes node).limit (freelist.nodes node).begin =
      (freelist.nodes node).limit - (freelist.nodes node).begin := by
  have inside := (ordered.inside node (by simp)).2
  exact sub64_of_le ordered.nonempty.le (inside.trans_lt iomapEnd_lt)

private theorem carve_spec (ordered : Ordered freelist (before ++ node :: after)) {len : ℕ} (positive : 0 < len)
    (fits : len ≤ (freelist.nodes node).limit - (freelist.nodes node).begin) :
    ∃ result order, carve freelist (place none before) node
        ((freelist.nodes node).limit - (freelist.nodes node).begin) len = .ok result ∧
      Ordered result order ∧ ∀ point,
      covering (((freelist.nodes node).begin, (freelist.nodes node).begin + len) ::
        order.map result.range) point = covering ((before ++ node :: after).map freelist.range) point := by
  obtain ⟨absentBefore, absentAfter⟩ := ordered.absent
  have nonempty := ordered.nonempty
  have inside := ordered.inside node (by simp)
  have bound := iomapEnd_lt
  have own : freelist.range node = ((freelist.nodes node).begin, (freelist.nodes node).limit) := rfl
  rw [carve]
  by_cases exact' : (freelist.nodes node).limit - (freelist.nodes node).begin = len
  · obtain ⟨list, removed, remaining⟩ := ordered.remove { freelist.nodes node with begin := 0 } rfl
    refine ⟨_, before ++ after, ?_, remaining, fun point => ?_⟩
    · rw [if_pos exact']
      dsimp only
      rw [setNode_list, removed]
      rfl
    · have ranges : (before ++ after).map
          (MmioFreelist.range { freelist.setNode node { freelist.nodes node with begin := 0 } with list }) =
          (before ++ after).map freelist.range := range_setNode _ (by simp [absentBefore, absentAfter])
      rw [ranges, List.map_append, List.map_append, List.map_cons, own, covering_cons,
        covering_append, covering_append,
        covering_cons, show (freelist.nodes node).begin + len = (freelist.nodes node).limit by omega]
      omega
  · rw [if_neg exact', u64_of_lt (by omega)]
    have spaced := ordered.spaced
    rw [List.map_append, List.map_cons] at spaced
    have around := spaced.around
    refine ⟨_, before ++ node :: after, rfl, ordered.setNode (by dsimp only; omega) (fun range member => ?_)
      around.2 (by dsimp only; omega) inside.2, fun point => ?_⟩
    · have := around.1 range member
      dsimp only
      omega
    · rw [List.map_append, List.map_cons, range_setNode _ absentBefore, range_setNode _ absentAfter,
        MmioFreelist.range, setNode_self, List.map_append, List.map_cons, own]
      simp only [covering_cons, covering_append]
      split_ifs <;> omega

/-- The first-fit loop finds no node, or takes the range from the front of one. -/
theorem allocFrom_spec {rest : List NodeIndex} (ordered : Ordered freelist (before ++ rest)) {len fuel : ℕ}
    (positive : 0 < len) (enough : rest.length < fuel) :
    allocFrom freelist len fuel (place none before) rest.head? = .ok none ∨
    ∃ node ∈ rest, ∃ result order,
      allocFrom freelist len fuel (place none before) rest.head? =
        .ok (some ((freelist.nodes node).begin, result)) ∧
      (freelist.nodes node).begin + len ≤ iomapEnd ∧ Ordered result order ∧
      ∀ point, covering (((freelist.nodes node).begin, (freelist.nodes node).begin + len) ::
        order.map result.range) point = covering ((before ++ rest).map freelist.range) point := by
  induction rest generalizing before fuel with
  | nil =>
    obtain ⟨fuel, rfl⟩ := Nat.exists_eq_add_one.mpr (Nat.zero_lt_of_lt enough)
    exact .inl rfl
  | cons node rest ih =>
    obtain ⟨fuel, rfl⟩ := Nat.exists_eq_add_one.mpr (Nat.zero_lt_of_lt enough)
    rw [List.head?_cons, allocFrom, ordered.sub64_eq]
    by_cases small : (freelist.nodes node).limit - (freelist.nodes node).begin < len
    · rw [List.length_cons] at enough
      have further := @ih (before ++ [node]) (by simpa using ordered) fuel (by omega)
      rw [place_append_singleton, List.append_assoc, List.singleton_append] at further
      have next : freelist.list (some node) = rest.head? := ordered.chain.rest.2.next_eq
      rw [if_pos small, next]
      rcases further with none | ⟨other, listed, found⟩
      · exact .inl none
      · exact .inr ⟨other, List.mem_cons_of_mem _ listed, found⟩
    · obtain ⟨result, order, ran, kept, covered⟩ := carve_spec ordered positive (Nat.le_of_not_lt small)
      have inside := (ordered.inside node (by simp)).2
      have nonempty := ordered.nonempty
      refine .inr ⟨node, List.mem_cons_self, result, order, ?_, by omega, kept, covered⟩
      rw [if_neg small, ran]
      rfl

/-! ## Giving a range back -/

/-- Ranges that end at or before a point and do not all end before it: the last one touches it. -/
private theorem Ordered.left_ends {init : List NodeIndex} {last : NodeIndex} {point : ℕ}
    (ordered : Ordered freelist (init ++ [last] ++ after)) (ends : (freelist.nodes last).limit ≤ point) :
    (∀ range ∈ init.map freelist.range, range.2 < point) ∧
      ((freelist.nodes last).limit ≠ point →
        ∀ range ∈ (init ++ [last]).map freelist.range, range.2 < point) := by
  rw [List.append_assoc] at ordered
  have nonempty := ordered.nonempty
  have spaced := ordered.spaced
  rw [List.map_append, List.singleton_append, List.map_cons] at spaced
  have around := spaced.around
  have before (range : ℕ × ℕ) (member : range ∈ init.map freelist.range) : range.2 < point := by
    have := around.1 range member
    omega
  refine ⟨before, fun apart range member => ?_⟩
  rw [List.map_append, List.mem_append, List.map_singleton, List.mem_singleton] at member
  rcases member with front | rfl
  · exact before range front
  · exact Nat.lt_of_le_of_ne ends apart

private theorem newnode_unused (ran : mmioFreelistNewnode freelist = .ok node) : (freelist.nodes node).begin = 0 := by
  unfold mmioFreelistNewnode at ran
  split at ran
  · next found =>
    have unused := List.find?_some found
    simp only [Except.ok.injEq, decide_eq_true_eq] at ran unused
    exact ran ▸ unused
  · cases ran

/-- What a release stops with when all nodes of the pool are in use. -/
def tooFragmented : Fault := .panic "panic : mmio virtual memory space is too fragmented"

private theorem newnode_cases (freelist : MmioFreelist) :
    mmioFreelistNewnode freelist = .error tooFragmented ∨ ∃ i, mmioFreelistNewnode freelist = .ok i := by
  unfold mmioFreelistNewnode
  split
  · exact .inr ⟨_, rfl⟩
  · exact .inl rfl

variable {start len : ℕ}

/-- What a successful release leaves: an ordered list that covers the released range as well. -/
def Released (freelist : MmioFreelist) (order : List NodeIndex) (start len : ℕ) (result : MmioFreelist) : Prop :=
  ∃ order', Ordered result order' ∧ ∀ point, covering (order'.map result.range) point =
    covering ((start, start + len) :: order.map freelist.range) point

/-- A node grows by the released range. -/
private theorem released_setNode (ordered : Ordered freelist (before ++ node :: after))
    (ordered' : Ordered (freelist.setNode node value) (before ++ node :: after))
    (grows : ∀ point, (if value.begin ≤ point ∧ point < value.limit then 1 else 0) =
      (if start ≤ point ∧ point < start + len then 1 else 0) +
        if (freelist.nodes node).begin ≤ point ∧ point < (freelist.nodes node).limit then 1 else 0) :
    Released freelist (before ++ node :: after) start len (freelist.setNode node value) := by
  obtain ⟨absentBefore, absentAfter⟩ := ordered.absent
  refine ⟨_, ordered', fun point => ?_⟩
  rw [List.map_append, List.map_cons, range_setNode _ absentBefore, range_setNode _ absentAfter,
    MmioFreelist.range, setNode_self, List.map_append, List.map_cons, MmioFreelist.range]
  simp only [covering_cons, covering_append, grows point]
  omega

/-- The range joins the node to its right only. -/
private theorem released_right (ordered : Ordered freelist (before ++ node :: after)) (low : IOMAP_START_VIRT ≤ start)
    (positive : 0 < len) (left : ∀ range ∈ before.map freelist.range, range.2 < start)
    (touches : start + len = (freelist.nodes node).begin) :
    Released freelist (before ++ node :: after) start len
      (freelist.setNode node { freelist.nodes node with begin := start }) := by
  have nonempty := ordered.nonempty
  have inside := ordered.inside node (by simp)
  have spaced := ordered.spaced
  rw [List.map_append, List.map_cons] at spaced
  refine released_setNode ordered
    (ordered.setNode (by dsimp only; omega) left spaced.around.2 low inside.2) fun point => ?_
  dsimp only
  split_ifs <;> omega

/-- The range joins the node to its left only. -/
private theorem released_left (ordered : Ordered freelist (before ++ node :: after)) (positive : 0 < len)
    (right : ∀ range ∈ after.map freelist.range, start + len < range.1) (high : start + len ≤ iomapEnd)
    (touches : (freelist.nodes node).limit = start) :
    Released freelist (before ++ node :: after) start len
      (freelist.setNode node { freelist.nodes node with limit := start + len }) := by
  have nonempty := ordered.nonempty
  have inside := ordered.inside node (by simp)
  have spaced := ordered.spaced
  rw [List.map_append, List.map_cons] at spaced
  refine released_setNode ordered
    (ordered.setNode (by dsimp only; omega) spaced.around.1 right inside.1 high) fun point => ?_
  dsimp only
  split_ifs <;> omega

/-- The range touches neither neighbour and takes an unused node. -/
private theorem released_new {fresh : NodeIndex} (ordered : Ordered freelist (before ++ after))
    (low : IOMAP_START_VIRT ≤ start) (positive : 0 < len) (high : start + len ≤ iomapEnd)
    (left : ∀ range ∈ before.map freelist.range, range.2 < start)
    (right : ∀ range ∈ after.map freelist.range, start + len < range.1)
    (unused : (freelist.nodes fresh).begin = 0) :
    Released freelist (before ++ after) start len { freelist.setNode fresh ⟨start, start + len⟩ with
      list := Singlylist.insertAfter freelist.list (place none before) fresh } := by
  have absent : fresh ∉ before ++ after := fun member => (ordered.used fresh).mp member unused
  have absentBefore : fresh ∉ before := fun member => absent (List.mem_append_left _ member)
  have absentAfter : fresh ∉ after := fun member => absent (List.mem_append_right _ member)
  refine ⟨_, ordered.insert ⟨start, start + len⟩ unused (by dsimp only; omega) left right low high,
    fun point => ?_⟩
  have ranges (part : List NodeIndex) (outside : fresh ∉ part) : part.map (MmioFreelist.range
      { freelist.setNode fresh ⟨start, start + len⟩ with
        list := Singlylist.insertAfter freelist.list (place none before) fresh }) = part.map freelist.range :=
    range_setNode _ outside
  rw [List.map_append, List.map_cons, ranges before absentBefore, ranges after absentAfter,
    MmioFreelist.range, setNode_self, List.map_append]
  simp only [covering_cons, covering_append]
  omega

/-- The range closes the gap between its neighbours, and the right node is unlinked. -/
private theorem released_both {init : List NodeIndex} {last : NodeIndex}
    (ordered : Ordered freelist (init ++ [last] ++ node :: after))
    (positive : 0 < len) (leftTouches : (freelist.nodes last).limit = start)
    (rightTouches : start + len = (freelist.nodes node).begin) :
    ∃ list, Singlylist.removeAfter freelist.list (some last) = .ok list ∧
      Released freelist (init ++ [last] ++ node :: after) start len
        (MmioFreelist.setNode { freelist.setNode node { freelist.nodes node with begin := 0 } with list } last
          { freelist.nodes last with limit := (freelist.nodes node).limit }) := by
  have apart : last ≠ node := fun same => ordered.absent.1 (same ▸ by simp)
  have nonempty := ordered.nonempty
  have inside := ordered.inside node (by simp)
  have lastOrdered : Ordered freelist (init ++ last :: (node :: after)) := by simpa using ordered
  have lastNonempty := lastOrdered.nonempty
  have lastInside := lastOrdered.inside last (by simp)
  obtain ⟨absentInit, absentRest⟩ := lastOrdered.absent
  have absentAfter : last ∉ after := fun member => absentRest (.tail _ member)
  obtain ⟨nodeBefore, nodeAfter⟩ := ordered.absent
  have nodeInit : node ∉ init := fun member => nodeBefore (List.mem_append_left _ member)
  obtain ⟨list, removed, remaining⟩ := ordered.remove { freelist.nodes node with begin := 0 } rfl
  rw [place_append_singleton] at removed
  rw [List.append_assoc, List.singleton_append] at remaining
  refine ⟨list, removed, init ++ last :: after,
    remaining.setNode (by dsimp only; omega) ?_ ?_ lastInside.1 inside.2, ?_⟩
  · have ranges : init.map (MmioFreelist.range
        { freelist.setNode node { freelist.nodes node with begin := 0 } with list }) =
            init.map freelist.range :=
      range_setNode _ nodeInit
    rw [ranges]
    have spaced := lastOrdered.spaced
    rw [List.map_append, List.map_cons] at spaced
    exact spaced.around.1
  · have ranges : after.map (MmioFreelist.range
        { freelist.setNode node { freelist.nodes node with begin := 0 } with list }) =
            after.map freelist.range :=
      range_setNode _ nodeAfter
    rw [ranges]
    have spaced := ordered.spaced
    rw [List.map_append, List.map_cons] at spaced
    exact spaced.around.2
  · intro point
    have ranges (part : List NodeIndex) (notLast : last ∉ part) (notNode : node ∉ part) :
      part.map (MmioFreelist.range
        (MmioFreelist.setNode { freelist.setNode node { freelist.nodes node with begin := 0 } with list } last
          { freelist.nodes last with limit := (freelist.nodes node).limit })) = part.map freelist.range :=
      (range_setNode _ notLast).trans (range_setNode _ notNode)
    rw [List.map_append, List.map_cons, ranges init absentInit nodeInit, ranges after absentAfter nodeAfter,
      MmioFreelist.range, setNode_self]
    simp only [List.map_append, List.map_cons, List.map_nil, covering_cons, covering_append,
      MmioFreelist.range]
    have none : covering [] point = 0 := rfl
    rw [none]
    split_ifs <;> omega

/-- The merge of the three ranges: `node` begins with the released range, and the left node takes it over. -/
private theorem mergeLeft_both {init : List NodeIndex} {last : NodeIndex}
    (ordered : Ordered freelist (init ++ [last] ++ node :: after)) (positive : 0 < len)
    (leftTouches : (freelist.nodes last).limit = start) (rightTouches : start + len = (freelist.nodes node).begin) :
    ∃ result, mergeLeft (freelist.setNode node { freelist.nodes node with begin := start }) (some last) node =
        .ok result ∧
      Released freelist (init ++ [last] ++ node :: after) start len result := by
  have apart : last ≠ node := fun same => ordered.absent.1 (same ▸ by simp)
  obtain ⟨list, removed, released⟩ := released_both ordered positive leftTouches rightTouches
  refine ⟨_, ?_, released⟩
  rw [mergeLeft]
  dsimp only
  rw [setNode_self, setNode_other apart, if_pos leftTouches]
  dsimp only
  rw [setNode_list, setNode_list, setNode_list, removed, Except.ok_bind]
  refine congrArg (fun nodes => Except.ok (MmioFreelist.mk list nodes)) (funext fun i => ?_)
  rcases eq_or_ne i node with rfl | notNode
  · simp [MmioFreelist.setNode, apart.symm]
  · rcases eq_or_ne i last with rfl | notLast
    · simp [MmioFreelist.setNode, notNode]
    · simp [MmioFreelist.setNode, notNode, notLast]

/-- A release in front of a node runs out of nodes or adds the range to the list. -/
private theorem releaseBefore_spec (ordered : Ordered freelist (before ++ node :: after))
    (low : IOMAP_START_VIRT ≤ start)
    (positive : 0 < len) (ends : ∀ left, place none before = some left → (freelist.nodes left).limit ≤ start)
    (high : start + len ≤ (freelist.nodes node).begin) :
    releaseBefore freelist (place none before) node start len = .error tooFragmented ∨
    ∃ result, releaseBefore freelist (place none before) node start len = .ok result ∧
      Released freelist (before ++ node :: after) start len result := by
  have inside := (ordered.inside node (by simp)).2
  have nonempty := ordered.nonempty
  have bound := iomapEnd_lt
  have spaced := ordered.spaced
  rw [List.map_append, List.map_cons] at spaced
  have rightOf (apart : start + len ≠ (freelist.nodes node).begin) :
      ∀ range ∈ (node :: after).map freelist.range, start + len < range.1 := by
    intro range member
    rw [List.map_cons] at member
    rcases List.mem_cons.mp member with rfl | later
    · exact Nat.lt_of_le_of_ne high apart
    · have := spaced.around.2 range later
      omega
  have newNode (touches : touchesLeft freelist (place none before) start = none)
      (apart : start + len ≠ (freelist.nodes node).begin)
      (left : ∀ range ∈ before.map freelist.range, range.2 < start) :
      releaseBefore freelist (place none before) node start len = .error tooFragmented ∨
      ∃ result, releaseBefore freelist (place none before) node start len = .ok result ∧
        Released freelist (before ++ node :: after) start len result := by
    rw [releaseBefore, u64_of_lt (by omega), if_neg apart, touches]
    rcases newnode_cases freelist with failed | ⟨fresh, ran⟩
    · left
      rw [failed]
      rfl
    · refine .inr ⟨_, ?_, released_new ordered low positive (by omega) left (rightOf apart)
        (newnode_unused ran)⟩
      rw [ran]
      rfl
  rcases List.eq_nil_or_concat before with rfl | ⟨init, last, rfl⟩
  · by_cases touches : start + len = (freelist.nodes node).begin
    · refine .inr ⟨_, ?_, released_right ordered low positive (by simp) touches⟩
      rw [releaseBefore, u64_of_lt (by omega), if_pos touches]
      rfl
    · exact newNode rfl touches (by simp)
  · rw [List.concat_eq_append] at *
    rw [place_append_singleton] at *
    obtain ⟨leftInit, leftAll⟩ := ordered.left_ends (ends last rfl)
    have apart : last ≠ node := fun same => ordered.absent.1 (same ▸ by simp)
    by_cases touches : start + len = (freelist.nodes node).begin
    · right
      rw [releaseBefore, u64_of_lt (by omega), if_pos touches]
      by_cases joins : (freelist.nodes last).limit = start
      · exact mergeLeft_both ordered positive joins touches
      · rw [mergeLeft]
        dsimp only
        rw [setNode_self, setNode_other apart, if_neg joins]
        exact ⟨_, rfl, released_right ordered low positive (leftAll joins) touches⟩
    · by_cases joins : (freelist.nodes last).limit = start
      · right
        have kept : touchesLeft freelist (some last) start = some last := by simp [touchesLeft, joins]
        rw [releaseBefore, u64_of_lt (by omega), if_neg touches, kept]
        dsimp only
        rw [mergeLeft, joins, u64_of_lt (by omega)]
        dsimp only
        rw [setNode_self, setNode_other apart.symm, if_neg touches]
        rw [List.append_assoc] at ordered ⊢
        exact ⟨_, rfl, released_left ordered positive (rightOf touches) (by omega) joins⟩
      · exact newNode (by simp [touchesLeft, joins]) touches (leftAll joins)

/-- The release loop passes every node when none lies above the range. Otherwise it stops in front of
the first such node, and runs out of nodes or adds the range to the list. -/
theorem deallocFrom_spec {rest : List NodeIndex} (ordered : Ordered freelist (before ++ rest)) {fuel : ℕ}
    (low : IOMAP_START_VIRT ≤ start) (positive : 0 < len) (enough : rest.length < fuel)
    (apart : ∀ i ∈ before ++ rest, (freelist.nodes i).limit ≤ start ∨ start + len ≤ (freelist.nodes i).begin)
    (passed : ∀ i ∈ before, (freelist.nodes i).begin ≤ start) :
    (deallocFrom freelist start len (start + len) fuel (place none before) rest.head? = .ok none ∧
      ∀ i ∈ rest, (freelist.nodes i).begin ≤ start) ∨
    (∃ i ∈ rest, start + len ≤ (freelist.nodes i).begin) ∧
      (deallocFrom freelist start len (start + len) fuel (place none before) rest.head? =
        .error tooFragmented ∨
      ∃ result, deallocFrom freelist start len (start + len) fuel (place none before) rest.head? =
        .ok (some result) ∧
        Released freelist (before ++ rest) start len result) := by
  induction rest generalizing before fuel with
  | nil =>
    obtain ⟨fuel, rfl⟩ := Nat.exists_eq_add_one.mpr (Nat.zero_lt_of_lt enough)
    exact .inl ⟨rfl, fun _ member => (List.not_mem_nil member).elim⟩
  | cons node rest ih =>
    obtain ⟨fuel, rfl⟩ := Nat.exists_eq_add_one.mpr (Nat.zero_lt_of_lt enough)
    rw [List.head?_cons, deallocFrom]
    rcases Nat.lt_or_ge start (freelist.nodes node).begin with above | below
    · have nonempty := ordered.nonempty
      have fits : start + len ≤ (freelist.nodes node).begin :=
        (apart node (by simp)).resolve_left (by omega)
      have ends (left : NodeIndex) (here : place none before = some left) :
          (freelist.nodes left).limit ≤ start := by
        have member : left ∈ before := List.mem_of_getLast? (place_none before ▸ here)
        have := passed left member
        exact (apart left (List.mem_append_left _ member)).resolve_right (by omega)
      have stop : beforeEnd freelist (place none before) ≤ start := by
        generalize place none before = position at ends
        cases position with
        | none => exact low
        | some left => exact ends left rfl
      refine .inr ⟨⟨node, .head _, fits⟩, ?_⟩
      rw [if_neg (Nat.not_le_of_lt above), assertMsg_of (decide_eq_true ⟨stop, fits⟩), Except.ok_bind]
      cases releaseBefore_spec ordered low positive ends fits with
      | inl failed =>
        left
        rw [failed]
        rfl
      | inr found =>
        obtain ⟨result, ran, released⟩ := found
        refine .inr ⟨result, ?_, released⟩
        rw [ran]
        rfl
    · rw [List.length_cons] at enough
      have further := @ih (before ++ [node]) (by simpa using ordered) fuel (by omega) (by simpa using apart)
        (by simpa [or_imp, forall_and] using ⟨passed, below⟩)
      rw [place_append_singleton, List.append_assoc, List.singleton_append] at further
      have next : freelist.list (some node) = rest.head? := ordered.chain.rest.2.next_eq
      rw [if_pos below, next]
      rcases further with ⟨none, all⟩ | ⟨⟨i, member, above⟩, outcome⟩
      · exact .inl ⟨none, List.forall_mem_cons.mpr ⟨below, all⟩⟩
      · exact .inr ⟨⟨i, .tail _ member, above⟩, outcome⟩

end Edits

end RubberOS.Model.Mmio
