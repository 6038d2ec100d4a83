import RubberOS.Model.SortBytes
import RubberOS.Proofs.Sort

/-! # The heapsort on bytes refines the one on elements
 Memory stores an array of elements. Every loop on the bytes follows the loop on the elements step by step, stays
in the array, and leaves all other bytes as they are. -/

namespace RubberOS.Model.SortBytes

open HeapOrder

/-- The element with this index in the array at `ptr`. -/
def element (memory : Memory) (ptr size i : ℕ) : Element size := fun b => memory (ptr + i * size + b)

/-- The elements of the array at `ptr`, in order. -/
def elements (memory : Memory) (ptr count size : ℕ) : List (Element size) :=
  (List.range count).map (element memory ptr size)

/-- The array at `ptr` stores these elements, and bytes outside it are those of the initial memory. -/
structure Stores (initial memory : Memory) (ptr count : ℕ) {size : ℕ} (p : ℕ → Element size) : Prop where
  inside : ∀ i < count, element memory ptr size i = p i
  outside : ∀ address, (address < ptr ∨ ptr + count * size ≤ address) → memory address = initial address

section Swap

variable {memory : Memory} {ptr len ca cb : ℕ}

/-- The byte loop exchanges two ranges of the array that do not overlap. -/
private theorem swap_ranges (size : ℕ) (lower : ptr ≤ ca) (upper : ca + size ≤ ptr + len) (otherLower : ptr ≤ cb)
    (otherUpper : cb + size ≤ ptr + len) (apart : ca + size ≤ cb ∨ cb + size ≤ ca) :
    ∃ after, swap ptr len size ca cb memory = .ok after ∧
      (∀ b < size, after (ca + b) = memory (cb + b) ∧ after (cb + b) = memory (ca + b)) ∧
      ∀ address, (address < ca ∨ ca + size ≤ address) → (address < cb ∨ cb + size ≤ address) →
        after address = memory address := by
  induction size generalizing ca cb memory with
  | zero => exact ⟨memory, rfl, fun b lt => (Nat.not_lt_zero b lt).elim, fun _ _ _ => rfl⟩
  | succ size ih =>
    obtain ⟨after, ran, exchanged, rest⟩ :=
      @ih (Function.update (Function.update memory ca (memory cb)) cb (memory ca)) (ca + 1) (cb + 1)
        (by omega) (by omega) (by omega) (by omega) (by omega)
    have same {address : ℕ} (left : address ≠ ca) (right : address ≠ cb) :
        Function.update (Function.update memory ca (memory cb)) cb (memory ca) address = memory address := by
      rw [Function.update_of_ne right, Function.update_of_ne left]
    refine ⟨after, ?_, fun b lt => ?_, fun address left right => ?_⟩
    · rw [swap, byteAt, if_pos (by omega), Except.ok_bind, byteAt, if_pos (by omega), Except.ok_bind, setByte,
        if_pos (by omega), Except.ok_bind, setByte, if_pos (by omega), Except.ok_bind, ran]
    · cases b with
      | zero =>
        refine ⟨?_, ?_⟩
        · rw [rest _ (by omega) (by omega), Function.update_of_ne (by omega), Nat.add_zero, Function.update_self]
          rfl
        · rw [rest _ (by omega) (by omega), Nat.add_zero, Function.update_self]
          rfl
      | succ b =>
        obtain ⟨left, right⟩ := exchanged b (by omega)
        rw [show ca + (b + 1) = ca + 1 + b by omega, show cb + (b + 1) = cb + 1 + b by omega, left, right,
          same (by omega) (by omega), same (by omega) (by omega)]
        exact ⟨rfl, rfl⟩
    · rw [rest _ (by omega) (by omega), same (by omega) (by omega)]

end Swap

section Refinement

variable {initial memory : Memory} {ptr count size n i j : ℕ} {p q : ℕ → Element size}

private theorem inside_of_elementAt (positive : 0 < size) {x : Element size}
    (read : Sort.elementAt size count p (i * size) = .ok x) : i < count ∧ x = p i := by
  rw [Sort.elementAt] at read
  split_ifs at read with inside
  cases read
  rw [← Nat.succ_mul] at inside
  exact ⟨Nat.le_of_mul_le_mul_right inside positive, by rw [Nat.mul_div_cancel i positive]⟩

private theorem Stores.elementAt (stores : Stores initial memory ptr count p) (below : i < count) :
    elementAt ptr (count * size) memory (ptr + i * size) = .ok (p i) := by
  have last := Nat.mul_le_mul_right size (Nat.succ_le_of_lt below)
  rw [Nat.succ_mul] at last
  rw [SortBytes.elementAt, if_pos (by omega), ← stores.inside i below]
  rfl

private theorem Stores.compare (stores : Stores initial memory ptr count p) (comp : Element size → Element size → ℤ)
    (left : i < count) (right : j < count) :
    compare comp ptr (count * size) memory (ptr + i * size) (ptr + j * size) = .ok (comp (p i) (p j)) := by
  rw [SortBytes.compare, stores.elementAt left, Except.ok_bind, stores.elementAt right]
  rfl

/-- Two different elements are exchanged. -/
private theorem Stores.swap (stores : Stores initial memory ptr count p) (left : i < count)
    (right : j < count) (other : i ≠ j) :
    ∃ after, swap ptr (count * size) size (ptr + i * size) (ptr + j * size) memory = .ok after ∧
      Stores initial after ptr count (Function.update (Function.update p i (p j)) j (p i)) := by
  have leftLast := Nat.mul_le_mul_right size (Nat.succ_le_of_lt left)
  have rightLast := Nat.mul_le_mul_right size (Nat.succ_le_of_lt right)
  rw [Nat.succ_mul] at leftLast rightLast
  have apart {k l : ℕ} (different : k ≠ l) : k * size + size ≤ l * size ∨ l * size + size ≤ k * size := by
    rcases Nat.lt_or_gt_of_ne different with lt | gt
    · have less := Nat.mul_le_mul_right size (Nat.succ_le_of_lt lt)
      rw [Nat.succ_mul] at less
      exact .inl less
    · have less := Nat.mul_le_mul_right size (Nat.succ_le_of_lt gt)
      rw [Nat.succ_mul] at less
      exact .inr less
  have disjoint := apart other
  obtain ⟨after, ran, exchanged, rest⟩ := @swap_ranges memory ptr (count * size)
    (ptr + i * size) (ptr + j * size) size (by omega) (by omega) (by omega) (by omega) (by omega)
  refine ⟨after, ran, fun k below => ?_, fun address beyond => ?_⟩
  · funext b
    have short := b.isLt
    rcases eq_or_ne k j with rfl | notRight
    · rw [Function.update_self, ← stores.inside i left]
      exact (exchanged b short).2
    · rw [Function.update_of_ne notRight]
      rcases eq_or_ne k i with rfl | notLeft
      · rw [Function.update_self, ← stores.inside j right]
        exact (exchanged b short).1
      · rw [Function.update_of_ne notLeft, ← stores.inside k below]
        have fromLeft := apart notLeft
        have fromRight := apart notRight
        exact rest _ (by omega) (by omega)
  · rw [rest _ (by omega) (by omega)]
    exact stores.outside address beyond

variable {comp : Element size → Element size → ℤ}

/-- The chosen child is the one that the loop on elements chooses. -/
private theorem Stores.greaterChild (stores : Stores initial memory ptr count p) (positive : 0 < size)
    (bound : count * size < 2 ^ 63) (near : i < count) {stop c : ℕ}
    (chosen : Sort.greaterChild comp size count stop p (i * size) = .ok c) :
    greaterChild comp ptr (count * size) stop memory (i * size) = .ok c := by
  have next : u64 (i * size + size) = (i + 1) * size := by
    rw [← Nat.succ_mul]
    exact Sort.u64_offset bound (by omega)
  rw [Sort.greaterChild, next] at chosen
  rw [SortBytes.greaterChild, next]
  split_ifs at chosen ⊢
  · simp only [Except.bind_ok_iff, Except.pure_ok_iff] at chosen
    obtain ⟨x, left, y, right, rfl⟩ := chosen
    obtain ⟨_, rfl⟩ := inside_of_elementAt positive left
    obtain ⟨inside, rfl⟩ := inside_of_elementAt positive right
    rw [stores.compare comp near inside]
    rfl
  · exact chosen

/-- The chosen child is a later element. -/
private theorem child_of_chosen (bound : count * size < 2 ^ 63) (near : i < count) {stop c : ℕ}
    (chosen : Sort.greaterChild comp size count stop p (i * size) = .ok c) : ∃ j, c = j * size ∧ i ≤ j := by
  have next : u64 (i * size + size) = (i + 1) * size := by
    rw [← Nat.succ_mul]
    exact Sort.u64_offset bound (by omega)
  rw [Sort.greaterChild, next] at chosen
  split_ifs at chosen
  · simp only [Except.bind_ok_iff, Except.pure_ok_iff] at chosen
    obtain ⟨_, _, _, _, rfl⟩ := chosen
    split_ifs
    · exact ⟨i + 1, rfl, Nat.le_succ i⟩
    · exact ⟨i, rfl, le_rfl⟩
  · cases chosen
    exact ⟨i, rfl, le_rfl⟩

private theorem Stores.repair (stores : Stores initial memory ptr count p) (positive : 0 < size)
    (bound : count * size < 2 ^ 63) (le : n ≤ count) (near : i < count) {fuel : ℕ}
    (ran : Sort.repair comp size count (n * size) fuel (i * size) p = .ok q) :
    ∃ after, repair comp ptr (count * size) (n * size) fuel (i * size) memory = .ok after ∧
      Stores initial after ptr count q := by
  induction fuel generalizing i p memory with
  | zero => cases ran
  | succ fuel ih =>
    have first : u64 (i * size * 2 + size) = (2 * i + 1) * size := by
      rw [show i * size * 2 + size = (2 * i + 1) * size by ring]
      exact Sort.u64_offset bound (by omega)
    rw [Sort.repair, first] at ran
    rw [SortBytes.repair, first]
    by_cases leaf : (2 * i + 1) * size ≥ n * size
    · rw [if_pos leaf] at ran ⊢
      cases ran
      exact ⟨memory, rfl, stores⟩
    · have lower : 2 * i + 1 < n := Nat.lt_of_mul_lt_mul_right (Nat.lt_of_not_le leaf)
      rw [if_neg leaf] at ran ⊢
      simp only [Except.bind_ok_iff] at ran
      obtain ⟨c, chosen, x, parent, y, greater, ran⟩ := ran
      rw [stores.greaterChild positive bound (by omega) chosen, Except.ok_bind]
      obtain ⟨j, rfl, later⟩ := child_of_chosen bound (by omega) chosen
      obtain ⟨_, rfl⟩ := inside_of_elementAt positive parent
      obtain ⟨inside, rfl⟩ := inside_of_elementAt positive greater
      rw [stores.compare comp near inside, Except.ok_bind]
      by_cases done : comp (p i) (p j) ≥ 0
      · rw [if_pos done] at ran ⊢
        cases ran
        exact ⟨memory, rfl, stores⟩
      · rw [if_neg done] at ran ⊢
        rw [Sort.swap_eq positive near inside, Except.ok_bind] at ran
        obtain ⟨after, exchanged, afterStores⟩ := stores.swap near inside (by omega)
        rw [exchanged, Except.ok_bind]
        exact ih afterStores inside ran

private theorem Stores.sortLoop (stores : Stores initial memory ptr count p) (positive : 0 < size)
    (bound : count * size < 2 ^ 63) (le : n ≤ count) (near : i ≤ n) {fuel : ℕ}
    (ran : Sort.sortLoop comp size count fuel (i * size) (n * size) p = .ok q) :
    ∃ after, sortLoop comp ptr count fuel (i * size) (n * size) memory = .ok after ∧
      Stores initial after ptr count q := by
  induction fuel generalizing i n p memory with
  | zero => cases ran
  | succ fuel ih =>
    have whole := Nat.mul_le_mul_right size le
    rw [Sort.sortLoop] at ran
    rw [SortBytes.sortLoop]
    by_cases more : n * size > size
    · have many : 1 < n := Nat.lt_of_mul_lt_mul_right (a := size) (by rwa [Nat.one_mul])
      rw [if_pos more] at ran ⊢
      cases i with
      | succ i =>
        have inside := Nat.mul_le_mul_right size near
        have shrunk : sub64 ((i + 1) * size) size = i * size := by
          rw [sub64_of_le (by rw [Nat.succ_mul]; omega) (by omega), Nat.succ_mul, Nat.add_sub_cancel]
        have heapify : (i + 1) * size > 0 := Nat.mul_pos (Nat.succ_pos i) positive
        rw [if_pos heapify, shrunk, pure_bind] at ran ⊢
        dsimp only at ran ⊢
        obtain ⟨r, repaired, ran⟩ := Except.bind_ok_iff.mp ran
        obtain ⟨after, refined, afterStores⟩ := stores.repair positive bound le (by omega) repaired
        rw [refined, Except.ok_bind]
        exact ih afterStores le (by omega) ran
      | zero =>
        obtain ⟨n, rfl⟩ : ∃ m, n = m + 1 := ⟨n - 1, by omega⟩
        have shrunk : sub64 ((n + 1) * size) size = n * size := by
          rw [sub64_of_le (by rw [Nat.succ_mul]; omega) (by omega), Nat.succ_mul, Nat.add_sub_cancel]
        have pop : ¬0 * size > 0 := by omega
        have exchange := Sort.swap_eq (p := p) (i := n) (j := 0) positive (by omega : n < count) (by omega)
        obtain ⟨popped, exchanged, poppedStores⟩ :=
          stores.swap (i := n) (j := 0) (by omega) (by omega) (by omega)
        rw [Nat.zero_mul] at exchange
        rw [Nat.zero_mul, Nat.add_zero] at exchanged
        rw [if_neg pop, shrunk] at ran ⊢
        dsimp only at ran ⊢
        rw [exchange, Except.ok_bind, pure_bind] at ran
        rw [exchanged, Except.ok_bind, pure_bind]
        dsimp only at ran ⊢
        obtain ⟨r, repaired, ran⟩ := Except.bind_ok_iff.mp ran
        obtain ⟨after, refined, afterStores⟩ := poppedStores.repair positive bound (by omega) (by omega) repaired
        rw [refined, Except.ok_bind]
        exact ih afterStores (by omega) (Nat.zero_le n) ran
    · rw [if_neg more] at ran ⊢
      cases ran
      exact ⟨memory, rfl, stores⟩

end Refinement

/-- `sort` terminates, stays in the array, permutes its elements and, for a total preorder, leaves them ascending. -/
theorem sort_ascending {count size : ℕ} (memory : Memory) (ptr : ℕ) (comp : Element size → Element size → ℤ)
    (positive : 1 ≤ size) (bound : count * size < 2 ^ 63) :
    ∃ after, sort memory ptr count size comp = .ok after ∧
      (∀ address, (address < ptr ∨ ptr + count * size ≤ address) → after address = memory address) ∧
      (elements after ptr count size).Perm (elements memory ptr count size) ∧
      (Sort.Comparator comp → ∀ i, i + 1 < count →
        comp (element after ptr size i) (element after ptr size (i + 1)) ≤ 0) := by
  have half : u64 (count / 2 * size) = count / 2 * size := Sort.u64_offset bound (by omega)
  have whole : u64 (count * size) = count * size := Sort.u64_offset bound (by omega)
  obtain ⟨q, ran, same, ordered⟩ := Sort.sort_ok comp (element memory ptr size) positive bound
  rw [Sort.sort, half, whole] at ran
  have stores : Stores memory memory ptr count (element memory ptr size) := ⟨fun _ _ => rfl, fun _ _ => rfl⟩
  obtain ⟨after, refined, afterStores⟩ := stores.sortLoop positive bound le_rfl (by omega) ran
  refine ⟨after, ?_, afterStores.outside, ?_, fun order i inside => ?_⟩
  · rw [sort, half, whole, refined]
  · have stored : elements after ptr count size = (List.range count).map q :=
      List.map_congr_left fun i member => afterStores.inside i (List.mem_range.mp member)
    rw [stored, elements]
    exact same.perm
  · rw [afterStores.inside i (by omega), afterStores.inside (i + 1) inside]
    exact ordered order i (i + 1) (Nat.le_succ i) inside

/-- Three bytes, the comparison of two of them, and any array address. -/
theorem sort_ascending_bytes : ∃ after,
    sort (fun address => BitVec.ofNat 8 (5 - address)) 2 3 1 (fun left right => (left 0).toNat - (right 0).toNat) = .ok after ∧
      (∀ address, (address < 2 ∨ 2 + 3 * 1 ≤ address) → after address = BitVec.ofNat 8 (5 - address)) ∧
      (elements after 2 3 1).Perm (elements (fun address => BitVec.ofNat 8 (5 - address)) 2 3 1) ∧
      (Sort.Comparator (fun left right : Element 1 => ((left 0).toNat - (right 0).toNat : ℤ)) → ∀ i, i + 1 < 3 →
        ((element after 2 1 i 0).toNat - (element after 2 1 (i + 1) 0).toNat : ℤ) ≤ 0) :=
  sort_ascending (fun address => BitVec.ofNat 8 (5 - address)) 2 (fun left right => (left 0).toNat - (right 0).toNat)
    (by decide) (by decide)

end RubberOS.Model.SortBytes
