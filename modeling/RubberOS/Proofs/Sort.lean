import Mathlib.Tactic.Linarith
import Mathlib.Tactic.Ring
import RubberOS.Model.Sort
import RubberOS.ToMathlib.HeapOrder

/-! # Correctness of the heapsort

For any comparator the loops finish inside the array and permute it. A comparator that is a total
preorder makes the first phase build a heap and every pop move a maximum behind the heap.
-/

namespace RubberOS.Model.Sort

open HeapOrder

variable {α : Type}

/-- A three-way comparison whose order is total and transitive. -/
structure Comparator (comp : α → α → ℤ) : Prop where
  flip : ∀ x y, comp x y ≤ 0 ↔ 0 ≤ comp y x
  trans : ∀ x y z, comp x y ≤ 0 → comp y z ≤ 0 → comp x z ≤ 0

/-- The order of a comparison. -/
abbrev Below (comp : α → α → ℤ) (x y : α) : Prop := comp x y ≤ 0

private theorem Comparator.refl {comp : α → α → ℤ} (order : Comparator comp) (x : α) : Below comp x x := by
  have self := order.flip x x
  rcases le_total (comp x x) 0 with below | above
  · exact below
  · exact self.mpr above

section Repair

variable {comp : α → α → ℤ} {p : ℕ → α} {size count n hole : ℕ}

private theorem elementAt_eq (positive : 0 < size) {i : ℕ} (inside : i < count) :
    elementAt size count p (i * size) = .ok (p i) := by
  have last := Nat.mul_le_mul_right size (Nat.succ_le_of_lt inside)
  rw [Nat.succ_mul] at last
  rw [elementAt, if_pos last, Nat.mul_div_cancel i positive]

theorem swap_eq (positive : 0 < size) {i j : ℕ} (left : i < count) (right : j < count) :
    swap size count p (i * size) (j * size) =
      .ok (Function.update (Function.update p i (p j)) j (p i)) := by
  rw [swap, elementAt_eq positive left, Except.ok_bind, elementAt_eq positive right, Except.ok_bind,
    Nat.mul_div_cancel i positive, Nat.mul_div_cancel j positive]
  rfl

/-- Offsets of nodes near the array do not wrap. -/
theorem u64_offset (bound : count * size < 2 ^ 63) {i : ℕ} (near : i ≤ 2 * count) :
    u64 (i * size) = i * size := by
  have := Nat.mul_le_mul_right size near
  rw [Nat.mul_assoc] at this
  exact u64_of_lt (by omega)

variable (comp p) in
private theorem greaterChild_ok (positive : 0 < size) (bound : count * size < 2 ^ 63) (le : n ≤ count)
    (first : 2 * hole + 1 < n) :
    ∃ c, greaterChild comp size count (n * size) p ((2 * hole + 1) * size) = .ok (c * size) ∧ c < n ∧ 0 < c ∧
      (c - 1) / 2 = hole ∧ (Comparator comp → ∀ d, 0 < d → d < n → (d - 1) / 2 = hole →
        Below comp (p d) (p c)) := by
  have right : u64 ((2 * hole + 1) * size + size) = (2 * hole + 2) * size := by
    rw [← Nat.succ_mul]
    exact u64_offset bound (by omega)
  rw [greaterChild, right]
  by_cases second : 2 * hole + 2 < n
  · rw [if_pos (Nat.mul_lt_mul_of_pos_right second positive), elementAt_eq positive (by omega),
      Except.ok_bind, elementAt_eq positive (by omega), Except.ok_bind]
    by_cases less : comp (p (2 * hole + 1)) (p (2 * hole + 2)) < 0
    · rw [if_pos less]
      refine ⟨2 * hole + 2, rfl, second, by omega, by omega, fun order d lower _ parent => ?_⟩
      obtain rfl | rfl : d = 2 * hole + 1 ∨ d = 2 * hole + 2 := by omega
      · exact less.le
      · exact order.refl _
    · rw [if_neg less]
      refine ⟨2 * hole + 1, rfl, first, by omega, by omega, fun order d lower _ parent => ?_⟩
      obtain rfl | rfl : d = 2 * hole + 1 ∨ d = 2 * hole + 2 := by omega
      · exact order.refl _
      · exact (order.flip _ _).mpr (not_lt.mp less)
  · rw [if_neg (fun wrapped => second (Nat.lt_of_mul_lt_mul_right wrapped))]
    refine ⟨2 * hole + 1, rfl, first, by omega, by omega, fun order d lower inside parent => ?_⟩
    obtain rfl : d = 2 * hole + 1 := by omega
    exact order.refl _

variable (comp p hole) in
/-- The repair loop finishes, permutes the heap's elements and closes the hole. -/
private theorem repair_ok (positive : 0 < size) (bound : count * size < 2 ^ 63) (le : n ≤ count) (fuel : ℕ)
    (enough : n < hole + fuel) (inside : hole < n) :
    ∃ q, repair comp size count (n * size) fuel (hole * size) p = .ok q ∧ Rearranged n p q ∧
      ∀ lo ≤ hole, Comparator comp → HeapExcept (Below comp) p lo n hole → HeapFrom (Below comp) q lo n := by
  induction fuel generalizing hole p with
  | zero => omega
  | succ fuel ih =>
    have left : u64 (hole * size * 2 + size) = (2 * hole + 1) * size := by
      rw [show hole * size * 2 + size = (2 * hole + 1) * size by ring]
      exact u64_offset bound (by omega)
    rw [repair, left]
    by_cases leaf : n ≤ 2 * hole + 1
    · refine ⟨p, if_pos (Nat.mul_le_mul_right size leaf), .refl n p, fun lo _ _ except => except.stop ?_⟩
      intro c lower upper parent
      omega
    · obtain ⟨c, chosen, below, nonroot, parent, greatest⟩ :=
        greaterChild_ok comp p positive bound le (Nat.lt_of_not_le leaf)
      rw [if_neg (fun reached => leaf (Nat.le_of_mul_le_mul_right reached positive)), chosen, Except.ok_bind,
        elementAt_eq positive (by omega), Except.ok_bind, elementAt_eq positive (by omega), Except.ok_bind]
      by_cases done : comp (p hole) (p c) ≥ 0
      · refine ⟨p, if_pos done, .refl n p, fun lo _ order except => except.stop fun d lower upper own => ?_⟩
        exact order.trans _ _ _ (greatest order d lower upper own) ((order.flip _ _).mpr done)
      · rw [if_neg done, swap_eq positive (by omega) (by omega), Except.ok_bind]
        obtain ⟨q, ran, same, heap⟩ := ih (Function.update (Function.update p hole (p c)) c (p hole)) c
          (by omega) below
        refine ⟨q, ran, (Rearranged.update inside below).trans same, fun lo above order except => ?_⟩
        refine heap lo (by omega) order (except.descend above nonroot below parent (greatest order) ?_)
        exact (not_le.mp done).le

end Repair

/-! ## The two phases -/

/-- The array between two iterations: a heap from `start` below `n`, then its greatest elements. -/
structure Sorting (comp : α → α → ℤ) (count start n : ℕ) (p : ℕ → α) : Prop where
  heap : HeapFrom (Below comp) p start n
  bounds : ∀ i j, i < n → n ≤ j → j < count → Below comp (p i) (p j)
  sorted : ∀ i j, n ≤ i → i ≤ j → j < count → Below comp (p i) (p j)

section Loop

variable {comp : α → α → ℤ} {p q : ℕ → α} {size count start n : ℕ}

/-- A permutation of the heap keeps what is behind it. -/
private theorem Sorting.rearrange (sorting : Sorting comp count start n p) (same : Rearranged n p q) {lo : ℕ}
    (heap : HeapFrom (Below comp) q lo n) : Sorting comp count lo n q where
  heap := heap
  bounds i j inside beyond last := by
    obtain ⟨k, source, moved⟩ := same.source inside
    rw [moved, same.beyond beyond]
    exact sorting.bounds k j source beyond last
  sorted i j beyond le last := by
    rw [same.beyond beyond, same.beyond (beyond.trans le)]
    exact sorting.sorted i j beyond le last

/-- Popping the maximum puts it in front of the sorted part and leaves a hole at the root. -/
private theorem Sorting.pop (order : Comparator comp) (sorting : Sorting comp count 0 (n + 1) p)
    (positive : 0 < n) (exchanged : q = Function.update (Function.update p n (p 0)) 0 (p n)) :
    Sorting comp count 1 n q := by
  have top {i : ℕ} (inside : i < n + 1) : Below comp (p i) (p 0) :=
    sorting.heap.le_root order.refl order.trans inside
  have last : q n = p 0 := by
    rw [exchanged, Function.update_of_ne (by omega), Function.update_self]
  have rest {i : ℕ} (nonroot : i ≠ 0) (other : i ≠ n) : q i = p i := by
    rw [exchanged, Function.update_of_ne nonroot, Function.update_of_ne other]
  have root : q 0 = p n := by rw [exchanged, Function.update_self]
  refine ⟨fun c lower inside above => ?_, fun i j inside beyond bound => ?_,
    fun i j beyond ordered bound => ?_⟩
  · rw [rest (by omega) (by omega), rest (by omega) (by omega)]
    exact sorting.heap c lower (by omega) (Nat.zero_le _)
  · obtain ⟨k, source, moved⟩ : ∃ k < n + 1, q i = p k := by
      rcases Nat.eq_zero_or_pos i with rfl | nonroot
      · exact ⟨n, by omega, root⟩
      · exact ⟨i, by omega, rest (by omega) (by omega)⟩
    rw [moved]
    rcases Nat.eq_or_lt_of_le beyond with rfl | later
    · rw [last]
      exact top source
    · rw [rest (by omega) (by omega)]
      exact sorting.bounds k j source later bound
  · rcases Nat.eq_or_lt_of_le beyond with rfl | later
    · rw [last]
      rcases Nat.eq_or_lt_of_le ordered with rfl | further
      · rw [last]
        exact order.refl _
      · rw [rest (by omega) (by omega)]
        exact sorting.bounds 0 j (by omega) further bound
    · rw [rest (by omega) (by omega), rest (by omega) (by omega)]
      exact sorting.sorted i j later ordered bound

variable (comp p start) in
private theorem sortLoop_ok (positive : 0 < size) (bound : count * size < 2 ^ 63) (le : n ≤ count) (fuel : ℕ)
    (enough : start + n < fuel) (first : start ≤ n) (phase : start ≠ 0 → n = count) :
    ∃ q, sortLoop comp size count fuel (start * size) (n * size) p = .ok q ∧ Rearranged count p q ∧
      (Comparator comp → Sorting comp count start n p → ∀ i j, i ≤ j → j < count →
        Below comp (q i) (q j)) := by
  induction fuel generalizing start n p with
  | zero => omega
  | succ fuel ih =>
    rw [sortLoop]
    by_cases more : 1 < n
    · rw [if_pos (by simpa using Nat.mul_lt_mul_of_pos_right more positive)]
      cases start with
      | succ start =>
        have shrunk : sub64 ((start + 1) * size) size = start * size := by
          have inside := Nat.mul_le_mul_right size (first.trans le)
          rw [sub64_of_le (by rw [Nat.succ_mul]; omega) (by omega), Nat.succ_mul, Nat.add_sub_cancel]
        rw [if_pos (Nat.mul_pos (Nat.succ_pos start) positive), shrunk]
        obtain ⟨q, ran, same, heap⟩ := repair_ok comp p start positive bound le (count + 1)
          (by omega) (by omega)
        obtain ⟨r, finished, rearranged, ordered⟩ := ih q start le (by omega) (by omega)
          (fun _ => phase (by omega))
        refine ⟨r, ?_, (same.mono le).trans rearranged, fun order sorting => ordered order ?_⟩
        · rw [pure_bind]
          dsimp only
          rw [ran, Except.ok_bind, finished]
        · exact sorting.rearrange same (heap start le_rfl order sorting.heap.except)
      | zero =>
        obtain ⟨n, rfl⟩ : ∃ m, n = m + 1 := ⟨n - 1, by omega⟩
        have shrunk : sub64 ((n + 1) * size) size = n * size := by
          have inside := Nat.mul_le_mul_right size le
          rw [sub64_of_le (by rw [Nat.succ_mul]; omega) (by omega), Nat.succ_mul, Nat.add_sub_cancel]
        have exchange := swap_eq (p := p) (i := n) (j := 0) positive (by omega : n < count) (by omega)
        rw [Nat.zero_mul] at exchange ⊢
        rw [if_neg (lt_irrefl 0), shrunk]
        dsimp only
        rw [exchange]
        generalize exchanged : Function.update (Function.update p n (p 0)) 0 (p n) = popped
        obtain ⟨q, ran, same, heap⟩ := repair_ok comp popped 0 positive bound (by omega : n ≤ count)
          (count + 1) (by omega) (by omega)
        obtain ⟨r, finished, rearranged, ordered⟩ := ih q 0 (by omega : n ≤ count) (by omega) (by omega)
          (by omega)
        rw [Nat.zero_mul] at ran finished
        have swapped : Rearranged count p popped := exchanged ▸ Rearranged.update (by omega) (by omega)
        refine ⟨r, ?_, swapped.trans ((same.mono (by omega)).trans rearranged),
          fun order sorting => ordered order ?_⟩
        · rw [Except.ok_bind, pure_bind]
          dsimp only
          rw [ran, Except.ok_bind, finished]
        · have sortingPopped := sorting.pop order (by omega) exchanged.symm
          exact sortingPopped.rearrange same (heap 0 le_rfl order sortingPopped.heap.except)
    · rw [if_neg (by simpa using Nat.mul_le_mul_right size (Nat.le_of_not_lt more))]
      refine ⟨p, rfl, .refl count p, fun order sorting i j ordered inside => ?_⟩
      rcases Nat.lt_or_ge i n with small | large
      · rcases Nat.lt_or_ge j n with same | beyond
        · obtain rfl : i = j := by omega
          exact order.refl _
        · exact sorting.bounds i j small beyond inside
      · exact sorting.sorted i j large ordered inside

variable (comp p) in
/-- `sort` returns a permutation of the array, ascending when the comparator is a total preorder. -/
theorem sort_ok (positive : 0 < size) (bound : count * size < 2 ^ 63) :
    ∃ q, sort p count size comp = .ok q ∧ Rearranged count p q ∧
      (Comparator comp → ∀ i j, i ≤ j → j < count → Below comp (q i) (q j)) := by
  have half : u64 (count / 2 * size) = count / 2 * size := u64_offset bound (by omega)
  have whole : u64 (count * size) = count * size := u64_offset bound (by omega)
  obtain ⟨q, ran, same, ordered⟩ := sortLoop_ok comp p (count / 2) positive bound (le_refl count)
    (2 * count + 1) (by omega) (by omega) (fun _ => rfl)
  refine ⟨q, by rw [sort, half, whole, ran], same, fun order => ordered order ?_⟩
  refine ⟨fun c lower inside above => ?_, fun i j _ beyond inside => ?_,
    fun i j beyond le inside => ?_⟩ <;> omega

end Loop

end RubberOS.Model.Sort
