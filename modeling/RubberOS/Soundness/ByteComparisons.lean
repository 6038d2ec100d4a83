import Mathlib.Data.Int.Order.Basic
import Mathlib.Data.List.Lex
import Mathlib.Data.Nat.Find
import Mathlib.Data.Set.Insert
import RubberOS.Model.Freec
import RubberOS.ToMathlib.Windows

/-! # The order of memcmp

The lexicographic order of byte strings is the order of Mathlib on lists of naturals. `memcmp` takes the difference
of the first two bytes that differ as `signed char`, and the sign of that difference is the sign of the unsigned
comparison only while the two bytes are less than half of their range apart.
-/

namespace RubberOS.Soundness.ByteComparisons

open Model Windows

/-! ## Bytes -/

section Bytes

variable {x y : BitVec 8}

private theorem charDiff_eq (x y : BitVec 8) : charDiff x y =
    if (x.toNat : ℤ) - y.toNat < -128 then (x.toNat : ℤ) - y.toNat + 256
    else if (x.toNat : ℤ) - y.toNat < 128 then (x.toNat : ℤ) - y.toNat else (x.toNat : ℤ) - y.toNat - 256 := by
  have left := x.isLt
  have right := y.isLt
  have unsigned : charDiff x y = ((x.toNat : ℤ) - y.toNat).bmod (2 ^ 8) := by
    rw [charDiff, BitVec.toInt_eq_toNat_bmod, BitVec.toInt_eq_toNat_bmod, ← Int.sub_bmod]
  rw [unsigned, Int.bmod_eq_iff (by decide)]
  split_ifs <;> omega

/-- The difference of two bytes never wraps around to zero. -/
private theorem charDiff_eq_zero_iff : charDiff x y = 0 ↔ x = y := by
  have left := x.isLt
  have right := y.isLt
  rw [charDiff_eq, ← BitVec.toNat_inj]
  split_ifs <;> omega

/-- The unsigned difference fits a `signed char`. -/
def Near (x y : BitVec 8) : Prop := (y.toNat : ℤ) - 128 ≤ x.toNat ∧ (x.toNat : ℤ) < y.toNat + 128

private theorem sign_charDiff_iff : (charDiff x y).sign = ((x.toNat : ℤ) - y.toNat).sign ↔ Near x y := by
  have left := x.isLt
  have right := y.isLt
  rw [charDiff_eq, Near]
  split_ifs with below inside
  · have positive : 0 < (x.toNat : ℤ) - y.toNat + 256 := by omega
    have negative : (x.toNat : ℤ) - y.toNat < 0 := by omega
    rw [Int.sign_eq_one_of_pos positive, Int.sign_eq_neg_one_of_neg negative]
    omega
  · exact iff_of_true rfl (by omega)
  · have negative : (x.toNat : ℤ) - y.toNat - 256 < 0 := by omega
    have positive : 0 < (x.toNat : ℤ) - y.toNat := by omega
    rw [Int.sign_eq_neg_one_of_neg negative, Int.sign_eq_one_of_pos positive]
    omega

end Bytes

/-! ## Buffers -/

/-- The buffers agree on their first `count` bytes. -/
def Agree (memory : Memory) (a b count : ℕ) : Prop := ∀ i < count, memory (a + i) = memory (b + i)

/-- The first differing pair lies at `i`. -/
structure FirstDiffers (memory : Memory) (a b count i : ℕ) : Prop where
  inside : i < count
  before : ∀ j < i, memory (a + j) = memory (b + j)
  differs : memory (a + i) ≠ memory (b + i)

/-- The first `count` bytes as a string. -/
def bytes (memory : Memory) (a count : ℕ) : List ℕ := window (fun address => (memory address).toNat) a count

section Buffers

variable {memory : Memory} {a b c count i : ℕ}

private theorem FirstDiffers.comm (first : FirstDiffers memory a b count i) : FirstDiffers memory b a count i :=
  ⟨first.inside, fun j before => (first.before j before).symm, first.differs.symm⟩

private theorem agree_or_first (memory : Memory) (a b count : ℕ) :
    Agree memory a b count ∨ ∃ i, FirstDiffers memory a b count i := by
  by_cases agree : Agree memory a b count
  · exact .inl agree
  · right
    have found : ∃ i, i < count ∧ memory (a + i) ≠ memory (b + i) := by
      rw [Agree] at agree
      push Not at agree
      exact agree
    obtain ⟨inside, differs⟩ := Nat.find_spec found
    refine ⟨Nat.find found, inside, ?_, differs⟩
    intro j before
    by_contra differs'
    exact Nat.find_min found before ⟨before.trans inside, differs'⟩

private theorem FirstDiffers.unique {j : ℕ} (first : FirstDiffers memory a b count i)
    (other : FirstDiffers memory a b count j) :
    i = j := by
  rcases Nat.lt_trichotomy i j with less | same | less
  · exact absurd (other.before i less) first.differs
  · exact same
  · exact absurd (first.before j less) other.differs

private theorem FirstDiffers.not_agree (first : FirstDiffers memory a b count i) : ¬Agree memory a b count :=
  fun agree => first.differs (agree i first.inside)

/-- The loop runs to the end over buffers that agree. -/
private theorem memcmp_of_agree (agree : Agree memory a b count) : memcmp memory a b count = 0 := by
  induction count generalizing a b with
  | zero => rfl
  | succ count ih =>
    have same : charDiff (memory a) (memory b) = 0 := charDiff_eq_zero_iff.mpr (agree 0 (Nat.succ_pos count))
    rw [memcmp, if_neg (not_not.mpr same)]
    apply ih
    intro i inside
    rw [Nat.add_right_comm a, Nat.add_right_comm b]
    exact agree (i + 1) (Nat.succ_lt_succ inside)

/-- The loop stops at the first differing pair. -/
private theorem memcmp_of_first (first : FirstDiffers memory a b count i) :
    memcmp memory a b count = charDiff (memory (a + i)) (memory (b + i)) := by
  induction count generalizing a b i with
  | zero => exact absurd first.inside (Nat.not_lt_zero i)
  | succ count ih =>
    rw [memcmp]
    cases i with
    | zero =>
      have differs : charDiff (memory a) (memory b) ≠ 0 := fun same => first.differs (charDiff_eq_zero_iff.mp same)
      rw [if_pos differs]
      rfl
    | succ i =>
      have same : charDiff (memory a) (memory b) = 0 := charDiff_eq_zero_iff.mpr (first.before 0 (Nat.succ_pos i))
      have later : FirstDiffers memory (a + 1) (b + 1) count i := by
        refine ⟨Nat.lt_of_succ_lt_succ first.inside, fun j before => ?_, ?_⟩
        · rw [Nat.add_right_comm a, Nat.add_right_comm b]
          exact first.before (j + 1) (Nat.succ_lt_succ before)
        · rw [Nat.add_right_comm a, Nat.add_right_comm b]
          exact first.differs
      rw [if_neg (not_not.mpr same), ih later, Nat.add_right_comm a, Nat.add_right_comm b]
      rfl

/-- The result is zero for buffers that agree and for no others. -/
private theorem memcmp_eq_zero_iff : memcmp memory a b count = 0 ↔ Agree memory a b count := by
  refine ⟨fun zero => ?_, memcmp_of_agree⟩
  rcases agree_or_first memory a b count with agree | ⟨i, first⟩
  · exact agree
  · rw [memcmp_of_first first, charDiff_eq_zero_iff] at zero
    exact absurd zero first.differs

/-- The lexicographic order is decided by the first differing pair. -/
private theorem bytes_lt_iff : bytes memory a count < bytes memory b count ↔
    ∃ i, FirstDiffers memory a b count i ∧ (memory (a + i)).toNat < (memory (b + i)).toNat := by
  have length : (bytes memory a count).length = (bytes memory b count).length := by rw [bytes, bytes, length_window,
    length_window]
  rw [List.lt_iff_exists, or_iff_right fun shorter => shorter.2.ne length]
  constructor
  · rintro ⟨i, left, right, before, less⟩
    simp only [bytes, getElem_window] at before less
    rw [bytes, length_window] at left
    refine ⟨i, ⟨left, fun j earlier => BitVec.eq_of_toNat_eq (before j earlier), ?_⟩, less⟩
    intro same
    exact less.ne (congrArg BitVec.toNat same)
  · rintro ⟨i, first, less⟩
    have left : i < (bytes memory a count).length := by rw [bytes, length_window]; exact first.inside
    refine ⟨i, left, length ▸ left, ?_, ?_⟩
    · intro j earlier
      simp only [bytes, getElem_window]
      rw [first.before j earlier]
    · simp only [bytes, getElem_window]
      exact less

/-- What `memcmp` is to say of two buffers. -/
structure Compares (memory : Memory) (a b count : ℕ) : Prop where
  zero : memcmp memory a b count = 0 ↔ Agree memory a b count
  sign : ∀ i, FirstDiffers memory a b count i →
    (memcmp memory a b count).sign = ((memory (a + i)).toNat - (memory (b + i)).toNat : ℤ).sign

/-- It orders a set of buffers. -/
structure Orders (memory : Memory) (buffers : Set ℕ) (count : ℕ) : Prop where
  compares : ∀ a ∈ buffers, ∀ b ∈ buffers, Compares memory a b count
  lexicographic : ∀ a ∈ buffers, ∀ b ∈ buffers,
    (memcmp memory a b count < 0 ↔ bytes memory a count < bytes memory b count)
  antisymm : ∀ a ∈ buffers, ∀ b ∈ buffers, (memcmp memory b a count).sign = -(memcmp memory a b count).sign
  trans : ∀ a ∈ buffers, ∀ b ∈ buffers, ∀ c ∈ buffers, memcmp memory a b count ≤ 0 → memcmp memory b c count ≤ 0 →
    memcmp memory a c count ≤ 0

/-- The first differing pair, if there is one, is near. -/
def FirstNear (memory : Memory) (a b count : ℕ) : Prop :=
  ∀ i, FirstDiffers memory a b count i → Near (memory (a + i)) (memory (b + i))

private theorem compares_iff : Compares memory a b count ↔ FirstNear memory a b count := by
  constructor
  · intro compares i first
    rw [← sign_charDiff_iff, ← memcmp_of_first first]
    exact compares.sign i first
  · intro near
    refine ⟨memcmp_eq_zero_iff, fun i first => ?_⟩
    rw [memcmp_of_first first]
    exact sign_charDiff_iff.mpr (near i first)

/-- A comparison that follows the bytes follows their lexicographic order. -/
private theorem Compares.neg_iff (compares : Compares memory a b count) :
    memcmp memory a b count < 0 ↔ bytes memory a count < bytes memory b count := by
  rw [bytes_lt_iff]
  rcases agree_or_first memory a b count with agree | ⟨i, first⟩
  · rw [memcmp_of_agree agree]
    exact iff_of_false (lt_irrefl 0) fun ⟨i, first, _⟩ => first.not_agree agree
  · have sign := compares.sign i first
    rw [← Int.sign_eq_neg_one_iff_neg, sign, Int.sign_eq_neg_one_iff_neg]
    constructor
    · intro less
      exact ⟨i, first, by omega⟩
    · rintro ⟨j, other, less⟩
      obtain rfl := first.unique other
      omega

private theorem Compares.comm (compares : Compares memory a b count) (back : Compares memory b a count) :
    (memcmp memory b a count).sign = -(memcmp memory a b count).sign := by
  rcases agree_or_first memory a b count with agree | ⟨i, first⟩
  · have agree' : Agree memory b a count := fun i inside => (agree i inside).symm
    rw [memcmp_of_agree agree, memcmp_of_agree agree']
    rfl
  · rw [compares.sign i first, back.sign i first.comm, ← Int.sign_neg, Int.neg_sub]

private theorem Compares.nonpos_iff (compares : Compares memory a b count) (back : Compares memory b a count) :
    memcmp memory a b count ≤ 0 ↔ bytes memory a count ≤ bytes memory b count := by
  have opposed : 0 < memcmp memory a b count ↔ memcmp memory b a count < 0 := by
    rw [← Int.sign_eq_neg_one_iff_neg, compares.comm back, Int.neg_inj, Int.sign_eq_one_iff_pos]
  rw [← not_lt, opposed, back.neg_iff, not_lt]

/-- The result is zero exactly for buffers that agree, and otherwise its sign is that of the first differing pair as
unsigned bytes exactly when the unsigned difference of that pair fits a `signed char`. Buffers are ordered
lexicographically exactly when this is so for any two of them. -/
theorem memcmp_orders (memory : Memory) (count : ℕ) :
    (∀ a b, (memcmp memory a b count = 0 ↔ Agree memory a b count) ∧
      (Compares memory a b count ↔ FirstNear memory a b count)) ∧
    ∀ buffers, Orders memory buffers count ↔ ∀ a ∈ buffers, ∀ b ∈ buffers, FirstNear memory a b count := by
  refine ⟨fun a b => ⟨memcmp_eq_zero_iff, compares_iff⟩, fun buffers => ⟨fun orders a left b right => ?_, fun near => ?_⟩⟩
  · exact compares_iff.mp (orders.compares a left b right)
  · have compares : ∀ a ∈ buffers, ∀ b ∈ buffers, Compares memory a b count :=
      fun a left b right => compares_iff.mpr (near a left b right)
    refine ⟨compares, ?_, ?_, ?_⟩
    · exact fun a left b right => (compares a left b right).neg_iff
    · exact fun a left b right => (compares a left b right).comm (compares b right a left)
    · intro a left b middle c right first second
      rw [(compares a left b middle).nonpos_iff (compares b middle a left)] at first
      rw [(compares b middle c right).nonpos_iff (compares c right b middle)] at second
      rw [(compares a left c right).nonpos_iff (compares c right a left)]
      exact first.trans second

end Buffers

/-- The byte `0x80` before zeros. -/
def half : Memory := Function.update (fun _ => 0) 0 0x80

/-- Bytes at equal distances around their range. -/
def thirds : Memory := fun address => BitVec.ofNat 8 (96 * address)

/-- `0x80` compares below `0x00` in both directions. Of the bytes `0x00`, `0x60` and `0xc0` each one compares below
the next, and the last one below the first. -/
theorem memcmp_wraps : memcmp half 0 1 1 = -128 ∧ memcmp half 1 0 1 = -128 ∧ ¬Compares half 0 1 1 ∧
    ¬Orders half {0, 1} 1 ∧ memcmp thirds 0 1 1 = -96 ∧ memcmp thirds 1 2 1 = -96 ∧ memcmp thirds 0 2 1 = 64 ∧
    ¬Orders thirds {0, 1, 2} 1 := by
  refine ⟨by decide, by decide, fun compares => ?_, fun orders => ?_, by decide, by decide, by decide, fun orders => ?_⟩
  · have first : FirstDiffers half 0 1 1 0 := ⟨Nat.one_pos, nofun, by decide⟩
    exact absurd (compares.sign 0 first) (by decide)
  · exact absurd (orders.antisymm 0 (.inl rfl) 1 (.inr rfl)) (by decide)
  · exact absurd (orders.trans 0 (.inl rfl) 1 (.inr (.inl rfl)) 2 (.inr (.inr rfl)) (by decide) (by decide)) (by decide)

end RubberOS.Soundness.ByteComparisons
