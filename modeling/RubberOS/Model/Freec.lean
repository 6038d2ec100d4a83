import Mathlib.Data.Int.Notation
import Mathlib.Logic.Function.Basic
import Mathlib.Tactic.SplitIfs
import RubberOS.Model.Machine

/-! # Rounding and byte operations of libfreec

The byte loops of `string.c` are written as loops over the remaining count. Each has one lemma that
gives its effect at every address, which is all that its callers use.
-/

namespace RubberOS.Model

/-! ## Rounding -/

def szdivCeil (x y : ℕ) : ℕ := x / y + if x % y ≠ 0 then 1 else 0

def uptrdivCeil (x y : ℕ) : ℕ := x / y + if x % y ≠ 0 then 1 else 0

theorem szdivCeil_bounds (x : ℕ) {y : ℕ} (positive : 0 < y) :
    x ≤ szdivCeil x y * y ∧ szdivCeil x y * y < x + y := by
  have split := Nat.div_add_mod x y
  have small := Nat.mod_lt x positive
  have swap := Nat.mul_comm y (x / y)
  unfold szdivCeil
  rw [Nat.add_mul]
  split_ifs with rest <;> omega

theorem uptrdivCeil_bounds (x : ℕ) {y : ℕ} (positive : 0 < y) :
    x ≤ uptrdivCeil x y * y ∧ uptrdivCeil x y * y < x + y := szdivCeil_bounds x positive

theorem uptrdivCeil_mul_add (x pages : ℕ) {y : ℕ} (positive : 0 < y) :
    uptrdivCeil (y * pages + x) y = pages + uptrdivCeil x y := by
  rw [uptrdivCeil, uptrdivCeil, Nat.mul_add_div positive, Nat.mul_add_mod, Nat.add_assoc]

/-! ## Bytes -/

def memset (memory : Memory) (dest : ℕ) (ch : BitVec 8) : ℕ → Memory
  | 0 => memory
  | count + 1 => memset (Function.update memory dest ch) (dest + 1) ch count

theorem memset_apply (memory : Memory) (dest : ℕ) (ch : BitVec 8) (count address : ℕ) :
    memset memory dest ch count address =
      if dest ≤ address ∧ address < dest + count then ch else memory address := by
  induction count generalizing memory dest with
  | zero => rw [memset, if_neg (by omega)]
  | succ count ih =>
    rw [memset, ih, Function.update_apply]
    by_cases first : address = dest
    · rw [if_pos first, ite_self, if_pos (by omega)]
    · rw [if_neg first]
      exact if_congr (by omega) rfl rfl

theorem memset_inside {memory : Memory} {dest : ℕ} {ch : BitVec 8} {count address : ℕ}
    (lower : dest ≤ address)
    (upper : address < dest + count) : memset memory dest ch count address = ch := by
  rw [memset_apply, if_pos ⟨lower, upper⟩]

theorem memset_outside {memory : Memory} {dest : ℕ} {ch : BitVec 8} {count address : ℕ}
    (outside : address < dest ∨ dest + count ≤ address) :
    memset memory dest ch count address = memory address := by
  rw [memset_apply, if_neg (by omega)]

theorem load16_memset {memory : Memory} {dest : ℕ} {ch : BitVec 8} {count address : ℕ}
    (outside : address + 1 < dest ∨ dest + count ≤ address) :
    load16 (memset memory dest ch count) address = load16 memory address :=
  load16_congr (memset_outside (by omega)) (memset_outside (by omega))

def memcpy (memory : Memory) (dest src : ℕ) : ℕ → Memory
  | 0 => memory
  | count + 1 => memcpy (Function.update memory dest (memory src)) (dest + 1) (src + 1) count

/-- A copy towards lower addresses, or to a range behind its source, reads every byte before it is written
over. -/
theorem memcpy_apply_of (memory : Memory) {dest src count : ℕ}
    (order : dest ≤ src ∨ src + count ≤ dest) (address : ℕ) :
    memcpy memory dest src count address =
      if dest ≤ address ∧ address < dest + count then memory (src + (address - dest))
      else memory address := by
  induction count generalizing memory dest src with
  | zero => rw [memcpy, if_neg (by omega)]
  | succ count ih =>
    rw [memcpy, ih _ (by omega)]
    rcases Nat.lt_trichotomy address dest with before | rfl | after
    · rw [if_neg (by omega), if_neg (by omega), Function.update_of_ne (by omega)]
    · rw [if_neg (by omega), if_pos (by omega), Function.update_self, Nat.sub_self, Nat.add_zero]
    · by_cases inside : address < dest + (count + 1)
      · rw [if_pos (by omega), if_pos (by omega), Function.update_of_ne (by omega)]
        rw [show src + 1 + (address - (dest + 1)) = src + (address - dest) by omega]
      · rw [if_neg (by omega), if_neg (by omega), Function.update_of_ne (by omega)]

theorem memcpy_apply (memory : Memory) {dest src : ℕ} (forward : dest ≤ src) (count address : ℕ) :
    memcpy memory dest src count address =
      if dest ≤ address ∧ address < dest + count then memory (src + (address - dest))
      else memory address := memcpy_apply_of memory (.inl forward) address

/-- The loop of `memmove` that runs down from the last byte. -/
def memmoveDown (memory : Memory) (dest src : ℕ) : ℕ → Memory
  | 0 => memory
  | count + 1 => memmoveDown (Function.update memory (dest + count) (memory (src + count))) dest src count

def memmove (memory : Memory) (dest src count : ℕ) : Memory :=
  if dest ≤ src then memcpy memory dest src count else memmoveDown memory dest src count

/-- The downward loop reads every byte before it is written over when the source lies below. -/
theorem memmoveDown_apply (memory : Memory) {dest src : ℕ} (backward : src ≤ dest) (count address : ℕ) :
    memmoveDown memory dest src count address =
      if dest ≤ address ∧ address < dest + count then memory (src + (address - dest))
      else memory address := by
  induction count generalizing memory with
  | zero => rw [memmoveDown, if_neg (by omega)]
  | succ count ih =>
    rw [memmoveDown, ih]
    rcases Nat.lt_trichotomy address (dest + count) with before | rfl | after
    · by_cases inside : dest ≤ address
      · rw [if_pos (by omega), if_pos (by omega), Function.update_of_ne (by omega)]
      · rw [if_neg (by omega), if_neg (by omega), Function.update_of_ne (by omega)]
    · rw [if_neg (by omega), if_pos (by omega), Function.update_self, Nat.add_sub_cancel_left]
    · rw [if_neg (by omega), if_neg (by omega), Function.update_of_ne (by omega)]

/-- `memmove` leaves the bytes of the source at the destination, also where the ranges overlap. -/
theorem memmove_apply (memory : Memory) (dest src count address : ℕ) :
    memmove memory dest src count address =
      if dest ≤ address ∧ address < dest + count then memory (src + (address - dest))
      else memory address := by
  rw [memmove]
  split_ifs with forward inside inside
  · rw [memcpy_apply memory forward, if_pos inside]
  · rw [memcpy_apply memory forward, if_neg inside]
  · rw [memmoveDown_apply memory (by omega), if_pos inside]
  · rw [memmoveDown_apply memory (by omega), if_neg inside]

/-- Whatever the ranges are, a copy writes only its destination. -/
theorem memcpy_outside {memory : Memory} {dest src count address : ℕ}
    (outside : address < dest ∨ dest + count ≤ address) : memcpy memory dest src count address = memory address := by
  induction count generalizing memory dest src with
  | zero => rfl
  | succ count ih => rw [memcpy, ih (by omega), Function.update_of_ne (by omega)]

/-- The difference of two `signed char`, which `memcmp` keeps in a `signed char` again. -/
def charDiff (x y : BitVec 8) : ℤ := (x.toInt - y.toInt).bmod (2 ^ 8)

def memcmp (memory : Memory) (lhs rhs : ℕ) : ℕ → ℤ
  | 0 => 0
  | count + 1 =>
    let diff := charDiff (memory lhs) (memory rhs)
    if diff ≠ 0 then diff else memcmp memory (lhs + 1) (rhs + 1) count

/-- `memchr_not`: the first address whose byte differs from `ch`. -/
def memchrNot (memory : Memory) (ptr : ℕ) (ch : BitVec 8) : ℕ → Option ℕ
  | 0 => none
  | count + 1 => if memory ptr ≠ ch then some ptr else memchrNot memory (ptr + 1) ch count

theorem memchrNot_eq_none_iff {memory : Memory} {ptr : ℕ} {ch : BitVec 8} {count : ℕ} :
    memchrNot memory ptr ch count = none ↔
      ∀ address, ptr ≤ address → address < ptr + count → memory address = ch := by
  induction count generalizing ptr with
  | zero =>
    refine iff_of_true rfl fun address lower upper => ?_
    omega
  | succ count ih =>
    rw [memchrNot]
    by_cases same : memory ptr = ch
    · rw [if_neg (not_not.mpr same), ih]
      constructor
      · intro rest address lower upper
        rcases Nat.eq_or_lt_of_le lower with rfl | later
        · exact same
        · exact rest address later (by omega)
      · exact fun all address lower upper => all address (by omega) (by omega)
    · rw [if_pos same]
      refine iff_of_false (by simp) fun all => same (all ptr (Nat.le_refl ptr) (by omega))

end RubberOS.Model
