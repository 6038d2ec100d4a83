import Mathlib.Algebra.Group.Nat.Defs
import Mathlib.Logic.Function.Basic
import RubberOS.ToMathlib.ExceptGuards

/-! # Machine words, memory and faults

Machine integers are naturals below their width: the operations that can wrap are written with the
reduction the C type performs. Memory is a function from byte addresses. A modelled function stops
with a `Fault` where the source panics, and also where the C language gives it no behaviour, so a
successful result never rests on an undefined operation.
-/

namespace RubberOS.Model

/-- Why a modelled function does not return. -/
inductive Fault where
  /-- `panic_impl` was entered with this message. -/
  | panic (msg : String)
  /-- A shift by the width of the shifted type or more. -/
  | shiftOutOfRange
  | divisionByZero
  /-- A scan ran past the object it was given. -/
  | outOfBounds
  /-- A null pointer was used. -/
  | nullDereference
  /-- The processor's walk found no page behind a pointer. -/
  | pageFault
  /-- A loop did not finish within the steps its counter allows. -/
  | nonterminating
deriving DecidableEq, Repr

abbrev Result (α : Type*) := Except Fault α

/-- `assert(exp)` with one argument; `text` is the macro-expanded expression. -/
def assert (exp : Bool) (text : String) : Result Unit :=
  if exp then .ok () else .error (.panic ("assertion failed : " ++ text))

/-- `assert(exp, msg)`. -/
def assertMsg (exp : Bool) (msg text : String) : Result Unit :=
  if exp then .ok () else .error (.panic (msg ++ " : " ++ text))

/-- `assert(ptr != NULL, msg)` on a pointer that is used afterwards. -/
def assertSome {α : Type*} (found : Option α) (msg text : String) : Result α :=
  match found with
  | some x => .ok x
  | none => .error (.panic (msg ++ " : " ++ text))

/-- `panic(msg)`. -/
def panic {α : Type*} (msg : String) : Result α := .error (.panic ("panic : " ++ msg))

variable {exp : Bool} {msg text : String} {u : Unit}

@[simp] theorem assert_ok_iff : assert exp text = .ok u ↔ exp = true := by
  cases exp <;> simp [assert]

@[simp] theorem assertMsg_ok_iff : assertMsg exp msg text = .ok u ↔ exp = true := by
  cases exp <;> simp [assertMsg]

@[simp] theorem assertSome_ok_iff {α : Type*} {found : Option α} {x : α} :
    assertSome found msg text = .ok x ↔ found = some x := by
  cases found <;> simp [assertSome]

theorem assert_of (holds : exp = true) : assert exp text = .ok () := if_pos holds

theorem assertMsg_of (holds : exp = true) : assertMsg exp msg text = .ok () := if_pos holds

theorem assert_of_not (fails : ¬exp = true) : assert exp text = .error (.panic ("assertion failed : " ++ text)) :=
  if_neg fails

theorem assertMsg_of_not (fails : ¬exp = true) : assertMsg exp msg text = .error (.panic (msg ++ " : " ++ text)) :=
  if_neg fails

/-! ## Words -/

/-- Reduction to `uint16_t`. -/
def u16 (n : ℕ) : ℕ := n % 2 ^ 16

/-- Reduction to `uint32_t`. -/
def u32 (n : ℕ) : ℕ := n % 2 ^ 32

/-- Reduction to `size_t`, `uintptr_t` or `uint64_t`. -/
def u64 (n : ℕ) : ℕ := n % 2 ^ 64

/-- Subtraction in `size_t` or `uintptr_t`. -/
def sub64 (x y : ℕ) : ℕ := (x + (2 ^ 64 - y % 2 ^ 64)) % 2 ^ 64

theorem u16_of_lt {n : ℕ} (bound : n < 2 ^ 16) : u16 n = n := Nat.mod_eq_of_lt bound

theorem u32_of_lt {n : ℕ} (bound : n < 2 ^ 32) : u32 n = n := Nat.mod_eq_of_lt bound

theorem u64_of_lt {n : ℕ} (bound : n < 2 ^ 64) : u64 n = n := Nat.mod_eq_of_lt bound

theorem u64_lt (n : ℕ) : u64 n < 2 ^ 64 := Nat.mod_lt _ (by decide)

theorem sub64_of_le {x y : ℕ} (le : y ≤ x) (bound : x < 2 ^ 64) : sub64 x y = x - y := by
  unfold sub64
  omega

/-- `x << s` in `int`, with the two's complement wrap GCC gives the signed shift. -/
def intShl (x s : ℕ) : Result (BitVec 32) :=
  if s < 32 then .ok (BitVec.ofNat 32 x <<< s) else .error .shiftOutOfRange

/-- Conversion of an `int` to `size_t`. -/
def intToSize (x : BitVec 32) : ℕ := (x.signExtend 64).toNat

/-- `(size_t)x << s`. -/
def sizeShl (x s : ℕ) : Result ℕ :=
  if s < 64 then .ok (u64 (x * 2 ^ s)) else .error .shiftOutOfRange

/-- `x / y` in `size_t`. -/
def sizeDiv (x y : ℕ) : Result ℕ :=
  if y = 0 then .error .divisionByZero else .ok (x / y)

/-- Byte-addressed memory. -/
abbrev Memory := ℕ → BitVec 8

/-- The `uint16_t` at an address, least significant byte first. -/
def load16 (memory : Memory) (address : ℕ) : ℕ :=
  (memory address).toNat + 2 ^ 8 * (memory (address + 1)).toNat

/-- A store into a `uint16_t`, which truncates. -/
def store16 (memory : Memory) (address value : ℕ) : Memory :=
  Function.update (Function.update memory address (BitVec.ofNat 8 value)) (address + 1) (BitVec.ofNat 8 (value / 2 ^ 8))

section Halfwords

variable {memory memory' : Memory} {a b v : ℕ}

theorem load16_lt (memory : Memory) (a : ℕ) : load16 memory a < 2 ^ 16 := by
  have low := (memory a).isLt
  have high := (memory (a + 1)).isLt
  unfold load16
  omega

theorem load16_congr (first : memory' a = memory a) (second : memory' (a + 1) = memory (a + 1)) :
    load16 memory' a = load16 memory a := by
  rw [load16, load16, first, second]

/-- A half word determines its two bytes. -/
theorem load16_eq_iff : load16 memory' a = load16 memory a ↔ memory' a = memory a ∧
      memory' (a + 1) = memory (a + 1) := by
  refine ⟨fun same => ?_, fun ⟨first, second⟩ => load16_congr first second⟩
  have low := (memory a).isLt
  have low' := (memory' a).isLt
  unfold load16 at same
  exact ⟨BitVec.eq_of_toNat_eq (by omega), BitVec.eq_of_toNat_eq (by omega)⟩

@[simp] theorem load16_store16 : load16 (store16 memory a v) a = u16 v := by
  rw [load16, store16, Function.update_self, Function.update_of_ne (Nat.ne_of_lt (Nat.lt_succ_self a)),
    Function.update_self, BitVec.toNat_ofNat, BitVec.toNat_ofNat]
  unfold u16
  omega

theorem store16_apply (first : b ≠ a) (second : b ≠ a + 1) : store16 memory a v b = memory b := by
  rw [store16, Function.update_of_ne second, Function.update_of_ne first]

theorem load16_store16_of_disjoint (apart : b + 1 < a ∨ a + 1 < b) :
    load16 (store16 memory a v) b = load16 memory b :=
  load16_congr (store16_apply (by omega) (by omega)) (store16_apply (by omega) (by omega))

end Halfwords

end RubberOS.Model
