import Mathlib.Data.BitVec
import Mathlib.Tactic.Ring

/-! # Words on a stack in byte-addressed memory

Memory takes addresses of 64 bits to bytes, and addresses wrap around. A quadword is eight bytes with the least
significant first, and `Words memory a ws` says that quadwords lie one after the other from `a` on. A stack that
grows down is such a list: a push puts a word in front, a pop takes it off.
-/

namespace StackWords

/-- Byte-addressed memory of a processor with addresses of 64 bits. -/
abbrev Bytes := BitVec 64 → BitVec 8

/-- The quadword at an address, least significant byte first. -/
def load64 (memory : Bytes) (a : BitVec 64) : BitVec 64 :=
  memory (a + 7) ++ memory (a + 6) ++ memory (a + 5) ++ memory (a + 4) ++ memory (a + 3) ++ memory (a + 2) ++
    memory (a + 1) ++ memory a

def store64 (memory : Bytes) (a v : BitVec 64) : Bytes := fun b =>
  if (b - a).toNat < 8 then v.extractLsb' (8 * (b - a).toNat) 8 else memory b

/-- These quadwords lie from an address on. -/
def Words (memory : Bytes) (a : BitVec 64) : List (BitVec 64) → Prop
  | [] => True
  | w :: ws => load64 memory a = w ∧ Words memory (a + 8) ws

/-- The bytes from one address on are none of those from another address on. -/
def Apart (a : BitVec 64) (n : ℕ) (b : BitVec 64) (k : ℕ) : Prop :=
  ∀ x, (x - a).toNat < n → k ≤ (x - b).toNat

section Words

variable {memory memory' : Bytes} {a b v w : BitVec 64} {ws vs : List (BitVec 64)} {n k : ℕ}

/-- The offset of an address from a later base. -/
theorem toNat_sub_add (x a d : BitVec 64) (inside : (x - (a + d)).toNat + d.toNat < 2 ^ 64) :
    (x - a).toNat = (x - (a + d)).toNat + d.toNat := by
  have split : x - a = x - (a + d) + d := by ring
  rw [split, BitVec.toNat_add, Nat.mod_eq_of_lt inside]

/-- What is outside of a span is outside of its parts. -/
theorem outside_part {x d : BitVec 64} (outside : n ≤ (x - a).toNat) (inside : d.toNat + k ≤ n) (small : n < 2 ^ 64) :
    k ≤ (x - (a + d)).toNat := by
  by_contra near
  have whole := toNat_sub_add x a d (by omega)
  omega

theorem Apart.symm (apart : Apart a n b k) : Apart b k a n := by
  intro x inside
  by_contra outside
  exact Nat.not_lt.mpr (apart x (Nat.not_le.mp outside)) inside

/-- A span that starts behind another one. -/
theorem apart_above (a : BitVec 64) {d : BitVec 64} (behind : k ≤ d.toNat) (small : n + d.toNat ≤ 2 ^ 64) :
    Apart (a + d) n a k := by
  intro x inside
  have whole := toNat_sub_add x a d (by omega)
  omega

/-- Parts of spans that are apart. -/
theorem Apart.part {d e : BitVec 64} {n' k' : ℕ} (apart : Apart a n b k) (first : d.toNat + n' ≤ n)
    (second : e.toNat + k' ≤ k) (small : n < 2 ^ 64) (small' : k < 2 ^ 64) : Apart (a + d) n' (b + e) k' := by
  intro x inside
  have whole := toNat_sub_add x a d (by omega)
  by_contra inside'
  have whole' := toNat_sub_add x b e (by omega)
  have outside := apart x (by omega)
  omega

theorem add_sub_self (a d : BitVec 64) : a + d - a = d := by ring

theorem load64_store64 (memory : Bytes) (a v : BitVec 64) : load64 (store64 memory a v) a = v := by
  have byte (d : BitVec 64) (inside : d.toNat < 8) :
      store64 memory a v (a + d) = v.extractLsb' (8 * d.toNat) 8 := by
    rw [store64, add_sub_self, if_pos inside]
  have lowest : store64 memory a v a = v.extractLsb' 0 8 := by
    rw [store64, BitVec.sub_self, if_pos (by decide)]
    rfl
  rw [load64, byte 7 (by decide), byte 6 (by decide), byte 5 (by decide), byte 4 (by decide), byte 3 (by decide),
    byte 2 (by decide), byte 1 (by decide), lowest]
  apply BitVec.eq_of_getLsbD_eq
  intro i bound
  simp only [BitVec.getLsbD_append, BitVec.getLsbD_extractLsb']
  grind

theorem store64_outside (outside : 8 ≤ (b - a).toNat) : store64 memory a v b = memory b :=
  if_neg (Nat.not_lt.mpr outside)

theorem load64_congr (same : ∀ b, (b - a).toNat < 8 → memory' b = memory b) : load64 memory' a = load64 memory a := by
  have byte (d : BitVec 64) (inside : d.toNat < 8) : memory' (a + d) = memory (a + d) :=
    same _ (by rw [add_sub_self]; exact inside)
  have lowest : memory' a = memory a := same a (by rw [BitVec.sub_self]; decide)
  rw [load64, byte 7 (by decide), byte 6 (by decide), byte 5 (by decide), byte 4 (by decide), byte 3 (by decide),
    byte 2 (by decide), byte 1 (by decide), lowest]
  rfl

theorem words_congr (room : 8 * ws.length < 2 ^ 64)
    (same : ∀ b, (b - a).toNat < 8 * ws.length → memory' b = memory b) (words : Words memory a ws) :
    Words memory' a ws := by
  induction ws generalizing a with
  | nil => exact trivial
  | cons w ws ih =>
    rw [List.length_cons] at room same
    obtain ⟨head, tail⟩ := words
    refine ⟨(load64_congr fun b inside => same b (by omega)).trans head, ih (by omega) (fun b inside => ?_) tail⟩
    apply same
    have eight : (8 : BitVec 64).toNat = 8 := rfl
    have whole := toNat_sub_add b a 8 (by omega)
    omega

/-- A store elsewhere leaves the words alone. -/
theorem Words.store_apart (room : 8 * ws.length < 2 ^ 64) (apart : Apart a (8 * ws.length) b 8)
    (words : Words memory a ws) (v : BitVec 64) : Words (store64 memory b v) a ws := by
  apply words_congr room _ words
  intro x inside
  exact store64_outside (apart x inside)

/-- A word in front of the others. -/
theorem Words.push (room : 8 * ws.length < 2 ^ 64 - 8) (words : Words memory a ws) (v : BitVec 64) :
    Words (store64 memory (a - 8) v) (a - 8) (v :: ws) := by
  refine ⟨load64_store64 memory (a - 8) v, ?_⟩
  rw [BitVec.sub_add_cancel]
  apply words_congr (by omega) _ words
  intro b inside
  apply store64_outside
  have eight : (8 : BitVec 64).toNat = 8 := rfl
  have base : b - a = b - (a - 8 + 8) := by rw [BitVec.sub_add_cancel]
  rw [base] at inside
  have whole := toNat_sub_add b (a - 8) 8 (by omega)
  omega

/-- Clearing the bits of a mask is a subtraction without borrows. -/
theorem and_not_eq_sub (x mask : BitVec 64) : x &&& ~~~mask = x - (x &&& mask) := by
  have none : (x &&& ~~~mask) &&& (x &&& mask) = 0#64 := by
    apply BitVec.eq_of_getElem_eq
    intro i bound
    simp only [BitVec.getElem_and, BitVec.getElem_not, BitVec.getElem_zero]
    grind
  have whole : (x &&& ~~~mask) ||| (x &&& mask) = x := by
    apply BitVec.eq_of_getElem_eq
    intro i bound
    simp only [BitVec.getElem_and, BitVec.getElem_not, BitVec.getElem_or]
    grind
  rw [eq_comm, sub_eq_iff_eq_add, BitVec.add_eq_or_of_and_eq_zero _ _ none, whole]

/-- The offset below an address, from a lower address. -/
theorem toNat_sub_sub (x a d : BitVec 64) (inside : d.toNat ≤ (a - x).toNat) :
    (a - d - x).toNat = (a - x).toNat - d.toNat := by
  have split : a - d - x = a - x - d := by ring
  rw [split, BitVec.toNat_sub_of_le (BitVec.le_def.mpr inside)]

end Words

end StackWords
