import Mathlib.Data.Int.Notation
import Mathlib.Logic.Function.Basic
import RubberOS.Model.Machine

/-! # The heapsort of libfreec

`sort` works on `count` elements of `size` bytes and computes with byte offsets, which are kept as
the source has them. An element is read or exchanged through its offset, and an offset whose element
does not lie in the array is a fault.
-/

namespace RubberOS.Model.Sort

variable {α : Type}

/-- The element at a byte offset of the array. -/
def elementAt (size count : ℕ) (p : ℕ → α) (offset : ℕ) : Result α :=
  if offset + size ≤ count * size then .ok (p (offset / size)) else .error .outOfBounds

/-- `swap(p + a, p + b, size)`. -/
def swap (size count : ℕ) (p : ℕ → α) (a b : ℕ) : Result (ℕ → α) := do
  let left ← elementAt size count p a
  let right ← elementAt size count p b
  return Function.update (Function.update p (a / size) right) (b / size) left

/-- The child to descend to: the right one where it exists and compares greater. -/
def greaterChild (comp : α → α → ℤ) (size count stop : ℕ) (p : ℕ → α) (child : ℕ) : Result ℕ :=
  if u64 (child + size) < stop then do
    let left ← elementAt size count p child
    let right ← elementAt size count p (u64 (child + size))
    return if comp left right < 0 then u64 (child + size) else child
  else .ok child

/-- The `while (1)` loop that repairs the heap below `root`. -/
def repair (comp : α → α → ℤ) (size count stop : ℕ) : ℕ → ℕ → (ℕ → α) → Result (ℕ → α)
  | 0, _, _ => .error .nonterminating
  | fuel + 1, root, p => do
    let child := u64 (root * 2 + size)
    if child ≥ stop then return p
    let child ← greaterChild comp size count stop p child
    let parent ← elementAt size count p root
    let greater ← elementAt size count p child
    if comp parent greater ≥ 0 then return p
    let p ← swap size count p root child
    repair comp size count stop fuel child p

/-- The `while (end > size)` loop: heapify while `start > 0`, then pop the maximum to the end. -/
def sortLoop (comp : α → α → ℤ) (size count : ℕ) : ℕ → ℕ → ℕ → (ℕ → α) → Result (ℕ → α)
  | 0, _, _, _ => .error .nonterminating
  | fuel + 1, start, stop, p =>
    if stop > size then do
      let (start, stop, p) ←
        if start > 0 then pure (sub64 start size, stop, p)
        else do
          let stop := sub64 stop size
          let p ← swap size count p stop 0
          pure (start, stop, p)
      let p ← repair comp size count stop (count + 1) start p
      sortLoop comp size count fuel start stop p
    else .ok p

def sort (p : ℕ → α) (count size : ℕ) (comp : α → α → ℤ) : Result (ℕ → α) :=
  sortLoop comp size count (2 * count + 1) (u64 (count / 2 * size)) (u64 (count * size)) p

end RubberOS.Model.Sort
