import RubberOS.Model.Sort

/-! # The heapsort on the bytes of an array
 The same loops on memory: the array has `len` bytes at `ptr`, elements are exchanged byte by byte, and the
comparator reads the `size` bytes behind each of its two pointers. A pointer to a byte outside the array is a
fault. -/

namespace RubberOS.Model.SortBytes

variable {size : ℕ}

/-- What a comparator reads behind a pointer. -/
abbrev Element (size : ℕ) := Fin size → BitVec 8

def byteAt (ptr len : ℕ) (memory : Memory) (address : ℕ) : Result (BitVec 8) :=
  if ptr ≤ address ∧ address < ptr + len then .ok (memory address) else .error .outOfBounds

def setByte (ptr len : ℕ) (memory : Memory) (address : ℕ) (byte : BitVec 8) : Result Memory :=
  if ptr ≤ address ∧ address < ptr + len then .ok (Function.update memory address byte) else .error .outOfBounds

/-- `swap(ca, cb, size)`. -/
def swap (ptr len : ℕ) : ℕ → ℕ → ℕ → Memory → Result Memory
  | 0, _, _, memory => .ok memory
  | size + 1, ca, cb, memory => do
    let tmp ← byteAt ptr len memory ca
    let other ← byteAt ptr len memory cb
    let memory ← setByte ptr len memory ca other
    let memory ← setByte ptr len memory cb tmp
    swap ptr len size (ca + 1) (cb + 1) memory

def elementAt (ptr len : ℕ) (memory : Memory) (address : ℕ) : Result (Element size) :=
  if ptr ≤ address ∧ address + size ≤ ptr + len then .ok fun i => memory (address + i) else .error .outOfBounds

/-- `comp(a, b)`. -/
def compare (comp : Element size → Element size → ℤ) (ptr len : ℕ) (memory : Memory) (a b : ℕ) : Result ℤ := do
  let left ← elementAt ptr len memory a
  let right ← elementAt ptr len memory b
  return comp left right

/-- The child to descend to: the right one where it exists and compares greater. -/
def greaterChild (comp : Element size → Element size → ℤ) (ptr len stop : ℕ) (memory : Memory) (child : ℕ) :
    Result ℕ :=
  if u64 (child + size) < stop then do
    let order ← compare comp ptr len memory (ptr + child) (ptr + u64 (child + size))
    return if order < 0 then u64 (child + size) else child
  else .ok child

/-- The `while (1)` loop that repairs the heap below `root`. -/
def repair (comp : Element size → Element size → ℤ) (ptr len stop : ℕ) : ℕ → ℕ → Memory → Result Memory
  | 0, _, _ => .error .nonterminating
  | fuel + 1, root, memory => do
    let child := u64 (root * 2 + size)
    if child ≥ stop then return memory
    let child ← greaterChild comp ptr len stop memory child
    let order ← compare comp ptr len memory (ptr + root) (ptr + child)
    if order ≥ 0 then return memory
    let memory ← swap ptr len size (ptr + root) (ptr + child) memory
    repair comp ptr len stop fuel child memory

/-- The `while (end > size)` loop: heapify while `start > 0`, then pop the maximum to the end. -/
def sortLoop (comp : Element size → Element size → ℤ) (ptr count : ℕ) : ℕ → ℕ → ℕ → Memory → Result Memory
  | 0, _, _, _ => .error .nonterminating
  | fuel + 1, start, stop, memory =>
    if stop > size then do
      let (start, stop, memory) ←
        if start > 0 then pure (sub64 start size, stop, memory)
        else do
          let stop := sub64 stop size
          let memory ← swap ptr (count * size) size (ptr + stop) ptr memory
          pure (start, stop, memory)
      let memory ← repair comp ptr (count * size) stop (count + 1) start memory
      sortLoop comp ptr count fuel start stop memory
    else .ok memory

def sort (memory : Memory) (ptr count size : ℕ) (comp : Element size → Element size → ℤ) : Result Memory :=
  sortLoop comp ptr count (2 * count + 1) (u64 (count / 2 * size)) (u64 (count * size)) memory

end RubberOS.Model.SortBytes
