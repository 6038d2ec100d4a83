import RubberOS.Proofs.Arraylist
import RubberOS.Proofs.TtyWindow
import RubberOS.ToMathlib.Windows

/-! # What a move of bytes leaves

`memmove` copies upwards when the destination is not above the source and downwards otherwise, so no byte is
written over before it is read. The array list opens and closes its gaps with it and the terminal scrolls with it:
each of the three relies on ranges that overlap.
-/

namespace RubberOS.Soundness.ByteMoves

open Model Model.Collections Model.Gui Windows

/-- The destination holds what the source held, and nothing else changes. -/
structure Moves (memory : Memory) (dest src count : ℕ) (memory' : Memory) : Prop where
  moved : window memory' dest count = window memory src count
  kept : ∀ address, address < dest ∨ dest + count ≤ address → memory' address = memory address

private theorem memmove_moves (memory : Memory) (dest src count : ℕ) :
    Moves memory dest src count (memmove memory dest src count) where
  moved := by
    apply window_congr
    intro i inside
    rw [memmove_apply, if_pos (by omega), Nat.add_sub_cancel_left]
  kept := by
    intro address outside
    rw [memmove_apply, if_neg (by omega)]

section Users

variable {σ : Type} {pa : Allocator σ}

/-- The data of a list lie in the address space, and `size` does not leave them. -/
structure Stored (list : Arraylist) (size : ℕ) : Prop where
  fits : size ≤ list.capacity
  space : list.data + list.capacity ≤ 2 ^ 64
  word : size < 2 ^ 64

/-- An insertion without new data moves the bytes behind the position up by the gap. -/
private theorem insert_moves {heap : Heap σ} {pos n : ℕ} (inPos : pos ≤ heap.list.size)
    (stored : Stored heap.list (heap.list.size + n)) : ∃ memory,
    arraylistInsert pa heap pos n = .ok (u64 (heap.list.data + pos),
      ⟨{ heap.list with size := heap.list.size + n }, memory, heap.allocator⟩) ∧
    Moves heap.memory (heap.list.data + pos + n) (heap.list.data + pos) (heap.list.size - pos) memory :=
  ⟨_, arraylistInsert_keep inPos stored.fits stored.space stored.word, memmove_moves _ _ _ _⟩

/-- A removal moves the bytes behind the removed ones down over them. -/
private theorem remove_moves {heap : Heap σ} {pos n : ℕ} (inside : pos + n ≤ heap.list.size)
    (stored : Stored heap.list heap.list.size) : ∃ memory,
    arraylistRemove heap pos n = .ok ⟨{ heap.list with size := heap.list.size - n }, memory, heap.allocator⟩ ∧
    Moves heap.memory (heap.list.data + pos) (heap.list.data + pos + n) (heap.list.size - (pos + n)) memory :=
  ⟨_, arraylistRemove_of inside stored.fits stored.space stored.word, memmove_moves _ _ _ _⟩

/-- Scrolling moves all rows but the first one up, and then only the last row changes. -/
private theorem scroll_moves (tw : TtyWindow) : ∃ memory, Moves tw.buffer 0 80 (80 * 24) memory ∧
    scroll tw = .ok (⟨memset memory (80 * 24) 32 80, if tw.cursorY > 0 then tw.cursorX else 0, tw.cursorY - 1⟩,
      [none]) := by
  have moved : (ttyBuffer.holds 0 (80 * 24) && ttyBuffer.holds TTYW_WIDTH (80 * 24)) = true := rfl
  have cleared : ttyBuffer.holds (80 * 24) TTYW_WIDTH = true := rfl
  have rows : TTYW_WIDTH * (TTYW_HEIGHT - 1) = 80 * 24 := rfl
  refine ⟨memmove tw.buffer 0 80 (80 * 24), memmove_moves _ _ _ _, ?_⟩
  rw [scroll, rows]
  refine Except.bind_ok_iff.mpr ⟨_, if_pos moved, Except.bind_ok_iff.mpr ⟨_, if_pos cleared, ?_⟩⟩
  dsimp only
  split_ifs with below
  · rfl
  · have top : tw.cursorY = 0 := by omega
    rw [top]
    rfl

/-- `memmove` moves the bytes for every memory and all ranges, overlapping or not, and the array list and the
terminal get from it what they rely on. -/
theorem overlapping_moves (pa : Allocator σ) :
    (∀ memory dest src count, Moves memory dest src count (memmove memory dest src count)) ∧
    (∀ (heap : Heap σ) (pos n : ℕ), pos ≤ heap.list.size → Stored heap.list (heap.list.size + n) → ∃ memory,
      arraylistInsert pa heap pos n = .ok (u64 (heap.list.data + pos),
        ⟨{ heap.list with size := heap.list.size + n }, memory, heap.allocator⟩) ∧
      Moves heap.memory (heap.list.data + pos + n) (heap.list.data + pos) (heap.list.size - pos) memory) ∧
    (∀ (heap : Heap σ) (pos n : ℕ), pos + n ≤ heap.list.size → Stored heap.list heap.list.size → ∃ memory,
      arraylistRemove heap pos n = .ok ⟨{ heap.list with size := heap.list.size - n }, memory, heap.allocator⟩ ∧
      Moves heap.memory (heap.list.data + pos) (heap.list.data + pos + n) (heap.list.size - (pos + n)) memory) ∧
    (∀ tw : TtyWindow, ∃ memory, Moves tw.buffer 0 80 (80 * 24) memory ∧
      scroll tw = .ok (⟨memset memory (80 * 24) 32 80, if tw.cursorY > 0 then tw.cursorX else 0, tw.cursorY - 1⟩,
        [none])) :=
  ⟨memmove_moves, fun _ _ _ => insert_moves, fun _ _ _ => remove_moves, scroll_moves⟩

end Users

/-- An allocator without memory: a list over it keeps the data that it has. -/
def exhausted : Allocator Unit where
  alloc _ s := .ok ((0, 0), s)
  dealloc _ _ s := .ok s
  shrink _ oldLen _ s := .ok (oldLen, s)

/-- A gap of one byte in a list of three bytes: the two bytes behind it move by one, over one of themselves. -/
theorem overlapping_moves_gap : ∃ memory, arraylistInsert exhausted ⟨⟨100, 3, 8⟩, BitVec.ofNat 8, ()⟩ 1 1 =
      .ok (101, ⟨⟨100, 4, 8⟩, memory, ()⟩) ∧ Moves (BitVec.ofNat 8) 102 101 2 memory :=
  (overlapping_moves exhausted).2.1 ⟨⟨100, 3, 8⟩, BitVec.ofNat 8, ()⟩ 1 1 (by decide) ⟨by decide, by decide, by decide⟩

end RubberOS.Soundness.ByteMoves
