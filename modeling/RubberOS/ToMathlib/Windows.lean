import Mathlib.Data.List.Basic
import Mathlib.Data.Nat.Notation
import Mathlib.Logic.Function.Basic

/-! # Windows of a function

`window f base n` lists the values of a function at `n` consecutive addresses.
-/

namespace Windows

variable {α : Type*} {f g : ℕ → α} {base base' m n : ℕ}

def window (f : ℕ → α) (base n : ℕ) : List α := (List.range n).map fun i => f (base + i)

@[simp] theorem length_window : (window f base n).length = n := by simp [window]

theorem getElem_window {i : ℕ} (lt : i < (window f base n).length) : (window f base n)[i] = f (base + i) := by
  simp [window]

/-- Two windows are equal when the functions agree along them. -/
theorem window_congr (same : ∀ i < n, f (base + i) = g (base' + i)) : window f base n = window g base' n := by
  refine List.ext_getElem (by simp) fun i lt lt' => ?_
  rw [getElem_window, getElem_window]
  exact same i (by simpa using lt)

end Windows
