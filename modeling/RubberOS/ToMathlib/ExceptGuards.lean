import Mathlib.Data.Nat.Notation
import Mathlib.Tactic.SplitIfs

/-! # Inverting successful `Except` computations

A computation built from binds and guards succeeds exactly when each of its steps does. The lemmas
below peel such a computation apart or run it forward, without unfolding the monad in the proof
that uses them.
-/

namespace Except

universe u v

variable {ε : Type u} {α β : Type v}

/-- A sequenced computation succeeds exactly when each step succeeds in turn. -/
theorem bind_ok_iff {x : Except ε α} {f : α → Except ε β} {b : β} :
    (x >>= f) = .ok b ↔ ∃ a, x = .ok a ∧ f a = .ok b := by
  cases x <;> simp [bind, Except.bind]

/-- Two branches that go on in the same way are one branch followed by the rest. -/
theorem ite_bind_ok_iff {c : Prop} [Decidable c] {x y : Except ε α} {f : α → Except ε β} {b : β} :
    (if c then x >>= f else y >>= f) = .ok b ↔ ∃ a, (if c then x else y) = .ok a ∧ f a = .ok b := by
  split <;> exact bind_ok_iff

theorem ite_bind {c : Prop} [Decidable c] {x y : Except ε α} {f : α → Except ε β} :
    (if c then x >>= f else y >>= f) = ((if c then x else y) >>= f) := by
  split_ifs <;> rfl

@[simp] theorem ok_bind (a : α) (f : α → Except ε β) : ((.ok a : Except ε α) >>= f) = f a := rfl

@[simp] theorem error_bind (e : ε) (f : α → Except ε β) :
    ((.error e : Except ε α) >>= f) = .error e := rfl

@[simp] theorem pure_ok_iff {a b : α} : (pure a : Except ε α) = .ok b ↔ a = b := by
  simp [pure, Except.pure]

end Except
