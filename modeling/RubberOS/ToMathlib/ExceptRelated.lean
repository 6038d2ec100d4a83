import RubberOS.ToMathlib.ExceptGuards

/-! # Computations that go on alike

Two `Except` computations are related when they fail with the same error, or succeed with related values. A
sequence of related steps is related, so what differs between two states and no step looks at stays out of
every proof about the steps.
-/

namespace Except

universe u v w z

variable {ε : Type u} {α γ : Type v} {β δ : Type w} {R : α → β → Prop} {S : γ → δ → Prop}

/-- Both fail with one error, or both succeed with related values. -/
inductive Related (R : α → β → Prop) : Except ε α → Except ε β → Prop
  | ok {a : α} {b : β} : R a b → Related R (.ok a) (.ok b)
  | error (e : ε) : Related R (.error e) (.error e)

theorem Related.bind {x : Except ε α} {y : Except ε β} {f : α → Except ε γ} {g : β → Except ε δ}
    (first : Related R x y) (rest : ∀ a b, R a b → Related S (f a) (g b)) : Related S (x >>= f) (y >>= g) := by
  cases first with
  | ok related => exact rest _ _ related
  | error e => exact .error e

/-- The same first step on both sides. -/
theorem Related.bind_same {x : Except ε α} {f g : α → Except ε γ} {T : γ → γ → Prop}
    (rest : ∀ a, Related T (f a) (g a)) : Related T (x >>= f) (x >>= g) := by
  cases x with
  | ok a => exact rest a
  | error e => exact .error e

theorem Related.of_ok {x : Except ε α} {y : Except ε β} {a : α} (related : Related R x y) (ran : x = .ok a) :
    ∃ b, y = .ok b ∧ R a b := by
  cases related with
  | ok related =>
    cases ran
    exact ⟨_, rfl, related⟩
  | error e => cases ran

end Except
