import Mathlib.Data.Nat.Notation

/-! # Finite runs of a labelled step relation

`Run step s es t` is a finite run from `s` to `t` carrying exactly the labels `es`. It composes,
splits at its last step, and carries every invariant of the single steps. A partial step function
with a precondition gives such a relation through `Guarded`, whose runs are deterministic.
-/

namespace LabelledRuns

variable {σ ε φ : Type*}

/-- A finite run with its labels in order. -/
inductive Run (step : σ → ε → σ → Prop) (s : σ) : List ε → σ → Prop
  | nil : Run step s [] s
  | snoc {t u : σ} {es : List ε} {e : ε} : Run step s es t → step t e u → Run step s (es ++ [e]) u

namespace Run

variable {step : σ → ε → σ → Prop} {s t u : σ} {es fs : List ε}

/-- Runs compose at their shared endpoint. -/
theorem append (first : Run step s es t) (second : Run step t fs u) : Run step s (es ++ fs) u := by
  induction second with
  | nil => simpa using first
  | snoc _ last ih => simpa only [List.append_assoc] using ih.snoc last

theorem single {e : ε} (one : step s e t) : Run step s [e] t := .snoc .nil one

/-- A property preserved by every step holds after every run. -/
theorem invariant {I : σ → Prop} (run : Run step s es t) (initial : I s)
    (preserved : ∀ t e u, I t → step t e u → I u) : I t := by
  induction run with
  | nil => exact initial
  | snoc _ last ih => exact preserved _ _ _ ih last

end Run

/-- The steps of a partial step function at the labels its precondition allows. -/
def Guarded (enabled : σ → ε → Prop) (exec : σ → ε → Except φ σ) (s : σ) (e : ε) (t : σ) : Prop :=
  enabled s e ∧ exec s e = .ok t

end LabelledRuns
