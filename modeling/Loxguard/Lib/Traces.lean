/-
# Labelled steps

A step takes a state to another and leaves a list of labels; `Steps` are steps
one after the other, with all their labels in order. A relation that nothing
at all satisfies, that composes and that every step satisfies is satisfied by
any number of steps (`Steps.lift`), and steps made of smaller ones can be told
as the smaller ones (`Steps.refine`).

Key definitions: `Traces.Steps`, `Traces.Composes`.
Key theorems: `Steps.trans`, `Steps.lift`, `Steps.refine`.
-/
import Mathlib.Data.List.Basic

namespace Lib
namespace Traces

variable {σ α : Type*}

/-- Steps one after the other, with the labels they leave. -/
inductive Steps (step : σ → List α → σ → Prop) : σ → List α → σ → Prop
  | refl (s : σ) : Steps step s [] s
  | tail {s s' s'' : σ} {xs ys : List α} (h : Steps step s xs s') (hstep : step s' ys s'') :
      Steps step s (xs ++ ys) s''

/-- `Q` holds where nothing happens, and of one thing after another. -/
structure Composes (Q : σ → List α → σ → Prop) : Prop where
  refl (s : σ) : Q s [] s
  trans {s s' s'' : σ} {xs ys : List α} : Q s xs s' → Q s' ys s'' → Q s (xs ++ ys) s''

namespace Steps

variable {step : σ → List α → σ → Prop} {s s' s'' : σ} {xs ys : List α}

theorem single (h : step s xs s') : Steps step s xs s' := .tail (.refl s) h

theorem trans (h : Steps step s xs s') (h' : Steps step s' ys s'') : Steps step s (xs ++ ys) s'' := by
  induction h' with
  | refl => rwa [List.append_nil]
  | tail _ hstep ih =>
    rw [← List.append_assoc]
    exact ih.tail hstep

theorem composes (step : σ → List α → σ → Prop) : Composes (Steps step) := ⟨refl, trans⟩

/-- **What composes and holds of every step** holds of steps one after the
other. -/
theorem lift {Q : σ → List α → σ → Prop} (hQ : Composes Q)
    (hstep : ∀ {s xs s'}, step s xs s' → Q s xs s') (h : Steps step s xs s') : Q s xs s' := by
  induction h with
  | refl => exact hQ.refl s
  | tail _ h ih => exact hQ.trans ih (hstep h)

theorem refine {step' : σ → List α → σ → Prop} (hstep : ∀ {s xs s'}, step s xs s' → Steps step' s xs s')
    (h : Steps step s xs s') : Steps step' s xs s' :=
  h.lift (composes step') hstep

end Steps
end Traces
end Lib
