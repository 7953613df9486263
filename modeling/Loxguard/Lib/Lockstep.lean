/-
# Computations that cannot tell states apart

A computation on a state is blind to a relation when from related states it
gives the same result and leaves related states. Blind computations compose
(`Blind.bind`), so what a program never looks at can be shown from its parts.

Key definitions: `Lockstep.Blind`.
Key theorems: `Blind.bind`, `Blind.ite`.
-/
import Mathlib.Logic.Basic

namespace Lib
namespace Lockstep

variable {σ α β : Type*} {R : σ → σ → Prop}

/-- From related states the same result, and related states after it. -/
def Blind (R : σ → σ → Prop) (f : σ → α × σ) : Prop :=
  ∀ s s', R s s' → (f s).1 = (f s').1 ∧ R (f s).2 (f s').2

theorem Blind.pure (a : α) : Blind R fun s => (a, s) := fun _ _ h => ⟨rfl, h⟩

/-- **One computation after another**, which depends on its result. -/
theorem Blind.bind {f : σ → α × σ} {g : α → σ → β × σ} (hf : Blind R f) (hg : ∀ a, Blind R (g a)) :
    Blind R fun s => g (f s).1 (f s).2 := by
  intro s s' h
  obtain ⟨hout, hnext⟩ := hf s s' h
  show (g (f s).1 (f s).2).1 = (g (f s').1 (f s').2).1 ∧ R (g (f s).1 (f s).2).2 (g (f s').1 (f s').2).2
  rw [← hout]
  exact hg (f s).1 (f s).2 (f s').2 hnext

theorem Blind.ite {f g : σ → α × σ} (c : Prop) [Decidable c] (hf : Blind R f) (hg : Blind R g) :
    Blind R fun s => if c then f s else g s := by
  intro s s' h
  by_cases hc : c
  · simpa only [if_pos hc] using hf s s' h
  · simpa only [if_neg hc] using hg s s' h

end Lockstep
end Lib
