/-
# Runs of a machine

A machine takes inputs one after the other; each gives an output and the next
state. What holds of every step holds along a run (`run_invariant`), also of a
record kept of the outputs (`run_invariant_foldl`), and of the steps of two
machines side by side (`run_simulates`). What a step does to a view of the
state folds over the outputs (`view_run`), and inputs that a view does not see
can be left out (`run_purge`), where "does not see" may depend on the states
the run goes through.

Key definitions: `Runs.run`, `Runs.Along`.
Key theorems: `Runs.run_append`, `Runs.run_invariant`,
`Runs.run_invariant_foldl`, `Runs.run_simulates`, `Runs.view_run`,
`Runs.run_purge`.
-/
import Mathlib.Data.List.Basic

namespace Lib
namespace Runs

variable {σ ι ο υ : Type*} (step : σ → ι → ο × σ)

/-- The outputs and the last state of inputs taken one after the other. -/
def run : σ → List ι → List ο × σ
  | s, [] => ([], s)
  | s, i :: is => ((step s i).1 :: (run (step s i).2 is).1, (run (step s i).2 is).2)

/-- `p` holds of every input and the state that takes it. -/
def Along (p : σ → ι → Prop) : σ → List ι → Prop
  | _, [] => True
  | s, i :: is => p s i ∧ Along p (step s i).2 is

theorem run_append (s : σ) (is js : List ι) :
    run step s (is ++ js) =
      ((run step s is).1 ++ (run step (run step s is).2 js).1, (run step (run step s is).2 js).2) := by
  induction is generalizing s with
  | nil => rfl
  | cons i is ih =>
    rw [List.cons_append, run, ih]
    rfl

theorem run_map {κ : Type*} (f : κ → ι) (s : σ) (ks : List κ) :
    run step s (ks.map f) = run (fun s k => step s (f k)) s ks := by
  induction ks generalizing s with
  | nil => rfl
  | cons k ks ih =>
    rw [List.map_cons, run, ih]
    rfl

variable {step}

/-- An output is that of an input in some state. -/
theorem mem_run {is : List ι} {s : σ} {o : ο} (h : o ∈ (run step s is).1) :
    ∃ i ∈ is, ∃ s', o = (step s' i).1 := by
  induction is generalizing s with
  | nil => exact absurd h List.not_mem_nil
  | cons i is ih =>
    rcases List.mem_cons.mp h with rfl | h
    · exact ⟨i, List.mem_cons_self, s, rfl⟩
    · obtain ⟨j, hj, s', rfl⟩ := ih h
      exact ⟨j, List.mem_cons_of_mem _ hj, s', rfl⟩

/-- What holds of every input and its output holds along a run. -/
theorem forall₂_run {p : ι → ο → Prop} (h : ∀ s i, p i (step s i).1) (s : σ) (is : List ι) :
    List.Forall₂ p is (run step s is).1 := by
  induction is generalizing s with
  | nil => exact .nil
  | cons i is ih => exact .cons (h s i) (ih (step s i).2)

/-- What every step preserves, a run preserves. -/
theorem run_invariant {inv : σ → Prop} (is : List ι) (s : σ)
    (h : ∀ i ∈ is, ∀ s, inv s → inv (step s i).2) (hs : inv s) : inv (run step s is).2 := by
  induction is generalizing s with
  | nil => exact hs
  | cons i is ih =>
    apply ih
    · exact fun j hj => h j (List.mem_cons_of_mem _ hj)
    · exact h i List.mem_cons_self s hs

/-- What every step preserves, with a record kept of the outputs, a run
preserves. -/
theorem run_invariant_foldl {inv : σ → υ → Prop} (g : υ → ο → υ) (is : List ι) (s : σ) (v : υ)
    (h : ∀ i ∈ is, ∀ s v, inv s v → inv (step s i).2 (g v (step s i).1)) (hs : inv s v) :
    inv (run step s is).2 ((run step s is).1.foldl g v) := by
  induction is generalizing s v with
  | nil => exact hs
  | cons i is ih =>
    rw [run, List.foldl_cons]
    apply ih
    · exact fun j hj => h j (List.mem_cons_of_mem _ hj)
    · exact h i List.mem_cons_self s v hs

/-- **Two machines side by side.** Related states that give the same outputs
and stay related give the same outputs along a run. -/
theorem run_simulates {τ : Type*} {step' : τ → ι → ο × τ} {R : σ → τ → Prop} (is : List ι) (s : σ)
    (s' : τ) (h : ∀ i ∈ is, ∀ s s', R s s' → (step s i).1 = (step' s' i).1 ∧ R (step s i).2 (step' s' i).2)
    (hs : R s s') : (run step s is).1 = (run step' s' is).1 ∧ R (run step s is).2 (run step' s' is).2 := by
  induction is generalizing s s' with
  | nil => exact ⟨rfl, hs⟩
  | cons i is ih =>
    obtain ⟨hout, hnext⟩ := h i List.mem_cons_self s s' hs
    obtain ⟨houts, hlast⟩ := ih (step s i).2 (step' s' i).2 (fun j hj => h j (List.mem_cons_of_mem _ hj)) hnext
    rw [run, run, hout, houts]
    exact ⟨rfl, hlast⟩

/-- **A view of the state** that every step takes along by its output. -/
theorem view_run (view : σ → υ) (g : υ → ο → υ) (is : List ι) (s : σ)
    (h : ∀ i ∈ is, ∀ s, view (step s i).2 = g (view s) (step s i).1) :
    view (run step s is).2 = (run step s is).1.foldl g (view s) := by
  induction is generalizing s with
  | nil => rfl
  | cons i is ih =>
    rw [run, List.foldl_cons, ← h i List.mem_cons_self s]
    apply ih
    exact fun j hj => h j (List.mem_cons_of_mem _ hj)

/-- What holds along a run, with an invariant at hand. -/
theorem Along.imp (inv : σ → Prop) {p q : σ → ι → Prop} (is : List ι) {s : σ}
    (hinv : ∀ i ∈ is, ∀ s, inv s → inv (step s i).2) (hs : inv s)
    (h : ∀ i ∈ is, ∀ s, inv s → p s i → q s i) (halong : Along step p s is) : Along step q s is := by
  induction is generalizing s with
  | nil => trivial
  | cons i is ih =>
    obtain ⟨hp, hps⟩ := halong
    refine ⟨h i List.mem_cons_self s hs hp, ?_⟩
    apply ih _ (hinv i List.mem_cons_self s hs) _ hps
    · exact fun j hj => hinv j (List.mem_cons_of_mem _ hj)
    · exact fun j hj => h j (List.mem_cons_of_mem _ hj)

theorem along_append {p : σ → ι → Prop} (is js : List ι) (s : σ) :
    Along step p s (is ++ js) ↔ Along step p s is ∧ Along step p (run step s is).2 js := by
  induction is generalizing s with
  | nil => exact (and_iff_right trivial).symm
  | cons i is ih => exact (and_congr_right fun _ => ih (step s i).2).trans and_assoc.symm

/-- **Leaving inputs out.** `R` relates states that look the same. When the
inputs at `mine` give outputs that look the same to `see` and keep states
related, and the others keep the state related to what it was related to, then
the outputs at `mine` look like those of the inputs at `mine` alone. -/
theorem run_purge {δ : Type*} {mine : ι → Bool} {mineOut : ο → Bool} {R : σ → σ → Prop} (see : ο → δ)
    (is : List ι) (s s' : σ) (hout : ∀ i ∈ is, ∀ s, mineOut (step s i).1 = mine i)
    (hmine : ∀ i ∈ is, mine i → ∀ s s', R s s' →
      see (step s i).1 = see (step s' i).1 ∧ R (step s i).2 (step s' i).2)
    (hother : Along step (fun s i => mine i = false → ∀ s', R s s' → R (step s i).2 s') s is)
    (hR : R s s') :
    ((run step s is).1.filter mineOut).map see = (run step s' (is.filter mine)).1.map see := by
  induction is generalizing s s' with
  | nil => rfl
  | cons i is ih =>
    obtain ⟨hkeep, halong⟩ := hother
    have hrest := fun s'' => ih (step s i).2 s'' (fun j hj => hout j (List.mem_cons_of_mem _ hj))
      (fun j hj => hmine j (List.mem_cons_of_mem _ hj)) halong
    cases hi : mine i with
    | true =>
      obtain ⟨hsee, hR'⟩ := hmine i List.mem_cons_self hi s s' hR
      rw [run, List.filter_cons_of_pos ((hout i List.mem_cons_self s).trans hi),
        List.filter_cons_of_pos hi, run, List.map_cons, List.map_cons, hsee, hrest _ hR']
    | false =>
      rw [run, List.filter_cons_of_neg (by simp [hout i List.mem_cons_self s, hi]),
        List.filter_cons_of_neg (by simp [hi])]
      exact hrest s' (hkeep hi s' hR)

end Runs
end Lib
