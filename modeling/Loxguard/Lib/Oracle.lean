/-
# Programs that read answers off a tape

A program asks questions and reads the answers off a tape it got beforehand. A
server answers questions from a state of its own, which every question moves.
A program is `Answered` if, from any state and for any server state, there is
a tape whose answers are those the server gives to the questions asked: the
program does not know the answers to come, so the tape can be made question by
question. Answered programs compose (`Answered.bind`).

What a program did is told by labels on its state; some of them are questions
with their answers.

Key definitions: `Oracle.Served`, `Oracle.after`, `Oracle.Reader`,
`Oracle.Reader.Answered`.
Key theorems: `Served.append`, `Answered.of_asks`, `Answered.of_silent`,
`Answered.bind`.
-/
import Loxguard.Lib.Runs
import Mathlib.Data.Stream.Init

namespace Lib
namespace Oracle

variable {σ τ ι α β γ ℓ : Type*}

/-! ### A server -/

section Server

variable (serve : τ → ι → α × τ)

/-- The server gives these answers to these questions, one after the other. -/
def Served (t : τ) (log : List (ι × α)) : Prop :=
  (Runs.run serve t (log.map Prod.fst)).1 = log.map Prod.snd

/-- The server after these questions. -/
def after (t : τ) (log : List (ι × α)) : τ := (Runs.run serve t (log.map Prod.fst)).2

theorem served_nil (t : τ) : Served serve t [] := rfl

variable {serve}

theorem served_cons {t : τ} {e : ι × α} {log : List (ι × α)} :
    Served serve t (e :: log) ↔ (serve t e.1).1 = e.2 ∧ Served serve (serve t e.1).2 log :=
  List.cons_eq_cons

/-- **One log after another.** -/
theorem Served.append {t : τ} {log log' : List (ι × α)} (h : Served serve t log)
    (h' : Served serve (after serve t log) log') : Served serve t (log ++ log') := by
  unfold Served
  rw [List.map_append, List.map_append, Runs.run_append]
  exact congrArg₂ _ h h'

end Server

/-! ### A program -/

/-- How a state holds the tape, and what its labels say was asked. -/
structure Reader (σ ι α ℓ : Type*) where
  put : Stream' α → σ → σ
  trace : σ → List ℓ
  asked : ℓ → Option (ι × α)

namespace Reader

variable (r : Reader σ ι α ℓ) (serve : τ → ι → α × τ)

/-- The questions and answers among labels. -/
def log (xs : List ℓ) : List (ι × α) := xs.filterMap r.asked

theorem log_append (xs ys : List ℓ) : r.log (xs ++ ys) = r.log xs ++ r.log ys := List.filterMap_append

/-- From any state, and for any state of the server, the program can be given
the server's answers, whatever stands on the tape after them. -/
def Answered (f : σ → β × σ) : Prop :=
  ∀ s t, ∃ xs b s', Served serve t (r.log xs) ∧ r.trace s' = r.trace s ++ xs ∧
    ∀ rest, f (r.put ((r.log xs).map Prod.snd ++ₛ rest) s) = (b, r.put rest s')

variable {r serve}

/-- A program that asks one question and goes on with the answer. -/
theorem Answered.of_asks {f : σ → β × σ} (h : ∀ s, ∃ q, ∀ a, ∃ x b s', r.asked x = some (q, a) ∧
    r.trace s' = r.trace s ++ [x] ∧ ∀ rest, f (r.put (.cons a rest) s) = (b, r.put rest s')) :
    r.Answered serve f := by
  intro s t
  obtain ⟨q, hq⟩ := h s
  obtain ⟨x, b, s', hasked, htrace, hf⟩ := hq (serve t q).1
  have hlog : r.log [x] = [(q, (serve t q).1)] := by rw [log, List.filterMap_cons_some hasked, List.filterMap_nil]
  refine ⟨[x], b, s', ?_, htrace, ?_⟩
  · rw [hlog]
    exact served_cons.mpr ⟨rfl, served_nil serve _⟩
  · rw [hlog]
    exact hf

theorem Answered.of_silent {f : σ → β × σ}
    (htrace : ∀ s, ∃ xs, r.log xs = [] ∧ r.trace (f s).2 = r.trace s ++ xs)
    (hput : ∀ s rest, f (r.put rest s) = ((f s).1, r.put rest (f s).2)) : r.Answered serve f := by
  intro s t
  obtain ⟨xs, hlog, hxs⟩ := htrace s
  refine ⟨xs, (f s).1, (f s).2, ?_, hxs, ?_⟩
  · rw [hlog]
    exact served_nil serve t
  · rw [hlog]
    exact hput s

theorem Answered.pure (b : β) : r.Answered serve fun s => (b, s) :=
  of_silent (fun _ => ⟨[], rfl, (List.append_nil _).symm⟩) fun _ _ => rfl

/-- **One program after another**, which depends on its result. -/
theorem Answered.bind {f : σ → β × σ} {g : β → σ → γ × σ} (hf : r.Answered serve f)
    (hg : ∀ b, r.Answered serve (g b)) : r.Answered serve fun s => g (f s).1 (f s).2 := by
  intro s t
  obtain ⟨xs, b, s', hserved, htrace, hrun⟩ := hf s t
  obtain ⟨ys, c, s'', hserved', htrace', hrun'⟩ := hg b s' (after serve t (r.log xs))
  refine ⟨xs ++ ys, c, s'', ?_, ?_, ?_⟩
  · rw [log_append]
    exact hserved.append hserved'
  · rw [htrace', htrace, List.append_assoc]
  · intro rest
    have hfirst := hrun ((r.log ys).map Prod.snd ++ₛ rest)
    rw [log_append, List.map_append, Stream'.append_append_stream]
    simp only [hfirst]
    exact hrun' rest

theorem Answered.ite {f g : σ → β × σ} (c : Prop) [Decidable c] (hf : r.Answered serve f)
    (hg : r.Answered serve g) : r.Answered serve fun s => if c then f s else g s := by
  by_cases hc : c
  · simpa only [if_pos hc] using hf
  · simpa only [if_neg hc] using hg

end Reader
end Oracle
end Lib
