/-
# Splitting at separators

`pieces p s` are the non-empty stretches of `s` between the elements that
satisfy `p`, wherever the separators stand and however many follow each
other. A scanner that takes one stretch, then skips a run of separators, goes
through them in order (`pieces_step`). Joining stretches with single
separators and splitting again gives them back (`pieces_intercalate`).

Cutting a list cuts its fields the same way: the fields before the cut stay,
the one at the cut keeps a prefix, the ones after it go (`splitOn_take`). With as many
fields left, only the last one can have changed (`splitOn_take_last`).

Key definitions: `Split.pieces`.
Key theorems: `pieces_step`, `pieces_append_cons`, `pieces_intercalate`,
`splitOn_take`, `splitOn_take_last`.
-/
import Mathlib.Data.List.Basic
import Mathlib.Data.List.TakeWhile

namespace Lib
namespace Split

variable {α : Type*} (p : α → Bool)

/-- The non-empty stretches of `s` between the elements that satisfy `p`. -/
def pieces (s : List α) : List (List α) := (s.splitOnP p).filter fun l => !l.isEmpty

@[simp] theorem pieces_nil : pieces p [] = [] := rfl

theorem pieces_of_forall {l : List α} (h : ∀ x ∈ l, p x = false) :
    pieces p l = if l = [] then [] else [l] := by
  unfold pieces
  rw [List.splitOnP_eq_singleton h]
  cases l <;> simp

theorem pieces_append_cons {l : List α} (h : ∀ x ∈ l, p x = false) {x : α} (hx : p x = true)
    (s : List α) : pieces p (l ++ x :: s) = (if l = [] then [] else [l]) ++ pieces p s := by
  unfold pieces
  rw [List.splitOnP_append_cons_of_forall_mem h x hx]
  cases l <;> simp

theorem pieces_cons {x : α} (hx : p x = true) (s : List α) : pieces p (x :: s) = pieces p s := by
  simpa using pieces_append_cons p (l := []) (by simp) hx s

theorem pieces_dropWhile : ∀ s : List α, pieces p (s.dropWhile p) = pieces p s
  | [] => rfl
  | x :: s => by
    by_cases hx : p x = true
    · rw [List.dropWhile_cons_of_pos hx, pieces_cons p hx, pieces_dropWhile s]
    · rw [List.dropWhile_cons_of_neg hx]

/-- **One step of a scanner**: a stretch, then the separators after it. -/
theorem pieces_step (s : List α) :
    pieces p s = (if s.takeWhile (fun x => !p x) = [] then [] else [s.takeWhile fun x => !p x]) ++
      pieces p ((s.dropWhile fun x => !p x).dropWhile p) := by
  have hl : ∀ x ∈ s.takeWhile (fun x => !p x), p x = false := fun x hx => by
    simpa using List.mem_takeWhile_imp hx
  rw [pieces_dropWhile]
  conv_lhs => rw [← List.takeWhile_append_dropWhile (p := fun x => !p x) (l := s)]
  cases hd : s.dropWhile fun x => !p x with
  | nil => rw [List.append_nil, pieces_of_forall p hl, pieces_nil, List.append_nil]
  | cons x t =>
    have hx : p x = true := by
      have hne : s.dropWhile (fun x => !p x) ≠ [] := by rw [hd]; simp
      have := List.head_dropWhile_not (fun x => !p x) hne
      simpa [hd] using this
    rw [pieces_append_cons p hl hx, pieces_cons p hx]

theorem mem_of_mem_splitOnP : ∀ (s : List α), ∀ l ∈ s.splitOnP p, ∀ x ∈ l, x ∈ s
  | [], l, hl, x, hx => by
    simp only [List.splitOnP_nil, List.mem_singleton] at hl
    simp [hl] at hx
  | c :: s, l, hl, x, hx => by
    have ih := mem_of_mem_splitOnP s
    obtain ⟨a, as, ha⟩ := List.exists_cons_of_ne_nil (List.splitOnP_ne_nil p s)
    rw [List.splitOnP_cons_eq_if_modifyHead, ha] at hl
    rw [ha] at ih
    split at hl
    · rcases List.mem_cons.mp hl with rfl | hl
      · simp at hx
      · exact List.mem_cons_of_mem _ (ih l hl x hx)
    · rcases List.mem_cons.mp hl with rfl | hl
      · rcases List.mem_cons.mp hx with rfl | hx
        · exact List.mem_cons_self
        · exact List.mem_cons_of_mem _ (ih a List.mem_cons_self x hx)
      · exact List.mem_cons_of_mem _ (ih l (List.mem_cons_of_mem _ hl) x hx)

theorem mem_of_mem_pieces {s l : List α} (h : l ∈ pieces p s) {x : α} (hx : x ∈ l) : x ∈ s :=
  mem_of_mem_splitOnP p s l (List.mem_filter.mp h).1 x hx

/-- Stretches joined with single separators split into themselves. -/
theorem pieces_intercalate {x : α} (hx : p x = true) : ∀ ls : List (List α),
    (∀ l ∈ ls, l ≠ [] ∧ ∀ y ∈ l, p y = false) → pieces p ([x].intercalate ls) = ls
  | [], _ => by simp [List.intercalate]
  | [l], h => by
    obtain ⟨h1, h2⟩ := h l (by simp)
    simpa [List.intercalate, h1] using pieces_of_forall p h2
  | l :: l' :: ls, h => by
    obtain ⟨h1, h2⟩ := h l (by simp)
    have ih := pieces_intercalate hx (l' :: ls) fun k hk => h k (List.mem_cons_of_mem _ hk)
    have hcons : [x].intercalate (l :: l' :: ls) = l ++ x :: [x].intercalate (l' :: ls) := by
      simp [List.intercalate]
    rw [hcons, pieces_append_cons p h2 hx, ih, if_neg h1, List.singleton_append]

/-- **The fields of a cut list**: the first `k` fields, and a prefix of the
next one. -/
theorem splitOn_take [BEq α] (x : α) : ∀ (s : List α) (n : ℕ), ∃ (k : ℕ) (p t : List α),
    (s.take n).splitOn x = (s.splitOn x).take k ++ [p] ∧ (s.splitOn x)[k]? = some t ∧ p <+: t
  | [], n => ⟨0, [], [], by simp, by simp, List.prefix_rfl⟩
  | c :: s, 0 => by
    obtain ⟨t, ts, h⟩ := List.exists_cons_of_ne_nil (List.splitOn_ne_nil x (c :: s))
    exact ⟨0, [], t, by simp, by rw [h]; rfl, List.nil_prefix⟩
  | c :: s, n + 1 => by
    obtain ⟨k, p, t, h1, h2, h3⟩ := splitOn_take x s n
    rw [List.take_succ_cons, List.splitOn_cons_eq_if_modifyHead, List.splitOn_cons_eq_if_modifyHead, h1]
    by_cases hc : c == x
    · exact ⟨k + 1, p, t, by simp [hc], by simpa [hc] using h2, h3⟩
    · obtain ⟨a, as, ha⟩ := List.exists_cons_of_ne_nil (List.splitOn_ne_nil x s)
      rw [ha] at h2 ⊢
      cases k with
      | zero =>
        obtain rfl : a = t := by simpa using h2
        exact ⟨0, c :: p, c :: a, by simp [hc], by simp [hc], List.cons_prefix_cons.mpr ⟨rfl, h3⟩⟩
      | succ k => exact ⟨k + 1, p, t, by simp [hc], by simpa [hc] using h2, h3⟩

/-- **A cut that leaves as many fields** shortens the last one, if any. -/
theorem splitOn_take_last [BEq α] {x : α} {s : List α} {n : ℕ}
    (h : ((s.take n).splitOn x).length = (s.splitOn x).length) : ∃ (init : List (List α)) (p t : List α),
      (s.take n).splitOn x = init ++ [p] ∧ s.splitOn x = init ++ [t] ∧ p <+: t := by
  obtain ⟨k, p, t, hcut, ht, hp⟩ := splitOn_take x s n
  obtain ⟨hk, hget⟩ := List.getElem?_eq_some_iff.mp ht
  have hlast : k + 1 = (s.splitOn x).length := by
    rw [← h, hcut, List.length_append, List.length_take, List.length_singleton]
    omega
  refine ⟨(s.splitOn x).take k, p, t, hcut, ?_, hp⟩
  conv_lhs => rw [← List.take_append_drop k (s.splitOn x), List.drop_eq_getElem_cons hk, hget]
  rw [List.drop_eq_nil_of_le (by omega)]

/-- A cut that leaves all fields as they are leaves the list as it is. -/
theorem take_eq_self_of_splitOn [BEq α] [LawfulBEq α] {x : α} {s : List α} {n : ℕ}
    (h : (s.take n).splitOn x = s.splitOn x) : s.take n = s := by
  calc s.take n = [x].intercalate ((s.take n).splitOn x) := (List.intercalate_splitOn x).symm
    _ = [x].intercalate (s.splitOn x) := by rw [h]
    _ = s := List.intercalate_splitOn x

end Split
end Lib
