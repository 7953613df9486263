/-
# A sliding window over a list

A log that keeps its last `cap` entries: `push` appends and drops the oldest
entry once the window is full. Pushing one entry after the other leaves the
last `cap` entries of everything pushed (`foldl_push`).

Key definitions: `Window.push`.
Key theorems: `Window.foldl_push`, `Window.foldl_push_nil`, `Window.getElem_rtake`.
-/
import Mathlib.Data.List.DropRight

namespace Lib
namespace Window

variable {α β : Type*}

/-- Append `x` and keep the last `cap` entries. -/
def push (cap : ℕ) (l : List α) (x : α) : List α := (l ++ [x]).rtake cap

@[simp] theorem length_rtake (l : List α) (n : ℕ) : (l.rtake n).length = min n l.length := by
  simp only [List.rtake, List.length_drop]
  omega

theorem rtake_eq_self {l : List α} {n : ℕ} (h : l.length ≤ n) : l.rtake n = l := by
  simp [List.rtake, Nat.sub_eq_zero_of_le h]

theorem getElem_rtake (l : List α) (n i : ℕ) (h : i < (l.rtake n).length) :
    (l.rtake n)[i] = l.get ⟨l.length - (l.rtake n).length + i, by rw [length_rtake] at *; omega⟩ := by
  simp only [List.rtake, List.getElem_drop, List.length_drop, List.get_eq_getElem]
  congr 1
  omega

theorem map_rtake (f : α → β) (l : List α) (n : ℕ) : (l.rtake n).map f = (l.map f).rtake n := by
  simp [List.rtake, List.map_drop]

theorem getLast?_push {cap : ℕ} (hcap : 0 < cap) (l : List α) (x : α) :
    (push cap l x).getLast? = some x := by
  rw [push, List.rtake, List.getLast?_drop, if_neg (by simp; omega), List.getLast?_concat]

/-- Dropping the oldest entries early or late is the same. -/
theorem push_rtake (cap : ℕ) (l : List α) (x : α) : push cap (l.rtake cap) x = push cap l x := by
  simp only [push, List.rtake, List.length_append, List.length_drop, List.length_singleton]
  rcases Nat.lt_or_ge l.length cap with h | h
  · rw [Nat.sub_eq_zero_of_le h.le, List.drop_zero, Nat.sub_zero]
  · rcases Nat.eq_zero_or_pos cap with rfl | hc
    · simp
    · rw [List.drop_append_of_le_length (by simp; omega), List.drop_drop,
        List.drop_append_of_le_length (by omega)]
      congr 2
      omega

/-- **The window after any number of pushes** is the last `cap` entries. -/
theorem foldl_push (cap : ℕ) : ∀ (xs l : List α),
    xs.foldl (push cap) (l.rtake cap) = (l ++ xs).rtake cap
  | [], l => by simp
  | x :: xs, l => by
    rw [List.foldl_cons, push_rtake, push, foldl_push cap xs (l ++ [x])]
    simp

theorem foldl_push_nil (cap : ℕ) (xs : List α) : xs.foldl (push cap) [] = xs.rtake cap := by
  simpa using foldl_push cap xs []

theorem mem_of_mem_rtake {l : List α} {n : ℕ} {x : α} (h : x ∈ l.rtake n) : x ∈ l :=
  List.mem_of_mem_drop h

end Window
end Lib
