/-
# Well bracketed lists

A list whose elements may open or close a bracket of some kind is balanced when
it is made of plain elements and of brackets of one kind around balanced
lists.

Key definitions: `Bracket.Balanced`.
Key theorems: `Balanced.append`, `Balanced.wrap`.
-/
import Mathlib.Data.List.Basic

namespace Lib
namespace Bracket

variable {α κ : Type*}

/-- Well bracketed: `opens` and `closes` give the kind of the bracket an
element opens or closes. -/
inductive Balanced (opens closes : α → Option κ) : List α → Prop
  | nil : Balanced opens closes []
  | plain {x : α} {xs : List α} (ho : opens x = none) (hc : closes x = none)
      (h : Balanced opens closes xs) : Balanced opens closes (x :: xs)
  | bracket {o c : α} {k : κ} {xs ys : List α} (ho : opens o = some k) (hc : closes c = some k)
      (h : Balanced opens closes xs) (h' : Balanced opens closes ys) :
      Balanced opens closes (o :: (xs ++ c :: ys))

namespace Balanced

variable {opens closes : α → Option κ} {xs ys : List α}

theorem append (h : Balanced opens closes xs) (h' : Balanced opens closes ys) :
    Balanced opens closes (xs ++ ys) := by
  induction h with
  | nil => exact h'
  | plain ho hc _ ih => exact .plain ho hc ih
  | bracket ho hc h _ _ ih =>
    rw [List.cons_append, List.append_assoc, List.cons_append]
    exact .bracket ho hc h ih

theorem wrap {o c : α} {k : κ} (ho : opens o = some k) (hc : closes c = some k)
    (h : Balanced opens closes xs) : Balanced opens closes (o :: (xs ++ [c])) :=
  .bracket ho hc h .nil

end Balanced
end Bracket
end Lib
