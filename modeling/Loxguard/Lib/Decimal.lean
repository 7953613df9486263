/-
# Decimal numerals as bytes

`decimal n` is what `printf` writes for a number, without leading zeros, and
`value` reads a string of digits back. A string of digits and a longer one
that starts with it have the same value only when all digits are zeros
(`value_append_eq_iff`, `value_eq_zero_iff`).

Key definitions: `isDigit`, `value`, `decimal`.
Key theorems: `value_decimal`, `length_decimal_le`, `value_append_eq_iff`.
-/
import Mathlib.Data.Nat.Digits.Lemmas

namespace Lib
namespace Decimal

/-- An ASCII digit. -/
def isDigit (c : UInt8) : Bool := 48 ≤ c && c ≤ 57

/-- The number a string of digits stands for. -/
def value (s : List UInt8) : ℕ := s.foldl (fun v c => v * 10 + (c.toNat - 48)) 0

/-- The digit character of `d < 10`. -/
def digitChar (d : ℕ) : UInt8 := UInt8.ofNat (48 + d)

/-- The decimal numeral of `n`. -/
def decimal (n : ℕ) : List UInt8 :=
  if n = 0 then [48] else ((Nat.digits 10 n).map digitChar).reverse

theorem isDigit_digitChar : ∀ d < 10, isDigit (digitChar d) = true := by decide

theorem digitChar_toNat : ∀ d < 10, (digitChar d).toNat - 48 = d := by decide

theorem isDigit_bounds {c : UInt8} (h : isDigit c = true) : 48 ≤ c.toNat ∧ c.toNat ≤ 57 := by
  simpa [isDigit, UInt8.le_iff_toNat_le] using h

theorem foldl_value (s : List UInt8) : ∀ v : ℕ,
    s.foldl (fun v c => v * 10 + (c.toNat - 48)) v = v * 10 ^ s.length + value s := by
  induction s with
  | nil => simp [value]
  | cons c s ih =>
    intro v
    rw [value, List.foldl_cons, List.foldl_cons, ih, ih (0 * 10 + _), List.length_cons, Nat.pow_succ]
    ring

theorem value_append (s t : List UInt8) : value (s ++ t) = value s * 10 ^ t.length + value t := by
  rw [value, List.foldl_append, foldl_value]
  rfl

theorem value_cons (c : UInt8) (s : List UInt8) :
    value (c :: s) = (c.toNat - 48) * 10 ^ s.length + value s := by
  simpa [value] using foldl_value s (0 * 10 + (c.toNat - 48))

theorem value_reverse_map : ∀ ds : List ℕ, (∀ d ∈ ds, d < 10) →
    value (ds.map digitChar).reverse = Nat.ofDigits 10 ds
  | [], _ => rfl
  | d :: ds, h => by
    have ih := value_reverse_map ds fun x hx => h x (List.mem_cons_of_mem _ hx)
    have hd := digitChar_toNat d (h d List.mem_cons_self)
    rw [List.map_cons, List.reverse_cons, value_append, ih, Nat.ofDigits_cons, value_cons, hd]
    simp [value]
    ring

theorem value_decimal (n : ℕ) : value (decimal n) = n := by
  unfold decimal
  split
  · rename_i h; subst h; rfl
  · rw [value_reverse_map _ fun d hd => Nat.digits_lt_base (by norm_num) hd, Nat.ofDigits_digits]

theorem isDigit_of_mem_decimal {n : ℕ} {c : UInt8} (h : c ∈ decimal n) : isDigit c = true := by
  unfold decimal at h
  split at h
  · rw [List.mem_singleton] at h; subst h; decide
  · rw [List.mem_reverse] at h
    obtain ⟨d, hd, rfl⟩ := List.mem_map.mp h
    exact isDigit_digitChar d (Nat.digits_lt_base (by norm_num) hd)

theorem decimal_ne_nil (n : ℕ) : decimal n ≠ [] := by
  unfold decimal
  split
  · simp
  · rename_i h; simpa using Nat.digits_ne_nil_iff_ne_zero.mpr h

/-- A number below `10 ^ k` has at most `k` digits. -/
theorem length_decimal_le {n k : ℕ} (hk : 0 < k) (h : n < 10 ^ k) : (decimal n).length ≤ k := by
  unfold decimal
  split
  · exact hk
  · simpa using (Nat.digits_length_le_iff (by norm_num) n).mpr h

/-- **More digits, the same value**: only if all of them are zeros. -/
theorem value_append_eq_iff (s : List UInt8) {t : List UInt8} (ht : t ≠ []) :
    value s = value (s ++ t) ↔ value (s ++ t) = 0 := by
  have hlen := List.length_pos_iff.mpr ht
  have hpow : 10 ≤ 10 ^ t.length := Nat.le_self_pow (by omega) 10
  have hmul : value s * 10 ≤ value s * 10 ^ t.length := Nat.mul_le_mul_left _ hpow
  rw [value_append]
  omega

/-- A string of digits stands for zero if all of them are zeros. -/
theorem value_eq_zero_iff {s : List UInt8} (h : ∀ c ∈ s, isDigit c = true) :
    value s = 0 ↔ ∀ c ∈ s, c = 48 := by
  induction s with
  | nil => simp [value]
  | cons c s ih =>
    have hc := isDigit_bounds (h c List.mem_cons_self)
    have hs := ih fun d hd => h d (List.mem_cons_of_mem _ hd)
    have hdigit : c.toNat - 48 = 0 ↔ c = 48 := by
      rw [← UInt8.toNat_inj, show (48 : UInt8).toNat = 48 from rfl]
      omega
    have hpow : 10 ^ s.length ≠ 0 := by positivity
    rw [value_cons, Nat.add_eq_zero_iff, Nat.mul_eq_zero, or_iff_left hpow, hdigit, hs,
      List.forall_mem_cons]

end Decimal
end Lib
