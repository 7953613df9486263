/-
# Rounding up to a power of two

`roundUp x a` is the multiple of `a` from `x` on that is less than `a` away
(`le_roundUp`, `dvd_roundUp`, `roundUp_le_add`). On machine words it is
computed by adding `a - 1` and clearing the low bits; that is exact as long as
the multiple fits in a word, and zero when it does not (`toNat_roundUpWord`).

Key definitions: `roundUp`, `roundUpWord`.
Key theorems: `roundUp_le_add`, `isPowerOfTwo_iff`, `toNat_roundUpWord`.
-/
import Mathlib.Data.Nat.Basic
import Mathlib.Data.BitVec

namespace Lib

namespace Align

/-- The least multiple of `a` from `x` on, for `0 < a`. -/
def roundUp (x a : ℕ) : ℕ := (x + a - 1) / a * a

theorem le_roundUp {a : ℕ} (ha : 0 < a) (x : ℕ) : x ≤ roundUp x a := by
  have hdiv := Nat.div_add_mod (x + a - 1) a
  have hmod := Nat.mod_lt (x + a - 1) ha
  rw [Nat.mul_comm] at hdiv
  unfold roundUp
  omega

theorem dvd_roundUp (x a : ℕ) : a ∣ roundUp x a := Dvd.intro_left _ rfl

theorem roundUp_le_add (x a : ℕ) : roundUp x a ≤ x + a - 1 := Nat.div_mul_le_self _ _

/-! ### Words -/

variable {w : ℕ}

theorem toNat_sub_one {a : BitVec w} (h : 0 < a.toNat) : (a - 1).toNat = a.toNat - 1 := by
  have ha := a.isLt
  have hone : (1 : BitVec w).toNat = 1 :=
    (BitVec.toNat_ofNat 1 w).trans (Nat.mod_eq_of_lt (show 1 < 2 ^ w by omega))
  rw [BitVec.toNat_sub_of_le (by rw [BitVec.le_def, hone]; exact h), hone]

/-- The test for a power of two: one bit is set and no other. -/
theorem isPowerOfTwo_iff (a : BitVec w) : a.toNat.isPowerOfTwo ↔ a ≠ 0 ∧ a &&& (a - 1) = 0 := by
  rw [← Nat.ne_zero_and_sub_one_eq_zero_iff_isPowerOfTwo]
  have hzero : ∀ b : BitVec w, b.toNat = 0 ↔ b = 0 := fun b => by
    rw [← BitVec.toNat_inj, BitVec.ofNat_eq_ofNat, BitVec.toNat_ofNat, Nat.zero_mod]
  rw [ne_eq, hzero]
  apply and_congr_right
  intro ha
  have hpos : 0 < a.toNat := Nat.pos_of_ne_zero fun h => ha ((hzero a).mp h)
  rw [← hzero, BitVec.toNat_and, toNat_sub_one hpos]

/-- Clearing the low bits of a word. -/
theorem toNat_and_not {a : BitVec w} {k : ℕ} (ha : a.toNat = 2 ^ k) (x : BitVec w) :
    (x &&& ~~~(a - 1)).toNat = x.toNat / 2 ^ k * 2 ^ k := by
  have hmask : (a - 1).toNat = 2 ^ k - 1 := by
    rw [toNat_sub_one (by rw [ha]; exact Nat.two_pow_pos k), ha]
  apply Nat.eq_of_testBit_eq
  intro i
  rw [Nat.testBit_mul_two_pow, Nat.testBit_div_two_pow, BitVec.testBit_toNat, BitVec.getLsbD_and,
    BitVec.getLsbD_not, ← BitVec.testBit_toNat (a - 1), hmask, Nat.testBit_two_pow_sub_one]
  by_cases hik : k ≤ i
  · have hlow : decide (i < k) = false := by simpa using hik
    rw [hlow, Nat.sub_add_cancel hik, BitVec.testBit_toNat]
    by_cases hiw : i < w
    · simp [hik, hiw]
    · simp [BitVec.getLsbD_of_ge x i (by omega)]
  · have hlow : decide (i < k) = true := by simpa using hik
    simp [hlow, hik]

/-- Rounding up on words: add `a - 1`, clear the bits below `a`. -/
def roundUpWord (x a : BitVec w) : BitVec w := (x + (a - 1)) &&& ~~~(a - 1)

/-- **Rounding up on words** is exact, or zero when the multiple does not fit. -/
theorem toNat_roundUpWord {a : BitVec w} (ha : a.toNat.isPowerOfTwo) (x : BitVec w) :
    (roundUpWord x a).toNat =
      if roundUp x.toNat a.toNat < 2 ^ w then roundUp x.toNat a.toNat else 0 := by
  have hpos := Nat.pos_of_isPowerOfTwo ha
  obtain ⟨k, hk⟩ := ha
  have hx := x.isLt
  have halt := a.isLt
  have hdvd : a.toNat ∣ 2 ^ w := by
    rw [hk] at halt ⊢
    exact Nat.pow_dvd_pow 2 ((Nat.pow_lt_pow_iff_right (by omega)).mp halt).le
  have hsum : (x + (a - 1)).toNat = (x.toNat + a.toNat - 1) % 2 ^ w := by
    rw [BitVec.toNat_add, toNat_sub_one hpos, Nat.add_sub_assoc hpos]
  unfold roundUpWord
  rw [toNat_and_not hk, hsum, ← hk]
  rcases Nat.lt_or_ge (x.toNat + a.toNat - 1) (2 ^ w) with hfit | hwrap
  · have hle := roundUp_le_add x.toNat a.toNat
    rw [Nat.mod_eq_of_lt hfit, if_pos (by omega)]
    rfl
  · -- the sum wraps to less than `a`, and a multiple of `a` is left behind at `2 ^ w`
    have hmod : (x.toNat + a.toNat - 1) % 2 ^ w = x.toNat + a.toNat - 1 - 2 ^ w := by
      rw [Nat.mod_eq_sub_mod hwrap, Nat.mod_eq_of_lt (by omega)]
    have hbig : 2 ^ w ≤ roundUp x.toNat a.toNat := by
      calc 2 ^ w = 2 ^ w / a.toNat * a.toNat := (Nat.div_mul_cancel hdvd).symm
        _ ≤ (x.toNat + a.toNat - 1) / a.toNat * a.toNat :=
            Nat.mul_le_mul_right _ (Nat.div_le_div_right hwrap)
        _ = roundUp x.toNat a.toNat := rfl
    rw [hmod, Nat.div_eq_of_lt (by omega), Nat.zero_mul, if_neg (by omega)]

end Align

end Lib
