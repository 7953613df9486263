/-
# Percent-encoding

Bytes of a reserved set are written `%XX`, all others as they are; `%` itself
is reserved, so decoding undoes encoding (`unescape_escape`). A text that has
to fit `n` bytes in its encoded form is cut between two of its own bytes,
never inside an escape: `fit` keeps the longest prefix that fits (`fit_isFit`).

Key definitions: `Reserved`, `Reserved.escape`, `Reserved.fit`, `unescape`,
`unescapeMarked`.
Key theorems: `unescape_escape`, `Reserved.fit_isFit`, `Reserved.IsFit.eq_fit`.
-/
import Mathlib.Data.List.Basic
import Mathlib.Data.List.Infix

namespace Lib
namespace Percent

/-- The byte `%`. -/
def pct : UInt8 := 37

/-- The upper-case hexadecimal digit of `n`. -/
def hexDigit (n : ℕ) : UInt8 := if n < 10 then UInt8.ofNat (48 + n) else UInt8.ofNat (55 + n)

/-- The value of a hexadecimal digit of either case. -/
def hexVal (c : UInt8) : Option ℕ :=
  if 48 ≤ c ∧ c ≤ 57 then some (c.toNat - 48)
  else if 97 ≤ c ∧ c ≤ 102 then some (c.toNat - 97 + 10)
  else if 65 ≤ c ∧ c ≤ 70 then some (c.toNat - 65 + 10)
  else none

theorem hexVal_hexDigit : ∀ n < 16, hexVal (hexDigit n) = some n := by decide

theorem hexVal_lt {c : UInt8} {n : ℕ} (h : hexVal c = some n) : n < 16 := by
  unfold hexVal at h
  simp only [UInt8.le_iff_toNat_le] at h
  split_ifs at h with h1 h2 h3
  · obtain rfl := Option.some_inj.mp h
    simp at h1
    omega
  · obtain rfl := Option.some_inj.mp h
    simp at h2
    omega
  · obtain rfl := Option.some_inj.mp h
    simp at h3
    omega

/-- The byte that `%`, `h`, `l` stand for. -/
def hexByte (h l : UInt8) : Option UInt8 :=
  match hexVal h, hexVal l with
  | some hi, some lo => some (UInt8.ofNat (hi * 16 + lo))
  | _, _ => none

/-- Decoding, left to right: each `%` before two hexadecimal digits is
replaced with them, every other byte is copied. -/
def unescape : List UInt8 → List UInt8
  | c :: h :: l :: rest =>
    match if c = pct then hexByte h l else none with
    | some b => b :: unescape rest
    | none => c :: unescape (h :: l :: rest)
  | c :: rest => c :: unescape rest
  | [] => []

@[simp] theorem unescape_nil : unescape [] = [] := rfl

theorem unescape_cons_of_ne {c : UInt8} (hc : c ≠ pct) : ∀ rest : List UInt8,
    unescape (c :: rest) = c :: unescape rest
  | [] => rfl
  | [_] => rfl
  | h :: l :: rest => by simp [unescape, hc]

theorem unescape_ne_nil {s : List UInt8} (h : s ≠ []) : unescape s ≠ [] := by
  unfold unescape
  split
  · split <;> simp
  · simp
  · exact absurd rfl h

theorem unescape_pct {h l b : UInt8} (hb : hexByte h l = some b) (rest : List UInt8) :
    unescape (pct :: h :: l :: rest) = b :: unescape rest := by
  simp [unescape, hb]

/-- The decoding with a mark on each byte that an escape gave. -/
def unescapeMarked : List UInt8 → List (UInt8 × Bool)
  | c :: h :: l :: rest =>
    match if c = pct then hexByte h l else none with
    | some b => (b, true) :: unescapeMarked rest
    | none => (c, false) :: unescapeMarked (h :: l :: rest)
  | c :: rest => (c, false) :: unescapeMarked rest
  | [] => []

theorem map_fst_unescapeMarked (s : List UInt8) : (unescapeMarked s).map Prod.fst = unescape s := by
  induction s using unescapeMarked.induct with
  | case1 c h l rest b hb ih => simp [unescapeMarked, unescape, hb, ih]
  | case2 c h l rest hb ih => simp [unescapeMarked, unescape, hb, ih]
  | case3 c rest hshort ih =>
    rw [unescapeMarked.eq_2 _ _ hshort, unescape.eq_2 _ _ hshort, List.map_cons, ih]
  | case4 => rfl

/-- A byte without a mark is a byte of the text. -/
theorem mem_of_mem_unescapeMarked {s : List UInt8} {x : UInt8} (h : (x, false) ∈ unescapeMarked s) :
    x ∈ s := by
  induction s using unescapeMarked.induct with
  | case1 c h l rest b hb ih =>
    rw [unescapeMarked, hb] at h
    have hrest := ih (by simpa using h)
    simp [hrest]
  | case2 c h l rest hb ih =>
    rw [unescapeMarked, hb] at h
    rcases List.mem_cons.mp h with heq | hmem
    · simp [(Prod.mk.inj heq).1]
    · exact List.mem_cons_of_mem _ (ih hmem)
  | case3 c rest hshort ih =>
    rw [unescapeMarked.eq_2 _ _ hshort] at h
    rcases List.mem_cons.mp h with heq | hmem
    · simp [(Prod.mk.inj heq).1]
    · exact List.mem_cons_of_mem _ (ih hmem)
  | case4 => cases h

theorem hexByte_hexDigit (c : UInt8) :
    hexByte (hexDigit (c.toNat / 16)) (hexDigit (c.toNat % 16)) = some c := by
  have h := c.toNat_lt
  have hhi := hexVal_hexDigit (c.toNat / 16) (by omega)
  have hlo := hexVal_hexDigit (c.toNat % 16) (Nat.mod_lt _ (by omega))
  have hc : c.toNat / 16 * 16 + c.toNat % 16 = c.toNat := by omega
  simp only [hexByte, hhi, hlo, hc, UInt8.ofNat_toNat]

/-- A set of reserved bytes, `%` among them. -/
structure Reserved where
  mem : UInt8 → Bool
  pct_mem : mem pct = true

namespace Reserved

variable (R : Reserved)

/-- The encoding of one byte. -/
def escapeByte (c : UInt8) : List UInt8 :=
  if R.mem c then [pct, hexDigit (c.toNat / 16), hexDigit (c.toNat % 16)] else [c]

/-- The encoding of a text. -/
def escape (s : List UInt8) : List UInt8 := s.flatMap R.escapeByte

@[simp] theorem escape_nil : R.escape [] = [] := rfl

@[simp] theorem escape_cons (c : UInt8) (s : List UInt8) :
    R.escape (c :: s) = R.escapeByte c ++ R.escape s := rfl

theorem length_escapeByte (c : UInt8) :
    (R.escapeByte c).length = if R.mem c then 3 else 1 := by
  unfold escapeByte; split <;> rfl

theorem length_le_length_escape : ∀ s : List UInt8, s.length ≤ (R.escape s).length
  | [] => by simp
  | c :: s => by
    have ih := length_le_length_escape s
    have hc := R.length_escapeByte c
    simp only [escape_cons, List.length_append, List.length_cons]
    split at hc <;> omega

theorem escape_ne_nil {s : List UInt8} (h : s ≠ []) : R.escape s ≠ [] := by
  have h1 := R.length_le_length_escape s
  have h2 := List.length_pos_iff.mpr h
  exact List.length_pos_iff.mp (by omega)

theorem unescape_escapeByte (c : UInt8) (rest : List UInt8) :
    unescape (R.escapeByte c ++ rest) = c :: unescape rest := by
  unfold escapeByte
  split
  · exact unescape_pct (hexByte_hexDigit c) rest
  · rename_i hc
    have hne : c ≠ pct := fun he => hc (he ▸ R.pct_mem)
    exact unescape_cons_of_ne hne rest

/-- **Decoding undoes encoding.** -/
theorem unescape_escape : ∀ s : List UInt8, unescape (R.escape s) = s
  | [] => rfl
  | c :: s => by rw [escape_cons, unescape_escapeByte, unescape_escape s]

theorem hexDigit_bounds : ∀ n < 16,
    (48 ≤ hexDigit n ∧ hexDigit n ≤ 57) ∨ (65 ≤ hexDigit n ∧ hexDigit n ≤ 70) := by decide

/-- The bytes of an encoding: `%`, hexadecimal digits and unreserved bytes of
the text. -/
theorem mem_escape {x : UInt8} : ∀ {s : List UInt8}, x ∈ R.escape s →
    x = pct ∨ (48 ≤ x ∧ x ≤ 57) ∨ (65 ≤ x ∧ x ≤ 70) ∨ (x ∈ s ∧ R.mem x = false)
  | [], h => by simp at h
  | c :: s, h => by
    rw [escape_cons, List.mem_append] at h
    rcases h with h | h
    · unfold escapeByte at h
      split at h
      · have hc := c.toNat_lt
        have h1 := hexDigit_bounds (c.toNat / 16) (by omega)
        have h2 := hexDigit_bounds (c.toNat % 16) (Nat.mod_lt _ (by omega))
        simp only [List.mem_cons, List.not_mem_nil, or_false] at h
        rcases h with rfl | rfl | rfl
        · exact Or.inl rfl
        · exact Or.inr (h1.imp_right Or.inl)
        · exact Or.inr (h2.imp_right Or.inl)
      · rename_i hc
        rw [List.mem_singleton] at h
        subst h
        simp [hc]
    · rcases mem_escape h with h | h | h | h
      · exact Or.inl h
      · exact Or.inr (Or.inl h)
      · exact Or.inr (Or.inr (Or.inl h))
      · exact Or.inr (Or.inr (Or.inr ⟨List.mem_cons_of_mem _ h.1, h.2⟩))

/-- A reserved byte other than `%`, digits and `A` to `F` never shows up in an
encoding. -/
theorem not_mem_escape {x : UInt8} (hR : R.mem x = true) (hp : x ≠ pct)
    (h1 : ¬ (48 ≤ x ∧ x ≤ 57)) (h2 : ¬ (65 ≤ x ∧ x ≤ 70)) (s : List UInt8) : x ∉ R.escape s := by
  intro h
  rcases R.mem_escape h with h | h | h | h
  · exact hp h
  · exact h1 h
  · exact h2 h
  · rw [hR] at h; cases h.2

/-- The bytes of `s`, as long as their encodings fit `n` bytes. -/
def fit : ℕ → List UInt8 → List UInt8
  | _, [] => []
  | n, c :: s =>
    if (R.escapeByte c).length ≤ n then c :: fit (n - (R.escapeByte c).length) s else []

/-- `p` is the longest prefix of `s` whose encoding has at most `n` bytes. -/
def IsFit (n : ℕ) (s p : List UInt8) : Prop :=
  p <+: s ∧ (R.escape p).length ≤ n ∧ ∀ q, q <+: s → (R.escape q).length ≤ n → q <+: p

theorem fit_isFit : ∀ (n : ℕ) (s : List UInt8), R.IsFit n s (R.fit n s)
  | n, [] => ⟨List.prefix_rfl, by simp [fit], fun q h _ => h⟩
  | n, c :: s => by
    unfold fit
    split
    · rename_i hc
      obtain ⟨h1, h2, h3⟩ := fit_isFit (n - (R.escapeByte c).length) s
      refine ⟨List.cons_prefix_cons.mpr ⟨rfl, h1⟩, ?_, fun q hq hl => ?_⟩
      · rw [escape_cons, List.length_append]; omega
      · cases q with
        | nil => exact List.nil_prefix
        | cons d q =>
          obtain ⟨rfl, hq'⟩ := List.cons_prefix_cons.mp hq
          rw [escape_cons, List.length_append] at hl
          exact List.cons_prefix_cons.mpr ⟨rfl, h3 q hq' (by omega)⟩
    · rename_i hc
      refine ⟨List.nil_prefix, by simp, fun q hq hl => ?_⟩
      cases q with
      | nil => exact List.nil_prefix
      | cons d q =>
        obtain ⟨rfl, -⟩ := List.cons_prefix_cons.mp hq
        rw [escape_cons, List.length_append] at hl
        omega

theorem IsFit.eq_fit {n : ℕ} {s p : List UInt8} (h : R.IsFit n s p) : p = R.fit n s := by
  have hf := R.fit_isFit n s
  have h1 := hf.2.2 p h.1 h.2.1
  have h2 := h.2.2 _ hf.1 hf.2.1
  exact h1.eq_of_length (Nat.le_antisymm h1.length_le h2.length_le)

theorem fit_eq_self {n : ℕ} {s : List UInt8} (h : (R.escape s).length ≤ n) : R.fit n s = s :=
  (IsFit.eq_fit R ⟨List.prefix_rfl, h, fun _ hq _ => hq⟩).symm

theorem fit_ne_nil {n : ℕ} (hn : 3 ≤ n) {s : List UInt8} (h : s ≠ []) : R.fit n s ≠ [] := by
  obtain ⟨c, s, rfl⟩ := List.exists_cons_of_ne_nil h
  have hc := R.length_escapeByte c
  have hle : (R.escapeByte c).length ≤ n := by split at hc <;> omega
  simp [fit, hle]

end Reserved
end Percent
end Lib
