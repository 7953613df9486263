/-
# The numbers of a line

C99's `strtol` and `strtoumax` in base 10, as the strict parsers call them:
leading white space is skipped, a sign is optional, an out-of-range value is
clamped and sets `ERANGE`, and an unsigned result is negated modulo 2^64. The
strict parsers look at the first character only, then at what is left over.

On digits alone they agree with `value` up to their bounds
(`parseUintmaxStrict_digits`, `parseIntStrict_digits`), so they read back
every numeral `printf` writes (`parseSizeStrict_decimal`,
`parseU32Strict_decimal`, `parseIntStrict_decimal`).

Key definitions: `strtol`, `strtoumax`, `parseUintmaxStrict`,
`parseSizeStrict`, `parseU32Strict`, `parseIntStrict`.
-/
import Loxguard.Lib.Decimal
import Loxguard.Types

namespace Loxguard

open Lib Lib.Decimal

variable {P : Platform}

/-! ### The C library -/

/-- `isspace`. -/
def isSpace (c : UInt8) : Bool := c == 32 || (9 ≤ c && c ≤ 13)

/-- The subject sequence of a base 10 conversion: whether it is negated, its
digits, and what follows them. `none` when there are no digits. -/
def subject (s : List UInt8) : Option (Bool × List UInt8 × List UInt8) :=
  let t := s.dropWhile isSpace
  let (neg, t) : Bool × List UInt8 := match t with
    | 45 :: u => (true, u)
    | 43 :: u => (false, u)
    | u => (false, u)
  if t.takeWhile isDigit = [] then none
  else some (neg, t.takeWhile isDigit, t.dropWhile isDigit)

/-- What a conversion returns: the value, the rest of the string, and whether
`errno` is `ERANGE`. -/
structure Converted (α : Type) where
  value : α
  rest : List UInt8
  erange : Bool
deriving DecidableEq

/-- `strtoumax`. -/
def strtoumax (s : List UInt8) : Converted ℕ :=
  match subject s with
  | none => ⟨0, s, false⟩
  | some (neg, digits, rest) =>
    if uintmaxMax < Decimal.value digits then ⟨uintmaxMax, rest, true⟩
    else if neg then ⟨(2 ^ 64 - Decimal.value digits) % 2 ^ 64, rest, false⟩
    else ⟨Decimal.value digits, rest, false⟩

/-- `strtol`, for a `long` of `longBits` bits. -/
def strtol (longBits : ℕ) (s : List UInt8) : Converted ℤ :=
  match subject s with
  | none => ⟨0, s, false⟩
  | some (neg, digits, rest) =>
    let v : ℤ := if neg then -(Decimal.value digits : ℤ) else Decimal.value digits
    if v < -2 ^ (longBits - 1) then ⟨-2 ^ (longBits - 1), rest, true⟩
    else if 2 ^ (longBits - 1) - 1 < v then ⟨2 ^ (longBits - 1) - 1, rest, true⟩
    else ⟨v, rest, false⟩

/-! ### The strict parsers -/

/-- The first character is missing, `+` or `-`. -/
def badStart : List UInt8 → Bool
  | [] => true
  | c :: _ => c == 43 || c == 45

/-- `lox_parse_uintmax_strict`. -/
def parseUintmaxStrict (value : List UInt8) : Option ℕ :=
  if badStart value then none
  else
    let parsed := strtoumax value
    if parsed.erange || parsed.rest ≠ [] then none else some parsed.value

/-- `lox_parse_size_strict`. -/
def parseSizeStrict (P : Platform) (value : List UInt8) : Option P.Size :=
  (parseUintmaxStrict value).bind fun parsed =>
    if P.sizeMax < parsed then none else some (BitVec.ofNat _ parsed)

/-- `lox_parse_u32_strict`. -/
def parseU32Strict (value : List UInt8) : Option (BitVec 32) :=
  (parseUintmaxStrict value).bind fun parsed =>
    if uint32Max < parsed then none else some (BitVec.ofNat _ parsed)

/-- `lox_parse_int_strict`. -/
def parseIntStrict (P : Platform) (value : List UInt8) : Option ℤ :=
  if badStart value then none
  else
    let parsed := strtol P.longBits value
    if parsed.erange || parsed.rest ≠ [] then none
    else if parsed.value < -2 ^ 31 ∨ (intMax : ℤ) < parsed.value then none
    else some parsed.value

/-! ### Digits alone -/

/-- A non-empty string of digits. -/
def IsNumeral (s : List UInt8) : Prop := s ≠ [] ∧ ∀ c ∈ s, isDigit c = true

theorem isNumeral_decimal (n : ℕ) : IsNumeral (decimal n) :=
  ⟨decimal_ne_nil n, fun _ h => isDigit_of_mem_decimal h⟩

theorem isSpace_of_isDigit {c : UInt8} (h : isDigit c = true) : isSpace c = false := by
  have := isDigit_bounds h
  simp only [isSpace, Bool.or_eq_false_iff, Bool.and_eq_false_iff, beq_eq_false_iff_ne, ne_eq,
    decide_eq_false_iff_not, UInt8.le_iff_toNat_le]
  refine ⟨fun he => ?_, ?_⟩
  · subst he; simp at this
  · right; simp; omega

theorem badStart_numeral {s : List UInt8} (h : IsNumeral s) : badStart s = false := by
  obtain ⟨c, t, rfl⟩ := List.exists_cons_of_ne_nil h.1
  have hc := isDigit_bounds (h.2 c List.mem_cons_self)
  simp only [badStart, Bool.or_eq_false_iff, beq_eq_false_iff_ne]
  constructor <;>
  · rintro rfl
    simp at hc

theorem isSpace_bounds {c : UInt8} (h : isSpace c = true) : c ≠ 43 ∧ c ≠ 45 := by
  constructor <;>
  · rintro rfl
    exact absurd h (by decide)

/-- An optional sign, and whether it negates. -/
def Sign (sign : List UInt8) (neg : Bool) : Prop :=
  (sign = [] ∧ neg = false) ∨ (sign = [43] ∧ neg = false) ∨ (sign = [45] ∧ neg = true)

/-- White space, an optional sign and digits are a subject sequence. -/
theorem subject_spelled {ws sign digits : List UInt8} {neg : Bool} (hws : ∀ c ∈ ws, isSpace c = true)
    (hsign : Sign sign neg) (h : IsNumeral digits) :
    subject (ws ++ (sign ++ digits)) = some (neg, digits, []) := by
  obtain ⟨c, t, rfl⟩ := List.exists_cons_of_ne_nil h.1
  have hc := h.2 c List.mem_cons_self
  have hb := isDigit_bounds hc
  have htake : (c :: t).takeWhile isDigit = c :: t := by
    rw [List.takeWhile_eq_self_iff]; exact h.2
  have hrest : (c :: t).dropWhile isDigit = [] := by
    rw [List.dropWhile_eq_nil_iff]; exact h.2
  have h45 : c ≠ 45 := by rintro rfl; simp at hb
  have h43 : c ≠ 43 := by rintro rfl; simp at hb
  have hdrop : (ws ++ (sign ++ c :: t)).dropWhile isSpace = sign ++ c :: t := by
    rw [List.dropWhile_append_of_pos hws]
    rcases hsign with ⟨rfl, -⟩ | ⟨rfl, -⟩ | ⟨rfl, -⟩
    · exact List.dropWhile_cons_of_neg (by simp [isSpace_of_isDigit hc])
    · exact List.dropWhile_cons_of_neg (by decide)
    · exact List.dropWhile_cons_of_neg (by decide)
  unfold subject
  simp only [hdrop]
  rcases hsign with ⟨rfl, rfl⟩ | ⟨rfl, rfl⟩ | ⟨rfl, rfl⟩
  · split
    · rename_i hu; exact absurd (List.cons.inj hu).1 h45
    · rename_i hu; exact absurd (List.cons.inj hu).1 h43
    · rw [List.nil_append, htake, hrest, if_neg (by simp)]
  · simp [htake, hrest]
  · simp [htake, hrest]

theorem subject_numeral {s : List UInt8} (h : IsNumeral s) : subject s = some (false, s, []) := by
  have hws : ∀ c ∈ ([] : List UInt8), isSpace c = true := fun c hc => absurd hc List.not_mem_nil
  exact subject_spelled hws (Or.inl ⟨rfl, rfl⟩) h

theorem spelled_of_subject {s digits : List UInt8} {neg : Bool}
    (h : subject s = some (neg, digits, [])) :
    ∃ ws sign, (∀ c ∈ ws, isSpace c = true) ∧ Sign sign neg ∧ IsNumeral digits ∧
      s = ws ++ (sign ++ digits) := by
  have hws : ∀ c ∈ s.takeWhile isSpace, isSpace c = true := fun c hc => List.mem_takeWhile_imp hc
  -- `u` is what follows the sign, if there is one
  have key : ∀ u sign : List UInt8, Sign sign neg → s.dropWhile isSpace = sign ++ u →
      ¬ u.takeWhile isDigit = [] → u.takeWhile isDigit = digits → u.dropWhile isDigit = [] →
      ∃ ws sign, (∀ c ∈ ws, isSpace c = true) ∧ Sign sign neg ∧ IsNumeral digits ∧
        s = ws ++ (sign ++ digits) := by
    intro u sign hsign hdrop hne htake hrest
    have hu : u.takeWhile isDigit = u :=
      List.takeWhile_eq_self_iff.mpr (List.dropWhile_eq_nil_iff.mp hrest)
    rw [hu] at hne htake
    subst htake
    refine ⟨s.takeWhile isSpace, sign, hws, hsign, ⟨hne, List.dropWhile_eq_nil_iff.mp hrest⟩, ?_⟩
    rw [← hdrop, List.takeWhile_append_dropWhile]
  unfold subject at h
  simp only at h
  split at h
  · rename_i u hu
    simp only [Option.ite_none_left_eq_some, Option.some_inj, Prod.mk.injEq] at h
    obtain ⟨hne, rfl, htake, hrest⟩ := h
    exact key u [45] (Or.inr (Or.inr ⟨rfl, rfl⟩)) hu hne htake hrest
  · rename_i u hu
    simp only [Option.ite_none_left_eq_some, Option.some_inj, Prod.mk.injEq] at h
    obtain ⟨hne, rfl, htake, hrest⟩ := h
    exact key u [43] (Or.inr (Or.inl ⟨rfl, rfl⟩)) hu hne htake hrest
  · simp only [Option.ite_none_left_eq_some, Option.some_inj, Prod.mk.injEq] at h
    obtain ⟨hne, rfl, htake, hrest⟩ := h
    exact key _ [] (Or.inl ⟨rfl, rfl⟩) rfl hne htake hrest

theorem parseUintmaxStrict_digits {s : List UInt8} (h : IsNumeral s) (hv : Decimal.value s ≤ uintmaxMax) :
    parseUintmaxStrict s = some (Decimal.value s) := by
  have hn : ¬ uintmaxMax < Decimal.value s := by omega
  simp [parseUintmaxStrict, badStart_numeral h, strtoumax, subject_numeral h, hn]

theorem parseIntStrict_digits {s : List UInt8} (h : IsNumeral s) (hv : Decimal.value s ≤ intMax) :
    parseIntStrict P s = some (Decimal.value s : ℤ) := by
  have hbits : (2 : ℤ) ^ 31 ≤ 2 ^ (P.longBits - 1) := by
    have := P.le_longBits
    exact pow_le_pow_right₀ (by norm_num) (by omega)
  have hmax : ((Decimal.value s : ℕ) : ℤ) ≤ 2 ^ 31 - 1 := by
    have : ((Decimal.value s : ℕ) : ℤ) ≤ (intMax : ℕ) := by exact_mod_cast hv
    simpa [intMax] using this
  have h1 : ¬ ((Decimal.value s : ℕ) : ℤ) < -2 ^ (P.longBits - 1) := by omega
  have h2 : ¬ (2 : ℤ) ^ (P.longBits - 1) - 1 < (Decimal.value s : ℕ) := by omega
  simp [parseIntStrict, badStart_numeral h, strtol, subject_numeral h, h1, h2, hv]

/-! ### Reading back what `printf` writes -/

theorem uintmax_of_size (x : P.Size) : x.toNat ≤ uintmaxMax ∧ x.toNat ≤ P.sizeMax := by
  have h1 := x.isLt
  have h2 : 2 ^ P.sizeBits ≤ 2 ^ 64 := Nat.pow_le_pow_right (by norm_num) P.sizeBits_le
  simp only [uintmaxMax, Platform.sizeMax]
  omega

theorem parseSizeStrict_decimal (x : P.Size) : parseSizeStrict P (decimal x.toNat) = some x := by
  obtain ⟨h1, h2⟩ := uintmax_of_size x
  rw [parseSizeStrict, parseUintmaxStrict_digits (isNumeral_decimal _) (by rw [value_decimal]; exact h1),
    value_decimal]
  simp [Nat.not_lt.mpr h2]

theorem parseU32Strict_decimal (x : BitVec 32) : parseU32Strict (decimal x.toNat) = some x := by
  have h1 := x.isLt
  have h2 : x.toNat ≤ uintmaxMax := by simp only [uintmaxMax]; omega
  have h3 : ¬ uint32Max < x.toNat := by simp only [uint32Max]; omega
  rw [parseU32Strict, parseUintmaxStrict_digits (isNumeral_decimal _) (by rw [value_decimal]; exact h2),
    value_decimal]
  simp [h3]

theorem parseIntStrict_decimal {n : ℕ} (h : n ≤ intMax) : parseIntStrict P (decimal n) = some (n : ℤ) := by
  rw [parseIntStrict_digits (isNumeral_decimal _) (by rw [value_decimal]; exact h), value_decimal]

/-! ### One value in front of another -/

/-- A subject sequence that ends its string goes on with the digits after it. -/
theorem subject_append {s : List UInt8} {neg : Bool} {digits : List UInt8}
    (h : subject s = some (neg, digits, [])) (t : List UInt8) :
    subject (s ++ t) = some (neg, digits ++ t.takeWhile isDigit, t.dropWhile isDigit) := by
  have hne : s.dropWhile isSpace ≠ [] := by
    intro he
    simp [subject, he] at h
  have hdrop : (s ++ t).dropWhile isSpace = s.dropWhile isSpace ++ t := by
    rw [List.dropWhile_append, if_neg (by simpa using hne)]
  obtain ⟨c, u, hcu⟩ := List.exists_cons_of_ne_nil hne
  -- `v` is what follows the sign, if there is one
  have key : ∀ v : List UInt8, v.takeWhile isDigit = digits → v.dropWhile isDigit = [] →
      (v ++ t).takeWhile isDigit = digits ++ t.takeWhile isDigit ∧
        (v ++ t).dropWhile isDigit = t.dropWhile isDigit := by
    intro v h1 h2
    have hv : v = digits := by
      rw [← h1, List.takeWhile_eq_self_iff.mpr (List.dropWhile_eq_nil_iff.mp h2)]
    have hall := List.dropWhile_eq_nil_iff.mp h2
    subst hv
    rw [List.takeWhile_append_of_pos hall, List.dropWhile_append_of_pos hall]
    exact ⟨rfl, rfl⟩
  simp only [subject, hcu] at h
  simp only [subject, hdrop, hcu, List.cons_append]
  split at h
  · rename_i hu
    obtain ⟨rfl, rfl⟩ := List.cons.inj hu
    simp only [Option.ite_none_left_eq_some, Option.some_inj, Prod.mk.injEq] at h
    obtain ⟨hd, rfl, h1, h2⟩ := h
    obtain ⟨k1, k2⟩ := key _ h1 h2
    simp [k1, k2, h1 ▸ hd]
  · rename_i hu
    obtain ⟨rfl, rfl⟩ := List.cons.inj hu
    simp only [Option.ite_none_left_eq_some, Option.some_inj, Prod.mk.injEq] at h
    obtain ⟨hd, rfl, h1, h2⟩ := h
    obtain ⟨k1, k2⟩ := key _ h1 h2
    simp [k1, k2, h1 ▸ hd]
  · rename_i hn45 hn43
    simp only [Option.ite_none_left_eq_some, Option.some_inj, Prod.mk.injEq] at h
    obtain ⟨hd, rfl, h1, h2⟩ := h
    obtain ⟨k1, k2⟩ := key _ h1 h2
    rw [List.cons_append] at k1 k2
    split
    · rename_i hu
      exact absurd (by rw [(List.cons.inj hu).1]) (hn45 u)
    · rename_i hu
      exact absurd (by rw [(List.cons.inj hu).1]) (hn43 u)
    · simp [k1, k2, h1 ▸ hd]

/-- What the strict parsers take for a number: digits, or, behind white space,
digits with an optional sign. -/
def Reading (s : List UInt8) (neg : Bool) (digits : List UInt8) : Prop :=
  badStart s = false ∧ subject s = some (neg, digits, [])

theorem reading_iff (s : List UInt8) (neg : Bool) (digits : List UInt8) : Reading s neg digits ↔
    ∃ ws sign, (∀ c ∈ ws, isSpace c = true) ∧ Sign sign neg ∧ (ws = [] → sign = []) ∧
      IsNumeral digits ∧ s = ws ++ (sign ++ digits) := by
  constructor
  · rintro ⟨hstart, hsub⟩
    obtain ⟨ws, sign, hws, hsign, hdigits, rfl⟩ := spelled_of_subject hsub
    refine ⟨ws, sign, hws, hsign, ?_, hdigits, rfl⟩
    rintro rfl
    rcases hsign with ⟨rfl, -⟩ | ⟨rfl, -⟩ | ⟨rfl, -⟩
    · rfl
    · simp [badStart] at hstart
    · simp [badStart] at hstart
  · rintro ⟨ws, sign, hws, hsign, hstrict, hdigits, rfl⟩
    refine ⟨?_, subject_spelled hws hsign hdigits⟩
    cases ws with
    | nil =>
      rw [hstrict rfl]
      exact badStart_numeral hdigits
    | cons c ws =>
      obtain ⟨h43, h45⟩ := isSpace_bounds (hws c List.mem_cons_self)
      simp [badStart, h43, h45]

/-- What a strict parser of an unsigned number makes of a reading. -/
def unsignedValue (neg : Bool) (digits : List UInt8) : ℕ :=
  if neg then (2 ^ 64 - Decimal.value digits) % 2 ^ 64 else Decimal.value digits

/-- **What the strict parser accepts**, and what it returns. -/
theorem parseUintmaxStrict_eq_some_iff (s : List UInt8) (x : ℕ) : parseUintmaxStrict s = some x ↔
    ∃ neg digits, Reading s neg digits ∧ Decimal.value digits ≤ uintmaxMax ∧
      x = unsignedValue neg digits := by
  constructor
  · intro h
    unfold parseUintmaxStrict at h
    split at h
    · cases h
    rename_i hbad
    unfold strtoumax at h
    split at h
    · have hs : s ≠ [] := fun he => hbad (by rw [he]; rfl)
      simp [hs] at h
    rename_i neg digits rest hsub
    split at h
    · simp at h
    rename_i hle
    rw [Nat.not_lt] at hle
    have hstart : badStart s = false := by simpa using hbad
    cases neg <;> simp at h <;> obtain ⟨rfl, rfl⟩ := h
    · exact ⟨false, digits, ⟨hstart, hsub⟩, hle, rfl⟩
    · exact ⟨true, digits, ⟨hstart, hsub⟩, hle, rfl⟩
  · rintro ⟨neg, digits, ⟨hstart, hsub⟩, hle, rfl⟩
    have hn : ¬ uintmaxMax < Decimal.value digits := Nat.not_lt.mpr hle
    cases neg <;> simp [parseUintmaxStrict, strtoumax, unsignedValue, hstart, hsub, hn]

/-- What a strict parser of a signed number makes of a reading. -/
def signedValue (neg : Bool) (digits : List UInt8) : ℤ :=
  if neg then -(Decimal.value digits : ℤ) else Decimal.value digits

/-- **What the strict parser of an `int` accepts**, and what it returns. -/
theorem parseIntStrict_eq_some_iff (s : List UInt8) (x : ℤ) : parseIntStrict P s = some x ↔
    ∃ neg digits, Reading s neg digits ∧ x = signedValue neg digits ∧ -2 ^ 31 ≤ x ∧ x ≤ intMax := by
  have hbits : (2 : ℤ) ^ 31 ≤ 2 ^ (P.longBits - 1) := by
    have := P.le_longBits
    exact pow_le_pow_right₀ (by norm_num) (by omega)
  constructor
  · intro h
    unfold parseIntStrict at h
    split at h
    · cases h
    rename_i hbad
    have hstart : badStart s = false := by simpa using hbad
    simp only [Option.ite_none_left_eq_some, Option.some_inj, Bool.or_eq_true, decide_eq_true_eq,
      not_or, not_not, Bool.not_eq_true, Int.not_lt] at h
    obtain ⟨⟨herange, hrest⟩, ⟨hmin, hmax⟩, rfl⟩ := h
    unfold strtol at herange hrest hmin hmax ⊢
    cases hsub : subject s with
    | none =>
      rw [hsub] at hrest
      simp only at hrest
      rw [hrest] at hstart
      cases hstart
    | some r =>
      obtain ⟨neg, digits, rest⟩ := r
      simp only [hsub] at herange hrest hmin hmax ⊢
      split_ifs at herange hrest hmin hmax ⊢ <;> simp_all [Reading, signedValue]
  · rintro ⟨neg, digits, ⟨hstart, hsub⟩, rfl, hmin, hmax⟩
    have hmax' : signedValue neg digits ≤ 2 ^ 31 - 1 := by simpa [intMax] using hmax
    have h1 : ¬ signedValue neg digits < -2 ^ (P.longBits - 1) := by omega
    have h2 : ¬ 2 ^ (P.longBits - 1) - 1 < signedValue neg digits := by omega
    have h3 : strtol P.longBits s = ⟨signedValue neg digits, [], false⟩ := by
      unfold strtol
      rw [hsub]
      simp only
      rw [show (if neg = true then -(Decimal.value digits : ℤ) else Decimal.value digits) =
        signedValue neg digits from rfl, if_neg h1, if_neg h2]
    have h4 : ¬ (signedValue neg digits < -2 ^ 31 ∨ (intMax : ℤ) < signedValue neg digits) := by
      omega
    unfold parseIntStrict
    simp only [hstart, h3, Bool.false_eq_true, ↓reduceIte, Bool.false_or, ne_eq, not_true_eq_false,
      decide_false, if_neg h4]

/-- **A number and a longer one**: they are the same only if the longer one is
zero, and if it is, both are. -/
theorem parseUintmaxStrict_append {s t : List UInt8} (ht : t ≠ []) {x y : ℕ}
    (hx : parseUintmaxStrict s = some x) (hy : parseUintmaxStrict (s ++ t) = some y) :
    x = y ↔ y = 0 := by
  obtain ⟨neg, digits, ⟨-, hsub⟩, hle, rfl⟩ := (parseUintmaxStrict_eq_some_iff s x).mp hx
  obtain ⟨neg', digits', ⟨-, hsub'⟩, hle', rfl⟩ := (parseUintmaxStrict_eq_some_iff (s ++ t) y).mp hy
  rw [subject_append hsub t] at hsub'
  simp only [Option.some_inj, Prod.mk.injEq] at hsub'
  obtain ⟨rfl, rfl, hrest⟩ := hsub'
  have htake : t.takeWhile isDigit = t :=
    List.takeWhile_eq_self_iff.mpr (List.dropWhile_eq_nil_iff.mp hrest)
  rw [htake] at hle' ⊢
  have hval := value_append_eq_iff digits ht
  simp only [uintmaxMax] at hle hle'
  unfold unsignedValue
  cases neg
  · exact hval
  · simp only [↓reduceIte]
    omega

theorem parseU32Strict_append {s t : List UInt8} (ht : t ≠ []) {x y : BitVec 32}
    (hx : parseU32Strict s = some x) (hy : parseU32Strict (s ++ t) = some y) : x = y ↔ y = 0 := by
  obtain ⟨a, ha, hx⟩ := Option.bind_eq_some_iff.mp hx
  obtain ⟨b, hb, hy⟩ := Option.bind_eq_some_iff.mp hy
  have hab := parseUintmaxStrict_append ht ha hb
  rw [Option.ite_none_left_eq_some] at hx hy
  obtain ⟨hale, hx⟩ := hx
  obtain ⟨hble, hy⟩ := hy
  obtain rfl := Option.some_inj.mp hx
  obtain rfl := Option.some_inj.mp hy
  simp only [uint32Max] at hale hble
  have h1 : BitVec.ofNat 32 a = BitVec.ofNat 32 b ↔ a = b := by
    rw [← BitVec.toNat_inj, BitVec.toNat_ofNat, BitVec.toNat_ofNat]
    omega
  have h2 : BitVec.ofNat 32 b = 0 ↔ b = 0 := by
    rw [← BitVec.toNat_inj, BitVec.toNat_ofNat]
    simp only [BitVec.ofNat_eq_ofNat, BitVec.toNat_ofNat]
    omega
  rw [h1, h2, hab]

theorem bind_ofNat_eq_some_iff {w : ℕ} (s : List UInt8) (x : BitVec w) :
    ((parseUintmaxStrict s).bind fun parsed =>
      if 2 ^ w - 1 < parsed then none else some (BitVec.ofNat w parsed)) = some x ↔
    parseUintmaxStrict s = some x.toNat := by
  have hx := x.isLt
  rw [Option.bind_eq_some_iff]
  constructor
  · rintro ⟨parsed, hparsed, h⟩
    rw [Option.ite_none_left_eq_some, Option.some_inj] at h
    obtain ⟨hle, rfl⟩ := h
    rw [hparsed, BitVec.toNat_ofNat, Nat.mod_eq_of_lt (by omega)]
  · intro h
    refine ⟨x.toNat, h, ?_⟩
    rw [if_neg (by omega), BitVec.ofNat_toNat, BitVec.setWidth_eq]

theorem parseSizeStrict_eq_some_iff (s : List UInt8) (x : P.Size) : parseSizeStrict P s = some x ↔
    ∃ neg digits, Reading s neg digits ∧ Decimal.value digits ≤ uintmaxMax ∧
      x.toNat = unsignedValue neg digits :=
  (bind_ofNat_eq_some_iff s x).trans (parseUintmaxStrict_eq_some_iff s x.toNat)

theorem parseU32Strict_eq_some_iff (s : List UInt8) (x : BitVec 32) : parseU32Strict s = some x ↔
    ∃ neg digits, Reading s neg digits ∧ Decimal.value digits ≤ uintmaxMax ∧
      x.toNat = unsignedValue neg digits :=
  (bind_ofNat_eq_some_iff s x).trans (parseUintmaxStrict_eq_some_iff s x.toNat)

/-! ### White space -/

/-- The value starts with white space. -/
def Padded (s : List UInt8) : Prop := ∃ c ∈ s.head?, isSpace c = true

theorem reading_numeral {s : List UInt8} (h : IsNumeral s) : Reading s false s :=
  ⟨badStart_numeral h, subject_numeral h⟩

theorem not_padded_numeral {s : List UInt8} (h : IsNumeral s) : ¬ Padded s := by
  obtain ⟨c, t, rfl⟩ := List.exists_cons_of_ne_nil h.1
  rintro ⟨d, hd, hspace⟩
  obtain rfl : c = d := by simpa using hd
  rw [isSpace_of_isDigit (h.2 c List.mem_cons_self)] at hspace
  cases hspace

/-- **The first character decides**: without white space in front a strict
parser reads digits and nothing else. -/
theorem Reading.eq_of_not_padded {s digits : List UInt8} {neg : Bool} (h : Reading s neg digits)
    (hs : ¬ Padded s) : IsNumeral s ∧ neg = false ∧ digits = s := by
  obtain ⟨ws, sign, hws, hsign, hstrict, hdigits, rfl⟩ := (reading_iff s neg digits).mp h
  cases ws with
  | cons c ws => exact absurd ⟨c, by simp, hws c List.mem_cons_self⟩ hs
  | nil =>
    obtain rfl := hstrict rfl
    rcases hsign with ⟨-, rfl⟩ | ⟨hbad, -⟩ | ⟨hbad, -⟩
    · exact ⟨hdigits, rfl, rfl⟩
    · cases hbad
    · cases hbad

/-! ### How long a numeral is -/

theorem length_decimal_size_le (x : P.Size) : (decimal x.toNat).length ≤ 20 := by
  have := (uintmax_of_size x).1
  exact length_decimal_le (by norm_num) (by simp only [uintmaxMax] at this; omega)

theorem length_decimal_u32_le (x : BitVec 32) : (decimal x.toNat).length ≤ 10 :=
  length_decimal_le (by norm_num) (by have := x.isLt; omega)

end Loxguard
