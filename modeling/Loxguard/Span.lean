/-
# Checked spans

A span is a base address, a length and permission flags over the memory; the
null pointer is address 0. Five operations go through spans. Each is one of two
kinds of access, a byte at an index or a range from an offset on, and goes
through if and only if the flags permit it and what it touches is inside the
span, computed without a bound (`inRange_iff`); then it changes the bytes it
is about and no others, else it changes nothing (`checked_spans`).

`memcpy` is left open where C leaves it open, on ranges that overlap. So
reads and writes of ranges are exact for a buffer that does not overlap what
it is copied to or from, and need not be for another (`spanWrite_overlap`); a
copy between spans goes through `memmove`.

Key definitions: `Span`, `safeAddSize`, `memmove`, `memcpy`, `spanReadU8`,
`spanWriteU8`, `spanRead`, `spanWrite`, `spanMemcpy`, `Checked`.
Key theorems: `spanWriteU8_rc`, `writeRc_eq_bounds_iff`, `inRange_iff`,
`checked_spans`, `spanWrite_overlap`.
-/
import Loxguard.Types

namespace Loxguard

variable {P : Platform}

/-- The memory behind the spans. -/
abbrev Mem := ℕ → UInt8

/-- `lox_span_t`. -/
structure Span (P : Platform) where
  base : ℕ
  len : P.Size
  flags : BitVec 32
deriving DecidableEq, Repr

/-- `LOX_SPAN_FLAG_READ`. -/
def spanFlagRead : BitVec 32 := 1

/-- `LOX_SPAN_FLAG_WRITE`. -/
def spanFlagWrite : BitVec 32 := 2

/-- `lox_span_readonly`. -/
def spanReadonly (base : ℕ) (len : P.Size) : Span P := ⟨base, len, spanFlagRead⟩

/-- `lox_span_writable`. -/
def spanWritable (base : ℕ) (len : P.Size) : Span P := ⟨base, len, spanFlagRead ||| spanFlagWrite⟩

/-- `lox_span_write_u8`. -/
def spanWriteU8 (m : Mem) (s : Option (Span P)) (index : P.Size) (value : UInt8) : ℤ × Mem :=
  match s with
  | none => (errNull, m)
  | some s =>
    if s.base = 0 then (errNull, m)
    else if s.flags &&& spanFlagWrite = 0 then (errReadonly, m)
    else if s.len ≤ index then (errBounds, m)
    else (ok, Function.update m (s.base + index.toNat) value)

/-! ### Rejected writes -/

/-- The write `lox_span_write_u8` rejects as out of bounds: the span is there
and writable, and the index is past its end. -/
def Span.Rejects (s : Span P) (index : P.Size) : Prop :=
  s.base ≠ 0 ∧ s.flags &&& spanFlagWrite ≠ 0 ∧ s.len ≤ index

instance (s : Span P) (index : P.Size) : Decidable (s.Rejects index) := by
  unfold Span.Rejects; infer_instance

/-- What a write to the span returns: it does not depend on the memory. -/
def Span.writeRc (s : Span P) (index : P.Size) : ℤ :=
  if s.base = 0 then errNull
  else if s.flags &&& spanFlagWrite = 0 then errReadonly
  else if s.len ≤ index then errBounds
  else ok

theorem spanWriteU8_rc (m : Mem) (s : Span P) (index : P.Size) (value : UInt8) :
    (spanWriteU8 m (some s) index value).1 = s.writeRc index := by
  simp only [spanWriteU8, Span.writeRc]
  split_ifs <;> rfl

theorem writeRc_eq_bounds_iff (s : Span P) (index : P.Size) :
    s.writeRc index = errBounds ↔ s.Rejects index := by
  simp only [Span.writeRc, Span.Rejects]
  split_ifs <;> simp_all [errNull, errBounds, errReadonly, ok]

theorem spanWriteU8_rejected (m : Mem) {s : Span P} {index : P.Size} (h : s.Rejects index)
    (value : UInt8) : spanWriteU8 m (some s) index value = (errBounds, m) := by
  obtain ⟨h1, h2, h3⟩ := h
  simp only [spanWriteU8, if_neg h1, if_neg h2, if_pos h3]

/-! ### Ranges -/

/-- `lox_safe_add_size`, `none` when it returns 0. -/
def safeAddSize (a b : P.Size) : Option P.Size :=
  if BitVec.allOnes P.sizeBits - b < a then none else some (a + b)

/-- The sum, if it can be represented. -/
theorem safeAddSize_eq (a b : P.Size) :
    safeAddSize a b = if a.toNat + b.toNat < 2 ^ P.sizeBits then some (a + b) else none := by
  have ha := a.isLt
  have hb := b.isLt
  have hroom : (BitVec.allOnes P.sizeBits - b).toNat = 2 ^ P.sizeBits - 1 - b.toNat := by
    rw [BitVec.toNat_sub_of_le, BitVec.toNat_allOnes]
    rw [BitVec.le_def, BitVec.toNat_allOnes]
    omega
  have hiff : BitVec.allOnes P.sizeBits - b < a ↔ ¬ a.toNat + b.toNat < 2 ^ P.sizeBits := by
    rw [BitVec.lt_def, hroom]
    omega
  unfold safeAddSize
  by_cases h : a.toNat + b.toNat < 2 ^ P.sizeBits
  · rw [if_pos h, if_neg fun hlt => hiff.mp hlt h]
  · rw [if_neg h, if_pos (hiff.mpr h)]

/-- The bounds check of `lox_span_read`, `lox_span_write` and
`lox_span_memcpy`. -/
def Span.inRange (s : Span P) (offset len : P.Size) : Bool :=
  if s.len < offset then false
  else match safeAddSize offset len with
    | none => false
    | some stop => stop ≤ s.len

/-- **The bounds check is exact**: a range passes if and only if its end,
computed without a bound, is inside the span. -/
theorem inRange_iff (s : Span P) (offset len : P.Size) :
    s.inRange offset len = true ↔ offset.toNat + len.toNat ≤ s.len.toNat := by
  have hlen := s.len.isLt
  unfold Span.inRange
  rw [safeAddSize_eq]
  by_cases hoff : s.len < offset
  · rw [if_pos hoff]
    rw [BitVec.lt_def] at hoff
    simp only [Bool.false_eq_true, false_iff]
    omega
  · rw [if_neg hoff]
    by_cases hsum : offset.toNat + len.toNat < 2 ^ P.sizeBits
    · rw [if_pos hsum]
      simp only [decide_eq_true_eq, BitVec.le_def, BitVec.toNat_add, Nat.mod_eq_of_lt hsum]
    · rw [if_neg hsum]
      simp only [Bool.false_eq_true, false_iff]
      omega

/-! ### The operations on bytes and ranges -/

/-- `memmove`: as if through a copy of the source. -/
def memmove (m : Mem) (dst src n : ℕ) : Mem :=
  fun a => if dst ≤ a ∧ a < dst + n then m (src + (a - dst)) else m a

/-- Two ranges of `n` bytes share a byte. -/
def Overlap (dst src n : ℕ) : Prop := dst < src + n ∧ src < dst + n

instance (dst src n : ℕ) : Decidable (Overlap dst src n) := inferInstanceAs (Decidable (_ ∧ _))

/-- `memcpy`. For ranges that overlap C does not define it; then the memory is
`undef`. -/
def memcpy (undef m : Mem) (dst src n : ℕ) : Mem :=
  if Overlap dst src n then undef else memmove m dst src n

/-- `lox_span_read_u8`. -/
def spanReadU8 (m : Mem) (s : Option (Span P)) (index : P.Size) (out : ℕ) : ℤ × Mem :=
  match s with
  | none => (errNull, m)
  | some s =>
    if out = 0 ∨ s.base = 0 then (errNull, m)
    else if s.flags &&& spanFlagRead = 0 then (errReadonly, m)
    else if s.len ≤ index then (errBounds, m)
    else (ok, Function.update m out (m (s.base + index.toNat)))

/-- `lox_span_read`. -/
def spanRead (undef m : Mem) (s : Option (Span P)) (offset : P.Size) (out : ℕ) (len : P.Size) :
    ℤ × Mem :=
  match s with
  | none => (errNull, m)
  | some s =>
    if out = 0 ∨ s.base = 0 then (errNull, m)
    else if s.flags &&& spanFlagRead = 0 then (errReadonly, m)
    else if !s.inRange offset len then (errBounds, m)
    else (ok, if 0 < len then memcpy undef m out (s.base + offset.toNat) len.toNat else m)

/-- `lox_span_write`. -/
def spanWrite (undef m : Mem) (s : Option (Span P)) (offset : P.Size) (src : ℕ) (len : P.Size) :
    ℤ × Mem :=
  match s with
  | none => (errNull, m)
  | some s =>
    if src = 0 ∨ s.base = 0 then (errNull, m)
    else if s.flags &&& spanFlagWrite = 0 then (errReadonly, m)
    else if !s.inRange offset len then (errBounds, m)
    else (ok, if 0 < len then memcpy undef m (s.base + offset.toNat) src len.toNat else m)

/-- `lox_span_memcpy`. -/
def spanMemcpy (m : Mem) (dst : Option (Span P)) (dstOff : P.Size) (src : Option (Span P))
    (srcOff len : P.Size) : ℤ × Mem :=
  match dst, src with
  | some dst, some src =>
    if dst.base = 0 ∨ src.base = 0 then (errNull, m)
    else if src.flags &&& spanFlagRead = 0 ∨ dst.flags &&& spanFlagWrite = 0 then (errReadonly, m)
    else if !src.inRange srcOff len then (errBounds, m)
    else if !dst.inRange dstOff len then (errBounds, m)
    else (ok,
      if 0 < len then memmove m (dst.base + dstOff.toNat) (src.base + srcOff.toNat) len.toNat else m)
  | _, _ => (errNull, m)

/-! ### Checked accesses -/

/-- The span permits reads. -/
def Span.Readable (s : Span P) : Prop := s.flags &&& spanFlagRead ≠ 0

/-- The span permits writes. -/
def Span.Writable (s : Span P) : Prop := s.flags &&& spanFlagWrite ≠ 0

instance (s : Span P) : Decidable s.Readable := inferInstanceAs (Decidable (_ ≠ _))

instance (s : Span P) : Decidable s.Writable := inferInstanceAs (Decidable (_ ≠ _))

/-- From `m` to `m'` the `n` bytes from `dst` on became what `m` has from `src`
on, and no other byte changed. -/
def Copied (m m' : Mem) (dst src n : ℕ) : Prop :=
  ∀ a, m' a = if dst ≤ a ∧ a < dst + n then m (src + (a - dst)) else m a

/-- An access that goes through if and only if it is `allowed`; then it has an
effect, else none. -/
structure Checked (m : Mem) (allowed : Prop) (effect : Mem → Prop) (r : ℤ × Mem) : Prop where
  ok_iff : r.1 = ok ↔ allowed
  effect_of_ok : r.1 = ok → effect r.2
  unchanged : r.1 ≠ ok → r.2 = m

section Checked

variable {m : Mem} {allowed : Prop} {effect : Mem → Prop}

theorem checked_ok {m' : Mem} (he : effect m') : Checked m True effect (ok, m') :=
  ⟨⟨fun _ => trivial, fun _ => rfl⟩, fun _ => he, fun h => absurd rfl h⟩

theorem checked_error {rc : ℤ} (hrc : rc ≠ ok) (ha : ¬ allowed) : Checked m allowed effect (rc, m) :=
  ⟨⟨fun h => absurd h hrc, fun h => absurd h ha⟩, fun h => absurd h hrc, fun _ => rfl⟩

theorem Checked.of_iff {allowed' : Prop} {r : ℤ × Mem} (h : Checked m allowed effect r)
    (hiff : allowed ↔ allowed') : Checked m allowed' effect r :=
  ⟨h.ok_iff.trans hiff, h.effect_of_ok, h.unchanged⟩

/-- A check in front of an access. -/
theorem Checked.guard {r : ℤ × Mem} (h : Checked m allowed effect r) {p : Prop} [Decidable p] {rc : ℤ}
    (hrc : rc ≠ ok) : Checked m (¬ p ∧ allowed) effect (if p then (rc, m) else r) := by
  by_cases hp : p
  · rw [if_pos hp]
    exact checked_error hrc fun ha => ha.1 hp
  · rw [if_neg hp]
    exact h.of_iff (and_iff_right hp).symm

end Checked

theorem errReadonly_ne_ok : errReadonly ≠ ok := by decide

theorem errBounds_ne_ok : errBounds ≠ ok := by decide

theorem copied_memmove (m : Mem) (dst src n : ℕ) : Copied m (memmove m dst src n) dst src n :=
  fun _ => rfl

theorem copied_zero (m : Mem) (dst src : ℕ) : Copied m m dst src 0 := by
  intro a
  rw [if_neg (by omega)]

theorem copied_of_range {m m' : Mem} {dst src : ℕ} {len : P.Size}
    (h : 0 < len → Copied m m' dst src len.toNat) :
    Copied m (if 0 < len then m' else m) dst src len.toNat := by
  split
  · exact h ‹_›
  · rename_i hlen
    have hzero : len.toNat = 0 := by
      rw [BitVec.lt_def] at hlen
      simpa using hlen
    rw [hzero]
    exact copied_zero m dst src

theorem copied_memcpy_range (undef m : Mem) (dst src : ℕ) (len : P.Size)
    (h : ¬ Overlap dst src len.toNat) :
    Copied m (if 0 < len then memcpy undef m dst src len.toNat else m) dst src len.toNat := by
  apply copied_of_range
  intro _
  unfold memcpy
  rw [if_neg h]
  exact copied_memmove m dst src len.toNat

theorem not_inRange_iff (s : Span P) (offset len : P.Size) :
    ¬ (!s.inRange offset len) = true ↔ offset.toNat + len.toNat ≤ s.len.toNat := by
  rw [← inRange_iff, Bool.not_eq_true', Bool.not_eq_false]

theorem not_len_le_iff (s : Span P) (index : P.Size) :
    ¬ s.len ≤ index ↔ index.toNat < s.len.toNat := by
  rw [BitVec.le_def, Nat.not_le]

section Ops

variable (m : Mem) {s : Span P} (hs : s.base ≠ 0) {p : ℕ} (hp : p ≠ 0)
include hs

theorem checked_spanWriteU8 (index : P.Size) (value : UInt8) :
    Checked m (s.Writable ∧ index.toNat < s.len.toNat)
      (fun m' => ∀ a, m' a = if a = s.base + index.toNat then value else m a)
      (spanWriteU8 m (some s) index value) := by
  simp only [spanWriteU8, if_neg hs]
  have hwritten : ∀ a, Function.update m (s.base + index.toNat) value a =
      if a = s.base + index.toNat then value else m a := fun a => Function.update_apply ..
  apply (((checked_ok hwritten).guard errBounds_ne_ok).guard errReadonly_ne_ok).of_iff
  rw [and_true, not_len_le_iff]
  rfl

include hp

theorem checked_spanReadU8 (index : P.Size) :
    Checked m (s.Readable ∧ index.toNat < s.len.toNat)
      (fun m' => Copied m m' p (s.base + index.toNat) 1) (spanReadU8 m (some s) index p) := by
  simp only [spanReadU8, if_neg (not_or.mpr ⟨hp, hs⟩)]
  have hread : Copied m (Function.update m p (m (s.base + index.toNat))) p (s.base + index.toNat) 1 := by
    intro a
    rw [Function.update_apply]
    by_cases ha : a = p
    · rw [if_pos ha, if_pos (by omega), ha, Nat.sub_self, Nat.add_zero]
    · rw [if_neg ha, if_neg (by omega)]
  apply (((checked_ok hread).guard errBounds_ne_ok).guard errReadonly_ne_ok).of_iff
  rw [and_true, not_len_le_iff]
  rfl

theorem checked_spanRead (undef : Mem) (offset len : P.Size) :
    Checked m (s.Readable ∧ offset.toNat + len.toNat ≤ s.len.toNat)
      (fun m' => ¬ Overlap p (s.base + offset.toNat) len.toNat →
        Copied m m' p (s.base + offset.toNat) len.toNat)
      (spanRead undef m (some s) offset p len) := by
  simp only [spanRead, if_neg (not_or.mpr ⟨hp, hs⟩)]
  have hread := copied_memcpy_range undef m p (s.base + offset.toNat) len
  apply (((checked_ok hread).guard errBounds_ne_ok).guard errReadonly_ne_ok).of_iff
  rw [and_true, not_inRange_iff]
  rfl

theorem checked_spanWrite (undef : Mem) (offset len : P.Size) :
    Checked m (s.Writable ∧ offset.toNat + len.toNat ≤ s.len.toNat)
      (fun m' => ¬ Overlap (s.base + offset.toNat) p len.toNat →
        Copied m m' (s.base + offset.toNat) p len.toNat)
      (spanWrite undef m (some s) offset p len) := by
  simp only [spanWrite, if_neg (not_or.mpr ⟨hp, hs⟩)]
  have hwritten := copied_memcpy_range undef m (s.base + offset.toNat) p len
  apply (((checked_ok hwritten).guard errBounds_ne_ok).guard errReadonly_ne_ok).of_iff
  rw [and_true, not_inRange_iff]
  rfl

end Ops

theorem checked_spanMemcpy (m : Mem) {d s : Span P} (hd : d.base ≠ 0) (hs : s.base ≠ 0)
    (dstOff srcOff len : P.Size) :
    Checked m (s.Readable ∧ d.Writable ∧ srcOff.toNat + len.toNat ≤ s.len.toNat ∧
        dstOff.toNat + len.toNat ≤ d.len.toNat)
      (fun m' => Copied m m' (d.base + dstOff.toNat) (s.base + srcOff.toNat) len.toNat)
      (spanMemcpy m (some d) dstOff (some s) srcOff len) := by
  simp only [spanMemcpy, if_neg (not_or.mpr ⟨hd, hs⟩)]
  have hcopied := copied_of_range fun _ : 0 < len =>
    copied_memmove m (d.base + dstOff.toNat) (s.base + srcOff.toNat) len.toNat
  apply ((((checked_ok hcopied).guard errBounds_ne_ok).guard errBounds_ne_ok).guard errReadonly_ne_ok).of_iff
  rw [and_true, not_inRange_iff, not_inRange_iff, not_or, and_assoc]
  rfl

/-- **Checked spans confine and are exact.** On arguments that are not null each
of the five operations returns `OK` if and only if the flags permit it and what
it touches is inside its span; then it changes the bytes it addresses to what
the source bytes were, and no others, else it changes nothing. A copy between
spans does so for ranges that overlap too. -/
theorem checked_spans (undef m : Mem) {s d : Span P} (hs : s.base ≠ 0) (hd : d.base ≠ 0) {p : ℕ}
    (hp : p ≠ 0) (index offset offset' len : P.Size) (value : UInt8) :
    Checked m (s.Readable ∧ index.toNat < s.len.toNat)
      (fun m' => Copied m m' p (s.base + index.toNat) 1) (spanReadU8 m (some s) index p) ∧
    Checked m (s.Writable ∧ index.toNat < s.len.toNat)
      (fun m' => ∀ a, m' a = if a = s.base + index.toNat then value else m a)
      (spanWriteU8 m (some s) index value) ∧
    Checked m (s.Readable ∧ offset.toNat + len.toNat ≤ s.len.toNat)
      (fun m' => ¬ Overlap p (s.base + offset.toNat) len.toNat →
        Copied m m' p (s.base + offset.toNat) len.toNat)
      (spanRead undef m (some s) offset p len) ∧
    Checked m (s.Writable ∧ offset.toNat + len.toNat ≤ s.len.toNat)
      (fun m' => ¬ Overlap (s.base + offset.toNat) p len.toNat →
        Copied m m' (s.base + offset.toNat) p len.toNat)
      (spanWrite undef m (some s) offset p len) ∧
    Checked m (s.Readable ∧ d.Writable ∧ offset.toNat + len.toNat ≤ s.len.toNat ∧
        offset'.toNat + len.toNat ≤ d.len.toNat)
      (fun m' => Copied m m' (d.base + offset'.toNat) (s.base + offset.toNat) len.toNat)
      (spanMemcpy m (some d) offset' (some s) offset len) :=
  ⟨checked_spanReadU8 m hs hp index, checked_spanWriteU8 m hs index value,
    checked_spanRead m hs hp undef offset len, checked_spanWrite m hs hp undef offset len,
    checked_spanMemcpy m hd hs offset' offset len⟩

/-- Five bytes of a span moved by one, in a memory that holds its addresses. -/
theorem checked_spans_overlap :
    let m : Mem := fun a => UInt8.ofNat a
    let s : Span .host := spanWritable 16 8
    let r := spanMemcpy m (some s) 2 (some s) 1 5
    r.1 = ok ∧ Copied m r.2 18 17 5 := by
  intro m s r
  have h := (checked_spans m m (s := s) (d := s) (by decide) (by decide) (p := 64) (by decide)
    7 1 2 5 9).2.2.2.2
  have hok := h.ok_iff.mpr (by decide)
  exact ⟨hok, h.effect_of_ok hok⟩

/-! ### A buffer that overlaps the span -/

/-- A copy of `n` bytes, one after the other from the front. -/
def copyForward (m : Mem) (dst src : ℕ) : ℕ → Mem
  | 0 => m
  | n + 1 =>
    let m' := copyForward m dst src n
    Function.update m' (dst + n) (m' (src + n))

/-- For ranges that do not overlap this is a `memcpy`. -/
theorem copied_copyForward (m : Mem) (dst src : ℕ) : ∀ n : ℕ, ¬ Overlap dst src n →
    Copied m (copyForward m dst src n) dst src n
  | 0, _ => copied_zero m dst src
  | n + 1, h => by
    have ih := copied_copyForward m dst src n fun ho => h ⟨by have := ho.1; omega, by have := ho.2; omega⟩
    intro a
    rw [copyForward, Function.update_apply]
    unfold Overlap at h
    by_cases ha : a = dst + n
    · have hsrc : ¬ (dst ≤ src + n ∧ src + n < dst + n) := by omega
      rw [if_pos ha, if_pos (by omega), ih, if_neg hsrc, ha, Nat.add_sub_cancel_left]
    · rw [if_neg ha, ih]
      exact if_congr (by omega) rfl rfl

/-- A write of two bytes of a span over the span itself, one byte further on,
by a `memcpy` that goes from the front: the write returns `OK`, and the second
byte is not what its source was. -/
theorem spanWrite_overlap :
    let m : Mem := fun a => UInt8.ofNat a
    let s : Span .host := spanWritable 16 8
    let r := spanWrite (copyForward m 17 16 2) m (some s) 1 16 2
    (∀ dst src n, ¬ Overlap dst src n → Copied m (copyForward m dst src n) dst src n) ∧
      r.1 = ok ∧ ¬ Copied m r.2 17 16 2 := by
  intro m s r
  refine ⟨copied_copyForward m, by decide, fun h => ?_⟩
  -- the byte at 18 should be the one at 17, which the copy has overwritten
  have hbyte : r.2 18 = 17 := h 18
  exact absurd hbyte (by decide)

end Loxguard
