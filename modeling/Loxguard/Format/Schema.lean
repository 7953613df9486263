/-
# The schema of an event line

A line of the schema is six values behind their keys, with single commas
between them: `EventValues.line`. The parser accepts the lines of values it
can read (`eventLocals_iff`), and what it can read is a grammar of its own: a
text is not empty and decodes without a zero, a number is spelled the way
C99's conversions take it, with white space in front of it and a sign behind
white space (`Spelled`).

The documented schema has digits there and nothing else. The two differ on
padded numbers only, and on a line that has one the parser is not strict
(`strict_iff_not_padded`).

Key definitions: `EventValues`, `EventValues.Strict`, `EventValues.Readable`,
`Spelled`, `PaddedLine`.
Key theorems: `fieldNext_bind_iff`, `eventLocals_iff`, `strict_iff_not_padded`.
-/
import Loxguard.Format.Event

namespace Loxguard

open Lib Lib.Percent Lib.Decimal

variable {P : Platform}

/-! ### One field of a line -/

theorem tokenNext_comma {t : List UInt8} (ht : 44 ∉ t) (rest : List UInt8) :
    tokenNext (t ++ 44 :: rest) = some (t, rest, true) := by
  have hall : ∀ c ∈ t, (c != 44) = true := fun c hc => by
    simpa using fun he : c = 44 => ht (he ▸ hc)
  unfold tokenNext
  rw [if_neg (by simp), if_pos (by simp), List.takeWhile_append_of_pos hall,
    List.dropWhile_append_of_pos hall]
  simp

theorem tokenNext_last {t : List UInt8} (ht : 44 ∉ t) (hne : t ≠ []) :
    tokenNext t = some (t, [], false) := by
  rw [tokenNext, if_neg hne, if_neg ht]

theorem fieldNext_eq_some {α : Type} {key s rest : List UInt8} {parse : List UInt8 → Option α} {x : α}
    {hadComma : Bool} (h : fieldNext key parse s = some (x, rest, hadComma)) :
    ∃ v, v ≠ [] ∧ 44 ∉ v ∧ parse v = some x ∧
      ((hadComma = true ∧ s = key ++ 61 :: v ++ 44 :: rest) ∨
        (hadComma = false ∧ rest = [] ∧ s = key ++ 61 :: v)) := by
  unfold fieldNext at h
  obtain ⟨⟨token, cursor, comma⟩, hnext, hfield⟩ := Option.bind_eq_some_iff.mp h
  obtain ⟨y, hy, heq⟩ := Option.map_eq_some_iff.mp hfield
  obtain ⟨v, hv, hparse⟩ := Option.bind_eq_some_iff.mp hy
  obtain ⟨rfl, hne⟩ := tokenValue_eq_some hv
  simp only [Prod.mk.injEq] at heq
  obtain ⟨rfl, rfl, rfl⟩ := heq
  refine ⟨v, hne, ?_, hparse, ?_⟩
  · intro hmem
    unfold tokenNext at hnext
    split_ifs at hnext with hs hcomma
    · simp only [Option.some_inj, Prod.mk.injEq] at hnext
      have hv' : 44 ∈ s.takeWhile (· != 44) := by rw [hnext.1]; simp [hmem]
      simpa using List.mem_takeWhile_imp hv'
    · simp only [Option.some_inj, Prod.mk.injEq] at hnext
      exact hcomma (by rw [hnext.1]; simp [hmem])
  · rcases tokenNext_cases s with ⟨-, htoken⟩ | ⟨t, rest, hs, -, htoken⟩
    · rw [htoken, Option.ite_none_left_eq_some] at hnext
      simp only [Option.some_inj, Prod.mk.injEq] at hnext
      obtain ⟨-, rfl, rfl, rfl⟩ := hnext
      exact Or.inr ⟨rfl, rfl, rfl⟩
    · rw [htoken] at hnext
      simp only [Option.some_inj, Prod.mk.injEq] at hnext
      obtain ⟨rfl, rfl, rfl⟩ := hnext
      exact Or.inl ⟨rfl, hs⟩

theorem fieldNext_comma {α : Type} {key v : List UInt8} (parse : List UInt8 → Option α)
    (hkey : 44 ∉ key) (hne : v ≠ []) (hv : 44 ∉ v) (rest : List UInt8) :
    fieldNext key parse (key ++ 61 :: v ++ 44 :: rest) = (parse v).map fun x => (x, rest, true) := by
  have ht : 44 ∉ key ++ 61 :: v := by simp [hkey, hv]
  unfold fieldNext
  rw [tokenNext_comma ht, Option.bind_some]
  dsimp only
  rw [tokenValue_append hne]
  rfl

theorem fieldNext_last {α : Type} {key v : List UInt8} (parse : List UInt8 → Option α)
    (hkey : 44 ∉ key) (hne : v ≠ []) (hv : 44 ∉ v) :
    fieldNext key parse (key ++ 61 :: v) = (parse v).map fun x => (x, [], false) := by
  have ht : 44 ∉ key ++ 61 :: v := by simp [hkey, hv]
  unfold fieldNext
  rw [tokenNext_last ht (by simp), Option.bind_some]
  dsimp only
  rw [tokenValue_append hne]
  rfl

/-- **A field before another one**: its value, a comma, and what the rest of
the line is read as. -/
theorem fieldNext_bind_iff {α β : Type} {key : List UInt8} (hkey : 44 ∉ key)
    (parse : List UInt8 → Option α) {f : α × List UInt8 × Bool → Option β}
    (hf : ∀ x c, f (x, [], c) = none) (s : List UInt8) (r : β) :
    (fieldNext key parse s).bind f = some r ↔ ∃ v x rest, s = key ++ 61 :: v ++ 44 :: rest ∧
      v ≠ [] ∧ 44 ∉ v ∧ parse v = some x ∧ f (x, rest, true) = some r := by
  constructor
  · intro h
    obtain ⟨⟨x, rest, hadComma⟩, hfield, hrest⟩ := Option.bind_eq_some_iff.mp h
    obtain ⟨v, hne, hv, hparse, ⟨rfl, hs⟩ | ⟨-, rfl, -⟩⟩ := fieldNext_eq_some hfield
    · exact ⟨v, x, rest, hs, hne, hv, hparse, hrest⟩
    · rw [hf] at hrest
      cases hrest
  · rintro ⟨v, x, rest, rfl, hne, hv, hparse, hrest⟩
    rw [fieldNext_comma parse hkey hne hv, hparse]
    exact hrest

/-- **The last field**: nothing follows its value. -/
theorem fieldNext_last_iff {α β : Type} {key : List UInt8} (hkey : 44 ∉ key)
    (parse : List UInt8 → Option α) {f : α × List UInt8 × Bool → Option β} {g : α → Option β}
    (hf : ∀ x cursor c, f (x, cursor, c) = if c || cursor ≠ [] then none else g x) (s : List UInt8)
    (r : β) : (fieldNext key parse s).bind f = some r ↔
      ∃ v x, s = key ++ 61 :: v ∧ v ≠ [] ∧ 44 ∉ v ∧ parse v = some x ∧ g x = some r := by
  constructor
  · intro h
    obtain ⟨⟨x, rest, hadComma⟩, hfield, hrest⟩ := Option.bind_eq_some_iff.mp h
    obtain ⟨v, hne, hv, hparse, ⟨rfl, -⟩ | ⟨rfl, rfl, hs⟩⟩ := fieldNext_eq_some hfield
    · simp [hf] at hrest
    · exact ⟨v, x, hs, hne, hv, hparse, by simpa [hf] using hrest⟩
  · rintro ⟨v, x, rfl, hne, hv, hparse, hrest⟩
    rw [fieldNext_last parse hkey hne hv, hparse]
    simpa [hf] using hrest

/-! ### The grammar -/

/-- What the strict parsers let pass as a number: digits, or, behind white
space, digits with an optional sign. -/
def Spelled (s : List UInt8) (neg : Bool) (digits : List UInt8) : Prop :=
  ∃ ws sign, (∀ c ∈ ws, isSpace c = true) ∧ Sign sign neg ∧ (ws = [] → sign = []) ∧
    IsNumeral digits ∧ s = ws ++ (sign ++ digits)

/-- A value of at most 31 bytes that C99 converts to `x`, signed. -/
def ReadsSigned (s : List UInt8) (x : ℤ) : Prop :=
  s.length ≤ 31 ∧ ∃ neg digits, Spelled s neg digits ∧ x = signedValue neg digits

/-- A value of at most 31 bytes that C99 converts to `n`, unsigned. -/
def ReadsUnsigned (s : List UInt8) (n : ℕ) : Prop :=
  s.length ≤ 31 ∧ ∃ neg digits, Spelled s neg digits ∧ Decimal.value digits ≤ uintmaxMax ∧
    n = unsignedValue neg digits

/-- A text value: not empty, and its decoding fills the buffer or ends before
it reaches a zero. -/
def TextValue (s : List UInt8) : Prop := s ≠ [] ∧ 44 ∉ s ∧ 0 ∉ (unescape s).take 63

/-- A value of 1 to 31 digits and nothing else. -/
def DigitValue (s : List UInt8) : Prop := IsNumeral s ∧ s.length ≤ 31

/-- The six values of a line. -/
structure EventValues where
  kind : List UInt8
  block : List UInt8
  reason : List UInt8
  index : List UInt8
  limit : List UInt8
  aux : List UInt8

namespace EventValues

/-- The line with these values. -/
def line (v : EventValues) : List UInt8 :=
  ascii "kind=" ++ v.kind ++ ascii ",block=" ++ v.block ++ ascii ",reason=" ++ v.reason ++
    ascii ",index=" ++ v.index ++ ascii ",limit=" ++ v.limit ++ ascii ",aux=" ++ v.aux

/-- The documented schema. -/
structure Strict (P : Platform) (v : EventValues) : Prop where
  kind : DigitValue v.kind ∧ ∃ k : EventKind, Decimal.value v.kind = k.code
  block : TextValue v.block
  reason : TextValue v.reason
  index : DigitValue v.index ∧ Decimal.value v.index ≤ P.sizeMax
  limit : DigitValue v.limit ∧ Decimal.value v.limit ≤ P.sizeMax
  aux : DigitValue v.aux ∧ Decimal.value v.aux ≤ uint32Max

/-- The values the parser can read. -/
structure Readable (P : Platform) (v : EventValues) : Prop where
  kind : ∃ k : EventKind, ReadsSigned v.kind k.code
  block : TextValue v.block
  reason : TextValue v.reason
  index : ∃ n ≤ P.sizeMax, ReadsUnsigned v.index n
  limit : ∃ n ≤ P.sizeMax, ReadsUnsigned v.limit n
  aux : ∃ n ≤ uint32Max, ReadsUnsigned v.aux n

/-- The values, and what is read from them. -/
structure Reads (v : EventValues) (l : EventLocals P) : Prop where
  kind : ReadsSigned v.kind l.kind.code
  block : TextValue v.block ∧ l.block.bytes = (unescape v.block).take 63
  reason : TextValue v.reason ∧ l.reason.bytes = (unescape v.reason).take 63
  index : ReadsUnsigned v.index l.index.toNat
  limit : ReadsUnsigned v.limit l.limit.toNat
  aux : ReadsUnsigned v.aux l.aux.toNat

/-- One of the four numbers starts with white space. -/
def HasPadding (v : EventValues) : Prop :=
  Padded v.kind ∨ Padded v.index ∨ Padded v.limit ∨ Padded v.aux

/-- The numbers of an event are the values of the digits. -/
def Numbers (v : EventValues) (e : ExtEvent P) : Prop :=
  e.kind.code = Decimal.value v.kind ∧ e.index.toNat = Decimal.value v.index ∧
    e.limit.toNat = Decimal.value v.limit ∧ e.auxCode.toNat = Decimal.value v.aux

end EventValues

/-! ### One value -/

theorem Spelled.ne_nil {s digits : List UInt8} {neg : Bool} (h : Spelled s neg digits) : s ≠ [] := by
  obtain ⟨ws, sign, -, -, -, hdigits, rfl⟩ := h
  simp [hdigits.1]

theorem Spelled.no_comma {s digits : List UInt8} {neg : Bool} (h : Spelled s neg digits) : 44 ∉ s := by
  obtain ⟨ws, sign, hws, hsign, -, hdigits, rfl⟩ := h
  simp only [List.mem_append, not_or]
  refine ⟨fun hmem => absurd (hws 44 hmem) (by decide), fun hmem => ?_,
    fun hmem => absurd (hdigits.2 44 hmem) (by decide)⟩
  rcases hsign with ⟨rfl, -⟩ | ⟨rfl, -⟩ | ⟨rfl, -⟩ <;> simp at hmem

theorem numberValue_eq_some_iff {α : Type} (parse : List UInt8 → Option α) (s : List UInt8) (x : α) :
    numberValue 32 parse s = some x ↔ s.length ≤ 31 ∧ parse s = some x := by
  unfold numberValue
  rw [Option.ite_none_left_eq_some]
  exact and_congr_left fun _ => by omega

/-- **A kind** is read from the value of an enumerator. -/
theorem kindValue_iff (s : List UInt8) (k : EventKind) :
    numberValue 32 (parseIntStrict P) s = some (k.code : ℤ) ↔ ReadsSigned s k.code := by
  have hk := k.code_le
  rw [numberValue_eq_some_iff, parseIntStrict_eq_some_iff]
  constructor
  · rintro ⟨hlen, neg, digits, hread, hx, -⟩
    exact ⟨hlen, neg, digits, (reading_iff s neg digits).mp hread, hx⟩
  · rintro ⟨hlen, neg, digits, hspelled, hx⟩
    refine ⟨hlen, neg, digits, (reading_iff s neg digits).mpr hspelled, hx, by omega, ?_⟩
    simp only [intMax]
    omega

theorem sizeValue_iff (s : List UInt8) (x : P.Size) :
    numberValue 32 (parseSizeStrict P) s = some x ↔ ReadsUnsigned s x.toNat := by
  rw [numberValue_eq_some_iff, parseSizeStrict_eq_some_iff]
  simp only [reading_iff]
  rfl

theorem u32Value_iff (s : List UInt8) (x : BitVec 32) :
    numberValue 32 parseU32Strict s = some x ↔ ReadsUnsigned s x.toNat := by
  rw [numberValue_eq_some_iff, parseU32Strict_eq_some_iff]
  simp only [reading_iff]
  rfl

/-- **A text** is read from every value whose decoding reaches no zero. -/
theorem textValue_eq_some_iff {s : List UInt8} (h0 : 0 ∉ s) (hcomma : 44 ∉ s) (t : CStr) :
    textValue s = some t ↔ TextValue s ∧ t.bytes = (unescape s).take 63 := by
  have hdec := decodeKvValueN_eq (show 0 < 64 by norm_num) h0
  unfold textValue TextValue
  rw [Option.ite_none_left_eq_some, hdec]
  simp only [Nat.add_one_sub_one]
  by_cases hz : 0 ∈ (unescape s).take 63
  · simp [hz]
  · rw [if_neg hz, Option.map_some, Option.some_inj]
    constructor
    · rintro ⟨hne, rfl⟩
      exact ⟨⟨by simpa using hne, hcomma, hz⟩, bufText_bytes hz⟩
    · rintro ⟨⟨hne, -, -⟩, ht⟩
      exact ⟨by simpa using hne, CStr.ext_bytes ((bufText_bytes hz).trans ht.symm)⟩

/-! ### The whole line -/

namespace EventValues

/-- The tokens of the line. -/
def tokens (v : EventValues) : List (List UInt8) :=
  [ascii "kind" ++ 61 :: v.kind, ascii "block" ++ 61 :: v.block, ascii "reason" ++ 61 :: v.reason,
    ascii "index" ++ 61 :: v.index, ascii "limit" ++ 61 :: v.limit, ascii "aux" ++ 61 :: v.aux]

theorem line_eq (v : EventValues) : v.line = [44].intercalate v.tokens := by
  have h1 : ascii "kind=" = ascii "kind" ++ [61] := by decide
  have h2 : ascii ",block=" = 44 :: ascii "block" ++ [61] := by decide
  have h3 : ascii ",reason=" = 44 :: ascii "reason" ++ [61] := by decide
  have h4 : ascii ",index=" = 44 :: ascii "index" ++ [61] := by decide
  have h5 : ascii ",limit=" = 44 :: ascii "limit" ++ [61] := by decide
  have h6 : ascii ",aux=" = 44 :: ascii "aux" ++ [61] := by decide
  simp only [line, h1, h2, h3, h4, h5, h6, tokens, List.intercalate]
  simp

theorem Readable.no_comma {v : EventValues} (h : v.Readable P) :
    44 ∉ v.kind ∧ 44 ∉ v.block ∧ 44 ∉ v.reason ∧ 44 ∉ v.index ∧ 44 ∉ v.limit ∧ 44 ∉ v.aux := by
  obtain ⟨k, -, neg, digits, hkind, -⟩ := h.kind
  obtain ⟨i, -, -, negi, digitsi, hindex, -⟩ := h.index
  obtain ⟨l, -, -, negl, digitsl, hlimit, -⟩ := h.limit
  obtain ⟨a, -, -, nega, digitsa, haux, -⟩ := h.aux
  exact ⟨hkind.no_comma, h.block.2.1, h.reason.2.1, hindex.no_comma, hlimit.no_comma, haux.no_comma⟩

theorem Readable.splitOn_line {v : EventValues} (h : v.Readable P) : v.line.splitOn 44 = v.tokens := by
  obtain ⟨h1, h2, h3, h4, h5, h6⟩ := h.no_comma
  have k1 : 44 ∉ ascii "kind" := by decide
  have k2 : 44 ∉ ascii "block" := by decide
  have k3 : 44 ∉ ascii "reason" := by decide
  have k4 : 44 ∉ ascii "index" := by decide
  have k5 : 44 ∉ ascii "limit" := by decide
  have k6 : 44 ∉ ascii "aux" := by decide
  rw [line_eq]
  refine List.splitOn_intercalate 44 ?_ (by simp [tokens])
  simp [tokens, h1, h2, h3, h4, h5, h6, k1, k2, k3, k4, k5, k6]

theorem Readable.eq_of_line_eq {v w : EventValues} (hv : v.Readable P) (hw : w.Readable P)
    (h : v.line = w.line) : v = w := by
  have htokens : v.tokens = w.tokens := by rw [← hv.splitOn_line, ← hw.splitOn_line, h]
  simp only [tokens, List.cons.injEq, List.append_cancel_left_eq, true_and, and_true] at htokens
  obtain ⟨h1, h2, h3, h4, h5, h6⟩ := htokens
  cases v
  cases w
  simp_all

theorem readable_iff (v : EventValues) : v.Readable P ↔ ∃ l : EventLocals P, v.Reads l := by
  constructor
  · intro h
    obtain ⟨k, hk⟩ := h.kind
    obtain ⟨i, hi, hindex⟩ := h.index
    obtain ⟨m, hm, hlimit⟩ := h.limit
    obtain ⟨a, ha, haux⟩ := h.aux
    have hpos := Nat.two_pow_pos P.sizeBits
    simp only [Platform.sizeMax] at hi hm
    simp only [uint32Max] at ha
    refine ⟨⟨k, ⟨_, h.block.2.2⟩, ⟨_, h.reason.2.2⟩, BitVec.ofNat _ i, BitVec.ofNat _ m,
      BitVec.ofNat _ a⟩, hk, ⟨h.block, rfl⟩, ⟨h.reason, rfl⟩, ?_, ?_, ?_⟩
    · rwa [BitVec.toNat_ofNat, Nat.mod_eq_of_lt (by omega)]
    · rwa [BitVec.toNat_ofNat, Nat.mod_eq_of_lt (by omega)]
    · rwa [BitVec.toNat_ofNat, Nat.mod_eq_of_lt (by omega)]
  · rintro ⟨l, h⟩
    refine ⟨⟨l.kind, h.kind⟩, h.block.1, h.reason.1, ⟨_, ?_, h.index⟩, ⟨_, ?_, h.limit⟩, ⟨_, ?_, h.aux⟩⟩
    · exact Nat.le_sub_one_of_lt l.index.isLt
    · exact Nat.le_sub_one_of_lt l.limit.isLt
    · exact Nat.le_sub_one_of_lt l.aux.isLt

theorem nulFree_texts {v : EventValues} (h : 0 ∉ v.line) : 0 ∉ v.block ∧ 0 ∉ v.reason := by
  constructor
  · intro hmem
    apply h
    simp [EventValues.line, hmem]
  · intro hmem
    apply h
    simp [EventValues.line, hmem]

end EventValues

open EventValues

/-- What the parser takes is a line of values, read as they are. -/
theorem reads_of_eventLocals {line : CStr} {l : EventLocals P} (h : eventLocals line = some l) :
    ∃ v : EventValues, line.bytes = v.line ∧ v.Reads l := by
  have h0 := line.nulFree
  unfold eventLocals at h
  obtain ⟨v1, kind, s1, hs1, hne1, hc1, hp1, h⟩ :=
    (fieldNext_bind_iff (by decide) _ (fun _ _ => by simp [fieldNext_nil]) _ _).mp h
  obtain ⟨v2, block, s2, rfl, hne2, hc2, hp2, h⟩ :=
    (fieldNext_bind_iff (by decide) _ (fun _ _ => by simp [fieldNext_nil]) _ _).mp h
  obtain ⟨v3, reason, s3, rfl, hne3, hc3, hp3, h⟩ :=
    (fieldNext_bind_iff (by decide) _ (fun _ _ => by simp [fieldNext_nil]) _ _).mp h
  obtain ⟨v4, index, s4, rfl, hne4, hc4, hp4, h⟩ :=
    (fieldNext_bind_iff (by decide) _ (fun _ _ => by simp [fieldNext_nil]) _ _).mp h
  obtain ⟨v5, limit, s5, rfl, hne5, hc5, hp5, h⟩ :=
    (fieldNext_bind_iff (by decide) _ (fun _ _ => by simp [fieldNext_nil]) _ _).mp h
  obtain ⟨v6, aux, rfl, hne6, hc6, hp6, h⟩ :=
    (fieldNext_last_iff (show 44 ∉ ascii "aux" by decide) _ (fun _ _ _ => rfl) _ _).mp h
  simp only [Option.ite_none_left_eq_some, Option.map_eq_some_iff] at h
  obtain ⟨-, k, hk, rfl⟩ := h
  obtain rfl := (EventKind.ofCode_eq_some_iff kind k).mp hk
  have hline : line.bytes = (⟨v1, v2, v3, v4, v5, v6⟩ : EventValues).line := by
    rw [hs1, line_eq]
    simp [tokens, List.intercalate]
  rw [hline] at h0
  obtain ⟨hblock0, hreason0⟩ := nulFree_texts h0
  exact ⟨⟨v1, v2, v3, v4, v5, v6⟩, hline, (kindValue_iff v1 k).mp hp1,
    (textValue_eq_some_iff hblock0 hc2 block).mp hp2,
    (textValue_eq_some_iff hreason0 hc3 reason).mp hp3, (sizeValue_iff v4 index).mp hp4,
    (sizeValue_iff v5 limit).mp hp5, (u32Value_iff v6 aux).mp hp6⟩

/-- A line of values that are read is taken. -/
theorem eventLocals_of_reads {line : CStr} {v : EventValues} (hline : line.bytes = v.line)
    {l : EventLocals P} (h : v.Reads l) : eventLocals line = some l := by
  have h0 := line.nulFree
  rw [hline] at h0
  obtain ⟨hblock0, hreason0⟩ := nulFree_texts h0
  have hread := (readable_iff v).mpr ⟨l, h⟩
  have hblock := (textValue_eq_some_iff hblock0 h.block.1.2.1 l.block).mpr h.block
  have hreason := (textValue_eq_some_iff hreason0 h.reason.1.2.1 l.reason).mpr h.reason
  have hkind := (kindValue_iff (P := P) v.kind l.kind).mpr h.kind
  have hindex := (sizeValue_iff v.index l.index).mpr h.index
  have hlimit := (sizeValue_iff v.limit l.limit).mpr h.limit
  have haux := (u32Value_iff v.aux l.aux).mpr h.aux
  rw [eventLocals_eq, hline, hread.splitOn_line]
  obtain ⟨-, _, _, hk, -⟩ := h.kind
  obtain ⟨-, _, _, hi, -⟩ := h.index
  obtain ⟨-, _, _, hm, -⟩ := h.limit
  obtain ⟨-, _, _, ha, -⟩ := h.aux
  simp [tokens, localsOfTokens, tokenField_append _ hk.ne_nil, tokenField_append _ hi.ne_nil,
    tokenField_append _ hm.ne_nil, tokenField_append _ ha.ne_nil,
    tokenField_append _ h.block.1.1, tokenField_append _ h.reason.1.1, hkind, hblock, hreason, hindex,
    hlimit, haux, eventKindIsValid_code, EventKind.ofCode_code]

/-- **What the parser accepts**, and what it reads there. -/
theorem eventLocals_iff (line : CStr) (l : EventLocals P) :
    eventLocals line = some l ↔ ∃ v : EventValues, line.bytes = v.line ∧ v.Reads l := by
  constructor
  · exact reads_of_eventLocals
  · rintro ⟨v, hline, h⟩
    exact eventLocals_of_reads hline h

/-! ### The documented schema -/

/-- A number without white space in front of it is digits and nothing else. -/
theorem Spelled.eq_of_not_padded {s digits : List UInt8} {neg : Bool} (h : Spelled s neg digits)
    (hs : ¬ Padded s) : IsNumeral s ∧ neg = false ∧ digits = s :=
  ((reading_iff s neg digits).mpr h).eq_of_not_padded hs

theorem spelled_numeral {s : List UInt8} (h : IsNumeral s) : Spelled s false s :=
  (reading_iff s false s).mp (reading_numeral h)

theorem DigitValue.readsSigned {s : List UInt8} (h : DigitValue s) :
    ReadsSigned s (Decimal.value s) :=
  ⟨h.2, false, s, spelled_numeral h.1, rfl⟩

theorem DigitValue.readsUnsigned {s : List UInt8} (h : DigitValue s)
    (hmax : Decimal.value s ≤ uintmaxMax) : ReadsUnsigned s (Decimal.value s) :=
  ⟨h.2, false, s, spelled_numeral h.1, hmax, rfl⟩

theorem ReadsSigned.digits {s : List UInt8} {x : ℤ} (h : ReadsSigned s x) (hs : ¬ Padded s) :
    DigitValue s ∧ x = Decimal.value s := by
  obtain ⟨hlen, neg, digits, hspelled, rfl⟩ := h
  obtain ⟨hnum, rfl, rfl⟩ := hspelled.eq_of_not_padded hs
  exact ⟨⟨hnum, hlen⟩, rfl⟩

theorem ReadsUnsigned.digits {s : List UInt8} {n : ℕ} (h : ReadsUnsigned s n) (hs : ¬ Padded s) :
    DigitValue s ∧ n = Decimal.value s := by
  obtain ⟨hlen, neg, digits, hspelled, -, rfl⟩ := h
  obtain ⟨hnum, rfl, rfl⟩ := hspelled.eq_of_not_padded hs
  exact ⟨⟨hnum, hlen⟩, rfl⟩

theorem sizeMax_le_uintmaxMax (P : Platform) : P.sizeMax ≤ uintmaxMax := by
  have h : 2 ^ P.sizeBits ≤ 2 ^ 64 := Nat.pow_le_pow_right (by norm_num) P.sizeBits_le
  simp only [Platform.sizeMax, uintmaxMax]
  omega

namespace EventValues

theorem Strict.readable {v : EventValues} (h : v.Strict P) : v.Readable P := by
  have hsize := sizeMax_le_uintmaxMax P
  have h32 : uint32Max ≤ uintmaxMax := by simp only [uint32Max, uintmaxMax]; omega
  obtain ⟨hkind, k, hk⟩ := h.kind
  refine ⟨⟨k, ?_⟩, h.block, h.reason, ?_, ?_, ?_⟩
  · rw [← hk]
    exact hkind.readsSigned
  · exact ⟨_, h.index.2, h.index.1.readsUnsigned (h.index.2.trans hsize)⟩
  · exact ⟨_, h.limit.2, h.limit.1.readsUnsigned (h.limit.2.trans hsize)⟩
  · exact ⟨_, h.aux.2, h.aux.1.readsUnsigned (h.aux.2.trans h32)⟩

theorem Strict.not_hasPadding {v : EventValues} (h : v.Strict P) : ¬ v.HasPadding := by
  rintro (hp | hp | hp | hp)
  · exact not_padded_numeral h.kind.1.1 hp
  · exact not_padded_numeral h.index.1.1 hp
  · exact not_padded_numeral h.limit.1.1 hp
  · exact not_padded_numeral h.aux.1.1 hp

/-- **Without white space** what can be read is of the schema, and its numbers
are the values of its digits. -/
theorem Reads.strict {v : EventValues} {l : EventLocals P} (h : v.Reads l) (hp : ¬ v.HasPadding) :
    v.Strict P ∧ v.Numbers l.event := by
  simp only [HasPadding, not_or] at hp
  obtain ⟨h1, h2, h3, h4⟩ := hp
  obtain ⟨hkind, hk⟩ := h.kind.digits h1
  obtain ⟨hindex, hi⟩ := h.index.digits h2
  obtain ⟨hlimit, hm⟩ := h.limit.digits h3
  obtain ⟨haux, ha⟩ := h.aux.digits h4
  have hk' : Decimal.value v.kind = l.kind.code := by exact_mod_cast hk.symm
  refine ⟨⟨⟨hkind, l.kind, hk'⟩, h.block.1, h.reason.1, ⟨hindex, ?_⟩, ⟨hlimit, ?_⟩, ⟨haux, ?_⟩⟩,
    hk'.symm, hi, hm, ha⟩
  · rw [← hi]
    exact Nat.le_sub_one_of_lt l.index.isLt
  · rw [← hm]
    exact Nat.le_sub_one_of_lt l.limit.isLt
  · rw [← ha]
    exact Nat.le_sub_one_of_lt l.aux.isLt

end EventValues

/-- What a successful parse leaves behind. -/
theorem eventParseCsvLineEx_of_some {line : CStr} {l : EventLocals P} (h : eventLocals line = some l)
    (out : EventSnapshot P) : (eventParseCsvLineEx line out).1 = true ∧
      (eventParseCsvLineEx line out).2.event = l.event := by
  unfold eventParseCsvLineEx
  rw [h]
  exact ⟨rfl, rfl⟩

theorem eventParseCsvLineEx_eq_true_iff (line : CStr) (out : EventSnapshot P) :
    (eventParseCsvLineEx line out).1 = true ↔ ∃ l : EventLocals P, eventLocals line = some l := by
  constructor
  · unfold eventParseCsvLineEx
    cases h : (eventLocals line : Option (EventLocals P)) with
    | none => exact fun hfalse => absurd hfalse (by simp)
    | some l => exact fun _ => ⟨l, rfl⟩
  · rintro ⟨l, h⟩
    exact (eventParseCsvLineEx_of_some h out).1

/-- A line the parser reads although a number of it starts with white space. -/
def PaddedLine (P : Platform) (line : CStr) : Prop :=
  ∃ v : EventValues, line.bytes = v.line ∧ v.Readable P ∧ v.HasPadding

/-- **When the parser is strict.** It accepts the lines of the schema and no
others, and returns the values of their digits, except on a line with a padded
number. -/
theorem strict_iff_not_padded (line : CStr) (out : EventSnapshot P) :
    (((eventParseCsvLineEx line out).1 = true ↔ ∃ v : EventValues, line.bytes = v.line ∧ v.Strict P) ∧
      ∀ v : EventValues, line.bytes = v.line → v.Strict P →
        v.Numbers (eventParseCsvLineEx line out).2.event) ↔ ¬ PaddedLine P line := by
  constructor
  · rintro ⟨haccept, -⟩ ⟨v, hline, hread, hpadding⟩
    obtain ⟨l, hl⟩ := (readable_iff v).mp hread
    have hlocals := (eventLocals_iff line l).mpr ⟨v, hline, hl⟩
    obtain ⟨w, hw, hstrict⟩ := haccept.mp (eventParseCsvLineEx_of_some hlocals out).1
    obtain rfl := hread.eq_of_line_eq hstrict.readable (hline.symm.trans hw)
    exact hstrict.not_hasPadding hpadding
  · intro hnot
    refine ⟨⟨fun h => ?_, ?_⟩, ?_⟩
    · obtain ⟨l, hlocals⟩ := (eventParseCsvLineEx_eq_true_iff line out).mp h
      obtain ⟨v, hline, hreads⟩ := (eventLocals_iff line l).mp hlocals
      have hp : ¬ v.HasPadding := fun hp => hnot ⟨v, hline, (readable_iff v).mpr ⟨l, hreads⟩, hp⟩
      exact ⟨v, hline, (hreads.strict hp).1⟩
    · rintro ⟨v, hline, hstrict⟩
      obtain ⟨l, hl⟩ := (readable_iff v).mp hstrict.readable
      exact (eventParseCsvLineEx_of_some ((eventLocals_iff line l).mpr ⟨v, hline, hl⟩) out).1
    · intro v hline hstrict
      obtain ⟨l, hl⟩ := (readable_iff v).mp hstrict.readable
      rw [(eventParseCsvLineEx_of_some ((eventLocals_iff line l).mpr ⟨v, hline, hl⟩) out).2]
      exact (hl.strict hstrict.not_hasPadding).2

/-- A blank before the kind, and an aux code that C99 wraps to 1. -/
def paddedLine : CStr :=
  .lit "kind= 7,block=a,reason=b,index=0,limit=0,aux= -18446744073709551615"

theorem strict_padded : (eventParseCsvLineEx (P := .host) paddedLine .zero).1 = true ∧
    (eventParseCsvLineEx (P := .host) paddedLine .zero).2.event.auxCode = 1 ∧
    ¬ ∃ v : EventValues, paddedLine.bytes = v.line ∧ v.Strict .host := by
  refine ⟨by decide +kernel, by decide +kernel, ?_⟩
  rintro ⟨v, hline, hstrict⟩
  have htokens : paddedLine.bytes.splitOn 44 = v.tokens := by
    rw [hline, hstrict.readable.splitOn_line]
  have hkind : ascii "kind= 7" = ascii "kind" ++ 61 :: v.kind := by
    have hhead := congrArg List.head? htokens
    rw [show (paddedLine.bytes.splitOn 44).head? = some (ascii "kind= 7") by decide +kernel] at hhead
    exact Option.some_inj.mp hhead
  have hblank : ascii " 7" = v.kind := by
    rw [show ascii "kind= 7" = ascii "kind" ++ 61 :: ascii " 7" by decide] at hkind
    exact (List.cons.inj (List.append_cancel_left hkind)).2
  exact absurd (hstrict.kind.1.1.2 32 (by rw [← hblank]; decide)) (by decide)

/-! ### The line of an event, cut -/

/-- A numeral and what is read from its front. -/
theorem u32Value_of_prefix {s digits : List UInt8} {x : BitVec 32} (hs : IsNumeral digits)
    (hp : s <+: digits) (hne : s ≠ []) (h : numberValue 32 parseU32Strict s = some x) :
    x.toNat = Decimal.value s := by
  have hnum : IsNumeral s := ⟨hne, fun c hc => hs.2 c (hp.subset hc)⟩
  exact (((u32Value_iff s x).mp h).digits (not_padded_numeral hnum)).2

/-- **What a cut line is read as.** If the parser accepts what the formatter
left of an event's line, the kind, the index and the limit are the event's,
and the aux code is the number that the digits left of it spell. It is the
event's aux code exactly when nothing was cut off. -/
theorem cut_line_reads (e : ExtEvent P) (hb : NonemptyText e.blockName) (hr : NonemptyText e.reason)
    {outLen : ℕ} (hlen : 1 ≤ outLen) (out snap : EventSnapshot P)
    (h : eventParseCsvLineEx (bufText (eventFormatCsv (some e) outLen).text) out = (true, snap)) :
    snap.event.kind = e.kind ∧ snap.event.index = e.index ∧ snap.event.limit = e.limit ∧
      (∃ digits, digits ≠ [] ∧ digits <+: decimal e.auxCode.toNat ∧
        (eventFormatCsv (some e) outLen).text = eventLineHead e ++ digits ∧
        snap.event.auxCode.toNat = Decimal.value digits) ∧
      (snap.event.auxCode = e.auxCode ↔ (eventLine e).length < outLen) := by
  have h0 := nulFree_eventLine e
  have hline := eventLocals_eventLine e hb hr
  rw [text_eventFormatCsv e hlen] at h ⊢
  by_cases hcut : (eventLine e).length < outLen
  · rw [List.take_of_length_le (by omega)] at h ⊢
    rw [eventParseCsvLineEx, hline] at h
    obtain rfl := (Prod.mk.inj h).2
    exact ⟨rfl, rfl, rfl, ⟨_, decimal_ne_nil _, List.prefix_rfl, rfl, (value_decimal _).symm⟩,
      fun _ => hcut, fun _ => rfl⟩
  · rw [bufText_take h0] at h
    cases hl : (eventLocals ((bufText (eventLine e)).take (outLen - 1)) : Option (EventLocals P)) with
    | none =>
      rw [eventParseCsvLineEx, hl] at h
      cases h
    | some l =>
      rw [eventParseCsvLineEx, hl] at h
      obtain rfl := (Prod.mk.inj h).2
      have hn : outLen - 1 < (bufText (eventLine e)).length := by
        rw [CStr.length, bufText_bytes h0]
        omega
      obtain ⟨head, v, t, hleft, hwhole, hvne, -, hv, -, heq⟩ := eventLocals_take hn hline hl
      rw [bufText_bytes h0, splitOn_eventLine] at hwhole
      obtain ⟨rfl, haux⟩ := List.append_inj' hwhole rfl
      have hdec : decimal e.auxCode.toNat = v ++ t := by simpa [eventTokenAux] using haux
      have hp : v <+: decimal e.auxCode.toNat := ⟨t, hdec.symm⟩
      -- what is left is the first five tokens and the digits `v`
      have htext : (eventLine e).take (outLen - 1) = eventLineHead e ++ v := by
        rw [CStr.bytes_take, bufText_bytes h0] at hleft
        rw [eventLineHead_append, ← hleft, List.intercalate_splitOn]
      have hne := eventLocals_take_ne e hb hr (by omega) hl
      simp only [EventLocals.mk.injEq] at heq
      obtain ⟨hkind, -, -, hindex, hlimit, -⟩ := heq
      exact ⟨hkind.symm, hindex.symm, hlimit.symm,
        ⟨v, hvne, hp, htext, u32Value_of_prefix (isNumeral_decimal _) hp hvne hv⟩,
        fun he => absurd he hne, fun hlt => absurd hlt hcut⟩

/-- An event with a two-digit aux code. -/
def twoDigitEvent : ExtEvent .host := ⟨.blockError, some (.lit "a"), some (.lit "b"), 0, 0, 12⟩

theorem cut_line_reads_twoDigit : ∃ snap : EventSnapshot .host,
    eventParseCsvLineEx (bufText (eventFormatCsv (some twoDigitEvent) 46).text) .zero = (true, snap) ∧
    snap.event.kind = .blockError := by
  let parsed : Bool × EventSnapshot .host :=
    eventParseCsvLineEx (bufText (eventFormatCsv (some twoDigitEvent) 46).text) .zero
  have h : parsed = (true, parsed.2) := by decide +kernel
  exact ⟨parsed.2, h, (cut_line_reads twoDigitEvent (by decide) (by decide) (by norm_num) .zero _ h).1⟩

theorem cut_line_reads_oneDigit : ∃ snap : EventSnapshot .host,
    eventParseCsvLineEx (bufText (eventFormatCsv (some twoDigitEvent) 46).text) .zero = (true, snap) ∧
    snap.event.auxCode ≠ twoDigitEvent.auxCode :=
  ⟨(eventParseCsvLineEx (bufText (eventFormatCsv (some twoDigitEvent) 46).text) .zero).2,
    by decide +kernel, by decide +kernel⟩

end Loxguard
