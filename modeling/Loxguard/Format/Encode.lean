/-
# The values of a line

`lox_encode_kv_value` and `lox_decode_kv_value_n`: block and reason texts are
percent-encoded into a buffer of fixed size, and decoded from a stretch of a
line into one. The encoder's loop is the encoding of the longest prefix that
fits (`encodeKvValue_eq`), so it never cuts an escape; the decoder reads such
an encoding back whole (`decodeKvValueN_escape`). On any bytes at all it
writes the start of their decoding (`bounded_decoding`).

Key definitions: `kvReserved`, `encodeKvValue`, `decodeKvValueN`,
`decodeKvValueBuf`.
Key theorems: `encodeKvValue_eq`, `decodeLoop_marked`, `decodeKvValueN_escape`,
`bounded_decoding`.
-/
import Loxguard.Lib.Percent
import Loxguard.Types

namespace Loxguard

open Lib Lib.Percent

/-- The bytes the encoder escapes: `,`, `\n`, `\r`, `=` and `%`. -/
def kvReserved : Reserved where
  mem c := c == 44 || c == 10 || c == 13 || c == 61 || c == 37
  pct_mem := by decide

/-- `k_hex`. -/
def kHex : List UInt8 := ascii "0123456789ABCDEF"

/-- The loop of `lox_encode_kv_value` from position `pos` on. -/
def encodeLoop (dstLen : ℕ) : List UInt8 → ℕ → List UInt8
  | [], _ => []
  | c :: src, pos =>
    if pos + 1 < dstLen then
      if kvReserved.mem c then
        if pos + 3 ≥ dstLen then []
        else 37 :: kHex.getD (c.toNat >>> 4 &&& 15) 0 :: kHex.getD (c.toNat &&& 15) 0 ::
          encodeLoop dstLen src (pos + 3)
      else c :: encodeLoop dstLen src (pos + 1)
    else []

/-- `lox_encode_kv_value`: what the buffer of `dstLen` bytes reads as. -/
def encodeKvValue (dstLen : ℕ) : Option CStr → List UInt8
  | none => []
  | some src => encodeLoop dstLen src.bytes 0

/-- `lox_hex_value`, `none` for `-1`. -/
def hexValue (c : UInt8) : Option ℕ :=
  if c ≥ 48 ∧ c ≤ 57 then some (c - 48).toNat
  else if c ≥ 97 ∧ c ≤ 102 then some ((c - 97).toNat + 10)
  else if c ≥ 65 ∧ c ≤ 70 then some ((c - 65).toNat + 10)
  else none

/-- The loop of `lox_decode_kv_value_n` from position `pos` on, `none` when it
returns 0. -/
def decodeLoop (dstLen : ℕ) : List UInt8 → ℕ → Option (List UInt8)
  | c :: h :: l :: src, pos =>
    if pos + 1 < dstLen then
      match if c = 37 then (hexValue h).bind fun hi => (hexValue l).map fun lo => (hi, lo) else none with
      | some (hi, lo) =>
        let decoded := UInt8.ofNat (hi <<< 4 ||| lo)
        if decoded = 0 then none else (decodeLoop dstLen src (pos + 1)).map (decoded :: ·)
      | none => (decodeLoop dstLen (h :: l :: src) (pos + 1)).map (c :: ·)
    else some []
  | c :: src, pos =>
    if pos + 1 < dstLen then (decodeLoop dstLen src (pos + 1)).map (c :: ·) else some []
  | [], _ => some []

/-- `lox_decode_kv_value_n`: what the buffer of `dstLen` bytes holds before its
terminator, `none` when 0 is returned. -/
def decodeKvValueN (dstLen : ℕ) (src : List UInt8) : Option (List UInt8) :=
  if dstLen = 0 then none else decodeLoop dstLen src 0

/-- The same loop on the bytes of the destination, with the terminator: what is
returned, and the bytes afterwards. -/
def decodeBufLoop (dst : List UInt8) : List UInt8 → ℕ → Bool × List UInt8
  | c :: h :: l :: src, pos =>
    if pos + 1 < dst.length then
      match if c = 37 then (hexValue h).bind fun hi => (hexValue l).map fun lo => (hi, lo) else none with
      | some (hi, lo) =>
        let decoded := UInt8.ofNat (hi <<< 4 ||| lo)
        if decoded = 0 then (false, dst) else decodeBufLoop (dst.set pos decoded) src (pos + 1)
      | none => decodeBufLoop (dst.set pos c) (h :: l :: src) (pos + 1)
    else (true, dst.set pos 0)
  | c :: src, pos =>
    if pos + 1 < dst.length then decodeBufLoop (dst.set pos c) src (pos + 1) else (true, dst.set pos 0)
  | [], pos => (true, dst.set pos 0)

/-- `lox_decode_kv_value_n` on the `dst_len` bytes of its destination. -/
def decodeKvValueBuf (dst src : List UInt8) : Bool × List UInt8 :=
  if dst.length = 0 then (false, dst) else decodeBufLoop dst src 0

/-! ### The encoder -/

theorem kHex_getD : ∀ n < 16, kHex.getD n 0 = hexDigit n := by decide

theorem kHex_hi (c : UInt8) : kHex.getD (c.toNat >>> 4 &&& 15) 0 = hexDigit (c.toNat / 16) := by
  have hc := c.toNat_lt
  have h : c.toNat >>> 4 &&& 15 = c.toNat / 16 := by
    rw [Nat.shiftRight_eq_div_pow, Nat.and_two_pow_sub_one_eq_mod (n := 4)]
    omega
  rw [h, kHex_getD _ (by omega)]

theorem kHex_lo (c : UInt8) : kHex.getD (c.toNat &&& 15) 0 = hexDigit (c.toNat % 16) := by
  have h : c.toNat &&& 15 = c.toNat % 16 := Nat.and_two_pow_sub_one_eq_mod (n := 4) c.toNat
  rw [h, kHex_getD _ (Nat.mod_lt _ (by omega))]

theorem escapeByte_reserved {c : UInt8} (h : kvReserved.mem c = true) : kvReserved.escapeByte c =
    [37, kHex.getD (c.toNat >>> 4 &&& 15) 0, kHex.getD (c.toNat &&& 15) 0] := by
  rw [Reserved.escapeByte, if_pos h, kHex_hi, kHex_lo]
  rfl

theorem escapeByte_plain {c : UInt8} (h : kvReserved.mem c = false) : kvReserved.escapeByte c = [c] := by
  simp [Reserved.escapeByte, h]

/-- The loop writes the encoding of the bytes whose encodings fit. -/
theorem encodeLoop_eq (dstLen : ℕ) : ∀ (src : List UInt8) (pos : ℕ),
    encodeLoop dstLen src pos = kvReserved.escape (kvReserved.fit (dstLen - 1 - pos) src)
  | [], pos => by simp [encodeLoop, Reserved.fit]
  | c :: src, pos => by
    rw [encodeLoop, Reserved.fit]
    by_cases hR : kvReserved.mem c = true
    · have hlen : (kvReserved.escapeByte c).length = 3 := by
        rw [Reserved.length_escapeByte, if_pos hR]
      by_cases hpos : pos + 3 < dstLen
      · rw [if_pos (by omega), if_pos hR, if_neg (by omega), if_pos (by omega), hlen,
          Reserved.escape_cons, escapeByte_reserved hR, encodeLoop_eq dstLen src (pos + 3)]
        rw [show dstLen - 1 - pos - 3 = dstLen - 1 - (pos + 3) by omega]
        rfl
      · have hstop : pos + 3 ≥ dstLen := by omega
        rw [if_neg (show ¬ (kvReserved.escapeByte c).length ≤ dstLen - 1 - pos by omega), if_pos hR,
          if_pos hstop, ite_self]
        rfl
    · have hR' : kvReserved.mem c = false := by simpa using hR
      have hlen : (kvReserved.escapeByte c).length = 1 := by
        rw [Reserved.length_escapeByte, if_neg hR]
      by_cases hpos : pos + 1 < dstLen
      · rw [if_pos hpos, if_neg hR, if_pos (by omega), hlen, Reserved.escape_cons,
          escapeByte_plain hR', encodeLoop_eq dstLen src (pos + 1)]
        rw [show dstLen - 1 - pos - 1 = dstLen - 1 - (pos + 1) by omega]
        rfl
      · rw [if_neg hpos, if_neg (by omega)]
        rfl

/-- **The encoder** writes the encoding of the longest prefix that fits. -/
theorem encodeKvValue_eq (dstLen : ℕ) (s : CStr) : encodeKvValue dstLen (some s) =
    kvReserved.escape (kvReserved.fit (dstLen - 1) s.bytes) :=
  encodeLoop_eq dstLen s.bytes 0

theorem encodeKvValue_of_fits {dstLen : ℕ} {s : CStr}
    (h : (kvReserved.escape s.bytes).length ≤ dstLen - 1) :
    encodeKvValue dstLen (some s) = kvReserved.escape s.bytes := by
  rw [encodeKvValue_eq, kvReserved.fit_eq_self h]

theorem encodeKvValue_ne_nil {dstLen : ℕ} (hd : 4 ≤ dstLen) {s : CStr} (h : s.bytes ≠ []) :
    encodeKvValue dstLen (some s) ≠ [] := by
  rw [encodeKvValue_eq]
  exact kvReserved.escape_ne_nil (kvReserved.fit_ne_nil (by omega) h)

/-- No separator of a line shows up in an encoded value. -/
theorem not_mem_encodeKvValue {x : UInt8} (hx : x = 44 ∨ x = 10 ∨ x = 13 ∨ x = 61)
    (dstLen : ℕ) (s : CStr) : x ∉ encodeKvValue dstLen (some s) := by
  rw [encodeKvValue_eq]
  rcases hx with rfl | rfl | rfl | rfl <;>
    exact kvReserved.not_mem_escape (by decide) (by decide) (by decide) (by decide) _

theorem zero_notMem_escape {s : List UInt8} (h0 : 0 ∉ s) : 0 ∉ kvReserved.escape s := by
  intro h
  rcases kvReserved.mem_escape h with h | h | h | h
  · exact absurd h (by decide)
  · exact absurd h (by decide)
  · exact absurd h (by decide)
  · exact h0 h.1

theorem nulFree_encodeKvValue (dstLen : ℕ) (s : CStr) : 0 ∉ encodeKvValue dstLen (some s) := by
  rw [encodeKvValue_eq]
  exact zero_notMem_escape fun h => s.nulFree ((kvReserved.fit_isFit _ _).1.subset h)

/-! ### The decoder -/

theorem hexValue_eq (c : UInt8) : hexValue c = hexVal c := by
  unfold hexValue hexVal
  by_cases hdigit : 48 ≤ c ∧ c ≤ 57
  · rw [if_pos hdigit, if_pos hdigit, UInt8.toNat_sub_of_le _ _ hdigit.1]
    rfl
  rw [if_neg hdigit, if_neg hdigit]
  by_cases hlower : 97 ≤ c ∧ c ≤ 102
  · rw [if_pos hlower, if_pos hlower, UInt8.toNat_sub_of_le _ _ hlower.1]
    rfl
  rw [if_neg hlower, if_neg hlower]
  by_cases hupper : 65 ≤ c ∧ c ≤ 70
  · rw [if_pos hupper, if_pos hupper, UInt8.toNat_sub_of_le _ _ hupper.1]
    rfl
  rw [if_neg hupper, if_neg hupper]

theorem shiftLeft_or_hex {hi lo : ℕ} (h : lo < 16) : hi <<< 4 ||| lo = hi * 16 + lo := by
  rw [← Nat.shiftLeft_add_eq_or_of_lt (by simpa using h), Nat.shiftLeft_eq]

theorem length_decodeLoop_lt (dstLen : ℕ) : ∀ (src : List UInt8) (pos : ℕ) (out : List UInt8),
    pos < dstLen → decodeLoop dstLen src pos = some out → pos + out.length < dstLen := by
  intro src pos
  induction src, pos using decodeLoop.induct dstLen with
  | case1 c h l src pos hpos hi lo hm decoded hz =>
    intro out _ hout
    simp [decodeLoop, hpos, hm, decoded, hz] at hout
  | case2 c h l src pos hpos hi lo hm decoded hz ih =>
    intro out _ hout
    simp only [decodeLoop, hpos, ↓reduceIte, hm, decoded, hz, Option.map_eq_some_iff] at hout
    obtain ⟨t, ht, rfl⟩ := hout
    have := ih t (by omega) ht
    simp only [List.length_cons]
    omega
  | case3 c h l src pos hpos hm ih =>
    intro out _ hout
    simp only [decodeLoop, hpos, ↓reduceIte, hm, Option.map_eq_some_iff] at hout
    obtain ⟨t, ht, rfl⟩ := hout
    have := ih t (by omega) ht
    simp only [List.length_cons]
    omega
  | case4 c h l src pos hpos =>
    intro out hlt hout
    simp only [decodeLoop, hpos, ↓reduceIte, Option.some_inj] at hout
    subst hout
    simpa using hlt
  | case5 pos c src hshort hpos ih =>
    intro out _ hout
    rw [decodeLoop.eq_2 _ _ _ _ hshort, if_pos hpos, Option.map_eq_some_iff] at hout
    obtain ⟨t, ht, rfl⟩ := hout
    have := ih t (by omega) ht
    simp only [List.length_cons]
    omega
  | case6 pos c src hshort hpos =>
    intro out hlt hout
    rw [decodeLoop.eq_2 _ _ _ _ hshort, if_neg hpos, Option.some_inj] at hout
    subst hout
    simpa using hlt
  | case7 pos =>
    intro out hlt hout
    rw [decodeLoop, Option.some_inj] at hout
    subst hout
    simpa using hlt

theorem hexByte_eq (h l : UInt8) : hexByte h l =
    ((hexValue h).bind fun hi => (hexValue l).map fun lo => (hi, lo)).map
      fun p => UInt8.ofNat (p.1 <<< 4 ||| p.2) := by
  rw [hexValue_eq, hexValue_eq]
  unfold hexByte
  cases hexVal h with
  | none => rfl
  | some hi =>
    cases hl : hexVal l with
    | none => rfl
    | some lo =>
      simp only [Option.bind_some, Option.map_some, shiftLeft_or_hex (hexVal_lt hl)]

/-- The first `n` bytes of a decoding, nothing if an escape gave a zero among
them. -/
def takeDecoded (n : ℕ) (marked : List (UInt8 × Bool)) : Option (List UInt8) :=
  if (0, true) ∈ marked.take n then none else some ((marked.take n).map Prod.fst)

theorem takeDecoded_zero (marked : List (UInt8 × Bool)) : takeDecoded 0 marked = some [] := by
  unfold takeDecoded
  rw [List.take_zero, if_neg List.not_mem_nil]
  rfl

theorem takeDecoded_nil (n : ℕ) : takeDecoded n [] = some [] := by
  unfold takeDecoded
  rw [List.take_nil, if_neg List.not_mem_nil]
  rfl

theorem takeDecoded_cons_zero (n : ℕ) (marked : List (UInt8 × Bool)) :
    takeDecoded (n + 1) ((0, true) :: marked) = none := by
  unfold takeDecoded
  rw [List.take_succ_cons, if_pos List.mem_cons_self]

theorem takeDecoded_cons (n : ℕ) {c : UInt8} {mark : Bool} (hc : mark = true → c ≠ 0)
    (marked : List (UInt8 × Bool)) :
    takeDecoded (n + 1) ((c, mark) :: marked) = (takeDecoded n marked).map (c :: ·) := by
  unfold takeDecoded
  rw [List.take_succ_cons]
  by_cases hmem : (0, true) ∈ marked.take n
  · rw [if_pos hmem, if_pos (List.mem_cons_of_mem _ hmem)]
    rfl
  · have hnot : (0, true) ∉ (c, mark) :: marked.take n := by
      rw [List.mem_cons, not_or]
      refine ⟨fun heq => ?_, hmem⟩
      obtain ⟨hzero, hmark⟩ := Prod.mk.inj heq
      exact hc hmark.symm hzero.symm
    rw [if_neg hmem, if_neg hnot]
    rfl

theorem unescapeMarked_eq (c h l : UInt8) (src : List UInt8) : unescapeMarked (c :: h :: l :: src) =
    match if c = 37 then (hexValue h).bind fun hi => (hexValue l).map fun lo => (hi, lo) else none with
    | some (hi, lo) => (UInt8.ofNat (hi <<< 4 ||| lo), true) :: unescapeMarked src
    | none => (c, false) :: unescapeMarked (h :: l :: src) := by
  conv_lhs => unfold unescapeMarked
  by_cases hc : c = 37
  · rw [if_pos hc, if_pos (show c = pct from hc), hexByte_eq]
    cases (hexValue h).bind fun hi => (hexValue l).map fun lo => (hi, lo) <;> rfl
  · rw [if_neg hc, if_neg (show ¬ c = pct from hc)]

/-- **The decoder** writes the decoding of the value, as much as fits, unless
an escape gives a zero there. -/
theorem decodeLoop_marked (dstLen : ℕ) (src : List UInt8) (pos : ℕ) :
    decodeLoop dstLen src pos = takeDecoded (dstLen - 1 - pos) (unescapeMarked src) := by
  -- room for one more byte, and none
  have hroom : ∀ {pos : ℕ}, pos + 1 < dstLen → dstLen - 1 - pos = dstLen - 1 - (pos + 1) + 1 := by omega
  have hfull : ∀ {pos : ℕ}, ¬ pos + 1 < dstLen → dstLen - 1 - pos = 0 := by omega
  induction src, pos using decodeLoop.induct dstLen with
  | case1 c h l src pos hlt hi lo hm decoded hz =>
    have hz' : UInt8.ofNat (hi <<< 4 ||| lo) = 0 := hz
    rw [decodeLoop, if_pos hlt, unescapeMarked_eq, hm, hroom hlt]
    simp only [hz', ↓reduceIte]
    rw [takeDecoded_cons_zero]
  | case2 c h l src pos hlt hi lo hm decoded hz ih =>
    have hz' : ¬ UInt8.ofNat (hi <<< 4 ||| lo) = 0 := hz
    rw [decodeLoop, if_pos hlt, unescapeMarked_eq, hm, hroom hlt]
    simp only [hz', ↓reduceIte]
    rw [ih, takeDecoded_cons _ fun _ => hz']
  | case3 c h l src pos hlt hm ih =>
    rw [decodeLoop, if_pos hlt, unescapeMarked_eq, hm, hroom hlt]
    dsimp only
    rw [ih, takeDecoded_cons _ (by simp)]
  | case4 c h l src pos hlt => rw [decodeLoop, if_neg hlt, hfull hlt, takeDecoded_zero]
  | case5 c src pos hshort hlt ih =>
    have hstep : unescapeMarked (c :: src) = (c, false) :: unescapeMarked src :=
      unescapeMarked.eq_2 _ _ hshort
    rw [decodeLoop.eq_2 _ _ _ _ hshort, if_pos hlt, hstep, hroom hlt, ih, takeDecoded_cons _ (by simp)]
  | case6 c src pos hshort hlt =>
    rw [decodeLoop.eq_2 _ _ _ _ hshort, if_neg hlt, hfull hlt, takeDecoded_zero]
  | case7 pos => rw [decodeLoop, show unescapeMarked [] = [] from rfl, takeDecoded_nil]

/-- The first `n` bytes, nothing if one of them is zero. -/
def takeNulFree (n : ℕ) (bytes : List UInt8) : Option (List UInt8) :=
  if 0 ∈ bytes.take n then none else some (bytes.take n)

/-- In a text without zeros only an escape gives one. -/
theorem mem_take_unescape_iff {src : List UInt8} (h0 : 0 ∉ src) (n : ℕ) :
    0 ∈ (unescape src).take n ↔ (0, true) ∈ (unescapeMarked src).take n := by
  rw [← map_fst_unescapeMarked, ← List.map_take, List.mem_map]
  constructor
  · rintro ⟨⟨c, mark⟩, hmem, rfl⟩
    cases mark with
    | true => exact hmem
    | false => exact absurd (mem_of_mem_unescapeMarked (List.mem_of_mem_take hmem)) h0
  · exact fun hmem => ⟨_, hmem, rfl⟩

theorem decodeLoop_eq (dstLen : ℕ) (src : List UInt8) (pos : ℕ) (h0 : 0 ∉ src) :
    decodeLoop dstLen src pos = takeNulFree (dstLen - 1 - pos) (unescape src) := by
  rw [decodeLoop_marked]
  unfold takeDecoded takeNulFree
  simp only [mem_take_unescape_iff h0, List.map_take, map_fst_unescapeMarked]

theorem decodeKvValueN_eq {dstLen : ℕ} (hpos : 0 < dstLen) {src : List UInt8} (h0 : 0 ∉ src) :
    decodeKvValueN dstLen src = if 0 ∈ (unescape src).take (dstLen - 1) then none
      else some ((unescape src).take (dstLen - 1)) := by
  rw [decodeKvValueN, if_neg (by omega), decodeLoop_eq dstLen src 0 h0, Nat.sub_zero]
  rfl

theorem length_decodeKvValueN_lt {dstLen : ℕ} {src out : List UInt8}
    (h : decodeKvValueN dstLen src = some out) : out.length < dstLen := by
  rw [decodeKvValueN, Option.ite_none_left_eq_some] at h
  have := length_decodeLoop_lt dstLen src 0 out (by omega) h.2
  omega

/-- **The decoder undoes the encoder** on a text whose encoding fits. -/
theorem decodeKvValueN_escape {dstLen : ℕ} {s : List UInt8} (h0 : 0 ∉ s) (hlen : s.length < dstLen) :
    decodeKvValueN dstLen (kvReserved.escape s) = some s := by
  have htake : s.take (dstLen - 1) = s := List.take_of_length_le (by omega)
  rw [decodeKvValueN_eq (by omega) (zero_notMem_escape h0), kvReserved.unescape_escape, htake, if_neg h0]

/-! ### The destination -/

/-- The next byte goes behind the bytes written so far. -/
theorem set_length_append {α : Type} (out : List α) (x y : α) (rest : List α) :
    (out ++ y :: rest).set out.length x = (out ++ [x]) ++ rest := by
  rw [List.set_append_right _ _ le_rfl, Nat.sub_self, List.set_cons_zero, List.append_assoc]
  rfl

/-- `r` is a return of `decoded`, written behind `out` over the start of `rest`
with a terminator; of a failure only the code counts. -/
def Wrote (out rest : List UInt8) (decoded : Option (List UInt8)) (r : Bool × List UInt8) : Prop :=
  r.1 = decoded.isSome ∧
    ∀ bytes, decoded = some bytes → r.2 = out ++ bytes ++ 0 :: rest.drop (bytes.length + 1)

theorem Wrote.cons {out rest : List UInt8} {x y : UInt8} {decoded : Option (List UInt8)}
    {r : Bool × List UInt8} (h : Wrote (out ++ [x]) rest decoded r) :
    Wrote out (y :: rest) (decoded.map (x :: ·)) r := by
  refine ⟨by rw [Option.isSome_map]; exact h.1, fun bytes hbytes => ?_⟩
  obtain ⟨tail, htail, rfl⟩ := Option.map_eq_some_iff.mp hbytes
  rw [h.2 tail htail]
  simp

theorem Wrote.nil {out rest : List UInt8} (hne : rest ≠ []) :
    Wrote out rest (some []) (true, (out ++ rest).set out.length 0) := by
  obtain ⟨y, rest', rfl⟩ := List.exists_cons_of_ne_nil hne
  refine ⟨rfl, fun bytes hbytes => ?_⟩
  obtain rfl := Option.some_inj.mp hbytes
  rw [set_length_append]
  simp

/-- **The loop on the destination** writes the bytes of `decodeLoop` behind
those written so far, and the terminator behind them. -/
theorem decodeBufLoop_wrote (dstLen : ℕ) (src : List UInt8) (pos : ℕ) (out rest : List UInt8)
    (hpos : out.length = pos) (hlen : out.length + rest.length = dstLen) (hne : rest ≠ []) :
    Wrote out rest (decodeLoop dstLen src pos) (decodeBufLoop (out ++ rest) src pos) := by
  -- with room for one more byte there are two left
  have htwo : ∀ {out rest : List UInt8} {pos : ℕ}, out.length = pos → out.length + rest.length = dstLen →
      pos + 1 < dstLen → ∃ y rest', rest = y :: rest' ∧ rest' ≠ [] := by
    intro out rest pos hpos hlen hlt
    obtain _ | ⟨y, _ | ⟨y', rest'⟩⟩ := rest
    · simp at hlen
      omega
    · simp at hlen
      omega
    · exact ⟨y, y' :: rest', rfl, by simp⟩
  induction src, pos using decodeLoop.induct dstLen generalizing out rest with
  | case1 c h l src pos hlt hi lo hm decoded hz =>
    have hz' : UInt8.ofNat (hi <<< 4 ||| lo) = 0 := hz
    have hbuf : pos + 1 < (out ++ rest).length := by rwa [List.length_append, hlen]
    rw [decodeBufLoop, decodeLoop, if_pos hlt, if_pos hbuf, hm]
    simp [hz', Wrote]
  | case2 c h l src pos hlt hi lo hm decoded hz ih =>
    have hz' : ¬ UInt8.ofNat (hi <<< 4 ||| lo) = 0 := hz
    have hbuf : pos + 1 < (out ++ rest).length := by rwa [List.length_append, hlen]
    obtain ⟨y, rest', rfl, hne'⟩ := htwo hpos hlen hlt
    subst hpos
    rw [decodeBufLoop, decodeLoop, if_pos hlt, if_pos hbuf, hm]
    simp only [hz', ↓reduceIte]
    rw [set_length_append]
    apply Wrote.cons
    exact ih _ rest' (by simp) (by simp at hlen ⊢; omega) hne'
  | case3 c h l src pos hlt hm ih =>
    have hbuf : pos + 1 < (out ++ rest).length := by rwa [List.length_append, hlen]
    obtain ⟨y, rest', rfl, hne'⟩ := htwo hpos hlen hlt
    subst hpos
    rw [decodeBufLoop, decodeLoop, if_pos hlt, if_pos hbuf, hm]
    dsimp only
    rw [set_length_append]
    apply Wrote.cons
    exact ih _ rest' (by simp) (by simp at hlen ⊢; omega) hne'
  | case4 c h l src pos hlt =>
    have hbuf : ¬ pos + 1 < (out ++ rest).length := by rwa [List.length_append, hlen]
    rw [decodeBufLoop, decodeLoop, if_neg hlt, if_neg hbuf, ← hpos]
    exact Wrote.nil hne
  | case5 c src pos hshort hlt ih =>
    have hbuf : pos + 1 < (out ++ rest).length := by rwa [List.length_append, hlen]
    obtain ⟨y, rest', rfl, hne'⟩ := htwo hpos hlen hlt
    subst hpos
    rw [decodeBufLoop.eq_2 _ _ _ _ hshort, decodeLoop.eq_2 _ _ _ _ hshort, if_pos hlt, if_pos hbuf,
      set_length_append]
    apply Wrote.cons
    exact ih _ rest' (by simp) (by simp at hlen ⊢; omega) hne'
  | case6 c src pos hshort hlt =>
    have hbuf : ¬ pos + 1 < (out ++ rest).length := by rwa [List.length_append, hlen]
    rw [decodeBufLoop.eq_2 _ _ _ _ hshort, decodeLoop.eq_2 _ _ _ _ hshort, if_neg hlt, if_neg hbuf,
      ← hpos]
    exact Wrote.nil hne
  | case7 pos =>
    rw [decodeBufLoop, decodeLoop, ← hpos]
    exact Wrote.nil hne

/-- **Bounded decoding is a prefix of full decoding.** A value whose decoding
has no zero is decoded up to the room in the destination, the terminator comes
next and the bytes after it stay. The decoder fails exactly when an escape
gives a zero before the room is used up. -/
theorem bounded_decoding (dst src : List UInt8) (hdst : 1 ≤ dst.length) :
    let n := min (dst.length - 1) (unescape src).length
    (0 ∉ unescape src →
      decodeKvValueBuf dst src = (true, (unescape src).take n ++ 0 :: dst.drop (n + 1))) ∧
    ((decodeKvValueBuf dst src).1 = false ↔
      ∃ k < dst.length - 1, (unescapeMarked src)[k]? = some (0, true)) := by
  intro n
  have hne : dst ≠ [] := List.length_pos_iff.mp hdst
  have hwrote := decodeBufLoop_wrote dst.length src 0 [] dst rfl (by simp) hne
  rw [List.nil_append, decodeLoop_marked, Nat.sub_zero] at hwrote
  have hescape : (0, true) ∈ (unescapeMarked src).take (dst.length - 1) ↔
      ∃ k < dst.length - 1, (unescapeMarked src)[k]? = some (0, true) := by
    rw [List.mem_iff_getElem?]
    simp only [List.getElem?_take, Option.ite_none_right_eq_some]
  have hbuf : decodeKvValueBuf dst src = decodeBufLoop dst src 0 := if_neg (by omega)
  rw [hbuf]
  constructor
  · intro h0
    have hnone : (0, true) ∉ (unescapeMarked src).take (dst.length - 1) := by
      intro hmem
      apply h0
      rw [← map_fst_unescapeMarked]
      exact List.mem_map_of_mem (List.mem_of_mem_take hmem)
    have htake : ((unescapeMarked src).take (dst.length - 1)).map Prod.fst = (unescape src).take n := by
      rw [List.map_take, map_fst_unescapeMarked, List.take_eq_take_min]
    rw [takeDecoded, if_neg hnone, htake] at hwrote
    have hlen : ((unescape src).take n).length = n := by
      rw [List.length_take]
      exact Nat.min_eq_left (Nat.min_le_right ..)
    have hbytes := hwrote.2 _ rfl
    rw [hlen, List.nil_append] at hbytes
    exact Prod.ext hwrote.1 hbytes
  · rw [← hescape, hwrote.1, takeDecoded]
    by_cases hmem : (0, true) ∈ (unescapeMarked src).take (dst.length - 1)
    · simp [hmem]
    · simp [hmem]

/-- An escape behind a stray `%`, and one that is cut off by the end. -/
theorem bounded_decoding_nested :
    decodeKvValueBuf [9, 9, 9, 9, 9] (ascii "%%2C%4") = (true, ascii "%,%4" ++ [0]) := by
  have h := (bounded_decoding [9, 9, 9, 9, 9] (ascii "%%2C%4") (by decide)).1 (by decide +kernel)
  exact h.trans (by decide +kernel)

end Loxguard
