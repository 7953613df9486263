/-
# Event lines

`lox_event_format_csv` writes an event as one line of six `key=value` fields,
`lox_event_parse_csv_line_ex` reads such a line. The parser takes one token
after the other up to the next comma, so it is a function of the line split at
its commas (`eventLocals_eq`), and a formatted line has exactly the six tokens
it was written from, whatever the texts hold (`splitOn_eventLine`); no text
brings in a line end (`not_mem_eventLine`).

A line and an output record are never null here; a null event is.

Key definitions: `eventFormatCsv`, `tokenNext`, `tokenValue`,
`eventParseCsvLineEx`, `parsedEvent`.
Key theorems: `eventLocals_eq`, `eventLocals_eventLine`, `event_round_trip`,
`eventLocals_take`.
-/
import Loxguard.Format.Encode
import Loxguard.Format.Number
import Loxguard.Lib.Split

namespace Loxguard

open Lib Lib.Percent Lib.Decimal

variable {P : Platform}

/-! ### The formatter -/

/-- What a formatter leaves in its buffer, up to the terminator, and what it
returns. -/
structure Formatted where
  text : List UInt8
  ret : ℕ
deriving DecidableEq, Repr

/-- `snprintf` of `full` into `outLen > 0` bytes, and the length the formatters
return for it. -/
def snprintf (full : List UInt8) (outLen : ℕ) : Formatted :=
  ⟨full.take (outLen - 1), if outLen ≤ full.length then outLen - 1 else full.length⟩

/-- The line of an event, without its last value. -/
def eventLineHead (e : ExtEvent P) : List UInt8 :=
  ascii "kind=" ++ decimal e.kind.code ++
    ascii ",block=" ++ encodeKvValue 64 (some (e.blockName.getD (.lit "none"))) ++
    ascii ",reason=" ++ encodeKvValue 64 (some (e.reason.getD (.lit "none"))) ++
    ascii ",index=" ++ decimal e.index.toNat ++
    ascii ",limit=" ++ decimal e.limit.toNat ++
    ascii ",aux="

/-- The complete line of an event. -/
def eventLine (e : ExtEvent P) : List UInt8 := eventLineHead e ++ decimal e.auxCode.toNat

/-- `lox_event_format_csv`. -/
def eventFormatCsv (event : Option (ExtEvent P)) (outLen : ℕ) : Formatted :=
  if outLen = 0 then ⟨[], 0⟩
  else match event with
    | none => snprintf (ascii "kind=0,block=none,reason=none,index=0,limit=0,aux=0") outLen
    | some e => snprintf (eventLine e) outLen

/-! ### The parser -/

/-- `lox_token_next`: the token at the cursor, the cursor after it, and whether
a comma ended it. -/
def tokenNext (cursor : List UInt8) : Option (List UInt8 × List UInt8 × Bool) :=
  if cursor = [] then none
  else if 44 ∈ cursor then
    some (cursor.takeWhile (· != 44), (cursor.dropWhile (· != 44)).tail, true)
  else some (cursor, [], false)

/-- `lox_token_value`. -/
def tokenValue (token key : List UInt8) : Option (List UInt8) :=
  if token.length ≤ key.length + 1 then none
  else if token.take key.length ≠ key ∨ token[key.length]? ≠ some 61 then none
  else some (token.drop (key.length + 1))

/-- One field of a line: the next token, which has to be `key=value` with a
value `parse` accepts. -/
def fieldNext {α : Type} (key : List UInt8) (parse : List UInt8 → Option α) (cursor : List UInt8) :
    Option (α × List UInt8 × Bool) :=
  (tokenNext cursor).bind fun (token, cursor, hadComma) =>
    ((tokenValue token key).bind parse).map fun x => (x, cursor, hadComma)

/-- A number field: the value goes through a buffer of `n` bytes. -/
def numberValue {α : Type} (n : ℕ) (parse : List UInt8 → Option α) (value : List UInt8) : Option α :=
  if n ≤ value.length then none else parse value

/-- The string a buffer reads as: the bytes before the first zero. -/
def bufText (bytes : List UInt8) : CStr :=
  ⟨bytes.takeWhile (· != 0), fun h => by simpa using List.mem_takeWhile_imp h⟩

/-- A text field: the value is decoded into a buffer of 64 bytes. -/
def textValue (value : List UInt8) : Option CStr :=
  if value.length = 0 then none else (decodeKvValueN 64 value).map bufText

/-- `lox_event_kind_is_valid`. -/
def eventKindIsValid (kind : ℤ) : Bool := 0 ≤ kind && kind ≤ 11

theorem eventKindIsValid_code (k : EventKind) : eventKindIsValid k.code = true := by
  have := k.code_le
  simp only [eventKindIsValid, Bool.and_eq_true, decide_eq_true_eq]
  omega

/-- The numbers that pass the check are those the cast takes. -/
theorem EventKind.isSome_ofCode (kind : ℤ) : (ofCode kind).isSome = eventKindIsValid kind := by
  rw [Bool.eq_iff_iff, Option.isSome_iff_exists]
  constructor
  · rintro ⟨k, hk⟩
    rw [(ofCode_eq_some_iff kind k).mp hk]
    exact eventKindIsValid_code k
  · intro hvalid
    simp only [eventKindIsValid, Bool.and_eq_true, decide_eq_true_eq] at hvalid
    obtain ⟨n, rfl⟩ := Int.eq_ofNat_of_zero_le hvalid.1
    have hall : ∀ n < 12, (ofCode (n : ℕ)).isSome := by decide
    exact Option.isSome_iff_exists.mp (hall n (by omega))

/-- The locals of `lox_event_parse_csv_line_ex` when all its checks are passed. -/
structure EventLocals (P : Platform) where
  kind : EventKind
  block : CStr
  reason : CStr
  index : P.Size
  limit : P.Size
  aux : BitVec 32
deriving DecidableEq

/-- The checks of `lox_event_parse_csv_line_ex`, in order. -/
def eventLocals (line : CStr) : Option (EventLocals P) :=
  (fieldNext (ascii "kind") (numberValue 32 (parseIntStrict P)) line.bytes).bind fun (kind, cursor, _) =>
  (fieldNext (ascii "block") textValue cursor).bind fun (block, cursor, _) =>
  (fieldNext (ascii "reason") textValue cursor).bind fun (reason, cursor, _) =>
  (fieldNext (ascii "index") (numberValue 32 (parseSizeStrict P)) cursor).bind fun (index, cursor, _) =>
  (fieldNext (ascii "limit") (numberValue 32 (parseSizeStrict P)) cursor).bind fun (limit, cursor, _) =>
  (fieldNext (ascii "aux") (numberValue 32 parseU32Strict) cursor).bind fun (aux, cursor, hadComma) =>
  if hadComma || cursor ≠ [] then none
  else if !eventKindIsValid kind then none
  else (EventKind.ofCode kind).map fun kind => ⟨kind, block, reason, index, limit, aux⟩

/-- `lox_event_snapshot_t`. The event's texts point at the two buffers. -/
structure EventSnapshot (P : Platform) where
  event : ExtEvent P
  blockName : CStr
  reason : CStr
deriving DecidableEq

/-- A snapshot before any parse. -/
def EventSnapshot.zero : EventSnapshot P := ⟨Event.zero P none, .lit "", .lit ""⟩

/-- `lox_event_parse_csv_line_ex`: what it returns and leaves in `out`. All
stores into `out` come after the last check. -/
def eventParseCsvLineEx (line : CStr) (out : EventSnapshot P) : Bool × EventSnapshot P :=
  match eventLocals line with
  | none => (false, out)
  | some l => (true,
    { event := ⟨l.kind, some l.block, some l.reason, l.index, l.limit, l.aux⟩
      blockName := l.block
      reason := l.reason })

/-- The event of a line the parser accepts. -/
def EventLocals.event (l : EventLocals P) : ExtEvent P :=
  ⟨l.kind, some l.block, some l.reason, l.index, l.limit, l.aux⟩

/-- The event a line parses to. -/
def parsedEvent (line : CStr) : Option (ExtEvent P) := (eventLocals line).map EventLocals.event

/-! ### Tokens -/

/-- The token at the cursor is the first stretch before a comma. -/
theorem tokenNext_cases (s : List UInt8) :
    (s.splitOn 44 = [s] ∧ tokenNext s = if s = [] then none else some (s, [], false)) ∨
      ∃ t rest, s = t ++ 44 :: rest ∧ s.splitOn 44 = t :: rest.splitOn 44 ∧
        tokenNext s = some (t, rest, true) := by
  by_cases h : 44 ∈ s
  · right
    have ht : ∀ c ∈ s.takeWhile (· != 44), c ≠ 44 := fun c hc => by
      simpa using List.mem_takeWhile_imp hc
    have hne : s ≠ [] := List.ne_nil_of_mem h
    obtain ⟨rest, hrest⟩ : ∃ rest, s.dropWhile (· != 44) = 44 :: rest := by
      have hd : s.dropWhile (· != 44) ≠ [] := by
        rw [ne_eq, List.dropWhile_eq_nil_iff]
        intro hall
        simpa using hall 44 h
      obtain ⟨c, rest, hc⟩ := List.exists_cons_of_ne_nil hd
      have hnot := List.head_dropWhile_not (· != 44) hd
      simp only [hc, List.head_cons, bne_eq_false_iff_eq] at hnot
      exact ⟨rest, hnot ▸ hc⟩
    have hs : s = s.takeWhile (· != 44) ++ 44 :: rest := by
      rw [← hrest, List.takeWhile_append_dropWhile]
    refine ⟨s.takeWhile (· != 44), rest, hs, ?_, ?_⟩
    · conv_lhs => rw [hs]
      exact List.splitOn_append_cons_self_of_not_mem (fun hm => ht 44 hm rfl) rest
    · rw [tokenNext, if_neg hne, if_pos h, hrest]
      rfl
  · left
    exact ⟨List.splitOn_eq_singleton h, by rw [tokenNext, if_neg h]⟩

/-- A field of a token. -/
def tokenField {α : Type} (key : List UInt8) (parse : List UInt8 → Option α) (token : List UInt8) :
    Option α :=
  (tokenValue token key).bind parse

theorem tokenField_nil {α : Type} (key : List UInt8) (parse : List UInt8 → Option α) :
    tokenField key parse [] = none := by
  simp [tokenField, tokenValue]

/-- The six fields of six tokens. -/
def localsOfTokens : List (List UInt8) → Option (EventLocals P)
  | [t1, t2, t3, t4, t5, t6] =>
    (tokenField (ascii "kind") (numberValue 32 (parseIntStrict P)) t1).bind fun kind =>
    (tokenField (ascii "block") textValue t2).bind fun block =>
    (tokenField (ascii "reason") textValue t3).bind fun reason =>
    (tokenField (ascii "index") (numberValue 32 (parseSizeStrict P)) t4).bind fun index =>
    (tokenField (ascii "limit") (numberValue 32 (parseSizeStrict P)) t5).bind fun limit =>
    (tokenField (ascii "aux") (numberValue 32 parseU32Strict) t6).bind fun aux =>
    if !eventKindIsValid kind then none
    else (EventKind.ofCode kind).map fun kind => ⟨kind, block, reason, index, limit, aux⟩
  | _ => none

theorem fieldNext_nil {α : Type} (key : List UInt8) (parse : List UInt8 → Option α) :
    fieldNext key parse [] = none := by
  simp [fieldNext, tokenNext]

theorem fieldNext_cases {α : Type} (key : List UInt8) (parse : List UInt8 → Option α)
    (s : List UInt8) :
    (s.splitOn 44 = [s] ∧
      fieldNext key parse s = (tokenField key parse s).map fun x => (x, [], false)) ∨
    ∃ t rest, s.splitOn 44 = t :: rest.splitOn 44 ∧
      fieldNext key parse s = (tokenField key parse t).map fun x => (x, rest, true) := by
  rcases tokenNext_cases s with ⟨h, hn⟩ | ⟨t, rest, -, h, hn⟩
  · left
    refine ⟨h, ?_⟩
    by_cases hs : s = []
    · subst hs
      rw [fieldNext_nil, tokenField_nil]
      rfl
    · rw [fieldNext, hn, if_neg hs]
      rfl
  · right
    exact ⟨t, rest, h, by rw [fieldNext, hn]; rfl⟩

/-- A field of the first of some tokens, and what is made of the others. -/
def tokensThen {α β : Type} (key : List UInt8) (parse : List UInt8 → Option α)
    (next : α → List (List UInt8) → Option β) : List (List UInt8) → Option β
  | [] => none
  | t :: ts => (tokenField key parse t).bind fun x => next x ts

theorem fieldNext_bind {α β : Type} (key : List UInt8) (parse : List UInt8 → Option α)
    {f : α × List UInt8 × Bool → Option β} {next : α → List (List UInt8) → Option β}
    (hlast : ∀ x, f (x, [], false) = next x [])
    (hmore : ∀ x rest, f (x, rest, true) = next x (rest.splitOn 44)) (s : List UInt8) :
    (fieldNext key parse s).bind f = tokensThen key parse next (s.splitOn 44) := by
  rcases fieldNext_cases key parse s with ⟨hs, hfield⟩ | ⟨t, rest, hs, hfield⟩
  · rw [hs, hfield, Option.bind_map]
    exact congrArg (Option.bind _) (funext hlast)
  · rw [hs, hfield, Option.bind_map]
    exact congrArg (Option.bind _) (funext fun x => hmore x rest)

/-- A field that has to follow does not follow the end of the line. -/
theorem fieldNext_bind_nil {α β : Type} (key : List UInt8) (parse : List UInt8 → Option α)
    (f : α × List UInt8 × Bool → Option β) (next : α → List (List UInt8) → Option β) :
    (fieldNext key parse []).bind f = tokensThen key parse next [] := by
  rw [fieldNext_nil]
  rfl

/-- **The parser is a function of the tokens**: it reads the line split at its
commas, and wants six of them. -/
theorem eventLocals_eq (line : CStr) :
    (eventLocals line : Option (EventLocals P)) = localsOfTokens (line.bytes.splitOn 44) := by
  let finish (kind : ℤ) (block reason : CStr) (index limit : P.Size) (aux : BitVec 32)
      (ts : List (List UInt8)) : Option (EventLocals P) :=
    if ts ≠ [] then none
    else if !eventKindIsValid kind then none
    else (EventKind.ofCode kind).map fun kind => ⟨kind, block, reason, index, limit, aux⟩
  calc eventLocals line
      = tokensThen (ascii "kind") (numberValue 32 (parseIntStrict P)) (fun kind =>
          tokensThen (ascii "block") textValue fun block =>
          tokensThen (ascii "reason") textValue fun reason =>
          tokensThen (ascii "index") (numberValue 32 (parseSizeStrict P)) fun index =>
          tokensThen (ascii "limit") (numberValue 32 (parseSizeStrict P)) fun limit =>
          tokensThen (ascii "aux") (numberValue 32 parseU32Strict) fun aux =>
          finish kind block reason index limit aux) (line.bytes.splitOn 44) := by
        unfold eventLocals
        apply fieldNext_bind _ _ (fun _ => fieldNext_bind_nil ..)
        intro kind rest
        apply fieldNext_bind _ _ (fun _ => fieldNext_bind_nil ..)
        intro block rest
        apply fieldNext_bind _ _ (fun _ => fieldNext_bind_nil ..)
        intro reason rest
        apply fieldNext_bind _ _ (fun _ => fieldNext_bind_nil ..)
        intro index rest
        apply fieldNext_bind _ _ (fun _ => fieldNext_bind_nil ..)
        intro limit rest
        apply fieldNext_bind _ _ (fun _ => rfl)
        -- a comma after the sixth field
        intro aux rest
        exact (if_pos (List.splitOn_ne_nil 44 rest)).symm
    _ = localsOfTokens (line.bytes.splitOn 44) := by
        rcases line.bytes.splitOn 44 with _ | ⟨t1, _ | ⟨t2, _ | ⟨t3, _ | ⟨t4, _ | ⟨t5, _ | ⟨t6, _ | ⟨t7, ts⟩⟩⟩⟩⟩⟩⟩
        all_goals simp [tokensThen, localsOfTokens, finish]

/-! ### The tokens of a formatted line -/

/-- The text a pointer of an event is written as. -/
def eventText (t : Option CStr) : CStr := t.getD (.lit "none")

/-- A text that is not empty; `NULL` counts as `"none"`. -/
def NonemptyText (t : Option CStr) : Prop := (eventText t).bytes ≠ []

instance (t : Option CStr) : Decidable (NonemptyText t) := inferInstanceAs (Decidable (_ ≠ _))

/-- What a text is read back as: its longest prefix whose encoding has at most
63 bytes. -/
def fitText (t : Option CStr) : CStr :=
  ⟨kvReserved.fit 63 (eventText t).bytes, fun h =>
    (eventText t).nulFree ((kvReserved.fit_isFit _ _).1.subset h)⟩

/-- The first five tokens of an event's line. -/
def eventTokensHead (e : ExtEvent P) : List (List UInt8) :=
  [ascii "kind" ++ 61 :: decimal e.kind.code,
    ascii "block" ++ 61 :: encodeKvValue 64 (some (eventText e.blockName)),
    ascii "reason" ++ 61 :: encodeKvValue 64 (some (eventText e.reason)),
    ascii "index" ++ 61 :: decimal e.index.toNat,
    ascii "limit" ++ 61 :: decimal e.limit.toNat]

/-- The last token of an event's line. -/
def eventTokenAux (e : ExtEvent P) : List UInt8 := ascii "aux" ++ 61 :: decimal e.auxCode.toNat

theorem eventLineHead_append (e : ExtEvent P) (aux : List UInt8) : eventLineHead e ++ aux =
    [44].intercalate (eventTokensHead e ++ [ascii "aux" ++ 61 :: aux]) := by
  have h1 : ascii "kind=" = ascii "kind" ++ [61] := by decide
  have h2 : ascii ",block=" = 44 :: ascii "block" ++ [61] := by decide
  have h3 : ascii ",reason=" = 44 :: ascii "reason" ++ [61] := by decide
  have h4 : ascii ",index=" = 44 :: ascii "index" ++ [61] := by decide
  have h5 : ascii ",limit=" = 44 :: ascii "limit" ++ [61] := by decide
  have h6 : ascii ",aux=" = 44 :: ascii "aux" ++ [61] := by decide
  simp only [eventLineHead, h1, h2, h3, h4, h5, h6, eventTokensHead, eventText, List.intercalate]
  simp

theorem eventLine_eq (e : ExtEvent P) :
    eventLine e = [44].intercalate (eventTokensHead e ++ [eventTokenAux e]) :=
  eventLineHead_append e (decimal e.auxCode.toNat)

theorem not_mem_decimal {x : UInt8} (hx : isDigit x = false) (n : ℕ) : x ∉ decimal n := by
  intro h
  rw [isDigit_of_mem_decimal h] at hx
  cases hx

theorem comma_not_mem_tokens (e : ExtEvent P) :
    ∀ t ∈ eventTokensHead e ++ [eventTokenAux e], 44 ∉ t := by
  have hd : ∀ n, 44 ∉ decimal n := not_mem_decimal (by decide)
  have he : ∀ s, 44 ∉ encodeKvValue 64 (some s) := not_mem_encodeKvValue (Or.inl rfl) 64
  have h1 : 44 ∉ ascii "kind" := by decide
  have h2 : 44 ∉ ascii "block" := by decide
  have h3 : 44 ∉ ascii "reason" := by decide
  have h4 : 44 ∉ ascii "index" := by decide
  have h5 : 44 ∉ ascii "limit" := by decide
  have h6 : 44 ∉ ascii "aux" := by decide
  simp [eventTokensHead, eventTokenAux, hd, he, h1, h2, h3, h4, h5, h6]

/-- **A formatted line has the tokens it was written from**, whatever its texts
hold. -/
theorem splitOn_eventLine (e : ExtEvent P) :
    (eventLine e).splitOn 44 = eventTokensHead e ++ [eventTokenAux e] := by
  rw [eventLine_eq]
  exact List.splitOn_intercalate 44 (comma_not_mem_tokens e) (by simp)

/-- A line holds no zero byte and no line end, whatever its texts hold. -/
theorem not_mem_eventLine {x : UInt8} (hx : x = 0 ∨ x = 10 ∨ x = 13) (e : ExtEvent P) :
    x ∉ eventLine e := by
  have hd : ∀ n, x ∉ decimal n := by
    rcases hx with rfl | rfl | rfl <;> exact not_mem_decimal (by decide)
  have he : ∀ s, x ∉ encodeKvValue 64 (some s) := by
    rcases hx with rfl | rfl | rfl
    · exact nulFree_encodeKvValue 64
    · exact not_mem_encodeKvValue (by decide) 64
    · exact not_mem_encodeKvValue (by decide) 64
  have hkeys : ∀ key ∈ [ascii "kind=", ascii ",block=", ascii ",reason=", ascii ",index=",
      ascii ",limit=", ascii ",aux="], x ∉ key := by
    rcases hx with rfl | rfl | rfl <;> decide
  simp only [List.forall_mem_cons] at hkeys
  obtain ⟨h1, h2, h3, h4, h5, h6, -⟩ := hkeys
  simp [eventLine, eventLineHead, hd, he, h1, h2, h3, h4, h5, h6]

/-- A line holds the five commas and the six `=` of its fields, whatever its
texts hold. -/
theorem count_eventLine (e : ExtEvent P) : (eventLine e).count 44 = 5 ∧ (eventLine e).count 61 = 6 := by
  have hd : ∀ x, isDigit x = false → ∀ n, (decimal n).count x = 0 :=
    fun x hx n => List.count_eq_zero.mpr (not_mem_decimal hx n)
  have hd44 := hd 44 (by decide)
  have hd61 := hd 61 (by decide)
  have he44 : ∀ s, (encodeKvValue 64 (some s)).count 44 = 0 :=
    fun s => List.count_eq_zero.mpr (not_mem_encodeKvValue (Or.inl rfl) 64 s)
  have he61 : ∀ s, (encodeKvValue 64 (some s)).count 61 = 0 :=
    fun s => List.count_eq_zero.mpr (not_mem_encodeKvValue (by decide) 64 s)
  simp only [eventLine, eventLineHead, List.count_append, hd44, hd61, he44, he61]
  decide

theorem nulFree_eventLine (e : ExtEvent P) : 0 ∉ eventLine e := not_mem_eventLine (Or.inl rfl) e

theorem bufText_bytes {s : List UInt8} (h : 0 ∉ s) : (bufText s).bytes = s := by
  show s.takeWhile (· != 0) = s
  rw [List.takeWhile_eq_self_iff]
  intro c hc
  simpa using fun he : c = 0 => h (he ▸ hc)

theorem bufText_take {s : List UInt8} (h : 0 ∉ s) (n : ℕ) : bufText (s.take n) = (bufText s).take n := by
  apply CStr.ext_bytes
  rw [CStr.bytes_take, bufText_bytes h, bufText_bytes fun hm => h (List.mem_of_mem_take hm)]

/-! ### Reading a formatted line -/

theorem tokenValue_append {key value : List UInt8} (h : value ≠ []) :
    tokenValue (key ++ 61 :: value) key = some value := by
  have := List.length_pos_iff.mpr h
  rw [tokenValue, if_neg (by simp; omega), if_neg (by simp)]
  simp [List.drop_append]

/-- A token with this key has the form `key=value`, and the value is not
empty. -/
theorem tokenValue_eq_some {token key value : List UInt8} (h : tokenValue token key = some value) :
    token = key ++ 61 :: value ∧ value ≠ [] := by
  unfold tokenValue at h
  split_ifs at h with h1 h2
  obtain rfl : token.drop (key.length + 1) = value := by simpa using h
  simp only [not_or, not_not] at h2
  refine ⟨?_, fun he => h1 (List.drop_eq_nil_iff.mp he)⟩
  obtain ⟨hk, hget⟩ := h2
  obtain ⟨hlt, hget⟩ := List.getElem?_eq_some_iff.mp hget
  conv_lhs => rw [← List.take_append_drop key.length token, hk, List.drop_eq_getElem_cons hlt, hget]

theorem tokenField_append {α : Type} {key value : List UInt8} (parse : List UInt8 → Option α)
    (h : value ≠ []) : tokenField key parse (key ++ 61 :: value) = parse value := by
  rw [tokenField, tokenValue_append h]
  rfl

theorem textValue_encode {t : Option CStr} (h : NonemptyText t) :
    textValue (encodeKvValue 64 (some (eventText t))) = some (fitText t) := by
  have hne := encodeKvValue_ne_nil (show 4 ≤ 64 by norm_num) h
  have hfit := kvReserved.fit_isFit 63 (eventText t).bytes
  have hlen : (kvReserved.fit 63 (eventText t).bytes).length < 64 := by
    have := kvReserved.length_le_length_escape (kvReserved.fit 63 (eventText t).bytes)
    have := hfit.2.1
    omega
  have hdec := decodeKvValueN_escape (fitText t).nulFree hlen
  rw [textValue, if_neg (by simpa using hne), encodeKvValue_eq]
  simp only [Nat.add_one_sub_one]
  rw [show kvReserved.fit 63 (eventText t).bytes = (fitText t).bytes from rfl, hdec, Option.map_some,
    Option.some_inj]
  exact CStr.ext_bytes (bufText_bytes (fitText t).nulFree)

theorem numberValue_of_length {α : Type} {n : ℕ} (parse : List UInt8 → Option α) {value : List UInt8}
    (h : value.length < n) : numberValue n parse value = parse value := by
  rw [numberValue, if_neg (by omega)]

theorem eventLocals_eventLine (e : ExtEvent P) (hb : NonemptyText e.blockName)
    (hr : NonemptyText e.reason) : eventLocals (bufText (eventLine e)) =
      some ⟨e.kind, fitText e.blockName, fitText e.reason, e.index, e.limit, e.auxCode⟩ := by
  have hk := e.kind.code_le
  have hkind : numberValue 32 (parseIntStrict P) (decimal e.kind.code) = some (e.kind.code : ℤ) := by
    have hlen : (decimal e.kind.code).length ≤ 2 := length_decimal_le (by norm_num) (by omega)
    rw [numberValue_of_length _ (by omega), parseIntStrict_decimal (by simp only [intMax]; omega)]
  have hsize : ∀ x : P.Size, numberValue 32 (parseSizeStrict P) (decimal x.toNat) = some x := fun x => by
    have hlen := length_decimal_size_le x
    rw [numberValue_of_length _ (by omega), parseSizeStrict_decimal]
  have haux : numberValue 32 parseU32Strict (decimal e.auxCode.toNat) = some e.auxCode := by
    have hlen := length_decimal_u32_le e.auxCode
    rw [numberValue_of_length _ (by omega), parseU32Strict_decimal]
  have hvalid : eventKindIsValid (e.kind.code : ℤ) = true := by
    simp only [eventKindIsValid, Bool.and_eq_true, decide_eq_true_eq]
    omega
  rw [eventLocals_eq, bufText_bytes (nulFree_eventLine e), splitOn_eventLine]
  simp only [eventTokensHead, eventTokenAux, List.cons_append, List.nil_append, localsOfTokens,
    tokenField_append _ (decimal_ne_nil _),
    tokenField_append _ (encodeKvValue_ne_nil (show 4 ≤ 64 by norm_num) hb),
    tokenField_append _ (encodeKvValue_ne_nil (show 4 ≤ 64 by norm_num) hr),
    hkind, hsize, haux, textValue_encode hb, textValue_encode hr, Option.bind_some, hvalid,
    EventKind.ofCode_code]
  rfl

theorem text_eventFormatCsv (e : ExtEvent P) {outLen : ℕ} (h : 0 < outLen) :
    (eventFormatCsv (some e) outLen).text = (eventLine e).take (outLen - 1) := by
  rw [eventFormatCsv, if_neg (by omega)]
  rfl

/-- **Event line round trip.** From the complete line of an event the parser
reads the same kind, index, limit and aux code, and of each text the longest
prefix whose encoding has at most 63 bytes. The line is one line, and its
commas and `=` are those of its six fields. -/
theorem event_round_trip (e : ExtEvent P) (hb : NonemptyText e.blockName)
    (hr : NonemptyText e.reason) (outLen : ℕ) (hlen : (eventLine e).length < outLen)
    (out : EventSnapshot P) : ∃ block reason : CStr,
      kvReserved.IsFit 63 (eventText e.blockName).bytes block.bytes ∧
      kvReserved.IsFit 63 (eventText e.reason).bytes reason.bytes ∧
      eventParseCsvLineEx (bufText (eventFormatCsv (some e) outLen).text) out =
        (true, ⟨⟨e.kind, some block, some reason, e.index, e.limit, e.auxCode⟩, block, reason⟩) ∧
      10 ∉ (eventFormatCsv (some e) outLen).text ∧ 13 ∉ (eventFormatCsv (some e) outLen).text ∧
      (eventFormatCsv (some e) outLen).text.count 44 = 5 ∧
      (eventFormatCsv (some e) outLen).text.count 61 = 6 := by
  refine ⟨fitText e.blockName, fitText e.reason, kvReserved.fit_isFit _ _, kvReserved.fit_isFit _ _, ?_⟩
  have htext : (eventFormatCsv (some e) outLen).text = eventLine e := by
    rw [text_eventFormatCsv e (by omega), List.take_of_length_le (by omega)]
  rw [htext]
  refine ⟨?_, not_mem_eventLine (by decide) e, not_mem_eventLine (by decide) e, count_eventLine e⟩
  rw [eventParseCsvLineEx, eventLocals_eventLine e hb hr]

/-- An event whose texts hold separators, an escape and a key. -/
def forgedEvent : ExtEvent .host :=
  ⟨.blockFault, some (.lit "a,kind=1\n%2C"), none, 7, 8, 9⟩

theorem event_round_trip_forged : ∃ block reason : CStr,
    kvReserved.IsFit 63 (ascii "a,kind=1\n%2C") block.bytes ∧
    kvReserved.IsFit 63 (ascii "none") reason.bytes ∧
    eventParseCsvLineEx (P := .host) (bufText (eventFormatCsv (some forgedEvent) 160).text) .zero =
      (true, ⟨⟨.blockFault, some block, some reason, 7, 8, 9⟩, block, reason⟩) ∧
    10 ∉ (eventFormatCsv (some forgedEvent) 160).text ∧
    13 ∉ (eventFormatCsv (some forgedEvent) 160).text ∧
    (eventFormatCsv (some forgedEvent) 160).text.count 44 = 5 ∧
    (eventFormatCsv (some forgedEvent) 160).text.count 61 = 6 :=
  event_round_trip forgedEvent (by decide) (by decide) 160 (by decide +kernel) .zero

theorem length_textValue_le {value : List UInt8} {t : CStr} (h : textValue value = some t) :
    t.length ≤ 63 := by
  rw [textValue, Option.ite_none_left_eq_some] at h
  obtain ⟨out, hout, rfl⟩ := Option.map_eq_some_iff.mp h.2
  have hlen := length_decodeKvValueN_lt hout
  have htake := (List.takeWhile_sublist (p := (· != (0 : UInt8))) (l := out)).length_le
  show (out.takeWhile (· != 0)).length ≤ 63
  omega

theorem length_texts_le {line : CStr} {l : EventLocals P} (h : eventLocals line = some l) :
    l.block.length ≤ 63 ∧ l.reason.length ≤ 63 := by
  rw [eventLocals_eq] at h
  unfold localsOfTokens at h
  split at h
  · simp only [Option.bind_eq_some_iff, Option.ite_none_left_eq_some, Option.map_eq_some_iff] at h
    obtain ⟨kind, -, block, hb, reason, hr, index, -, limit, -, aux, -, -, k, -, rfl⟩ := h
    obtain ⟨v, -, hv⟩ := Option.bind_eq_some_iff.mp hb
    obtain ⟨w, -, hw⟩ := Option.bind_eq_some_iff.mp hr
    exact ⟨length_textValue_le hv, length_textValue_le hw⟩
  · cases h

/-! ### Reading a cut line -/

theorem localsOfTokens_eq_some {ts : List (List UInt8)} {l : EventLocals P}
    (h : localsOfTokens ts = some l) : ∃ head v, ts = head ++ [ascii "aux" ++ 61 :: v] ∧
      head.length = 5 ∧ v ≠ [] ∧ numberValue 32 parseU32Strict v = some l.aux ∧
      ∀ (u : List UInt8) (l' : EventLocals P),
        localsOfTokens (head ++ [ascii "aux" ++ 61 :: u]) = some l' → l' = { l with aux := l'.aux } := by
  match ts, h with
  | [t1, t2, t3, t4, t5, t6], h =>
    simp only [localsOfTokens, Option.bind_eq_some_iff, Option.ite_none_left_eq_some,
      Option.map_eq_some_iff] at h
    obtain ⟨kind, h1, block, h2, reason, h3, index, h4, limit, h5, aux, h6, hvalid, k, hk, rfl⟩ := h
    obtain ⟨v, hv, haux⟩ := Option.bind_eq_some_iff.mp h6
    obtain ⟨rfl, hvne⟩ := tokenValue_eq_some hv
    refine ⟨[t1, t2, t3, t4, t5], v, rfl, rfl, hvne, haux, fun u l' h' => ?_⟩
    simp only [localsOfTokens, List.cons_append, List.nil_append, h1, h2, h3, h4, h5, hk,
      Option.bind_eq_some_iff, Option.some_inj, exists_eq_left', Option.ite_none_left_eq_some,
      Option.map_some] at h'
    obtain ⟨aux', -, -, rfl⟩ := h'
    rfl

/-- **A line and its first `n` bytes, both accepted**, differ in the aux code
at most: the cut shortens its value. -/
theorem eventLocals_take {line : CStr} {n : ℕ} (hn : n < line.length) {l l' : EventLocals P}
    (h : eventLocals line = some l) (h' : eventLocals (line.take n) = some l') :
    ∃ head v t, (line.take n).bytes.splitOn 44 = head ++ [ascii "aux" ++ 61 :: v] ∧
      line.bytes.splitOn 44 = head ++ [ascii "aux" ++ 61 :: (v ++ t)] ∧ v ≠ [] ∧ t ≠ [] ∧
      numberValue 32 parseU32Strict v = some l'.aux ∧
      numberValue 32 parseU32Strict (v ++ t) = some l.aux ∧ l = { l' with aux := l.aux } := by
  rw [eventLocals_eq] at h h'
  obtain ⟨head, u, hline, hhead, -, hu, -⟩ := localsOfTokens_eq_some h
  obtain ⟨head', v, hcut, hhead', hvne, hv, hagree⟩ := localsOfTokens_eq_some h'
  have hlen : ((line.bytes.take n).splitOn 44).length = (line.bytes.splitOn 44).length := by
    rw [← CStr.bytes_take, hcut, hline, List.length_append, List.length_append, hhead, hhead']
    rfl
  obtain ⟨init, p, t, hcut', hline', hp⟩ := Split.splitOn_take_last hlen
  -- the five tokens in front are the same, the last one is a prefix
  obtain ⟨rfl, hpv⟩ := List.append_inj' (hcut'.symm.trans hcut) rfl
  obtain ⟨rfl, htu⟩ := List.append_inj' (hline'.symm.trans hline) rfl
  obtain rfl := (List.cons.inj hpv).1
  obtain rfl := (List.cons.inj htu).1
  obtain ⟨w, hw⟩ := (List.cons_prefix_cons.mp ((List.prefix_append_right_inj _).mp hp)).2
  subst hw
  refine ⟨init, v, w, hcut, hline, hvne, ?_, hv, hu, ?_⟩
  · rintro rfl
    rw [List.append_nil] at hline
    have hself := congrArg List.length (Split.take_eq_self_of_splitOn (hcut.trans hline.symm))
    rw [List.length_take] at hself
    simp only [CStr.length] at hn
    omega
  · rw [hline] at h
    exact hagree (v ++ w) l h

/-- **When a cut line is read as the same event**: only zeros were cut from
the aux code. -/
theorem eventLocals_take_eq_iff {line : CStr} {n : ℕ} (hn : n < line.length) {l l' : EventLocals P}
    (h : eventLocals line = some l) (h' : eventLocals (line.take n) = some l') :
    l' = l ↔ l.aux = 0 := by
  obtain ⟨head, v, t, -, -, -, htne, hv, hvt, hl⟩ := eventLocals_take hn h h'
  unfold numberValue at hv hvt
  simp only [Option.ite_none_left_eq_some] at hv hvt
  have haux := parseU32Strict_append htne hv.2 hvt.2
  rw [← haux]
  constructor
  · rintro rfl
    rfl
  · intro he
    rw [hl, ← he]

/-- **A cut line of an event is not read as that event.** -/
theorem eventLocals_take_ne (e : ExtEvent P) (hb : NonemptyText e.blockName)
    (hr : NonemptyText e.reason) {n : ℕ} (hn : n < (eventLine e).length) {l : EventLocals P}
    (h : eventLocals ((bufText (eventLine e)).take n) = some l) : l.aux ≠ e.auxCode := by
  have hbytes := bufText_bytes (nulFree_eventLine e)
  have hline := eventLocals_eventLine e hb hr
  have hn' : n < (bufText (eventLine e)).length := by rwa [CStr.length, hbytes]
  obtain ⟨head, v, t, -, hsplit, hvne, htne, hv, hvt, hl⟩ := eventLocals_take hn' hline h
  intro he
  have hzero : e.auxCode = 0 := by
    apply (eventLocals_take_eq_iff hn' hline h).mp
    rw [hl, ← he]
  -- zero is written as a single digit
  rw [hbytes, splitOn_eventLine] at hsplit
  have hdec : decimal e.auxCode.toNat = v ++ t := by
    simpa [eventTokenAux] using (List.append_inj' hsplit rfl).2
  have hlen := congrArg List.length hdec
  have hv1 := List.length_pos_iff.mpr hvne
  have ht1 := List.length_pos_iff.mpr htne
  rw [hzero, List.length_append, show (decimal (0 : BitVec 32).toNat).length = 1 from rfl] at hlen
  omega

end Loxguard
