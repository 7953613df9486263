/-
# Report lines

`lox_report_format_kv` writes a report and the kind of its event as one line
of seven `key=value` fields, `lox_report_parse_kv_ex` reads such a line. The
last field is a single digit, so no proper prefix of a formatted line has a
value there: what the parser accepts was not cut (`report_round_trip`).

A line and an output record are never null here; a null report or event is.
The parser does not look at the result code, so a snapshot keeps the number
it was cast from. It stores the event kind before its last checks.

Key definitions: `reportFormatKv`, `reportParseKvEx`.
Key theorems: `reportHead_fields_iff`, `reportLocals_reportLine`,
`splitOn_of_reportLocals`, `report_round_trip`.
-/
import Loxguard.Format.Schema

namespace Loxguard

open Lib Lib.Percent Lib.Decimal

variable {P : Platform}

/-! ### Codes -/

/-- The enumerator's value. -/
def Result.code : Result → ℕ
  | .none => 0
  | .ok => 1
  | .error => 2
  | .timeout => 3
  | .bounds => 4
  | .arena => 5
  | .memoryFault => 6
  | .unsupported => 7

/-- The enumerator's value. -/
def Action.code : Action → ℕ
  | .none => 0
  | .dropInput => 1
  | .resetBlock => 2

/-- The cast from a number that is an enumerator's value. -/
def Action.ofCode : ℕ → Option Action
  | 0 => some .none
  | 1 => some .dropInput
  | 2 => some .resetBlock
  | _ => Option.none

theorem Result.code_lt (r : Result) : r.code < 2 ^ 32 := by
  cases r <;> decide

theorem Action.code_le (a : Action) : a.code ≤ 2 := by
  cases a <;> decide

theorem Action.ofCode_code (a : Action) : ofCode a.code = some a := by
  cases a <;> rfl

theorem Action.ofCode_eq_some_iff (x : ℕ) (a : Action) : ofCode x = some a ↔ x = a.code := by
  constructor
  · unfold ofCode
    intro h
    split at h <;> cases h <;> rfl
  · rintro rfl
    exact a.ofCode_code

/-! ### The formatter -/

/-- The block a report's line names. -/
def reportBlock (r : Report) : CStr := r.lastBlock.getD (.lit "none")

/-- The reason a report's line gives. -/
def reportReason (r : Report) : CStr := r.reason.getD (.lit "NONE")

/-- The event kind a report's line gives: none for `NULL`. -/
def reportKind (event : Option (ExtEvent P)) : EventKind := (event.map Event.kind).getD .none

/-- `event_persisted` as a flag. -/
def persistedFlag (r : Report) : ℕ := if r.eventPersisted ≠ 0 then 1 else 0

/-- The complete line of a report. -/
def reportLine (r : Report) (event : Option (ExtEvent P)) : List UInt8 :=
  ascii "block=" ++ encodeKvValue 64 (some (reportBlock r)) ++
    ascii ",reason=" ++ encodeKvValue 64 (some (reportReason r)) ++
    ascii ",result=" ++ decimal r.result.code ++
    ascii ",action=" ++ decimal r.action.code ++
    ascii ",event_kind=" ++ decimal (reportKind event).code ++
    ascii ",duration_ticks=" ++ decimal r.durationTicks.toNat ++
    ascii ",event_persisted=" ++ decimal (persistedFlag r)

/-- `lox_report_format_kv`. -/
def reportFormatKv (report : Option Report) (event : Option (ExtEvent P)) (outLen : ℕ) : Formatted :=
  if outLen = 0 then ⟨[], 0⟩
  else match report with
    | none => snprintf (ascii
        "block=none,reason=NONE,result=0,action=0,event_kind=0,duration_ticks=0,event_persisted=0") outLen
    | some r => snprintf (reportLine r event) outLen

/-! ### The parser -/

/-- `lox_action_is_valid`. -/
def actionIsValid (action : BitVec 32) : Bool := action ≤ 2

/-- The value of the action field. -/
def actionValue (value : List UInt8) : Option Action :=
  (parseU32Strict value).bind fun action =>
    if actionIsValid action then Action.ofCode action.toNat else none

/-- The value of the event kind field. -/
def kindValue (value : List UInt8) : Option EventKind :=
  (parseU32Strict value).bind fun kind =>
    if eventKindIsValid kind.toInt then EventKind.ofCode kind.toInt else none

theorem actionIsValid_iff (action : BitVec 32) : actionIsValid action = true ↔ action.toNat ≤ 2 := by
  have htwo : (2 : BitVec 32).toNat = 2 := rfl
  rw [actionIsValid, decide_eq_true_eq, BitVec.le_def, htwo]

theorem Action.isSome_ofCode (action : BitVec 32) :
    (ofCode action.toNat).isSome = actionIsValid action := by
  rw [Bool.eq_iff_iff, Option.isSome_iff_exists, actionIsValid_iff]
  constructor
  · rintro ⟨a, ha⟩
    rw [(ofCode_eq_some_iff _ a).mp ha]
    exact a.code_le
  · intro hle
    have hall : ∀ n < 3, (ofCode n).isSome := by decide
    exact Option.isSome_iff_exists.mp (hall _ (by omega))

/-- The check decides which actions are taken, not the cast. -/
theorem isSome_actionValue (value : List UInt8) :
    (actionValue value).isSome = (parseU32Strict value).any actionIsValid := by
  unfold actionValue
  cases parseU32Strict value with
  | none => rfl
  | some action =>
    rw [Option.bind_some, Option.any_some, ← Action.isSome_ofCode]
    split_ifs with hvalid
    · rfl
    · exact (Bool.eq_false_iff.mpr hvalid).symm

/-- The check decides which event kinds are taken, not the cast. -/
theorem isSome_kindValue (value : List UInt8) :
    (kindValue value).isSome = (parseU32Strict value).any fun kind => eventKindIsValid kind.toInt := by
  unfold kindValue
  cases parseU32Strict value with
  | none => rfl
  | some kind =>
    rw [Option.bind_some, Option.any_some, ← EventKind.isSome_ofCode]
    split_ifs with hvalid
    · rfl
    · exact (Bool.eq_false_iff.mpr hvalid).symm

/-- The value of the persisted field. -/
def persistedValue (value : List UInt8) : Option (BitVec 32) :=
  (parseU32Strict value).bind fun persisted => if 1 < persisted then none else some persisted

/-- The locals of `lox_report_parse_kv_ex` when it stores the event kind, and
its cursor. -/
structure ReportHead where
  block : CStr
  reason : CStr
  result : BitVec 32
  action : Action
  kind : EventKind
  cursor : List UInt8

/-- The checks of `lox_report_parse_kv_ex` up to the store of the event kind. -/
def reportHead (line : CStr) : Option ReportHead :=
  (fieldNext (ascii "block") textValue line.bytes).bind fun (block, cursor, _) =>
  (fieldNext (ascii "reason") textValue cursor).bind fun (reason, cursor, _) =>
  (fieldNext (ascii "result") (numberValue 32 parseU32Strict) cursor).bind fun (result, cursor, _) =>
  (fieldNext (ascii "action") (numberValue 32 actionValue) cursor).bind fun (action, cursor, _) =>
  (fieldNext (ascii "event_kind") (numberValue 32 kindValue) cursor).map fun (kind, cursor, _) =>
    ⟨block, reason, result, action, kind, cursor⟩

/-- The checks after that, and the last two locals. -/
def reportTail (cursor : List UInt8) : Option (BitVec 32 × BitVec 32) :=
  (fieldNext (ascii "duration_ticks") (numberValue 32 parseU32Strict) cursor).bind
    fun (durationTicks, cursor, _) =>
  (fieldNext (ascii "event_persisted") (numberValue 8 persistedValue) cursor).bind
    fun (persisted, cursor, hadComma) =>
  if hadComma || cursor ≠ [] then none else some (durationTicks, persisted)

/-- The `lox_report_t` of a snapshot. Its texts point at the two buffers. -/
structure ParsedReport where
  lastBlock : Option CStr
  lastFailedBlock : Option CStr
  reason : Option CStr
  result : BitVec 32
  action : Action
  durationTicks : BitVec 32
  eventPersisted : ℤ
deriving DecidableEq

/-- `lox_report_snapshot_t`. -/
structure ReportSnapshot where
  report : ParsedReport
  eventKind : EventKind
  blockName : CStr
  reason : CStr
deriving DecidableEq

/-- A snapshot before any parse. -/
def ReportSnapshot.zero : ReportSnapshot := ⟨⟨none, none, none, 0, .none, 0, 0⟩, .none, .lit "", .lit ""⟩

/-- `lox_report_parse_kv_ex`: what it returns and leaves in `out`. -/
def reportParseKvEx (line : CStr) (out : ReportSnapshot) : Bool × ReportSnapshot :=
  match reportHead line with
  | none => (false, out)
  | some h =>
    let out := { out with eventKind := h.kind }
    match reportTail h.cursor with
    | none => (false, out)
    | some (durationTicks, persisted) => (true,
      { out with
        blockName := h.block
        reason := h.reason
        report :=
          { lastFailedBlock := some h.block
            lastBlock := some h.block
            reason := some h.reason
            result := h.result
            action := h.action
            durationTicks := durationTicks
            eventPersisted := if persisted = 1 then 1 else 0 } })

/-- A rejected line leaves everything but the event kind as it was. -/
theorem reportParseKvEx_reject {line : CStr} {out : ReportSnapshot}
    (h : (reportParseKvEx line out).1 = false) :
    ∃ kind, (reportParseKvEx line out).2 = { out with eventKind := kind } := by
  unfold reportParseKvEx at h ⊢
  cases hh : reportHead line with
  | none => exact ⟨out.eventKind, rfl⟩
  | some hd =>
    rw [hh] at h
    simp only at h ⊢
    cases ht : reportTail hd.cursor with
    | none => exact ⟨hd.kind, rfl⟩
    | some t =>
      rw [ht] at h
      cases h

/-! ### Five fields and what follows -/

/-- Five values, and what the parser reads from them. -/
structure ReadsHead (h : ReportHead) (block reason result action eventKind : List UInt8) : Prop where
  block : block ≠ [] ∧ 44 ∉ block ∧ textValue block = some h.block
  reason : reason ≠ [] ∧ 44 ∉ reason ∧ textValue reason = some h.reason
  result : result ≠ [] ∧ 44 ∉ result ∧ numberValue 32 parseU32Strict result = some h.result
  action : action ≠ [] ∧ 44 ∉ action ∧ numberValue 32 actionValue action = some h.action
  eventKind : eventKind ≠ [] ∧ 44 ∉ eventKind ∧ numberValue 32 kindValue eventKind = some h.kind

/-- The first five fields, and what follows them. -/
def headFields (block reason result action eventKind rest : List UInt8) : List UInt8 :=
  ascii "block" ++ 61 :: block ++ 44 :: (ascii "reason" ++ 61 :: reason ++
    44 :: (ascii "result" ++ 61 :: result ++ 44 :: (ascii "action" ++ 61 :: action ++
    44 :: (ascii "event_kind" ++ 61 :: eventKind ++ rest))))

/-- **The checks up to the event kind** take five fields, the last with or
without a comma behind it. -/
theorem reportHead_fields_iff (line : CStr) (h : ReportHead) : reportHead line = some h ↔
    ∃ v1 v2 v3 v4 v5 rest, line.bytes = headFields v1 v2 v3 v4 v5 rest ∧
      (rest = 44 :: h.cursor ∨ rest = [] ∧ h.cursor = []) ∧ ReadsHead h v1 v2 v3 v4 v5 := by
  unfold reportHead
  constructor
  · intro hh
    obtain ⟨v1, block, s1, hs1, hne1, hc1, hp1, hh⟩ :=
      (fieldNext_bind_iff (by decide) _ (fun _ _ => by simp [fieldNext_nil]) _ _).mp hh
    obtain ⟨v2, reason, s2, rfl, hne2, hc2, hp2, hh⟩ :=
      (fieldNext_bind_iff (by decide) _ (fun _ _ => by simp [fieldNext_nil]) _ _).mp hh
    obtain ⟨v3, result, s3, rfl, hne3, hc3, hp3, hh⟩ :=
      (fieldNext_bind_iff (by decide) _ (fun _ _ => by simp [fieldNext_nil]) _ _).mp hh
    obtain ⟨v4, action, s4, rfl, hne4, hc4, hp4, hh⟩ :=
      (fieldNext_bind_iff (by decide) _ (fun _ _ => by simp [fieldNext_nil]) _ _).mp hh
    obtain ⟨⟨kind, cursor, comma⟩, hfield, rfl⟩ := Option.map_eq_some_iff.mp hh
    obtain ⟨v5, hne5, hc5, hp5, hrest⟩ := fieldNext_eq_some hfield
    have hreads : ReadsHead ⟨block, reason, result, action, kind, cursor⟩ v1 v2 v3 v4 v5 :=
      ⟨⟨hne1, hc1, hp1⟩, ⟨hne2, hc2, hp2⟩, ⟨hne3, hc3, hp3⟩, ⟨hne4, hc4, hp4⟩, ⟨hne5, hc5, hp5⟩⟩
    rcases hrest with ⟨-, rfl⟩ | ⟨-, rfl, rfl⟩
    · exact ⟨v1, v2, v3, v4, v5, 44 :: cursor, hs1, Or.inl rfl, hreads⟩
    · exact ⟨v1, v2, v3, v4, v5, [], by rw [hs1, headFields, List.append_nil], Or.inr ⟨rfl, rfl⟩, hreads⟩
  · rintro ⟨v1, v2, v3, v4, v5, rest, hline, hrest, hreads⟩
    obtain ⟨hne1, hc1, hp1⟩ := hreads.block
    obtain ⟨hne2, hc2, hp2⟩ := hreads.reason
    obtain ⟨hne3, hc3, hp3⟩ := hreads.result
    obtain ⟨hne4, hc4, hp4⟩ := hreads.action
    obtain ⟨hne5, hc5, hp5⟩ := hreads.eventKind
    obtain ⟨comma, hfield⟩ : ∃ comma, fieldNext (ascii "event_kind") (numberValue 32 kindValue)
        (ascii "event_kind" ++ 61 :: v5 ++ rest) = some (h.kind, h.cursor, comma) := by
      rcases hrest with rfl | ⟨rfl, hcursor⟩
      · exact ⟨true, by rw [fieldNext_comma _ (by decide) hne5 hc5, hp5]; rfl⟩
      · exact ⟨false, by rw [List.append_nil, fieldNext_last _ (by decide) hne5 hc5, hp5, hcursor]; rfl⟩
    rw [hline, headFields, fieldNext_comma _ (by decide) hne1 hc1, hp1, Option.map_some, Option.bind_some]
    dsimp only
    rw [fieldNext_comma _ (by decide) hne2 hc2, hp2, Option.map_some, Option.bind_some]
    dsimp only
    rw [fieldNext_comma _ (by decide) hne3 hc3, hp3, Option.map_some, Option.bind_some]
    dsimp only
    rw [fieldNext_comma _ (by decide) hne4 hc4, hp4, Option.map_some, Option.bind_some]
    dsimp only
    rw [hfield]
    rfl

/-! ### The fields of a formatted line -/

theorem numberValue_decimal {α : Type} {n x : ℕ} (parse : List UInt8 → Option α) (hn : 10 < n)
    (hx : x < 2 ^ 32) : numberValue n parse (decimal x) = parse (decimal x) := by
  have hlen := length_decimal_le (show 0 < 10 by norm_num) (show x < 10 ^ 10 by omega)
  exact numberValue_of_length parse (by omega)

theorem parseU32Strict_decimal_of_lt {x : ℕ} (hx : x < 2 ^ 32) :
    parseU32Strict (decimal x) = some (BitVec.ofNat 32 x) := by
  have h := parseU32Strict_decimal (BitVec.ofNat 32 x)
  rwa [BitVec.toNat_ofNat, Nat.mod_eq_of_lt hx] at h

theorem actionValue_decimal (a : Action) : actionValue (decimal a.code) = some a := by
  have ha := a.code_le
  rw [actionValue, parseU32Strict_decimal_of_lt (by omega), Option.bind_some]
  cases a <;> rfl

theorem kindValue_decimal (k : EventKind) : kindValue (decimal k.code) = some k := by
  have hk := k.code_le
  rw [kindValue, parseU32Strict_decimal_of_lt (by omega), Option.bind_some]
  cases k <;> rfl

theorem persistedValue_decimal {n : ℕ} (hn : n ≤ 1) :
    persistedValue (decimal n) = some (BitVec.ofNat 32 n) := by
  rw [persistedValue, parseU32Strict_decimal_of_lt (by omega), Option.bind_some]
  rcases Nat.le_one_iff_eq_zero_or_eq_one.mp hn with rfl | rfl <;> rfl

/-- The fields of a report's line after the event kind. -/
def reportLineTail (r : Report) : List UInt8 :=
  ascii "duration_ticks" ++ 61 :: decimal r.durationTicks.toNat ++
    44 :: (ascii "event_persisted" ++ 61 :: decimal (persistedFlag r))

theorem reportLine_eq (r : Report) (event : Option (ExtEvent P)) : reportLine r event =
    headFields (encodeKvValue 64 (some (reportBlock r))) (encodeKvValue 64 (some (reportReason r)))
      (decimal r.result.code) (decimal r.action.code) (decimal (reportKind event).code)
      (44 :: reportLineTail r) := by
  have h1 : ascii "block=" = ascii "block" ++ [61] := by decide
  have h2 : ascii ",reason=" = 44 :: ascii "reason" ++ [61] := by decide
  have h3 : ascii ",result=" = 44 :: ascii "result" ++ [61] := by decide
  have h4 : ascii ",action=" = 44 :: ascii "action" ++ [61] := by decide
  have h5 : ascii ",event_kind=" = 44 :: ascii "event_kind" ++ [61] := by decide
  have h6 : ascii ",duration_ticks=" = 44 :: ascii "duration_ticks" ++ [61] := by decide
  have h7 : ascii ",event_persisted=" = 44 :: ascii "event_persisted" ++ [61] := by decide
  simp only [reportLine, reportLineTail, headFields, h1, h2, h3, h4, h5, h6, h7]
  simp

theorem nulFree_reportLine (r : Report) (event : Option (ExtEvent P)) : 0 ∉ reportLine r event := by
  have hd : ∀ n, 0 ∉ decimal n := not_mem_decimal (by decide)
  have he : ∀ s, 0 ∉ encodeKvValue 64 (some s) := nulFree_encodeKvValue 64
  have hkeys : ∀ key ∈ [ascii "block=", ascii ",reason=", ascii ",result=", ascii ",action=",
      ascii ",event_kind=", ascii ",duration_ticks=", ascii ",event_persisted="], 0 ∉ key := by
    decide
  simp only [List.forall_mem_cons] at hkeys
  obtain ⟨h1, h2, h3, h4, h5, h6, h7, -⟩ := hkeys
  simp [reportLine, hd, he, h1, h2, h3, h4, h5, h6, h7]

theorem persistedFlag_le (r : Report) : persistedFlag r ≤ 1 := by
  unfold persistedFlag
  split <;> omega

theorem reportLocals_reportLine (r : Report) (event : Option (ExtEvent P))
    (hb : (reportBlock r).bytes ≠ []) (hr : (reportReason r).bytes ≠ []) :
    reportHead (bufText (reportLine r event)) =
        some ⟨fitText (some (reportBlock r)), fitText (some (reportReason r)),
          BitVec.ofNat 32 r.result.code, r.action, reportKind event, reportLineTail r⟩ ∧
      reportTail (reportLineTail r) = some (r.durationTicks, BitVec.ofNat 32 (persistedFlag r)) := by
  have hd : ∀ n, 44 ∉ decimal n := not_mem_decimal (by decide)
  have he : ∀ s, 44 ∉ encodeKvValue 64 (some s) := not_mem_encodeKvValue (Or.inl rfl) 64
  have hk := (reportKind event).code_le
  have ha := r.action.code_le
  have hflag := persistedFlag_le r
  have hres := r.result.code_lt
  constructor
  · have hblock := textValue_encode (t := some (reportBlock r)) hb
    have hreason := textValue_encode (t := some (reportReason r)) hr
    simp only [eventText, Option.getD_some] at hblock hreason
    have hline := (bufText_bytes (nulFree_reportLine r event)).trans (reportLine_eq r event)
    apply (reportHead_fields_iff _ _).mpr
    refine ⟨_, _, _, _, _, _, hline, Or.inl rfl, ⟨?_, ?_, ?_, ?_, ?_⟩⟩
    · exact ⟨encodeKvValue_ne_nil (by norm_num) hb, he _, hblock⟩
    · exact ⟨encodeKvValue_ne_nil (by norm_num) hr, he _, hreason⟩
    · exact ⟨decimal_ne_nil _, hd _, by
        rw [numberValue_decimal _ (by norm_num) hres, parseU32Strict_decimal_of_lt hres]⟩
    · exact ⟨decimal_ne_nil _, hd _, by
        rw [numberValue_decimal _ (by norm_num) (by omega), actionValue_decimal]⟩
    · exact ⟨decimal_ne_nil _, hd _, by
        rw [numberValue_decimal _ (by norm_num) (by omega), kindValue_decimal]⟩
  · have hlen := length_decimal_le (show 0 < 1 by norm_num) (show persistedFlag r < 10 ^ 1 by omega)
    unfold reportTail reportLineTail
    rw [fieldNext_comma _ (by decide) (decimal_ne_nil _) (hd _),
      numberValue_decimal _ (by norm_num) r.durationTicks.isLt, parseU32Strict_decimal, Option.map_some,
      Option.bind_some]
    dsimp only
    rw [fieldNext_last _ (by decide) (decimal_ne_nil _) (hd _), numberValue_of_length _ (by omega),
      persistedValue_decimal hflag]
    rfl

/-! ### A cut line -/

theorem splitOn_field {key v : List UInt8} (hkey : 44 ∉ key) (hv : 44 ∉ v) (rest : List UInt8) :
    (key ++ 61 :: v ++ 44 :: rest).splitOn 44 = (key ++ 61 :: v) :: rest.splitOn 44 :=
  List.splitOn_append_cons_self_of_not_mem (by simp [hkey, hv]) rest

theorem splitOn_lastField {key v : List UInt8} (hkey : 44 ∉ key) (hv : 44 ∉ v) :
    (key ++ 61 :: v).splitOn 44 = [key ++ 61 :: v] :=
  List.splitOn_eq_singleton (by simp [hkey, hv])

/-- A line the parser accepts has seven tokens, and the last one has a value. -/
theorem splitOn_of_reportLocals {line : CStr} {h : ReportHead} {t : BitVec 32 × BitVec 32}
    (hh : reportHead line = some h) (ht : reportTail h.cursor = some t) :
    ∃ head v, line.bytes.splitOn 44 = head ++ [ascii "event_persisted" ++ 61 :: v] ∧
      head.length = 6 ∧ v ≠ [] := by
  obtain ⟨v1, v2, v3, v4, v5, rest, hline, hrest, hreads⟩ := (reportHead_fields_iff line h).mp hh
  have hc1 := hreads.block.2.1
  have hc2 := hreads.reason.2.1
  have hc3 := hreads.result.2.1
  have hc4 := hreads.action.2.1
  have hc5 := hreads.eventKind.2.1
  unfold reportTail at ht
  rcases hrest with rfl | ⟨-, hcursor⟩
  · obtain ⟨v6, durationTicks, s6, hs6, -, hc6, -, ht⟩ :=
      (fieldNext_bind_iff (by decide) _ (fun _ _ => by simp [fieldNext_nil]) _ _).mp ht
    obtain ⟨v7, persisted, rfl, hne7, hc7, -, -⟩ :=
      (fieldNext_last_iff (show 44 ∉ ascii "event_persisted" by decide) _ (fun _ _ _ => rfl) _ _).mp ht
    refine ⟨[ascii "block" ++ 61 :: v1, ascii "reason" ++ 61 :: v2, ascii "result" ++ 61 :: v3,
      ascii "action" ++ 61 :: v4, ascii "event_kind" ++ 61 :: v5, ascii "duration_ticks" ++ 61 :: v6],
      v7, ?_, rfl, hne7⟩
    rw [hline, headFields, hs6, splitOn_field (by decide) hc1, splitOn_field (by decide) hc2,
      splitOn_field (by decide) hc3, splitOn_field (by decide) hc4, splitOn_field (by decide) hc5,
      splitOn_field (by decide) hc6, splitOn_lastField (by decide) hc7]
    rfl
  · -- the kind cannot be the last field
    rw [hcursor, fieldNext_nil] at ht
    cases ht

theorem splitOn_reportLine (r : Report) (event : Option (ExtEvent P)) : ∃ head : List (List UInt8),
    (reportLine r event).splitOn 44 =
      head ++ [ascii "event_persisted" ++ 61 :: decimal (persistedFlag r)] ∧ head.length = 6 := by
  have hd : ∀ n, 44 ∉ decimal n := not_mem_decimal (by decide)
  have he : ∀ s, 44 ∉ encodeKvValue 64 (some s) := not_mem_encodeKvValue (Or.inl rfl) 64
  rw [reportLine_eq, headFields, splitOn_field (by decide) (he _), splitOn_field (by decide) (he _),
    splitOn_field (by decide) (hd _), splitOn_field (by decide) (hd _), splitOn_field (by decide) (hd _),
    reportLineTail, splitOn_field (by decide) (hd _), splitOn_lastField (by decide) (hd _)]
  exact ⟨[_, _, _, _, _, _], rfl, rfl⟩

/-- **A cut line is rejected**: its last field is gone, or has no value left. -/
theorem reportLocals_take (r : Report) (event : Option (ExtEvent P)) {n : ℕ}
    (hn : n < (reportLine r event).length) {h : ReportHead}
    (hh : reportHead ((bufText (reportLine r event)).take n) = some h) : reportTail h.cursor = none := by
  cases ht : reportTail h.cursor with
  | none => rfl
  | some t =>
    exfalso
    obtain ⟨head, v, hcut, hhead, hv⟩ := splitOn_of_reportLocals hh ht
    obtain ⟨whole, hline, hwhole⟩ := splitOn_reportLine r event
    rw [CStr.bytes_take, bufText_bytes (nulFree_reportLine r event)] at hcut
    have hcount : (((reportLine r event).take n).splitOn 44).length =
        ((reportLine r event).splitOn 44).length := by
      rw [hcut, hline, List.length_append, List.length_append, hhead, hwhole]
      rfl
    obtain ⟨init, p, t, hp, ht, hpre⟩ := Split.splitOn_take_last hcount
    obtain ⟨rfl, hlast⟩ := List.append_inj' (hp.symm.trans hcut) rfl
    obtain ⟨rfl, hfull⟩ := List.append_inj' (ht.symm.trans hline) rfl
    obtain rfl := (List.cons.inj hlast).1
    obtain rfl := (List.cons.inj hfull).1
    -- the value left is not empty, and the digit it comes from is all there is
    have hdigit := length_decimal_le (show 0 < 1 by norm_num)
      (show persistedFlag r < 10 ^ 1 by have := persistedFlag_le r; omega)
    have hvd : v <+: decimal (persistedFlag r) :=
      (List.cons_prefix_cons.mp ((List.prefix_append_right_inj _).mp hpre)).2
    have hlen := List.length_pos_iff.mpr hv
    obtain rfl := hvd.eq_of_length_le (by omega)
    have hself := congrArg List.length (Split.take_eq_self_of_splitOn (hcut.trans hline.symm))
    rw [List.length_take] at hself
    omega

/-! ### The round trip -/

theorem text_reportFormatKv (r : Report) (event : Option (ExtEvent P)) {outLen : ℕ} (h : 1 ≤ outLen) :
    (reportFormatKv (some r) event outLen).text = (reportLine r event).take (outLen - 1) := by
  rw [reportFormatKv, if_neg (by omega)]
  rfl

/-- **Report line round trip.** The parser accepts what the formatter wrote
exactly when nothing was cut off, and reads the same codes and numbers from
it, and of each text the longest prefix whose encoding has at most 63 bytes. -/
theorem report_round_trip (r : Report) (event : Option (ExtEvent P))
    (hb : ∀ s, r.lastBlock = some s → s.bytes ≠ []) (hr : ∀ s, r.reason = some s → s.bytes ≠ [])
    {outLen : ℕ} (hlen : 1 ≤ outLen) (out : ReportSnapshot) :
    ((reportParseKvEx (bufText (reportFormatKv (some r) event outLen).text) out).1 = true ↔
      (reportLine r event).length < outLen) ∧
    ((reportParseKvEx (bufText (reportFormatKv (some r) event outLen).text) out).1 = true →
      ∃ block reason : CStr, kvReserved.IsFit 63 (reportBlock r).bytes block.bytes ∧
        kvReserved.IsFit 63 (reportReason r).bytes reason.bytes ∧
        (reportParseKvEx (bufText (reportFormatKv (some r) event outLen).text) out).2 =
          { report :=
              { lastBlock := some block
                lastFailedBlock := some block
                reason := some reason
                result := BitVec.ofNat 32 r.result.code
                action := r.action
                durationTicks := r.durationTicks
                eventPersisted := if r.eventPersisted = 0 then 0 else 1 }
            eventKind := reportKind event
            blockName := block
            reason := reason }) := by
  have hb' : (reportBlock r).bytes ≠ [] := by
    unfold reportBlock
    cases h : r.lastBlock with
    | none => exact show ascii "none" ≠ [] by decide
    | some s => exact hb s h
  have hr' : (reportReason r).bytes ≠ [] := by
    unfold reportReason
    cases h : r.reason with
    | none => exact show ascii "NONE" ≠ [] by decide
    | some s => exact hr s h
  rw [text_reportFormatKv r event hlen]
  by_cases hcut : (reportLine r event).length < outLen
  · obtain ⟨hhead, htail⟩ := reportLocals_reportLine r event hb' hr'
    rw [List.take_of_length_le (by omega), reportParseKvEx, hhead]
    simp only [htail]
    refine ⟨⟨fun _ => hcut, fun _ => trivial⟩, fun _ => ⟨fitText (some (reportBlock r)),
      fitText (some (reportReason r)), kvReserved.fit_isFit _ _, kvReserved.fit_isFit _ _, ?_⟩⟩
    unfold persistedFlag
    by_cases hp : r.eventPersisted = 0 <;> simp [hp]
  · have hreject : (reportParseKvEx (bufText ((reportLine r event).take (outLen - 1))) out).1 = false := by
      rw [bufText_take (nulFree_reportLine r event)]
      unfold reportParseKvEx
      cases hh : reportHead ((bufText (reportLine r event)).take (outLen - 1)) with
      | none => rfl
      | some h =>
        simp only [reportLocals_take r event (show outLen - 1 < _ by omega) hh]
    rw [hreject]
    exact ⟨⟨fun h => absurd h Bool.false_ne_true, fun h => absurd h hcut⟩,
      fun h => absurd h Bool.false_ne_true⟩

/-- A report whose block name is full of separators, and a panic event. -/
def separatorReport : Report :=
  ⟨some (.lit "a,b=c%2C\n"), none, none, .timeout, .dropInput, 4294967295, -1⟩

theorem report_round_trip_separators :
    (reportParseKvEx (bufText (reportFormatKv (some separatorReport) (some forgedEvent) 160).text)
      .zero).1 = true :=
  (report_round_trip separatorReport (some forgedEvent) (by decide +kernel) (by decide +kernel)
    (show 1 ≤ 160 by norm_num) .zero).1.mpr (by decide +kernel)

end Loxguard
