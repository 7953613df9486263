/-
# The schema of a report line

A report line is read in two parts: five values up to the event kind
(`ReportHeadValues`), which is stored at once, and two after it
(`ReportTailValues`). What each part accepts is a grammar of its own
(`reportHead_iff`, `reportTail_iff`), so a line is rejected late exactly when
its first five fields can be read and the rest cannot (`lateReject_iff`). That
is when a failed parse leaves a mark on its output (`parse_atomic_iff`).

The action and the event kind are checked against their enumerations, the
result is not: what is accepted is well typed as long as the number of the
result field is the value of an enumerator (`parse_wellTyped_iff`).

Key definitions: `eventParseCsvLine`, `reportParseKv`, `ReportHeadValues`,
`ReportTailValues`, `LateReject`.
Key theorems: `reportHead_iff`, `reportTail_iff`, `lateReject_iff`,
`parse_atomic_iff`, `parse_wellTyped_iff`.
-/
import Loxguard.Format.Report

namespace Loxguard

open Lib Lib.Percent

variable {P : Platform}

/-! ### The parsers without text buffers -/

/-- `lox_event_parse_csv_line`; `snap` is what its local holds at first. -/
def eventParseCsvLine (line : CStr) (snap : EventSnapshot P) (out : ExtEvent P) : Bool × ExtEvent P :=
  match eventParseCsvLineEx line snap with
  | (false, _) => (false, out)
  | (true, snap) => (true, { snap.event with blockName := none, reason := none })

/-- `lox_report_parse_kv`; `snap` is what its local holds at first. -/
def reportParseKv (line : CStr) (snap : ReportSnapshot) (out : ParsedReport × EventKind) :
    Bool × ParsedReport × EventKind :=
  match reportParseKvEx line snap with
  | (false, _) => (false, out)
  | (true, snap) =>
    (true, { snap.report with lastBlock := none, lastFailedBlock := none, reason := none },
      snap.eventKind)

/-! ### The grammar -/

/-- The values of a report line up to the event kind. -/
structure ReportHeadValues where
  block : List UInt8
  reason : List UInt8
  result : List UInt8
  action : List UInt8
  eventKind : List UInt8

/-- The values after it. -/
structure ReportTailValues where
  durationTicks : List UInt8
  eventPersisted : List UInt8

namespace ReportHeadValues

/-- The first five fields with these values. -/
def text (v : ReportHeadValues) : List UInt8 :=
  ascii "block=" ++ v.block ++ ascii ",reason=" ++ v.reason ++ ascii ",result=" ++ v.result ++
    ascii ",action=" ++ v.action ++ ascii ",event_kind=" ++ v.eventKind

/-- The values the parser can read. -/
structure Readable (v : ReportHeadValues) : Prop where
  block : TextValue v.block
  reason : TextValue v.reason
  result : ∃ n ≤ uint32Max, ReadsUnsigned v.result n
  action : ∃ a : Action, ReadsUnsigned v.action a.code
  eventKind : ∃ k : EventKind, ReadsUnsigned v.eventKind k.code

/-- The values, and what is read from them. -/
structure Reads (v : ReportHeadValues) (h : ReportHead) : Prop where
  block : TextValue v.block ∧ h.block.bytes = (unescape v.block).take 63
  reason : TextValue v.reason ∧ h.reason.bytes = (unescape v.reason).take 63
  result : ReadsUnsigned v.result h.result.toNat
  action : ReadsUnsigned v.action h.action.code
  eventKind : ReadsUnsigned v.eventKind h.kind.code

end ReportHeadValues

namespace ReportTailValues

/-- The last two fields with these values. -/
def text (v : ReportTailValues) : List UInt8 :=
  ascii "duration_ticks=" ++ v.durationTicks ++ ascii ",event_persisted=" ++ v.eventPersisted

/-- The values the parser can read. -/
structure Readable (v : ReportTailValues) : Prop where
  durationTicks : ∃ n ≤ uint32Max, ReadsUnsigned v.durationTicks n
  eventPersisted : v.eventPersisted.length ≤ 7 ∧ ∃ n ≤ 1, ReadsUnsigned v.eventPersisted n

/-- The values, and what is read from them. -/
structure Reads (v : ReportTailValues) (t : BitVec 32 × BitVec 32) : Prop where
  durationTicks : ReadsUnsigned v.durationTicks t.1.toNat
  eventPersisted : v.eventPersisted.length ≤ 7 ∧ t.2.toNat ≤ 1 ∧ ReadsUnsigned v.eventPersisted t.2.toNat

end ReportTailValues

/-- A line of the schema, with its values. -/
def IsReportLine (line : CStr) (v : ReportHeadValues) (w : ReportTailValues) : Prop :=
  line.bytes = v.text ++ 44 :: w.text ∧ v.Readable ∧ w.Readable

/-- The first five fields can be read, with `kind` as the event kind, and what
follows them is not the two fields that should. -/
def LateReject (line : CStr) (kind : EventKind) : Prop :=
  ∃ v : ReportHeadValues, v.Readable ∧ ReadsUnsigned v.eventKind kind.code ∧
    (line.bytes = v.text ∨
      ∃ rest, line.bytes = v.text ++ 44 :: rest ∧ ¬ ∃ w : ReportTailValues, w.Readable ∧ rest = w.text)

/-! ### One value -/

/-- **A checked number**: what is read passes the check. -/
theorem checkedValue_iff {α : Type} {n : ℕ} (hn : n ≤ 32) (check : BitVec 32 → Option α) (s : List UInt8)
    (y : α) : numberValue n (fun value => (parseU32Strict value).bind check) s = some y ↔
      s.length < n ∧ ∃ x : BitVec 32, ReadsUnsigned s x.toNat ∧ check x = some y := by
  unfold numberValue
  rw [Option.ite_none_left_eq_some, Nat.not_le]
  refine and_congr_right fun hlen => ?_
  rw [Option.bind_eq_some_iff]
  refine exists_congr fun x => and_congr_left fun _ => ?_
  rw [← u32Value_iff, numberValue_of_length _ (by omega)]

/-- A check that lets the value of `y` pass, and nothing else for `y`. -/
theorem codeValue_iff {α : Type} {check : BitVec 32 → Option α} {y : α} {code : ℕ}
    (hcode : code < 2 ^ 32) (hcheck : ∀ x : BitVec 32, check x = some y ↔ x.toNat = code)
    (s : List UInt8) :
    numberValue 32 (fun value => (parseU32Strict value).bind check) s = some y ↔
      ReadsUnsigned s code := by
  rw [checkedValue_iff le_rfl]
  constructor
  · rintro ⟨-, x, hread, hx⟩
    rwa [(hcheck x).mp hx] at hread
  · intro hread
    refine ⟨Nat.lt_succ_of_le hread.1, BitVec.ofNat 32 code, ?_, (hcheck _).mpr ?_⟩
    · rwa [BitVec.toNat_ofNat, Nat.mod_eq_of_lt hcode]
    · rw [BitVec.toNat_ofNat, Nat.mod_eq_of_lt hcode]

/-- **An action** is read from the value of an enumerator. -/
theorem actionValue_iff (s : List UInt8) (a : Action) :
    numberValue 32 actionValue s = some a ↔ ReadsUnsigned s a.code := by
  have ha := a.code_le
  refine codeValue_iff (by omega) (fun x => ?_) s
  rw [Option.ite_none_right_eq_some, Action.ofCode_eq_some_iff, and_iff_right_iff_imp]
  intro hx
  rw [actionIsValid_iff]
  omega

/-- **An event kind** is read from the value of an enumerator. -/
theorem reportKindValue_iff (s : List UInt8) (k : EventKind) :
    numberValue 32 kindValue s = some k ↔ ReadsUnsigned s k.code := by
  have hk := k.code_le
  refine codeValue_iff (by omega) (fun x => ?_) s
  have hcast := BitVec.toInt_eq_toNat_cond x
  rw [Option.ite_none_right_eq_some, EventKind.ofCode_eq_some_iff]
  constructor
  · rintro ⟨-, hx⟩
    have hlt := x.isLt
    split at hcast <;> omega
  · intro hx
    have hint : x.toInt = k.code := by
      rw [hcast, if_pos (by omega), hx]
    rw [hint]
    exact ⟨eventKindIsValid_code k, rfl⟩

theorem persistedValue_iff (s : List UInt8) (x : BitVec 32) :
    numberValue 8 persistedValue s = some x ↔ s.length ≤ 7 ∧ x.toNat ≤ 1 ∧ ReadsUnsigned s x.toNat := by
  refine (checkedValue_iff (by norm_num) _ s x).trans ?_
  rw [Nat.lt_succ_iff]
  refine and_congr_right fun _ => ?_
  constructor
  · rintro ⟨y, hread, hy⟩
    rw [Option.ite_none_left_eq_some, Option.some_inj] at hy
    obtain ⟨hle, rfl⟩ := hy
    rw [BitVec.not_lt, BitVec.le_def] at hle
    exact ⟨hle, hread⟩
  · rintro ⟨hle, hread⟩
    refine ⟨x, hread, ?_⟩
    rw [if_neg]
    rw [BitVec.not_lt, BitVec.le_def]
    exact hle

/-! ### The two parts -/

namespace ReportHeadValues

theorem readable_iff (v : ReportHeadValues) (cursor : List UInt8) :
    v.Readable ↔ ∃ h : ReportHead, v.Reads h ∧ h.cursor = cursor := by
  constructor
  · intro h
    obtain ⟨n, hn, hresult⟩ := h.result
    obtain ⟨a, haction⟩ := h.action
    obtain ⟨k, hkind⟩ := h.eventKind
    have hlt : n < 2 ^ 32 := by
      simp only [uint32Max] at hn
      omega
    refine ⟨⟨⟨_, h.block.2.2⟩, ⟨_, h.reason.2.2⟩, BitVec.ofNat 32 n, a, k, cursor⟩,
      ⟨⟨h.block, rfl⟩, ⟨h.reason, rfl⟩, ?_, haction, hkind⟩, rfl⟩
    rwa [BitVec.toNat_ofNat, Nat.mod_eq_of_lt hlt]
  · rintro ⟨h, hreads, -⟩
    exact ⟨hreads.block.1, hreads.reason.1, ⟨_, Nat.le_sub_one_of_lt h.result.isLt, hreads.result⟩,
      ⟨_, hreads.action⟩, ⟨_, hreads.eventKind⟩⟩

theorem text_append (v : ReportHeadValues) (rest : List UInt8) : v.text ++ rest =
    headFields v.block v.reason v.result v.action v.eventKind rest := by
  have h1 : ascii "block=" = ascii "block" ++ [61] := by decide
  have h2 : ascii ",reason=" = 44 :: ascii "reason" ++ [61] := by decide
  have h3 : ascii ",result=" = 44 :: ascii "result" ++ [61] := by decide
  have h4 : ascii ",action=" = 44 :: ascii "action" ++ [61] := by decide
  have h5 : ascii ",event_kind=" = 44 :: ascii "event_kind" ++ [61] := by decide
  simp only [text, headFields, h1, h2, h3, h4, h5]
  simp

theorem nulFree_texts {v : ReportHeadValues} (h : 0 ∉ v.text) : 0 ∉ v.block ∧ 0 ∉ v.reason := by
  constructor
  · intro hmem
    apply h
    simp [text, hmem]
  · intro hmem
    apply h
    simp [text, hmem]

end ReportHeadValues

theorem ReadsUnsigned.clean {s : List UInt8} {n : ℕ} (h : ReadsUnsigned s n) : s ≠ [] ∧ 44 ∉ s := by
  obtain ⟨-, neg, digits, hspelled, -⟩ := h
  exact ⟨hspelled.ne_nil, hspelled.no_comma⟩

theorem ReadsUnsigned.unique {s : List UInt8} {n m : ℕ} (hn : ReadsUnsigned s n)
    (hm : ReadsUnsigned s m) : n = m := by
  have hparse : ∀ {x : ℕ}, ReadsUnsigned s x → parseUintmaxStrict s = some x := by
    rintro x ⟨-, neg, digits, hspelled, hmax, rfl⟩
    exact (parseUintmaxStrict_eq_some_iff s _).mpr
      ⟨neg, digits, (reading_iff s neg digits).mpr hspelled, hmax, rfl⟩
  exact Option.some_inj.mp ((hparse hn).symm.trans (hparse hm))

theorem reads_iff {v : ReportHeadValues} (h0 : 0 ∉ v.text) (h : ReportHead) :
    v.Reads h ↔ ReadsHead h v.block v.reason v.result v.action v.eventKind := by
  obtain ⟨hblock0, hreason0⟩ := ReportHeadValues.nulFree_texts h0
  constructor
  · intro hv
    obtain ⟨hblockne, hblockc, -⟩ := hv.block.1
    obtain ⟨hreasonne, hreasonc, -⟩ := hv.reason.1
    exact ⟨⟨hblockne, hblockc, (textValue_eq_some_iff hblock0 hblockc h.block).mpr hv.block⟩,
      ⟨hreasonne, hreasonc, (textValue_eq_some_iff hreason0 hreasonc h.reason).mpr hv.reason⟩,
      ⟨hv.result.clean.1, hv.result.clean.2, (u32Value_iff v.result h.result).mpr hv.result⟩,
      ⟨hv.action.clean.1, hv.action.clean.2, (actionValue_iff v.action h.action).mpr hv.action⟩,
      ⟨hv.eventKind.clean.1, hv.eventKind.clean.2, (reportKindValue_iff v.eventKind h.kind).mpr hv.eventKind⟩⟩
  · intro hv
    obtain ⟨-, hblockc, hblock⟩ := hv.block
    obtain ⟨-, hreasonc, hreason⟩ := hv.reason
    exact ⟨(textValue_eq_some_iff hblock0 hblockc h.block).mp hblock,
      (textValue_eq_some_iff hreason0 hreasonc h.reason).mp hreason,
      (u32Value_iff v.result h.result).mp hv.result.2.2, (actionValue_iff v.action h.action).mp hv.action.2.2,
      (reportKindValue_iff v.eventKind h.kind).mp hv.eventKind.2.2⟩

/-- **What the first part accepts**, and where it stops. -/
theorem reportHead_iff (line : CStr) (h : ReportHead) : reportHead line = some h ↔
    ∃ v : ReportHeadValues, v.Reads h ∧
      (line.bytes = v.text ++ 44 :: h.cursor ∨ line.bytes = v.text ∧ h.cursor = []) := by
  have hnul : ∀ {v : ReportHeadValues} {rest : List UInt8}, line.bytes = v.text ++ rest → 0 ∉ v.text := by
    intro v rest hline hmem
    apply line.nulFree
    rw [hline]
    exact List.mem_append_left _ hmem
  rw [reportHead_fields_iff]
  constructor
  · rintro ⟨v1, v2, v3, v4, v5, rest, hline, hrest, hreads⟩
    have htext := hline.trans (ReportHeadValues.text_append ⟨v1, v2, v3, v4, v5⟩ rest).symm
    refine ⟨⟨v1, v2, v3, v4, v5⟩, (reads_iff (hnul htext) h).mpr hreads, ?_⟩
    rcases hrest with rfl | ⟨rfl, hcursor⟩
    · exact Or.inl htext
    · exact Or.inr ⟨htext.trans (List.append_nil _), hcursor⟩
  · rintro ⟨v, hv, hline⟩
    obtain ⟨rest, htext, hrest⟩ : ∃ rest, line.bytes = v.text ++ rest ∧
        (rest = 44 :: h.cursor ∨ rest = [] ∧ h.cursor = []) := by
      rcases hline with hline | ⟨hline, hcursor⟩
      · exact ⟨44 :: h.cursor, hline, Or.inl rfl⟩
      · exact ⟨[], hline.trans (List.append_nil _).symm, Or.inr ⟨rfl, hcursor⟩⟩
    exact ⟨v.block, v.reason, v.result, v.action, v.eventKind, rest, htext.trans (v.text_append rest),
      hrest, (reads_iff (hnul htext) h).mp hv⟩

/-- **What the second part accepts.** -/
theorem reportTail_iff (cursor : List UInt8) (t : BitVec 32 × BitVec 32) :
    reportTail cursor = some t ↔ ∃ w : ReportTailValues, w.Reads t ∧ cursor = w.text := by
  have htext : ∀ w : ReportTailValues, w.text = ascii "duration_ticks" ++ 61 :: w.durationTicks ++
      44 :: (ascii "event_persisted" ++ 61 :: w.eventPersisted) := by
    intro w
    have h1 : ascii "duration_ticks=" = ascii "duration_ticks" ++ [61] := by decide
    have h2 : ascii ",event_persisted=" = 44 :: ascii "event_persisted" ++ [61] := by decide
    simp [ReportTailValues.text, h1, h2]
  unfold reportTail
  rw [fieldNext_bind_iff (by decide) _ (fun _ _ => by simp [fieldNext_nil])]
  constructor
  · rintro ⟨v1, durationTicks, rest, rfl, -, -, hp1, h⟩
    obtain ⟨v2, persisted, rfl, -, -, hp2, h⟩ :=
      (fieldNext_last_iff (show 44 ∉ ascii "event_persisted" by decide) _ (fun _ _ _ => rfl) _ _).mp h
    obtain rfl := Option.some_inj.mp h
    exact ⟨⟨v1, v2⟩, ⟨(u32Value_iff v1 durationTicks).mp hp1, (persistedValue_iff v2 persisted).mp hp2⟩,
      (htext ⟨v1, v2⟩).symm⟩
  · rintro ⟨w, hw, rfl⟩
    obtain ⟨hne1, hc1⟩ := hw.durationTicks.clean
    obtain ⟨hne2, hc2⟩ := hw.eventPersisted.2.2.clean
    refine ⟨w.durationTicks, t.1, _, htext w, hne1, hc1, (u32Value_iff _ _).mpr hw.durationTicks, ?_⟩
    exact (fieldNext_last_iff (show 44 ∉ ascii "event_persisted" by decide) _ (fun _ _ _ => rfl) _ _).mpr
      ⟨w.eventPersisted, t.2, rfl, hne2, hc2, (persistedValue_iff _ _).mpr hw.eventPersisted, rfl⟩

theorem ReportTailValues.readable_iff (w : ReportTailValues) :
    w.Readable ↔ ∃ t : BitVec 32 × BitVec 32, w.Reads t := by
  constructor
  · intro h
    obtain ⟨n, hn, hduration⟩ := h.durationTicks
    obtain ⟨hlen, m, hm, hpersisted⟩ := h.eventPersisted
    have hlt : n < 2 ^ 32 := by
      simp only [uint32Max] at hn
      omega
    have hval : ∀ {x : ℕ}, x < 2 ^ 32 → (BitVec.ofNat 32 x).toNat = x := by
      intro x hx
      rw [BitVec.toNat_ofNat, Nat.mod_eq_of_lt hx]
    refine ⟨(BitVec.ofNat 32 n, BitVec.ofNat 32 m), ?_, hlen, ?_, ?_⟩
    · rwa [hval hlt]
    · rwa [hval (by omega)]
    · rwa [hval (by omega)]
  · rintro ⟨t, ht⟩
    exact ⟨⟨_, Nat.le_sub_one_of_lt t.1.isLt, ht.durationTicks⟩, ht.eventPersisted.1, _,
      ht.eventPersisted.2⟩

/-- The second part fails where there are no two fields to read. -/
theorem reportTail_eq_none_iff (cursor : List UInt8) :
    reportTail cursor = none ↔ ¬ ∃ w : ReportTailValues, w.Readable ∧ cursor = w.text := by
  rw [Option.eq_none_iff_forall_ne_some, not_exists]
  constructor
  · rintro hnone w ⟨hw, hcursor⟩
    obtain ⟨t, ht⟩ := w.readable_iff.mp hw
    exact hnone t ((reportTail_iff cursor t).mpr ⟨w, ht, hcursor⟩)
  · intro hno t ht
    obtain ⟨w, hw, hcursor⟩ := (reportTail_iff cursor t).mp ht
    exact hno w ⟨w.readable_iff.mpr ⟨t, hw⟩, hcursor⟩

/-! ### Rejected lines -/

/-- **Late rejections** are those behind the store of the event kind. -/
theorem lateReject_iff (line : CStr) (kind : EventKind) : LateReject line kind ↔
    ∃ h, reportHead line = some h ∧ h.kind = kind ∧ reportTail h.cursor = none := by
  constructor
  · rintro ⟨v, hv, hkind, hline⟩
    obtain ⟨cursor, hcursor, htail⟩ : ∃ cursor,
        (line.bytes = v.text ++ 44 :: cursor ∨ line.bytes = v.text ∧ cursor = []) ∧
          reportTail cursor = none := by
      rcases hline with hline | ⟨rest, hline, hno⟩
      · exact ⟨[], Or.inr ⟨hline, rfl⟩, by simp [reportTail, fieldNext_nil]⟩
      · exact ⟨rest, Or.inl hline, (reportTail_eq_none_iff rest).mpr hno⟩
    obtain ⟨h, hreads, rfl⟩ := (v.readable_iff cursor).mp hv
    refine ⟨h, (reportHead_iff _ _).mpr ⟨v, hreads, hcursor⟩, ?_, htail⟩
    have hsame := (reportKindValue_iff v.eventKind h.kind).mpr hreads.eventKind
    rw [(reportKindValue_iff v.eventKind kind).mpr hkind] at hsame
    exact (Option.some_inj.mp hsame).symm
  · rintro ⟨h, hh, rfl, htail⟩
    obtain ⟨v, hreads, hline⟩ := (reportHead_iff _ _).mp hh
    refine ⟨v, (v.readable_iff h.cursor).mpr ⟨h, hreads, rfl⟩, hreads.eventKind, ?_⟩
    rcases hline with hline | ⟨hline, -⟩
    · exact Or.inr ⟨h.cursor, hline, (reportTail_eq_none_iff h.cursor).mp htail⟩
    · exact Or.inl hline

/-- What a failed parse of a report line stores. -/
theorem reportParseKvEx_unchanged_iff (line : CStr) (out : ReportSnapshot) :
    ((reportParseKvEx line out).1 = false → (reportParseKvEx line out).2 = out) ↔
      ¬ ∃ kind, kind ≠ out.eventKind ∧ LateReject line kind := by
  simp only [lateReject_iff]
  unfold reportParseKvEx
  cases hh : reportHead line with
  | none => simp
  | some h =>
    cases ht : reportTail h.cursor with
    | none =>
      have hstored : ({ out with eventKind := h.kind } : ReportSnapshot) = out ↔
          h.kind = out.eventKind := by
        constructor
        · exact fun heq => congrArg ReportSnapshot.eventKind heq
        · rintro hkind
          rw [hkind]
      simp [hstored, ht]
    | some t => simp [ht]

/-- **When a failed parse leaves its output alone.** The four parsers leave
every field of their outputs as it was when they fail, but on a report line
that is rejected late with another event kind than the output holds. -/
theorem parse_atomic_iff (line : CStr) (eventSnap eventLocal : EventSnapshot P) (event : ExtEvent P)
    (reportSnap reportLocal : ReportSnapshot) (report : ParsedReport × EventKind) :
    (((eventParseCsvLineEx line eventSnap).1 = false →
        (eventParseCsvLineEx line eventSnap).2 = eventSnap) ∧
      ((eventParseCsvLine line eventLocal event).1 = false →
        (eventParseCsvLine line eventLocal event).2 = event) ∧
      ((reportParseKvEx line reportSnap).1 = false →
        (reportParseKvEx line reportSnap).2 = reportSnap) ∧
      ((reportParseKv line reportLocal report).1 = false →
        (reportParseKv line reportLocal report).2 = report)) ↔
    ¬ ∃ kind, kind ≠ reportSnap.eventKind ∧ LateReject line kind := by
  rw [← reportParseKvEx_unchanged_iff]
  constructor
  · exact fun h => h.2.2.1
  · intro h
    refine ⟨?_, ?_, h, ?_⟩
    · unfold eventParseCsvLineEx
      cases (eventLocals line : Option (EventLocals P)) with
      | none => exact fun _ => rfl
      | some l => exact fun hfalse => absurd hfalse (by simp)
    · unfold eventParseCsvLine
      cases eventParseCsvLineEx line eventLocal with
      | mk accepted snap =>
        cases accepted with
        | false => exact fun _ => rfl
        | true => exact fun hfalse => absurd hfalse (by simp)
    · unfold reportParseKv
      cases reportParseKvEx line reportLocal with
      | mk accepted snap =>
        cases accepted with
        | false => exact fun _ => rfl
        | true => exact fun hfalse => absurd hfalse (by simp)

/-- A line without its last field. -/
def shortLine : CStr :=
  .lit "block=x,reason=y,result=3,action=1,event_kind=9,duration_ticks=1"

theorem parse_atomic_late : (reportParseKvEx shortLine .zero).1 = false ∧
    (reportParseKvEx shortLine .zero).2.eventKind = .blockError ∧
    ReportSnapshot.zero.eventKind = .none := by
  decide +kernel

/-! ### Accepted lines -/

/-- A code is the value of an enumerator of `lox_result_t`. -/
def DeclaredResult (n : ℕ) : Prop := ∃ r : Result, n = r.code

theorem declaredResult_iff (n : ℕ) : DeclaredResult n ↔ n ≤ 7 := by
  constructor
  · rintro ⟨r, rfl⟩
    cases r <;> decide
  · intro hn
    interval_cases n
    · exact ⟨.none, rfl⟩
    · exact ⟨.ok, rfl⟩
    · exact ⟨.error, rfl⟩
    · exact ⟨.timeout, rfl⟩
    · exact ⟨.bounds, rfl⟩
    · exact ⟨.arena, rfl⟩
    · exact ⟨.memoryFault, rfl⟩
    · exact ⟨.unsupported, rfl⟩

/-- What a parse returns of a line is well typed: the result is declared, the
action and the event kind are the declared ones that the line spells, and the
flag is a flag. -/
structure WellTyped (line : CStr) (r : ParsedReport) (kind : EventKind) : Prop where
  result : DeclaredResult r.result.toNat
  codes : ∃ v w, IsReportLine line v w ∧ ReadsUnsigned v.action r.action.code ∧
    ReadsUnsigned v.eventKind kind.code
  eventPersisted : r.eventPersisted = 0 ∨ r.eventPersisted = 1

/-- A text buffer of 64 bytes holds a terminated string that is not empty. -/
def GoodText (s : CStr) : Prop := s.bytes ≠ [] ∧ s.length ≤ 63

/-- The line is of the schema, but its result is no value of `lox_result_t`. -/
def UndeclaredResult (line : CStr) : Prop :=
  ∃ v w n, IsReportLine line v w ∧ ReadsUnsigned v.result n ∧ 7 < n

theorem isReportLine_of_some {line : CStr} {h : ReportHead} {t : BitVec 32 × BitVec 32}
    (hh : reportHead line = some h) (ht : reportTail h.cursor = some t) :
    ∃ v w, IsReportLine line v w ∧ v.Reads h ∧ w.Reads t := by
  obtain ⟨v, hv, hline⟩ := (reportHead_iff _ _).mp hh
  obtain ⟨w, hw, hcursor⟩ := (reportTail_iff _ _).mp ht
  refine ⟨v, w, ⟨?_, (v.readable_iff _).mpr ⟨h, hv, rfl⟩, w.readable_iff.mpr ⟨t, hw⟩⟩, hv, hw⟩
  rcases hline with hline | ⟨-, hnil⟩
  · rw [hline, hcursor]
  · rw [hnil] at ht
    simp [reportTail, fieldNext_nil] at ht

theorem undeclaredResult_iff (line : CStr) : UndeclaredResult line ↔
    ∃ h t, reportHead line = some h ∧ reportTail h.cursor = some t ∧ 7 < h.result.toNat := by
  constructor
  · rintro ⟨v, w, n, ⟨hline, hv, hw⟩, hresult, hn⟩
    obtain ⟨h, hreads, hcursor⟩ := (v.readable_iff w.text).mp hv
    obtain ⟨t, ht⟩ := w.readable_iff.mp hw
    rw [hresult.unique hreads.result] at hn
    refine ⟨h, t, (reportHead_iff _ _).mpr ⟨v, hreads, Or.inl ?_⟩, ?_, hn⟩
    · rw [hline, hcursor]
    · exact (reportTail_iff _ _).mpr ⟨w, ht, hcursor⟩
  · rintro ⟨h, t, hh, ht, hn⟩
    obtain ⟨v, w, hline, hv, -⟩ := isReportLine_of_some hh ht
    exact ⟨v, w, _, hline, hv.result, hn⟩

theorem goodText_of_value {s : List UInt8} {t : CStr}
    (h : TextValue s ∧ t.bytes = (unescape s).take 63) : GoodText t := by
  obtain ⟨⟨hne, -, -⟩, ht⟩ := h
  constructor
  · rw [ht, ne_eq, List.take_eq_nil_iff, not_or]
    exact ⟨by norm_num, unescape_ne_nil hne⟩
  · rw [CStr.length, ht, List.length_take]
    exact Nat.min_le_left ..

/-- What an accepted line leaves in the report is well typed exactly when the
result it was read with is declared. -/
theorem wellTyped_iff {line : CStr} {h : ReportHead} {t : BitVec 32 × BitVec 32}
    (hh : reportHead line = some h) (ht : reportTail h.cursor = some t) {r : ParsedReport}
    (hresult : r.result = h.result) (haction : r.action = h.action)
    (hpersisted : r.eventPersisted = if t.2 = 1 then 1 else 0) :
    WellTyped line r h.kind ↔ h.result.toNat ≤ 7 := by
  rw [← declaredResult_iff, ← hresult]
  constructor
  · exact fun hr => hr.result
  · intro hdeclared
    obtain ⟨v, w, hline, hv, -⟩ := isReportLine_of_some hh ht
    refine ⟨hdeclared, ⟨v, w, hline, ?_, hv.eventKind⟩, ?_⟩
    · rw [haction]
      exact hv.action
    · rw [hpersisted]
      split
      · exact Or.inr rfl
      · exact Or.inl rfl

/-- **When what is accepted is well typed.** Whatever the outputs held before,
both parsers return declared codes, a flag and, where they return texts, good
texts for the line, unless it is a line of the schema whose result is not
declared. -/
theorem parse_wellTyped_iff (line : CStr) (out snap : ReportSnapshot) (report : ParsedReport × EventKind) :
    (((reportParseKvEx line out).1 = true →
        WellTyped line (reportParseKvEx line out).2.report (reportParseKvEx line out).2.eventKind ∧
          GoodText (reportParseKvEx line out).2.blockName ∧ GoodText (reportParseKvEx line out).2.reason) ∧
      ((reportParseKv line snap report).1 = true →
        WellTyped line (reportParseKv line snap report).2.1 (reportParseKv line snap report).2.2)) ↔
    ¬ UndeclaredResult line := by
  rw [undeclaredResult_iff]
  unfold reportParseKv reportParseKvEx
  cases hh : reportHead line with
  | none => simp
  | some h =>
    cases ht : reportTail h.cursor with
    | none => simp [ht]
    | some t =>
      obtain ⟨v, w, -, hv, -⟩ := isReportLine_of_some hh ht
      have htexts := And.intro (goodText_of_value hv.block) (goodText_of_value hv.reason)
      obtain ⟨durationTicks, persisted⟩ := t
      simp [ht, htexts, wellTyped_iff hh ht]

/-- A line of the schema with result 99. -/
def resultLine : CStr :=
  .lit "block=x,reason=y,result=99,action=1,event_kind=3,duration_ticks=1,event_persisted=1"

theorem parse_wellTyped_undeclared : (reportParseKvEx resultLine .zero).1 = true ∧
    ¬ DeclaredResult (reportParseKvEx resultLine .zero).2.report.result.toNat := by
  rw [declaredResult_iff]
  decide +kernel

end Loxguard
