/-
# Evidence buffers

`lox_blackbox_export_csv_buffer_ex` writes the events of a blackbox as lines,
`lox_blackbox_import_csv_buffer` rebuilds a blackbox from lines. Both pass
every line through a buffer of 160 bytes. The export is the lines cut to 159
bytes and joined with newlines (`exportCsv_take`); the import stores the events
of the non-empty lines, each cut to 159 bytes (`import_eq`).

So the two agree with the event line functions exactly as far as the cuts do
not matter: an export followed by an import gives the blackbox back when every
line is complete (`blackbox_round_trip_iff`), and the import agrees with the
line parser when every line that is cut is unreadable with and without its
end, or loses nothing but zeros of its aux code (`import_agrees_iff`).

Key definitions: `csvSchemaIsCompatible`, `blackboxImportCsvBuffer`,
`csvLines`, `lineEvent`, `CutHarmless`.
Key theorems: `import_eq`, `blackbox_round_trip_iff`, `import_agrees_iff`.
-/
import Loxguard.Format.Export
import Loxguard.Format.Schema

namespace Loxguard

open Lib Lib.Percent Lib.Decimal

variable {P : Platform}

/-! ### The import -/

/-- `lox_csv_schema_is_compatible`. -/
def csvSchemaIsCompatible : Option CStr → Bool
  | none => false
  | some headerLine =>
    if headerLine.bytes.take csvSchemaHeader.length ≠ csvSchemaHeader then false
    else match headerLine.bytes[csvSchemaHeader.length]? with
      | none => true
      | some c => c == 10 || c == 13

/-- `'\n'` or `'\r'`. -/
def isEol (c : UInt8) : Bool := c == 10 || c == 13

/-- The body of the import's loop for a line that is not empty: the line goes
through a buffer of 160 bytes. -/
def csvImportLine (out : Blackbox P × ℕ) (text : List UInt8) : Blackbox P × ℕ :=
  let copy := if 160 ≤ text.length then 159 else text.length
  let line := bufText (text.take copy)
  if csvSchemaIsCompatible (some line) then out
  else match eventParseCsvLineEx line .zero with
    | (true, snap) => (blackboxStore out.1 (.ofExt snap.event), out.2 + 1)
    | (false, _) => out

/-- What is left to read after the line at `p` and the line ends that follow
it. -/
def skipLine (p : List UInt8) : List UInt8 := (p.dropWhile fun c => !isEol c).dropWhile isEol

theorem length_skipLine_lt {p : List UInt8} (h : p ≠ []) : (skipLine p).length < p.length := by
  obtain ⟨c, p, rfl⟩ := List.exists_cons_of_ne_nil h
  unfold skipLine
  by_cases hc : isEol c = true
  · rw [List.dropWhile_cons_of_neg (by simp [hc]), List.dropWhile_cons_of_pos hc]
    exact Nat.lt_succ_of_le (List.length_dropWhile_le _ _)
  · rw [List.dropWhile_cons_of_pos (by simpa using hc)]
    exact Nat.lt_succ_of_le ((List.length_dropWhile_le _ _).trans (List.length_dropWhile_le _ _))

/-- The loop of `lox_blackbox_import_csv_buffer` from `p` on. -/
def csvImportLoop (p : List UInt8) (out : Blackbox P × ℕ) : Blackbox P × ℕ :=
  if _h : p = [] then out
  else
    let line := p.takeWhile fun c => !isEol c
    let out := if 0 < line.length then csvImportLine out line else out
    csvImportLoop (skipLine p) out
termination_by p.length
decreasing_by exact length_skipLine_lt ‹_›

/-- `lox_blackbox_import_csv_buffer`: what it returns and leaves in `outBb`,
which is not null. -/
def blackboxImportCsvBuffer (csv : Option CStr) (outBb : Blackbox P) : ℕ × Blackbox P :=
  match csv with
  | none => (0, outBb)
  | some csv =>
    let out := csvImportLoop csv.bytes ({ outBb with count := 0 }, 0)
    (out.2, out.1)

/-! ### What an import stores -/

/-- The non-empty lines of a text. -/
def csvLines (csv : CStr) : List (List UInt8) := Split.pieces isEol csv.bytes

/-- The event a line stands for: none for a schema header, else what the line
parser reads. -/
def lineEvent (line : List UInt8) : Option (ExtEvent P) :=
  if csvSchemaIsCompatible (some (bufText line)) then none else parsedEvent (bufText line)

/-- Store a line's event and count it. -/
def storeLine (out : Blackbox P × ℕ) : Option (ExtEvent P) → Blackbox P × ℕ
  | none => out
  | some e => (blackboxStore out.1 (.ofExt e), out.2 + 1)

theorem csvImportLine_eq (out : Blackbox P × ℕ) (line : List UInt8) :
    csvImportLine out line = storeLine out (lineEvent (line.take 159)) := by
  have hcopy : line.take (if 160 ≤ line.length then 159 else line.length) = line.take 159 := by
    split
    · rfl
    · rw [List.take_of_length_le le_rfl, List.take_of_length_le (by omega)]
  simp only [csvImportLine, hcopy, lineEvent, parsedEvent, eventParseCsvLineEx]
  split
  · rfl
  · cases eventLocals (P := P) (bufText (line.take 159)) <;> rfl

/-- **The import's loop** goes through the non-empty lines in order. -/
theorem csvImportLoop_eq (p : List UInt8) (out : Blackbox P × ℕ) :
    csvImportLoop p out = (Split.pieces isEol p).foldl csvImportLine out := by
  induction p, out using csvImportLoop.induct (P := P) with
  | case1 out => rw [csvImportLoop, dif_pos rfl]; rfl
  | case2 p out h line out' ih =>
    rw [csvImportLoop, dif_neg h, Split.pieces_step isEol p, List.foldl_append]
    refine ih.trans ?_
    show _ = (Split.pieces isEol (skipLine p)).foldl csvImportLine _
    congr 1
    by_cases hl : line = []
    · simp [out', line, hl]
    · simp [out', line, hl, List.length_pos_iff.mpr hl]

theorem foldl_storeLine (f : List UInt8 → Option (ExtEvent P)) : ∀ (ls : List (List UInt8))
    (out : Blackbox P × ℕ), ls.foldl (fun out l => storeLine out (f l)) out =
      (stores out.1 (ls.filterMap f), out.2 + (ls.filterMap f).length)
  | [], _ => rfl
  | l :: ls, out => by
    rw [List.foldl_cons, foldl_storeLine f ls]
    cases hf : f l with
    | none => simp [storeLine, List.filterMap_cons_none hf]
    | some e =>
      rw [List.filterMap_cons_some hf, List.length_cons]
      simp only [storeLine]
      exact Prod.ext rfl (by simp only; omega)

/-- **The import** stores and counts the events of the lines, each cut to 159
bytes. -/
theorem import_eq (csv : CStr) (outBb : Blackbox P) :
    let events := (csvLines csv).filterMap fun line => lineEvent (line.take 159)
    blackboxImportCsvBuffer (some csv) outBb =
      (events.length, stores { outBb with count := 0 } events) := by
  have hf : (csvImportLine : Blackbox P × ℕ → List UInt8 → Blackbox P × ℕ) =
      fun out line => storeLine out (lineEvent (line.take 159)) := by
    funext out line
    exact csvImportLine_eq out line
  simp only [blackboxImportCsvBuffer, csvImportLoop_eq, hf, foldl_storeLine, csvLines, Nat.zero_add]

theorem contents_import (csv : CStr) (outBb : Blackbox P) :
    (blackboxImportCsvBuffer (some csv) outBb).2.contents =
      (((csvLines csv).filterMap fun line => lineEvent (line.take 159)).map recorded).rtake 16 := by
  rw [import_eq]
  exact contents_stores _ rfl

/-! ### Lines and the line parser -/

/-- A schema header is not an event line, so the check for it changes nothing. -/
theorem lineEvent_eq (line : List UInt8) :
    (lineEvent line : Option (ExtEvent P)) = parsedEvent (bufText line) := by
  rw [lineEvent]
  split
  · rename_i hcompat
    simp only [csvSchemaIsCompatible, ne_eq, ite_not] at hcompat
    split at hcompat
    · rename_i htake
      have hline : (bufText line).bytes =
          ascii "kind" ++ 44 :: (ascii "block,reason,index,limit,aux" ++
            (bufText line).bytes.drop csvSchemaHeader.length) := by
        conv_lhs => rw [← List.take_append_drop csvSchemaHeader.length (bufText line).bytes, htake]
        rfl
      have hsplit := List.splitOn_append_cons_self_of_not_mem
        (show (44 : UInt8) ∉ ascii "kind" by decide)
        (ascii "block,reason,index,limit,aux" ++ (bufText line).bytes.drop csvSchemaHeader.length)
      rw [← hline] at hsplit
      have hkind : ∀ parse : List UInt8 → Option ℤ,
          tokenField (ascii "kind") parse (ascii "kind") = none := fun _ => rfl
      have hnone : (eventLocals (bufText line) : Option (EventLocals P)) = none := by
        rw [eventLocals_eq, hsplit]
        unfold localsOfTokens
        split
        · rename_i heq
          obtain ⟨rfl, -⟩ := List.cons.inj heq
          rw [hkind]
          rfl
        · rfl
      rw [parsedEvent, hnone]
      rfl
    · cases hcompat
  · rfl

theorem recorded_parsedEvent {line : CStr} {e : ExtEvent P} (h : parsedEvent line = some e) :
    recorded e = e := by
  obtain ⟨l, hl, rfl⟩ := Option.map_eq_some_iff.mp h
  obtain ⟨hblock, hreason⟩ := length_texts_le hl
  simp [recorded, Event.mapText, recordedText, EventLocals.event, CStr.take_eq_self hblock,
    CStr.take_eq_self hreason]

theorem recorded_lineEvents (f : List UInt8 → List UInt8) (ls : List (List UInt8)) :
    (ls.filterMap fun line => lineEvent (f line)).map recorded =
      ls.filterMap fun line => (lineEvent (f line) : Option (ExtEvent P)) := by
  refine (List.map_congr_left fun e he => ?_).trans (List.map_id _)
  obtain ⟨line, -, hline⟩ := List.mem_filterMap.mp he
  rw [lineEvent_eq] at hline
  exact recorded_parsedEvent hline

/-- An event to store and no event, or two events, leave different marks. -/
theorem storeLine_inj {o o' : Option (ExtEvent P)} (ho : ∀ e, o = some e → recorded e = e)
    (ho' : ∀ e, o' = some e → recorded e = e)
    (h : ∀ out : Blackbox P × ℕ, storeLine out o = storeLine out o') : o = o' := by
  have h0 := h (blackboxInit, 0)
  cases o with
  | none =>
    cases o' with
    | none => rfl
    | some e' => simp [storeLine] at h0
  | some e =>
    cases o' with
    | none => simp [storeLine] at h0
    | some e' =>
      have hbox := congrArg (fun out => Blackbox.contents out.1) h0
      simp only [storeLine, contents_store _ blackboxInit_wf,
        contents_of_count_zero (show (blackboxInit : Blackbox P).count = 0 from rfl), ho e rfl, ho' e' rfl] at hbox
      simpa [Window.push, List.rtake] using hbox

/-- **Zeros behind a zero**: a value that spells zero and what follows it spell
zero if that is zeros and fits. -/
theorem readsUnsigned_append_iff {s t : List UInt8} (h : ReadsUnsigned s 0) :
    ReadsUnsigned (s ++ t) 0 ↔ (∀ c ∈ t, c = 48) ∧ s.length + t.length ≤ 31 := by
  obtain ⟨-, neg, digits, hspelled, hmax, hzero⟩ := h
  have hvalue : Decimal.value digits = 0 := by
    simp only [unsignedValue, uintmaxMax] at hmax hzero
    split at hzero <;> omega
  obtain ⟨hstart, hsub⟩ := (reading_iff s neg digits).mpr hspelled
  constructor
  · rintro ⟨hlen, neg', digits', hspelled', hmax', hzero'⟩
    obtain ⟨-, hsub'⟩ := (reading_iff (s ++ t) neg' digits').mpr hspelled'
    rw [subject_append hsub t] at hsub'
    simp only [Option.some_inj, Prod.mk.injEq] at hsub'
    obtain ⟨rfl, rfl, hrest⟩ := hsub'
    have hdigits := List.dropWhile_eq_nil_iff.mp hrest
    rw [List.takeWhile_eq_self_iff.mpr hdigits] at hmax' hzero'
    have hvalue' : Decimal.value (digits ++ t) = 0 := by
      simp only [unsignedValue, uintmaxMax] at hmax' hzero'
      split at hzero' <;> omega
    rw [value_append, hvalue, Nat.zero_mul, Nat.zero_add] at hvalue'
    exact ⟨(value_eq_zero_iff hdigits).mp hvalue', by rwa [← List.length_append]⟩
  · rintro ⟨hzeros, hlen⟩
    have hdigits : ∀ c ∈ t, isDigit c = true := fun c hc => by
      rw [hzeros c hc]
      rfl
    have hvalue' : Decimal.value (digits ++ t) = 0 := by
      rw [value_append, hvalue, (value_eq_zero_iff hdigits).mpr hzeros, Nat.zero_mul]
    obtain ⟨ws, sign, hws, hsign, hstrict, hnum, rfl⟩ := hspelled
    have hnum' : IsNumeral (digits ++ t) :=
      ⟨by simp [hnum.1], fun c hc => (List.mem_append.mp hc).elim (hnum.2 c) (hdigits c)⟩
    refine ⟨by rwa [List.length_append], neg, digits ++ t,
      ⟨ws, sign, hws, hsign, hstrict, hnum', by simp⟩, by rw [hvalue']; exact Nat.zero_le _, ?_⟩
    rw [unsignedValue, hvalue']
    split <;> rfl

/-- A line of values the parser can read. -/
def ReadableLine (P : Platform) (line : List UInt8) : Prop :=
  ∃ v : EventValues, line = v.line ∧ v.Readable P

/-- A line whose first 159 bytes are a line the parser can read, with a value
that spells zero in the place of the aux code; the bytes after them are more
zeros, and the whole value has at most 31 bytes. -/
def CutInZeros (P : Platform) (line : List UInt8) : Prop :=
  ∃ v : EventValues, line.take 159 = v.line ∧ v.Readable P ∧ ReadsUnsigned v.aux 0 ∧
    (∀ c ∈ line.drop 159, c = 48) ∧ v.aux.length + (line.drop 159).length ≤ 31

/-- A line that loses nothing in a buffer of 160 bytes: neither it nor its
first 159 bytes can be read, or it is cut in the zeros of its aux code. -/
def CutHarmless (P : Platform) (line : List UInt8) : Prop :=
  (¬ ReadableLine P line ∧ ¬ ReadableLine P (line.take 159)) ∨ CutInZeros P line

theorem eventLocals_eq_none_iff {line : List UInt8} (h0 : 0 ∉ line) :
    (eventLocals (bufText line) : Option (EventLocals P)) = none ↔ ¬ ReadableLine P line := by
  rw [Option.eq_none_iff_forall_ne_some]
  constructor
  · rintro h ⟨v, hline, hread⟩
    obtain ⟨l, hl⟩ := (EventValues.readable_iff v).mp hread
    exact h l ((eventLocals_iff _ l).mpr ⟨v, (bufText_bytes h0).trans hline, hl⟩)
  · intro h l hl
    obtain ⟨v, hline, hreads⟩ := (eventLocals_iff _ l).mp hl
    exact h ⟨v, (bufText_bytes h0).symm.trans hline, (EventValues.readable_iff v).mpr ⟨l, hreads⟩⟩

/-- A line and its first 159 bytes that are read as the same event. -/
theorem cutInZeros_of_eventLocals {line : List UInt8} (h0 : 0 ∉ line) (hlen : 159 < line.length)
    {l : EventLocals P} (h : eventLocals (bufText line) = some l)
    (hcut : eventLocals (bufText (line.take 159)) = some l) : CutInZeros P line := by
  have hbytes := bufText_bytes h0
  have hcut0 : 0 ∉ line.take 159 := fun hm => h0 (List.mem_of_mem_take hm)
  have hlt : 159 < (bufText line).length := by rwa [CStr.length, hbytes]
  obtain ⟨w, hw, hreads⟩ := (eventLocals_iff _ l).mp h
  obtain ⟨v, hv, hreads'⟩ := (eventLocals_iff _ l).mp hcut
  rw [hbytes] at hw
  rw [bufText_bytes hcut0] at hv
  have hread := (EventValues.readable_iff w).mpr ⟨l, hreads⟩
  have hread' := (EventValues.readable_iff v).mpr ⟨l, hreads'⟩
  rw [bufText_take h0] at hcut
  have hzero : l.aux = 0 := (eventLocals_take_eq_iff hlt h hcut).mp rfl
  -- the two lines have the first five values in common
  obtain ⟨head, a, t, hsplit, hsplit', -⟩ := eventLocals_take hlt h hcut
  rw [CStr.bytes_take, hbytes, hv, hread'.splitOn_line] at hsplit
  rw [hbytes, hw, hread.splitOn_line] at hsplit'
  have hfive : ∀ u : EventValues, u.tokens = [ascii "kind" ++ 61 :: u.kind, ascii "block" ++ 61 :: u.block,
      ascii "reason" ++ 61 :: u.reason, ascii "index" ++ 61 :: u.index,
      ascii "limit" ++ 61 :: u.limit] ++ [ascii "aux" ++ 61 :: u.aux] := fun _ => rfl
  rw [hfive] at hsplit hsplit'
  have hhead := (List.append_inj' hsplit rfl).1.trans (List.append_inj' hsplit' rfl).1.symm
  simp only [List.cons.injEq, List.append_cancel_left_eq, true_and, and_true] at hhead
  obtain ⟨h1, h2, h3, h4, h5⟩ := hhead
  have haux : w.aux = v.aux ++ line.drop 159 := by
    have hline : w.line = v.line ++ line.drop 159 := by rw [← hw, ← hv, List.take_append_drop]
    simpa [EventValues.line, h1, h2, h3, h4, h5] using hline
  have hreads0 := hreads'.aux
  have hwhole := hreads.aux
  rw [hzero] at hreads0 hwhole
  rw [haux] at hwhole
  exact ⟨v, hv, hread', hreads0, (readsUnsigned_append_iff hreads0).mp hwhole⟩

theorem CutInZeros.eventLocals_eq {line : List UInt8} (h0 : 0 ∉ line) (h : CutInZeros P line) :
    ∃ l : EventLocals P, eventLocals (bufText line) = some l ∧
      eventLocals (bufText (line.take 159)) = some l := by
  obtain ⟨v, hv, hread, hreads0, hzeros⟩ := h
  have hcut0 : 0 ∉ line.take 159 := fun hm => h0 (List.mem_of_mem_take hm)
  obtain ⟨l, hl⟩ := (EventValues.readable_iff v).mp hread
  have hcut : v.Reads { l with aux := 0 } := ⟨hl.kind, hl.block, hl.reason, hl.index, hl.limit, hreads0⟩
  let w : EventValues := { v with aux := v.aux ++ line.drop 159 }
  have hw : line = w.line := by
    have hline : v.line ++ line.drop 159 = w.line := by simp [EventValues.line, w]
    rw [← hline, ← hv, List.take_append_drop]
  have hwhole : w.Reads { l with aux := 0 } :=
    ⟨hl.kind, hl.block, hl.reason, hl.index, hl.limit, (readsUnsigned_append_iff hreads0).mpr hzeros⟩
  exact ⟨_, (eventLocals_iff _ _).mpr ⟨w, (bufText_bytes h0).trans hw, hwhole⟩,
    (eventLocals_iff _ _).mpr ⟨v, (bufText_bytes hcut0).trans hv, hcut⟩⟩

/-- **When a long line survives the buffer.** -/
theorem cutHarmless_iff {line : List UInt8} (h0 : 0 ∉ line) (hlen : 159 < line.length) :
    CutHarmless P line ↔
      (lineEvent (line.take 159) : Option (ExtEvent P)) = lineEvent line := by
  have hcut0 : 0 ∉ line.take 159 := fun hm => h0 (List.mem_of_mem_take hm)
  rw [lineEvent_eq, lineEvent_eq]
  unfold parsedEvent
  constructor
  · rintro (⟨hline, hcut⟩ | hzeros)
    · rw [(eventLocals_eq_none_iff h0).mpr hline, (eventLocals_eq_none_iff hcut0).mpr hcut]
    · obtain ⟨l, hline, hcut⟩ := hzeros.eventLocals_eq h0
      rw [hline, hcut]
  · intro h
    cases hline : (eventLocals (bufText line) : Option (EventLocals P)) with
    | none =>
      rw [hline, Option.map_none, Option.map_eq_none_iff] at h
      exact Or.inl ⟨(eventLocals_eq_none_iff h0).mp hline, (eventLocals_eq_none_iff hcut0).mp h⟩
    | some l =>
      rw [hline, Option.map_some] at h
      obtain ⟨l', hcut, hevent⟩ := Option.map_eq_some_iff.mp h
      obtain rfl : l' = l := by
        cases l
        cases l'
        simpa [EventLocals.event] using hevent
      exact Or.inr (cutInZeros_of_eventLocals h0 hlen hline hcut)

theorem nulFree_csvLines {csv : CStr} {line : List UInt8} (h : line ∈ csvLines csv) : 0 ∉ line :=
  fun h0 => csv.nulFree (Split.mem_of_mem_pieces isEol h h0)

/-- **When bulk import agrees with the line parser.** The import returns the
number of events the parser reads from the non-empty lines that are not schema
headers, keeps the last 16 of them in order and takes every line as the parser
does, if and only if every line of more than 159 bytes is unreadable, itself
and cut to 159 bytes, or is cut in the zeros of its aux code. -/
theorem import_agrees_iff (csv : CStr) (outBb : Blackbox P) :
    let events := (csvLines csv).filterMap lineEvent
    ((blackboxImportCsvBuffer (some csv) outBb).1 = events.length ∧
      (blackboxImportCsvBuffer (some csv) outBb).2.contents = events.rtake 16 ∧
      ∀ line ∈ csvLines csv, ∀ out : Blackbox P × ℕ,
        csvImportLine out line = storeLine out (lineEvent line)) ↔
    ∀ line ∈ csvLines csv, 159 < line.length → CutHarmless P line := by
  intro events
  constructor
  · rintro ⟨-, -, hlines⟩ line hmem hlen
    rw [cutHarmless_iff (nulFree_csvLines hmem) hlen]
    refine storeLine_inj (fun e he => ?_) (fun e he => ?_) fun out => ?_
    · rw [lineEvent_eq] at he
      exact recorded_parsedEvent he
    · rw [lineEvent_eq] at he
      exact recorded_parsedEvent he
    · rw [← csvImportLine_eq, hlines line hmem out]
  · intro hcond
    have hline : ∀ line ∈ csvLines csv,
        (lineEvent (line.take 159) : Option (ExtEvent P)) = lineEvent line := by
      intro line hmem
      by_cases hlen : 159 < line.length
      · exact (cutHarmless_iff (nulFree_csvLines hmem) hlen).mp (hcond line hmem hlen)
      · rw [List.take_of_length_le (by omega)]
    have hevents : (csvLines csv).filterMap (fun line => lineEvent (line.take 159)) = events :=
      List.filterMap_congr hline
    refine ⟨?_, ?_, fun line hmem out => ?_⟩
    · rw [import_eq, ← hevents]
    · rw [contents_import, recorded_lineEvents (fun line => line.take 159), hevents]
    · rw [csvImportLine_eq, hline line hmem]

/-! ### Reading an export back -/

/-- An event with texts that are not empty and whose encodings fit. -/
structure Portable (e : ExtEvent P) : Prop where
  block_ne : NonemptyText e.blockName
  reason_ne : NonemptyText e.reason
  block_le : (kvReserved.escape (eventText e.blockName).bytes).length ≤ 63
  reason_le : (kvReserved.escape (eventText e.reason).bytes).length ≤ 63

theorem recordedText_of_fits {t : Option CStr}
    (h : (kvReserved.escape (eventText t).bytes).length ≤ 63) : recordedText t = some (eventText t) := by
  have hlen := kvReserved.length_le_length_escape (eventText t).bytes
  exact congrArg some (CStr.take_eq_self (by simp only [CStr.length]; exact hlen.trans h))

theorem Portable.recorded_eq {e : ExtEvent P} (h : Portable e) : recorded e =
    ⟨e.kind, some (eventText e.blockName), some (eventText e.reason), e.index, e.limit, e.auxCode⟩ := by
  rw [recorded, Event.mapText, recordedText_of_fits h.block_le, recordedText_of_fits h.reason_le]

theorem Portable.eventLine_recorded {e : ExtEvent P} (h : Portable e) :
    eventLine (recorded e) = eventLine e := by
  rw [h.recorded_eq]
  rfl

theorem Portable.recorded {e : ExtEvent P} (h : Portable e) : Portable (recorded e) := by
  rw [h.recorded_eq]
  exact ⟨h.block_ne, h.reason_ne, h.block_le, h.reason_le⟩

theorem fitText_of_fits {t : Option CStr} (h : (kvReserved.escape (eventText t).bytes).length ≤ 63) :
    fitText t = eventText t :=
  CStr.ext_bytes (kvReserved.fit_eq_self h)

theorem Portable.lineEvent_eventLine {e : ExtEvent P} (h : Portable e) :
    lineEvent (eventLine e) = some (Loxguard.recorded e) := by
  rw [lineEvent_eq, parsedEvent, eventLocals_eventLine e h.block_ne h.reason_ne,
    fitText_of_fits h.block_le, fitText_of_fits h.reason_le, h.recorded_eq]
  rfl

/-- The line of an event survives the buffer if and only if it has at most 159
bytes. -/
theorem Portable.lineEvent_exportedLine {e : ExtEvent P} (h : Portable e) :
    lineEvent (exportedLine e) = some (Loxguard.recorded e) ↔ (eventLine e).length ≤ 159 := by
  constructor
  · intro he
    by_contra hlen
    rw [lineEvent_eq, parsedEvent] at he
    obtain ⟨l, hl, hev⟩ := Option.map_eq_some_iff.mp he
    rw [exportedLine, bufText_take (nulFree_eventLine e)] at hl
    apply eventLocals_take_ne e h.block_ne h.reason_ne (by omega) hl
    exact congrArg Event.auxCode hev
  · intro hlen
    rw [exportedLine, List.take_of_length_le hlen, h.lineEvent_eventLine]

theorem exportedLine_clean (e : ExtEvent P) :
    exportedLine e ≠ [] ∧ ∀ c ∈ exportedLine e, isEol c = false := by
  refine ⟨exportedLine_ne_nil e, fun c hc => ?_⟩
  have hmem := List.mem_of_mem_take hc
  have h10 := not_mem_eventLine (Or.inr (Or.inl rfl)) e
  have h13 := not_mem_eventLine (Or.inr (Or.inr rfl)) e
  simp only [isEol, Bool.or_eq_false_iff, beq_eq_false_iff_ne]
  exact ⟨fun he => h10 (he ▸ hmem), fun he => h13 (he ▸ hmem)⟩

theorem mem_intercalate {α : Type*} {x a : α} : ∀ {ls : List (List α)}, x ∈ [a].intercalate ls →
    x = a ∨ ∃ l ∈ ls, x ∈ l
  | [], h => by simp [List.intercalate] at h
  | [l], h => by
    right
    exact ⟨l, by simp, by simpa [List.intercalate] using h⟩
  | l :: l' :: ls, h => by
    have hcons : [a].intercalate (l :: l' :: ls) = l ++ a :: [a].intercalate (l' :: ls) := by
      simp [List.intercalate]
    rw [hcons, List.mem_append, List.mem_cons] at h
    rcases h with h | h | h
    · exact Or.inr ⟨l, by simp, h⟩
    · exact Or.inl h
    · rcases mem_intercalate h with h | ⟨k, hk, hx⟩
      · exact Or.inl h
      · exact Or.inr ⟨k, List.mem_cons_of_mem _ hk, hx⟩

theorem nulFree_exportedText (includeHeader : Bool) (es : List (ExtEvent P)) :
    0 ∉ exportedText includeHeader es := by
  intro h
  rcases List.mem_append.mp h with h | h
  · cases includeHeader
    · simp at h
    · exact absurd h (by decide)
  · rcases mem_intercalate h with h | ⟨l, hl, hx⟩
    · exact absurd h (by decide)
    · obtain ⟨e, -, rfl⟩ := List.mem_map.mp hl
      exact nulFree_eventLine e (List.mem_of_mem_take hx)

theorem csvLines_exportedText (includeHeader : Bool) (es : List (ExtEvent P)) :
    csvLines (bufText (exportedText includeHeader es)) =
      (if includeHeader then [csvSchemaHeader] else []) ++ es.map exportedLine := by
  have hlines : Split.pieces isEol ([10].intercalate (es.map exportedLine)) = es.map exportedLine := by
    apply Split.pieces_intercalate isEol (by decide) _
    intro l hl
    obtain ⟨e, -, rfl⟩ := List.mem_map.mp hl
    exact exportedLine_clean e
  rw [csvLines, bufText_bytes (nulFree_exportedText includeHeader es), exportedText]
  cases includeHeader
  · simpa using hlines
  · have hheader := Split.pieces_append_cons isEol (l := csvSchemaHeader) (by decide +kernel)
      (show isEol 10 = true by decide) ([10].intercalate (es.map exportedLine))
    simp only [↓reduceIte, List.append_assoc, List.singleton_append]
    rw [hheader, if_neg (by decide), hlines]
    rfl

theorem lineEvents_exportedText (includeHeader : Bool) (es : List (ExtEvent P)) :
    (csvLines (bufText (exportedText includeHeader es))).filterMap
        (fun line => (lineEvent (line.take 159) : Option (ExtEvent P))) =
      es.filterMap fun e => lineEvent (exportedLine e) := by
  have hheader : (lineEvent (csvSchemaHeader.take 159) : Option (ExtEvent P)) = none := by
    rw [lineEvent, if_pos (by decide)]
  have htake : ∀ e : ExtEvent P, (exportedLine e).take 159 = exportedLine e := fun e => by
    rw [exportedLine, List.take_take]
    rfl
  rw [csvLines_exportedText, List.filterMap_append, List.filterMap_map]
  simp only [Function.comp_def, htake]
  cases includeHeader
  · simp
  · simp [hheader]

theorem Portable.lineEvent_recorded {e : ExtEvent P} (h : Portable e) :
    lineEvent (exportedLine (Loxguard.recorded e)) = some (Loxguard.recorded e) ↔
      (eventLine e).length ≤ 159 := by
  have := h.recorded.lineEvent_exportedLine
  rwa [recorded_recorded, h.eventLine_recorded] at this

theorem forall_of_filterMap_eq {α β : Type*} {f : α → Option β} {g : α → β} : ∀ {l : List α},
    l.filterMap f = l.map g → ∀ x ∈ l, f x = some (g x)
  | [], _, _, hx => by simp at hx
  | y :: l, h, x, hx => by
    have hlen := congrArg List.length h
    cases hy : f y with
    | none =>
      have := List.length_filterMap_le f l
      simp only [List.filterMap_cons_none hy, List.length_map, List.length_cons] at hlen
      omega
    | some b =>
      rw [List.filterMap_cons_some hy, List.map_cons] at h
      obtain ⟨hb, htl⟩ := List.cons.inj h
      rcases List.mem_cons.mp hx with rfl | hx
      · rw [hy, hb]
      · exact forall_of_filterMap_eq htl x hx

theorem exportedText_imported (includeHeader : Bool) {es : List (ExtEvent P)} (hlen : es.length ≤ 16)
    (outBb : Blackbox P) :
    let events := es.filterMap fun e => (lineEvent (exportedLine (recorded e)) : Option (ExtEvent P))
    let rebuilt := blackboxImportCsvBuffer
      (some (bufText (exportedText includeHeader (es.map recorded)))) outBb
    rebuilt.1 = events.length ∧ rebuilt.2.contents = events := by
  intro events rebuilt
  have hevents := lineEvents_exportedText includeHeader (es.map (recorded (P := P)))
  rw [List.filterMap_map, Function.comp_def] at hevents
  have hle : events.length ≤ es.length := List.length_filterMap_le _ _
  constructor
  · simp only [rebuilt]
    rw [import_eq, hevents]
  · simp only [rebuilt]
    rw [contents_import, recorded_lineEvents (fun line => line.take 159), hevents,
      Window.rtake_eq_self (hle.trans hlen)]

/-- An import rebuilds recorded events if and only if all their lines survive
the buffer. -/
theorem exportedText_imported_iff (includeHeader : Bool) {es : List (ExtEvent P)}
    (hlen : es.length ≤ 16) (hport : ∀ e ∈ es, Portable e) (outBb : Blackbox P) :
    let rebuilt := blackboxImportCsvBuffer
      (some (bufText (exportedText includeHeader (es.map recorded)))) outBb
    (rebuilt.1 = es.length ∧ rebuilt.2.contents = es.map recorded) ↔
      ∀ e ∈ es, (eventLine e).length ≤ 159 := by
  intro rebuilt
  obtain ⟨hret, hbox⟩ : rebuilt.1 = _ ∧ rebuilt.2.contents = _ :=
    exportedText_imported includeHeader hlen outBb
  constructor
  · rintro ⟨-, hsame⟩ e he
    rw [hbox] at hsame
    exact (hport e he).lineEvent_recorded.mp (forall_of_filterMap_eq hsame e he)
  · intro hall
    have hsame : es.filterMap (fun e => (lineEvent (exportedLine (recorded e)) : Option (ExtEvent P))) =
        es.map recorded := by
      rw [List.filterMap_congr fun e he => (hport e he).lineEvent_recorded.mpr (hall e he)]
      exact congrFun List.filterMap_eq_map es
    rw [hret, hbox, hsame, List.length_map]
    exact ⟨rfl, rfl⟩

/-- **When bulk evidence survives an export and an import.** After any stores
of events with texts that are not empty and whose encodings have at most 63
bytes, with or without a header and with room for the exported text, the import
returns the count and rebuilds the same events if and only if the line of every
event still held has at most 159 bytes. -/
theorem blackbox_round_trip_iff (evs : List (ExtEvent P)) (hport : ∀ e ∈ evs, Portable e)
    (includeHeader : Bool) (outLen : ℕ)
    (hlen : (exportedText includeHeader (stores (blackboxInit : Blackbox P) evs).contents).length < outLen)
    (outBb : Blackbox P) :
    let bb := stores (blackboxInit : Blackbox P) evs
    let out := blackboxExportCsvBufferEx (some bb) bb.count includeHeader outLen
    let rebuilt := blackboxImportCsvBuffer (some (bufText out.text)) outBb
    (rebuilt.1 = bb.count ∧ rebuilt.2.contents = bb.contents) ↔
      ∀ e ∈ evs.rtake 16, (eventLine e).length ≤ 159 := by
  intro bb out rebuilt
  have hcontents : bb.contents = (evs.rtake 16).map recorded := by
    rw [contents_stores evs rfl, Window.map_rtake]
  have hcount : bb.count = (evs.rtake 16).length := by
    rw [← (stores_wf evs blackboxInit_wf).length_contents, hcontents, List.length_map]
  have htext : out.text = exportedText includeHeader ((evs.rtake 16).map recorded) := by
    rw [← hcontents]
    exact congrArg Formatted.text (export_eq (stores_wf evs blackboxInit_wf).count_le includeHeader hlen)
  have hle : (evs.rtake 16).length ≤ 16 := by rw [Window.length_rtake]; omega
  simp only [rebuilt, htext, hcontents, hcount]
  exact exportedText_imported_iff includeHeader hle
    (fun e he => hport e (Window.mem_of_mem_rtake he)) outBb

theorem portable_iff {e : ExtEvent P} : Portable e ↔ NonemptyText e.blockName ∧ NonemptyText e.reason ∧
    (kvReserved.escape (eventText e.blockName).bytes).length ≤ 63 ∧
    (kvReserved.escape (eventText e.reason).bytes).length ≤ 63 :=
  ⟨fun ⟨h1, h2, h3, h4⟩ => ⟨h1, h2, h3, h4⟩, fun ⟨h1, h2, h3, h4⟩ => ⟨h1, h2, h3, h4⟩⟩

instance (e : ExtEvent P) : Decidable (Portable e) := decidable_of_iff' _ portable_iff

/-- An event with a separator in each text comes back. -/
theorem round_trip_forgedEvent :
    let bb := stores blackboxInit [forgedEvent]
    let out := blackboxExportCsvBufferEx (some bb) bb.count true 256
    let rebuilt := blackboxImportCsvBuffer (some (bufText out.text)) (blackboxInit : Blackbox .host)
    rebuilt.1 = bb.count ∧ rebuilt.2.contents = bb.contents :=
  (blackbox_round_trip_iff [forgedEvent] (by decide) true 256 (by decide +kernel) blackboxInit).mpr
    (by decide +kernel)

/-! ### A line that does not fit -/

/-- An event whose line has 170 bytes. -/
def longEvent : ExtEvent .host :=
  ⟨.blockFault, some ⟨List.replicate 63 98, by decide⟩, some ⟨List.replicate 63 114, by decide⟩, 0, 0, 0⟩

/-- The exported line of a portable event is cut, and the import reads no event. -/
theorem round_trip_longEvent : Portable longEvent ∧
    let bb := stores blackboxInit [longEvent]
    let out := blackboxExportCsvBufferEx (some bb) bb.count false 1000
    let rebuilt := blackboxImportCsvBuffer (some (bufText out.text)) (blackboxInit : Blackbox .host)
    (exportedText false bb.contents).length < 1000 ∧ rebuilt.1 = 0 ∧
      ¬ (rebuilt.1 = bb.count ∧ rebuilt.2.contents = bb.contents) := by
  have hlen : (exportedText false (stores blackboxInit [longEvent]).contents).length < 1000 := by
    decide +kernel
  have hret : (blackboxImportCsvBuffer (some (bufText
      (exportedText false (stores blackboxInit [longEvent]).contents)))
      (blackboxInit : Blackbox .host)).1 = 0 := by
    rw [import_eq]
    decide +kernel
  have hcount : (stores blackboxInit [longEvent]).count = 1 := by decide +kernel
  have hwf := stores_wf [longEvent] (blackboxInit_wf (P := .host))
  refine ⟨by decide +kernel, hlen, ?_, ?_⟩ <;> simp only [export_eq hwf.count_le false hlen]
  · exact hret
  · rintro ⟨h, -⟩
    rw [hret, hcount] at h
    cases h

/-- The complete line of that event. -/
def longLine : CStr := bufText (eventLine longEvent)

/-- The line parser reads an event from the complete line, the import none. -/
theorem import_longLine :
    let events : List (ExtEvent .host) := (csvLines longLine).filterMap lineEvent
    let rebuilt := blackboxImportCsvBuffer (some longLine) (blackboxInit : Blackbox .host)
    events.length = 1 ∧ rebuilt.1 = 0 ∧
      ¬ (rebuilt.1 = events.length ∧ rebuilt.2.contents = events.rtake 16 ∧
        ∀ line ∈ csvLines longLine, ∀ out : Blackbox .host × ℕ,
          csvImportLine out line = storeLine out (lineEvent line)) := by
  intro events rebuilt
  have hevents : events.length = 1 := by decide +kernel
  have hret : rebuilt.1 = 0 := by
    simp only [rebuilt, import_eq]
    decide +kernel
  refine ⟨hevents, hret, ?_⟩
  rintro ⟨h, -⟩
  rw [hret, hevents] at h
  cases h

end Loxguard
