/-
# Exports

The two exports of a blackbox as event lines:
`lox_blackbox_export_csv_buffer_ex` writes them into a buffer, joined with
newlines, and `lox_blackbox_export_csv_lines` passes them to a writer. Both
format every event into a buffer of 160 bytes and start at the same event. The
loop over the buffer stops wherever the buffer is full, in the header, at a
newline or in a line; in each case it leaves the first bytes of one text
(`exportLoop_take`, `exportCsv_take`).

Key definitions: `blackboxExportCsvBufferEx`, `blackboxExportCsvLines`,
`exportedText`.
Key theorems: `exportLoop_take`, `exportCsv_take`, `export_eq`,
`export_prefix`.
-/
import Loxguard.Blackbox
import Loxguard.Format.Event

namespace Loxguard

open Lib Lib.Percent Lib.Decimal

variable {P : Platform}

/-- `k_csv_schema_header`. -/
def csvSchemaHeader : List UInt8 := ascii "kind,block,reason,index,limit,aux"

/-! ### The export -/

/-- The loop of `lox_blackbox_export_csv_buffer_ex` over the events from the
current one on. `out` is the buffer before `pos`. -/
def exportLoop (outLen : ℕ) : List (ExtEvent P) → List UInt8 → List UInt8
  | [], out => out
  | e :: es, out =>
    let line := eventFormatCsv (some e) 160
    if line.ret = 0 ∧ line.text = [] then exportLoop outLen es out
    else if out.length < outLen - 1 then
      let copy := if outLen - 1 - out.length < line.ret then outLen - 1 - out.length else line.ret
      let out := out ++ line.text.take copy
      exportLoop outLen es (if es ≠ [] ∧ out.length < outLen - 1 then out ++ [10] else out)
    else out

/-- `lox_blackbox_export_csv_buffer_ex`, into a buffer that is not null. -/
def blackboxExportCsvBufferEx (bb : Option (Blackbox P)) (maxEvents : ℕ) (includeHeader : Bool)
    (outLen : ℕ) : Formatted :=
  if outLen = 0 then ⟨[], 0⟩
  else
    let header := if includeHeader then csvSchemaHeader ++ [10] else []
    if includeHeader ∧ outLen ≤ header.length then ⟨header.take (outLen - 1), outLen - 1⟩
    else match bb with
      | none => ⟨header, header.length⟩
      | some bb =>
        if bb.count = 0 ∨ maxEvents = 0 then ⟨header, header.length⟩
        else
          let start := if maxEvents < bb.count then bb.count - maxEvents else 0
          let out := exportLoop outLen (bb.contents.drop start) header
          ⟨out, out.length⟩

/-- `lox_blackbox_export_csv_buffer`. -/
def blackboxExportCsvBuffer (bb : Option (Blackbox P)) (maxEvents outLen : ℕ) : Formatted :=
  blackboxExportCsvBufferEx bb maxEvents false outLen

/-- `lox_blackbox_last_event_format_csv`. -/
def blackboxLastEventFormatCsv (bb : Option (Blackbox P)) (outLen : ℕ) : Formatted :=
  match bb with
  | none => eventFormatCsv (none : Option (ExtEvent P)) outLen
  | some bb =>
    if bb.count = 0 then eventFormatCsv (none : Option (ExtEvent P)) outLen
    else eventFormatCsv (some bb.newest) outLen

/-- `lox_blackbox_export_csv_lines`, for a writer that takes a line and its
context to the next context: what it returns and the context it leaves. -/
def blackboxExportCsvLines {σ : Type} (bb : Option (Blackbox P)) (maxEvents : ℕ)
    (writer : Option (List UInt8 → σ → σ)) (userCtx : σ) : ℕ × σ :=
  match bb, writer with
  | some bb, some writer =>
    if bb.count = 0 ∨ maxEvents = 0 then (0, userCtx)
    else
      let start := if maxEvents < bb.count then bb.count - maxEvents else 0
      (bb.contents.drop start).foldl
        (fun r e => (r.1 + 1, writer (eventFormatCsv (some e) 160).text r.2)) (0, userCtx)
  | _, _ => (0, userCtx)

/-! ### What is exported -/

/-- The line of an event as it leaves the buffer of 160 bytes. -/
def exportedLine (e : ExtEvent P) : List UInt8 := (eventLine e).take 159

/-- The exported text of events. -/
def exportedText (includeHeader : Bool) (es : List (ExtEvent P)) : List UInt8 :=
  (if includeHeader then csvSchemaHeader ++ [10] else []) ++ [10].intercalate (es.map exportedLine)

theorem eventLine_ne_nil (e : ExtEvent P) : eventLine e ≠ [] := by
  have h : ascii "kind=" ≠ [] := by decide
  simp [eventLine, eventLineHead, h]

theorem exportedLine_ne_nil (e : ExtEvent P) : exportedLine e ≠ [] := by
  have h := eventLine_ne_nil e
  simp [exportedLine, h]

theorem eventFormatCsv_line (e : ExtEvent P) :
    eventFormatCsv (some e) 160 = ⟨exportedLine e, (exportedLine e).length⟩ := by
  simp only [eventFormatCsv, snprintf, exportedLine, List.length_take]
  rw [if_neg (by decide), Formatted.mk.injEq]
  exact ⟨rfl, by split <;> omega⟩

/-- **The export's loop** leaves the first bytes of the joined lines, wherever
the buffer is full. -/
theorem exportLoop_take (outLen : ℕ) (es : List (ExtEvent P)) (out : List UInt8)
    (h : out.length ≤ outLen - 1) :
    exportLoop outLen es out = (out ++ [10].intercalate (es.map exportedLine)).take (outLen - 1) := by
  induction es generalizing out with
  | nil =>
    unfold exportLoop
    rw [List.map_nil, List.intercalate_nil, List.append_nil, List.take_of_length_le h]
  | cons e es ih =>
    have hne := exportedLine_ne_nil e
    unfold exportLoop
    rw [eventFormatCsv_line]
    simp only [hne, and_false, ↓reduceIte]
    by_cases hroom : out.length < outLen - 1
    swap
    · -- the buffer is full
      rw [if_neg hroom, List.take_append_of_le_length (by omega), List.take_of_length_le h]
    rw [if_pos hroom]
    have hcopy : out ++ (exportedLine e).take (if outLen - 1 - out.length < (exportedLine e).length
        then outLen - 1 - out.length else (exportedLine e).length) =
        (out ++ exportedLine e).take (outLen - 1) := by
      rw [List.take_append, List.take_of_length_le h]
      split
      · rfl
      · rw [List.take_of_length_le le_rfl, List.take_of_length_le (by omega)]
    rw [hcopy]
    have hlen : ((out ++ exportedLine e).take (outLen - 1)).length ≤ outLen - 1 := by
      rw [List.length_take]
      omega
    have hjoin : out ++ [10].intercalate ((e :: es).map exportedLine) =
        out ++ exportedLine e ++ if es = [] then [] else 10 :: [10].intercalate (es.map exportedLine) := by
      cases es <;> simp [List.intercalate]
    rw [hjoin]
    by_cases hes : es = []
    · subst hes
      simp [exportLoop]
    rw [if_neg hes]
    by_cases hmore : ((out ++ exportedLine e).take (outLen - 1)).length < outLen - 1
    · -- the line was copied whole
      have hall : (out ++ exportedLine e).take (outLen - 1) = out ++ exportedLine e := by
        rw [List.length_take] at hmore
        exact List.take_of_length_le (by omega)
      rw [hall] at hmore ⊢
      rw [if_pos ⟨hes, hmore⟩, ih]
      · rw [List.append_assoc (out ++ exportedLine e)]
        rfl
      · rw [List.length_append, List.length_singleton]
        omega
    · have hfull : outLen - 1 ≤ (out ++ exportedLine e).length := by
        rw [List.length_take] at hmore
        omega
      rw [if_neg fun hh => hmore hh.2, ih _ hlen]
      rw [List.take_append_of_le_length (by omega), List.take_append_of_le_length hfull,
        List.take_take, Nat.min_self]

theorem length_contents {bb : Blackbox P} (h : bb.count ≤ 16) : bb.contents.length = bb.count := by
  simp [Blackbox.contents, h]

theorem contents_drop {bb : Blackbox P} (h : bb.count ≤ 16) (maxEvents : ℕ) :
    bb.contents.drop (if maxEvents < bb.count then bb.count - maxEvents else 0) =
      bb.contents.rtake maxEvents := by
  rw [List.rtake, length_contents h]
  split
  · rfl
  · rw [Nat.sub_eq_zero_of_le (by omega)]

/-- Nothing is selected from an empty blackbox, or when nothing is asked for. -/
theorem rtake_eq_nil {bb : Blackbox P} {maxEvents : ℕ} (h : bb.count = 0 ∨ maxEvents = 0) :
    bb.contents.rtake maxEvents = [] := by
  rcases h with h | h
  · rw [contents_of_count_zero h]
    simp
  · rw [h]
    exact List.rtake_zero _

/-- **The buffer export** writes the first bytes of the exported text. -/
theorem exportCsv_take {bb : Blackbox P} (h : bb.count ≤ 16) (maxEvents : ℕ) (includeHeader : Bool)
    {outLen : ℕ} (hpos : 0 < outLen) :
    blackboxExportCsvBufferEx (some bb) maxEvents includeHeader outLen =
      let text := exportedText includeHeader (bb.contents.rtake maxEvents)
      ⟨text.take (outLen - 1), min text.length (outLen - 1)⟩ := by
  unfold blackboxExportCsvBufferEx
  rw [if_neg (by omega)]
  simp only
  by_cases hcut : includeHeader = true ∧
      outLen ≤ (if includeHeader then csvSchemaHeader ++ [10] else []).length
  · -- the buffer ends in the header
    have hle := hcut.2
    rw [if_pos hcut, exportedText, List.take_append_of_le_length (by omega), List.length_append,
      Nat.min_eq_right (by omega)]
  have hheader : (if includeHeader then csvSchemaHeader ++ [10] else []).length ≤ outLen - 1 := by
    cases includeHeader with
    | false => exact Nat.zero_le _
    | true =>
      rw [not_and] at hcut
      have := hcut rfl
      omega
  rw [if_neg hcut]
  by_cases hnone : bb.count = 0 ∨ maxEvents = 0
  · rw [if_pos hnone, rtake_eq_nil hnone, exportedText, List.map_nil, List.intercalate_nil,
      List.append_nil, List.take_of_length_le hheader, Nat.min_eq_left hheader]
  · rw [if_neg hnone, contents_drop h, exportLoop_take outLen _ _ hheader, List.length_take,
      Nat.min_comm]
    rfl

/-- **The export** of all events, when there is room for it. -/
theorem export_eq {bb : Blackbox P} (hcount : bb.count ≤ 16) (includeHeader : Bool) {outLen : ℕ}
    (h : (exportedText includeHeader bb.contents).length < outLen) :
    blackboxExportCsvBufferEx (some bb) bb.count includeHeader outLen =
      ⟨exportedText includeHeader bb.contents, (exportedText includeHeader bb.contents).length⟩ := by
  have hall : bb.contents.rtake bb.count = bb.contents :=
    Window.rtake_eq_self (length_contents hcount).le
  rw [exportCsv_take hcount _ _ (by omega), hall]
  simp only
  rw [List.take_of_length_le (by omega), Nat.min_eq_left (by omega)]

/-- The writer is called with the lines in order. -/
theorem foldl_writer {σ : Type} (writer : List UInt8 → σ → σ) (es : List (ExtEvent P)) (n : ℕ) (ctx : σ) :
    es.foldl (fun r e => (r.1 + 1, writer (eventFormatCsv (some e) 160).text r.2)) (n, ctx) =
      (n + es.length, (es.map fun e => (eventFormatCsv (some e) 160).text).foldl
        (fun ctx line => writer line ctx) ctx) := by
  induction es generalizing n ctx with
  | nil => rfl
  | cons e es ih =>
    rw [List.foldl_cons, ih, List.length_cons, Nat.add_right_comm, Nat.add_assoc]
    rfl

/-- **The buffer export is a prefix of the reference text**, the header line if
it is asked for and the lines of the last `max_events` events joined with
newlines, and returns its length; the line export passes the same lines to its
writer and returns their number. -/
theorem export_prefix (bb : Blackbox P) (h : bb.count ≤ 16) (maxEvents : ℕ) (includeHeader : Bool)
    (outLen : ℕ) (hpos : 1 ≤ outLen) :
    let lines := (bb.contents.rtake maxEvents).map fun e => (eventFormatCsv (some e) 160).text
    let reference := (if includeHeader then csvSchemaHeader ++ [10] else []) ++ [10].intercalate lines
    let out := blackboxExportCsvBufferEx (some bb) maxEvents includeHeader outLen
    out.text = reference.take (outLen - 1) ∧ out.ret = min reference.length (outLen - 1) ∧
      lines.length = min maxEvents bb.count ∧
      ∀ {σ : Type} (writer : List UInt8 → σ → σ) (userCtx : σ),
        blackboxExportCsvLines (some bb) maxEvents (some writer) userCtx =
          (lines.length, lines.foldl (fun ctx line => writer line ctx) userCtx) := by
  intro lines reference out
  have hlines : lines = (bb.contents.rtake maxEvents).map exportedLine :=
    List.map_congr_left fun e _ => congrArg Formatted.text (eventFormatCsv_line e)
  have href : reference = exportedText includeHeader (bb.contents.rtake maxEvents) := by
    simp only [reference, hlines, exportedText]
  have hout : out = _ := exportCsv_take h maxEvents includeHeader hpos
  rw [hout, href]
  refine ⟨rfl, rfl, ?_, fun writer userCtx => ?_⟩
  · simp only [lines]
    rw [List.length_map, Window.length_rtake, length_contents h]
  · unfold blackboxExportCsvLines
    simp only
    by_cases hnone : bb.count = 0 ∨ maxEvents = 0
    · have hnil : lines = [] := by
        simp only [lines, rtake_eq_nil hnone, List.map_nil]
      rw [if_pos hnone, hnil]
      rfl
    · rw [if_neg hnone, contents_drop h, foldl_writer, Nat.zero_add]
      simp only [lines, List.length_map]

/-- The header and a line and a half of two events. -/
theorem export_prefix_host :
    let bb := stores (blackboxInit : Blackbox .host) [forgedEvent, forgedEvent]
    let out := blackboxExportCsvBufferEx (some bb) 5 true 120
    out.ret = 119 := by
  have h := export_prefix (stores (blackboxInit : Blackbox .host) [forgedEvent, forgedEvent])
    (by decide +kernel) 5 true 120 (by decide)
  exact h.2.1.trans (by decide +kernel)

end Loxguard
