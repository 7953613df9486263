/-
# What a dump tells of the runs

The events of runs reach a reader on another machine as text: the blackbox is
exported into a buffer and imported there. A name whose encoding has at most
56 bytes leaves room in the 159 bytes of a line for every reason a run gives
and for the largest numbers, so nothing is cut. A buffer of 2594 bytes then
carries every blackbox, and the import holds the very events of the runs, the
last 16 of them, in order, whatever was nested (`dump_tells`).

The newest line alone tells how the last run into a blackbox ended: it is read
as the `COMPLETED` of the outermost run, with the duration of its report
(`last_line_tells`).

Key definitions: `FitsLine`, `Lined`, `Closed`.
Key theorems: `OfRun.portable`, `OfRun.length_line`, `length_exportedText_le`,
`dump_tells`, `Call.closed`, `last_line_tells`.
-/
import Loxguard.Footprint
import Loxguard.Format.Buffer
import Loxguard.OwnStore

namespace Loxguard

open Lib Lib.Percent Lib.Decimal

variable {P : Platform}

/-! ### Lines that are not cut -/

/-- The block's name leaves room for the rest of a line. -/
def FitsLine (name : CStr) : Prop := name.bytes ≠ [] ∧ (kvReserved.escape name.bytes).length ≤ 56

instance (name : CStr) : Decidable (FitsLine name) := inferInstanceAs (Decidable (_ ∧ _))

/-- The blocks whose names do. -/
def Lined : Set (BlockCfg P) := {cfg | FitsLine cfg.blockName}

theorem runReasons_short : ∀ reason ∈ runReasons,
    reason.bytes ≠ [] ∧ (kvReserved.escape reason.bytes).length ≤ 12 := by
  decide

section OfRun

variable {name : CStr} (hname : FitsLine name) {ev : ExtEvent P} (h : OfRun (some name) ev)
include hname h

theorem OfRun.portable : Portable ev := by
  obtain ⟨hblock, reason, hreason, heq⟩ := h
  obtain ⟨hne, hshort⟩ := runReasons_short reason hreason
  obtain ⟨hname_ne, hname_le⟩ := hname
  have hb : eventText ev.blockName = name := by rw [hblock]; rfl
  have hr : eventText ev.reason = reason := by rw [heq]; rfl
  refine ⟨?_, ?_, ?_, ?_⟩
  · rwa [NonemptyText, hb]
  · rwa [NonemptyText, hr]
  · rw [hb]
    omega
  · rw [hr]
    omega

theorem OfRun.recorded_eq : recorded ev = ev := by
  have hblock := h.blockName
  obtain ⟨reason, -, hreason⟩ := h.reason
  rw [(h.portable hname).recorded_eq]
  cases ev
  simp only at hblock hreason
  subst hblock hreason
  rfl

/-- The line of a run's event is complete in the buffer of a line. -/
theorem OfRun.length_line : (eventLine ev).length ≤ 159 := by
  obtain ⟨hblock, reason, hreason, heq⟩ := h
  obtain ⟨-, hshort⟩ := runReasons_short reason hreason
  have hkind : (decimal ev.kind.code).length ≤ 2 :=
    length_decimal_le (by norm_num) (by have := ev.kind.code_le; omega)
  have hindex := length_decimal_size_le ev.index
  have hlimit := length_decimal_size_le ev.limit
  have haux := length_decimal_u32_le ev.auxCode
  have hb : (encodeKvValue 64 (some name)).length ≤ 56 := by
    rw [encodeKvValue_of_fits (hname.2.trans (by norm_num))]
    exact hname.2
  have hr : (encodeKvValue 64 (some reason)).length ≤ 12 := by
    rw [encodeKvValue_of_fits (hshort.trans (by norm_num))]
    exact hshort
  have hkeys : (ascii "kind=").length = 5 ∧ (ascii ",block=").length = 7 ∧ (ascii ",reason=").length = 8 ∧
      (ascii ",index=").length = 7 ∧ (ascii ",limit=").length = 7 ∧ (ascii ",aux=").length = 5 := by
    decide
  simp only [eventLine, eventLineHead, List.length_append, hblock, heq, Option.getD_some]
  omega

end OfRun

/-- Lines of at most 159 bytes, joined. -/
theorem length_intercalate_le (ls : List (List UInt8)) (h : ∀ l ∈ ls, l.length ≤ 159) :
    ([10].intercalate ls).length ≤ 160 * ls.length - 1 := by
  induction ls with
  | nil => exact Nat.zero_le _
  | cons l ls ih =>
    have hl := h l List.mem_cons_self
    cases ls with
    | nil =>
      rw [List.intercalate_singleton, List.length_singleton]
      omega
    | cons l' ls =>
      have htail := ih fun l hl => h l (List.mem_cons_of_mem _ hl)
      simp only [List.length_cons] at htail ⊢
      rw [List.intercalate_cons_cons, List.length_append, List.length_append, List.length_singleton]
      omega

/-- **The room for a blackbox**: the header and 16 lines. -/
theorem length_exportedText_le (includeHeader : Bool) {es : List (ExtEvent P)} (h : es.length ≤ 16) :
    (exportedText includeHeader es).length < 2594 := by
  have hlines := length_intercalate_le (es.map exportedLine) fun l hl => by
    obtain ⟨e, -, rfl⟩ := List.mem_map.mp hl
    exact List.length_take_le _ _
  have hheader : (if includeHeader then csvSchemaHeader ++ [10] else []).length ≤ 34 := by
    cases includeHeader <;> decide
  rw [List.length_map] at hlines
  rw [exportedText, List.length_append]
  omega

/-! ### The dump -/

/-- **What a dump tells of the runs.** After any calls of blocks whose names
fit a line, with all they nest, a blackbox that was empty is exported into a
buffer of 2594 bytes or more and imported elsewhere: the import has the last 16
events that the runs stored in it, unchanged and in order. -/
theorem dump_tells (cs : List (Call P)) (hcs : ∀ c ∈ cs, c.Calls Lined) (w : World P) {box : ℕ}
    (hempty : (w.blackboxes box).count = 0) (includeHeader : Bool) {outLen : ℕ} (hroom : 2594 ≤ outLen) (outBb : Blackbox P) :
    let bb := (runAll w cs).2.blackboxes box
    let out := blackboxExportCsvBufferEx (some bb) bb.count includeHeader outLen
    let rebuilt := blackboxImportCsvBuffer (some (bufText out.text)) outBb
    ∃ effs, (runAll w cs).2.trace = w.trace ++ effs ∧ rebuilt.1 = ((storedIn box effs).rtake 16).length ∧
      rebuilt.2.contents = (storedIn box effs).rtake 16 := by
  intro bb out rebuilt
  obtain ⟨effs, hfollows, hof⟩ := follows_runAll cs hcs w
  let es := (storedIn box effs).rtake 16
  have hlen : es.length ≤ 16 := by
    rw [Window.length_rtake]
    exact Nat.min_le_left ..
  have hrun : ∀ e ∈ es, Portable e ∧ recorded e = e ∧ (eventLine e).length ≤ 159 := by
    intro e he
    obtain ⟨cfg, hname, -, hev⟩ := hof box e (Window.mem_of_mem_rtake he)
    exact ⟨hev.portable hname, hev.recorded_eq hname, hev.length_line hname⟩
  have hsame : es.map recorded = es := by
    rw [List.map_congr_left fun e he => (hrun e he).2.1, List.map_id']
  have hbb : bb = stores (w.blackboxes box) (storedIn box effs) := hfollows.blackboxes box
  have hcontents : bb.contents = es := by
    rw [hbb, contents_stores _ hempty, ← Window.map_rtake]
    exact hsame
  have hwf : bb.Wf := hbb ▸ stores_wf _ (wf_of_count_zero hempty)
  have htext : out.text = exportedText includeHeader es := by
    rw [← hcontents]
    refine congrArg Formatted.text (export_eq hwf.count_le includeHeader ?_)
    rw [hcontents]
    exact (length_exportedText_le includeHeader hlen).trans_le hroom
  have himported := (exportedText_imported_iff includeHeader hlen (fun e he => (hrun e he).1) outBb).mpr
    fun e he => (hrun e he).2.2
  refine ⟨effs, hfollows.trace, ?_⟩
  rw [hsame] at himported
  simpa only [rebuilt, htext] using himported

theorem writingCall_lined : writingCall.Calls Lined := by
  refine ⟨?_, fun c hc => ?_, fun _ _ => trivial, fun _ => trivial⟩
  · exact show FitsLine writingCall.cfg.blockName by decide
  · rw [← Option.some_inj.mp hc]
    exact show FitsLine (BlockCfg.plain (.lit "b") 0 : BlockCfg .host).blockName by decide

/-- The six events of a call that nests a run, with the header. -/
theorem dump_tells_nested :
    let bb := (runAll (World.start .quiet) [writingCall]).2.blackboxes 1
    let out := blackboxExportCsvBufferEx (some bb) bb.count true 4096
    let rebuilt := blackboxImportCsvBuffer (some (bufText out.text)) (blackboxInit : Blackbox .host)
    ∃ effs, (runAll (World.start .quiet) [writingCall]).2.trace = (World.start .quiet).trace ++ effs ∧
      rebuilt.1 = ((storedIn 1 effs).rtake 16).length ∧ rebuilt.2.contents = (storedIn 1 effs).rtake 16 :=
  dump_tells [writingCall] (fun _ h => List.mem_singleton.mp h ▸ writingCall_lined) (World.start .quiet) rfl
    true (by decide) blackboxInit

/-! ### The newest line -/

/-- The last that a run stored in a blackbox is its `COMPLETED`, with the
duration of its report. -/
def Closed (block : Option CStr) (box : ℕ) (r : Report × World P) : Prop :=
  ∃ bb : Blackbox P, bb.Wf ∧
    r.2.blackboxes box = blackboxStore bb (.ofExt (completedEvent block r.1.durationTicks))

theorem wf_emit {box : ℕ} (ev : ExtEvent P) {w : World P} (hwf : (w.blackboxes box).Wf) :
    ((w.emit box ev).blackboxes box).Wf := by
  rw [(follows_emit w box ev).blackboxes]
  exact stores_wf _ hwf

theorem wf_emitAll {box : ℕ} : ∀ (evs : List (ExtEvent P)) {w : World P}, (w.blackboxes box).Wf →
    ((w.emitAll box evs).blackboxes box).Wf
  | [], _, hwf => hwf
  | ev :: evs, _, hwf => wf_emitAll evs (wf_emit ev hwf)

section Closed

variable {block : Option CStr} {box : ℕ} {guard : GuardCtx P} (h : guard.blackbox = some box)
  (hname : guard.blockName = block) {w : World P} (hwf : (w.blackboxes box).Wf)
include h hname hwf

theorem closed_completeRun (rc : ℤ) : Closed block box (completeRun guard rc w) := by
  refine ⟨w.blackboxes box, hwf, ?_⟩
  have hduration : (reportOf guard rc).durationTicks = guard.durationTicks := by
    unfold reportOf
    split_ifs <;> rfl
  rw [completeRun_eq h, hduration, ← hname]
  exact Function.update_self ..

theorem closed_refuseRun (reason : CStr) (index limit : P.Size) (aux : BitVec 32) :
    Closed block box (refuseRun guard reason index limit aux w) := by
  rw [refuseRun_eq h]
  refine closed_completeRun ?_ ?_ ?_ _
  · exact h
  · exact hname
  · exact wf_emit _ hwf

theorem closed_finishRun (cfg : BlockCfg P) (rc : ℤ) : Closed block box (finishRun cfg rc guard w) := by
  obtain ⟨scratch, adapters, breaker, hfinish⟩ := finishRun_eq cfg h rc w rfl rfl
  rw [hfinish]
  refine closed_completeRun ?_ ?_ ?_ _
  · exact (noteAll_blackbox ..).trans h
  · exact (noteAll_blockName ..).trans hname
  · exact wf_emitAll _ hwf

end Closed

/-- **A call** is closed. -/
theorem Call.closed (c : Call P) {box : ℕ} (hbox : c.cfg.blackbox = some box) {w : World P}
    (hwf : (w.blackboxes box).Wf) : Closed (some c.block) box (c.exec w) := by
  have hentered : ((World.entered { w with env := c.env } c.cfg box).blackboxes box).Wf := by
    have henter : Step [] Set.univ { w with env := c.env } _
        (World.entered { w with env := c.env } c.cfg box) :=
      .enter (Set.mem_univ _) hbox _
    rw [henter.follows.blackboxes]
    exact stores_wf _ hwf
  have hguard : Guards c.cfg box (guardOf c.cfg (c.env.reading 0)) := guards_guardOf hbox _
  unfold Call.exec
  rcases loxguardRun_cases hbox c.fn.exec { w with env := c.env } with ⟨-, hrun⟩ |
    ⟨-, -, aux, adapters, breaker, hrun⟩ | ⟨-, -, adapters, breaker, hrun⟩
  · rw [hrun]
    exact closed_refuseRun hguard.blackbox hguard.blockName hentered _ _ _ _
  · rw [hrun]
    refine closed_refuseRun hguard.blackbox hguard.blockName ?_ _ _ _ _
    exact hentered
  · obtain ⟨⟨effs, hbody⟩, hguard'⟩ := Loxguard.exec_phases c.fn c.fn.calls_univ c.cfg box _
      { World.entered { w with env := c.env } c.cfg box with
        adapters
        env := { (World.entered { w with env := c.env } c.cfg box).env with breaker }
        trace := (World.entered { w with env := c.env } c.cfg box).trace ++ [.invoke (some c.cfg.blockName)] }
      (Set.mem_univ _) hbox hguard (invokedSince_invoke List.nil_prefix c.cfg)
    have hfollows := (hbody.refine Phase.steps).lift composes_follows Step.follows
    rw [hrun]
    refine closed_finishRun hguard'.blackbox hguard'.blockName ?_ c.cfg _
    rw [hfollows.blackboxes]
    exact stores_wf _ hentered

theorem lastEventFormatCsv_eq {bb : Blackbox P} (h : bb.Wf) {e : ExtEvent P}
    (hlast : bb.contents.getLast? = some e) (outLen : ℕ) :
    blackboxLastEventFormatCsv (some bb) outLen = eventFormatCsv (some e) outLen := by
  obtain ⟨hcount, hnewest⟩ := h.newest_eq hlast
  simp only [blackboxLastEventFormatCsv]
  rw [if_neg hcount, hnewest]

/-- **What the newest line tells.** After a call of a block whose name fits a
line, nested runs included, the line of the newest event in its blackbox is
read as the `COMPLETED` of the call's own block, with the duration that its
report tells. -/
theorem last_line_tells (c : Call P) {box : ℕ} (hbox : c.cfg.blackbox = some box) (hname : FitsLine c.block)
    {w : World P} (hwf : (w.blackboxes box).Wf) {outLen : ℕ} (hroom : 160 ≤ outLen) (out : EventSnapshot P) :
    eventParseCsvLineEx
        (bufText (blackboxLastEventFormatCsv (some ((c.exec w).2.blackboxes box)) outLen).text) out =
      (true, ⟨completedEvent (some c.block) (c.exec w).1.durationTicks, c.block, .lit "COMPLETED"⟩) := by
  obtain ⟨bb, hbb, hclosed⟩ := c.closed hbox hwf
  let ev : ExtEvent P := completedEvent (some c.block) (c.exec w).1.durationTicks
  have hof : OfRun (some c.block) ev := ofRun_completed ..
  have hport := hof.portable hname
  have hline := hof.length_line hname
  have hlast : (blackboxStore bb (.ofExt ev)).contents.getLast? = some ev := by
    rw [getLast?_contents_store hbb, hof.recorded_eq hname]
  rw [hclosed, lastEventFormatCsv_eq (hbb.store _) hlast, text_eventFormatCsv _ (by omega),
    List.take_of_length_le (by omega), eventParseCsvLineEx,
    eventLocals_eventLine _ hport.block_ne hport.reason_ne, fitText_of_fits hport.block_le,
    fitText_of_fits hport.reason_le]
  rfl

theorem last_line_tells_nested :
    let r := writingCall.exec (World.start .quiet)
    eventParseCsvLineEx (bufText (blackboxLastEventFormatCsv (some (r.2.blackboxes 1)) 160).text)
        (.zero : EventSnapshot .host) =
      (true, ⟨completedEvent (some (.lit "a")) r.1.durationTicks, .lit "a", .lit "COMPLETED"⟩) :=
  last_line_tells writingCall rfl (by decide) (wf_of_count_zero rfl) (by decide) .zero

end Loxguard
