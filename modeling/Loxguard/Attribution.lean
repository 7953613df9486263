/-
# Failure attribution in report lines

A report names the block that failed only if the run failed; its line has no
field for that, and the parser names the block of the line as the failed one
whatever the result (`lastFailedBlock_of_read`). So a parsed report blames the
block of every run, and says what the report said exactly when the run failed
under a name that fits its field (`attribution_iff`).

The guarded function is any function here. One that leaves no empty text in
its context, as every script does (`exec_keepsTexts`), ends in a report whose
line can be read.

Key definitions: `World.called`, `GuardFn.KeepsTexts`, `BlockCfg.FailsNamed`.
Key theorems: `lastFailedBlock_of_read`, `run_report`, `attribution_iff`.
-/
import Loxguard.Calls
import Loxguard.Format.Report

namespace Loxguard

open Lib Lib.Percent

variable {P : Platform}

/-! ### The block a parsed report blames -/

/-- The report a line gives, read from the complete line. -/
def readBack (r : Report) (event : Option (ExtEvent P)) (outLen : ℕ) (out : ReportSnapshot) :
    Bool × ReportSnapshot :=
  reportParseKvEx (bufText (reportFormatKv (some r) event outLen).text) out

theorem fitText_eq_iff (s : CStr) : fitText (some s) = s ↔ (kvReserved.escape s.bytes).length ≤ 63 := by
  constructor
  · intro h
    have hfit := (kvReserved.fit_isFit 63 s.bytes).2.1
    rwa [show kvReserved.fit 63 s.bytes = s.bytes from congrArg CStr.bytes h] at hfit
  · intro h
    exact CStr.ext_bytes (kvReserved.fit_eq_self h)

theorem block_of_reportHead {r : Report} {event : Option (ExtEvent P)} {h : ReportHead}
    (hh : reportHead (bufText (reportLine r event)) = some h) :
    h.block = fitText (some (reportBlock r)) := by
  have he : 44 ∉ encodeKvValue 64 (some (reportBlock r)) := not_mem_encodeKvValue (Or.inl rfl) 64 _
  obtain ⟨v, reason, result, action, kind, rest, hline, -, hreads⟩ := (reportHead_fields_iff _ h).mp hh
  obtain ⟨hne, hv, hparse⟩ := hreads.block
  rw [bufText_bytes (nulFree_reportLine r event), reportLine_eq, headFields, headFields] at hline
  have hsplit := congrArg (List.splitOn 44) hline
  rw [splitOn_field (by decide) he, splitOn_field (by decide) hv] at hsplit
  obtain ⟨hfield, -⟩ := List.cons.inj hsplit
  obtain rfl := (List.cons.inj (List.append_cancel_left hfield)).2
  have hgiven : NonemptyText (some (reportBlock r)) := fun hnil => hne (by
    rw [encodeKvValue_eq]
    simp only [eventText, Option.getD_some] at hnil
    rw [hnil]
    rfl)
  have hencode := textValue_encode hgiven
  rw [eventText, Option.getD_some, hparse, Option.some_inj] at hencode
  exact hencode

/-- **A parsed report blames the block of its line**, whatever its result. -/
theorem lastFailedBlock_of_read {r : Report} {event : Option (ExtEvent P)} {outLen : ℕ}
    (hlen : (reportLine r event).length < outLen) {out : ReportSnapshot}
    (hread : (readBack r event outLen out).1 = true) :
    (readBack r event outLen out).2.report.lastFailedBlock = some (fitText (some (reportBlock r))) := by
  unfold readBack at hread ⊢
  rw [text_reportFormatKv r event (by omega), List.take_of_length_le (by omega)] at hread ⊢
  unfold reportParseKvEx at hread ⊢
  cases hh : reportHead (bufText (reportLine r event)) with
  | none =>
    rw [hh] at hread
    cases hread
  | some h =>
    rw [hh] at hread
    simp only at hread ⊢
    cases ht : reportTail h.cursor with
    | none =>
      rw [ht] at hread
      cases hread
    | some t => exact congrArg some (block_of_reportHead hh)

/-! ### The texts of a context -/

/-- No text of the context is empty. -/
structure GuardCtx.Texts (ctx : GuardCtx P) : Prop where
  blockName : ∀ s, ctx.blockName = some s → s.bytes ≠ []
  reason : ∀ s, ctx.lastEvent.reason = some s → s.bytes ≠ []

/-- The function leaves no empty text in the context. -/
def GuardFn.KeepsTexts (fn : GuardFn P) : Prop := ∀ ctx w, ctx.Texts → (fn ctx w).2.1.Texts

theorem guardOf_texts (cfg : BlockCfg P) (startTicks : BitVec 32) : (guardOf cfg startTicks).Texts where
  blockName s h := by
    obtain rfl := Option.some_inj.mp h
    exact blockName_ne_nil cfg
  reason s h := by cases h

theorem GuardCtx.Texts.note {ctx : GuardCtx P} (h : ctx.Texts) {ev : ExtEvent P} {reason : CStr}
    (hev : ev.reason = some reason) (hreason : reason.bytes ≠ []) (persistRc : ℤ) :
    (ctx.note ev persistRc).Texts where
  blockName := h.blockName
  reason s hs := by
    obtain rfl := Option.some_inj.mp (hev.symm.trans hs)
    exact hreason

section Emit

variable (ctx : GuardCtx P) (kind : EventKind) (reason : CStr) (index limit : P.Size)
  (auxCode : BitVec 32) (track : Bool) (w : World P)

theorem emitEventEx_ctx :
    let ev : ExtEvent P := ⟨kind, ctx.blockName, some reason, index, limit, auxCode⟩
    (emitEventEx ctx kind reason index limit auxCode track w).2.1 = ctx ∨
      (emitEventEx ctx kind reason index limit auxCode track w).2.1 = ctx.note ev w.env.persist.head := by
  intro ev
  cases hbox : ctx.blackbox with
  | none =>
    left
    rw [emitEventEx, hbox]
  | some box =>
    cases track with
    | false =>
      left
      rw [emitEventEx_untracked hbox]
    | true =>
      right
      rw [emitEventEx_eq hbox]

@[simp] theorem emitEventEx_blockName :
    (emitEventEx ctx kind reason index limit auxCode track w).2.1.blockName = ctx.blockName := by
  rcases emitEventEx_ctx ctx kind reason index limit auxCode track w with h | h
  · rw [h]
  · rw [h]
    rfl

theorem GuardCtx.Texts.emit {ctx : GuardCtx P} (h : ctx.Texts) (hreason : reason.bytes ≠ []) :
    (emitEventEx ctx kind reason index limit auxCode track w).2.1.Texts := by
  rcases emitEventEx_ctx ctx kind reason index limit auxCode track w with he | he
  · rw [he]
    exact h
  · rw [he]
    exact h.note rfl hreason _

end Emit

/-- **What a bounds incident keeps, a script keeps** of its context. -/
theorem exec_ctx {I : GuardCtx P → Prop}
    (hI : ∀ (ctx : GuardCtx P) (index limit : P.Size) (w : World P), I ctx →
      I (guardEmitBounds ctx index limit w).1)
    (s : Script P) {ctx : GuardCtx P} (w : World P) (h : I ctx) : I (s.exec ctx w).2.1 := by
  induction s generalizing ctx w with
  | ret rc => exact h
  | write index value next ih =>
    have hwrite : I (checkedOutputWriteU8 ctx index value w).2.1 := by
      unfold checkedOutputWriteU8
      dsimp only
      split
      · exact hI ctx _ _ _ h
      · exact h
    exact ih (checkedOutputWriteU8 ctx index value w).1 (checkedOutputWriteU8 ctx index value w).2.2 hwrite
  | emitBounds index limit next ih => exact ih _ (hI ctx index limit w h)
  | run cfg fn next _ ih => exact ih _ _ h

theorem exec_blockName (s : Script P) (ctx : GuardCtx P) (w : World P) :
    (s.exec ctx w).2.1.blockName = ctx.blockName := by
  refine exec_ctx (I := fun c => c.blockName = ctx.blockName) ?_ s w rfl
  intro c index limit w hc
  exact (emitEventEx_blockName c _ _ _ _ _ _ _).trans hc

/-- **Scripts leave no empty text** in the context. -/
theorem exec_keepsTexts (s : Script P) : GuardFn.KeepsTexts s.exec := by
  intro ctx w hctx
  refine exec_ctx ?_ s w hctx
  intro c index limit w hc
  exact hc.emit _ _ _ _ _ _ _ (by decide)

/-! ### The report of a run -/

/-- The world in which a run calls its function. -/
def World.called (w : World P) (cfg : BlockCfg P) (box : ℕ) : World P :=
  let (answer, w) := nextAnswer (w.entered cfg box)
  { w with
    adapters := (recoveryAllowAttemptForBlock w.adapters (some cfg.blockName) answer).2
    trace := w.trace ++ [.invoke (some cfg.blockName)] }

/-- What the function of a run returns and leaves. -/
def BlockCfg.outcome (cfg : BlockCfg P) (box : ℕ) (fn : GuardFn P) (w : World P) :
    ℤ × GuardCtx P × World P :=
  fn (guardOf cfg (w.env.reading 0)) (w.called cfg box)

/-- A name whose encoding fits its field. -/
def FitsField (name : CStr) : Prop := (kvReserved.escape name.bytes).length ≤ 63

instance (name : CStr) : Decidable (FitsField name) := inferInstanceAs (Decidable (_ ≤ _))

/-- The run fails: it is refused, or its function does not return `OK`, or not
in time, and then leaves a name in the context that fits its field. -/
def BlockCfg.FailsNamed (cfg : BlockCfg P) (box : ℕ) (fn : GuardFn P) (w : World P) : Prop :=
  cfg.QuarantinedAt (entryStreak w.streaks (some cfg.blockName)) ∨ w.env.BreakerOpen ∨
    let r := cfg.outcome box fn w
    (r.1 ≠ ok ∨ cfg.TimedOut (r.2.2.env.reading 0 - r.2.1.startTicks)) ∧
      ∃ name, r.2.1.blockName = some name ∧ FitsField name

theorem loxguardRun_called {cfg : BlockCfg P} {box : ℕ} (hbox : cfg.blackbox = some box) (fn : GuardFn P)
    {w : World P} (hq : ¬ cfg.QuarantinedAt (entryStreak w.streaks (some cfg.blockName)))
    (hclosed : ¬ w.env.BreakerOpen) :
    let r := cfg.outcome box fn w
    loxguardRun (some cfg) (some fn) w = finishRun cfg r.1 r.2.1 r.2.2 := by
  intro r
  have hallow : (recoveryAllowAttemptForBlock (nextAnswer (w.entered cfg box)).2.adapters
      (some cfg.blockName) (nextAnswer (w.entered cfg box)).1).1 = true := by
    have henv : (w.entered cfg box).env.breaker = w.env.breaker := rfl
    unfold nextAnswer
    rw [henv]
    cases hb : w.env.breaker with
    | none => rfl
    | some answers =>
      cases hanswer : answers.head.allowed with
      | false => exact absurd ⟨answers, hb, hanswer⟩ hclosed
      | true => simp only [recoveryAllowAttemptForBlock, hanswer]
  rw [loxguardRun_eq hbox fn w, if_neg hq]
  unfold attemptRun
  rw [← show (guardOf cfg (w.env.reading 0)).blockName = some cfg.blockName from rfl] at hallow
  simp only [hallow]
  rfl

theorem completeRun_report (guard : GuardCtx P) (rc : ℤ) (w : World P) :
    (completeRun guard rc w).1 = reportOf guard rc := by
  have hctx : (emitEventEx guard .blockCompleted (.lit "COMPLETED")
      (guard.durationTicks.setWidth P.sizeBits) 0 0 false w).2.1 = guard := by
    cases hbox : guard.blackbox with
    | none => rw [emitEventEx, hbox]
    | some box => rw [emitEventEx_untracked hbox]
  simp only [completeRun, hctx, finalizeReport_eq]

theorem refuseRun_report {guard : GuardCtx P} {box : ℕ} (hbox : guard.blackbox = some box)
    (hguard : guard.Texts) {reason : CStr} (hreason : reason.bytes ≠ []) (index limit : P.Size)
    (auxCode : BitVec 32) (w : World P) : ∃ guard' : GuardCtx P, guard'.Texts ∧
      guard'.blockName = guard.blockName ∧
      (refuseRun guard reason index limit auxCode w).1 = reportOf guard' errUnsupported := by
  rw [refuseRun_eq hbox, completeRun_report]
  let ev : ExtEvent P := ⟨.blockError, guard.blockName, some reason, index, limit, auxCode⟩
  have hnote := hguard.note (show ev.reason = _ from rfl) hreason w.env.persist.head
  exact ⟨{ guard.note ev w.env.persist.head with durationTicks := w.env.reading 0 - guard.startTicks },
    ⟨hnote.blockName, hnote.reason⟩, rfl, rfl⟩

theorem emitVerdict_ctx (cfg : BlockCfg P) (rc : ℤ) (guard : GuardCtx P) (w : World P) :
    (emitVerdict cfg rc guard w).1 = verdictRc cfg rc guard.durationTicks ∧
      (emitVerdict cfg rc guard w).2.1.blockName = guard.blockName ∧
      (guard.Texts → (emitVerdict cfg rc guard w).2.1.Texts) := by
  unfold emitVerdict verdictRc
  by_cases hto : cfg.TimedOut guard.durationTicks
  · simp only [if_pos hto]
    exact ⟨trivial, emitEventEx_blockName _ _ _ _ _ _ _ _, fun h => h.emit _ _ _ _ _ _ _ (by decide)⟩
  by_cases hok : rc = ok
  · simp only [if_neg hto, if_pos hok]
    exact ⟨trivial, emitEventEx_blockName _ _ _ _ _ _ _ _, fun h => h.emit _ _ _ _ _ _ _ (by decide)⟩
  by_cases hlast : guard.lastEvent.kind = .none
  · simp only [if_neg hto, if_neg hok, if_pos hlast]
    exact ⟨trivial, emitEventEx_blockName _ _ _ _ _ _ _ _, fun h => h.emit _ _ _ _ _ _ _ (by decide)⟩
  · simp only [if_neg hto, if_neg hok, if_neg hlast]
    exact ⟨trivial, trivial, id⟩

theorem finishRun_report (cfg : BlockCfg P) (rc : ℤ) (guard : GuardCtx P) (w : World P) :
    ∃ guard' : GuardCtx P, (guard.Texts → guard'.Texts) ∧ guard'.blockName = guard.blockName ∧
      (finishRun cfg rc guard w).1 =
        reportOf guard' (verdictRc cfg rc (w.env.reading 0 - guard.startTicks)) := by
  let stopped : GuardCtx P := { guard with durationTicks := w.env.reading 0 - guard.startTicks }
  obtain ⟨hrc, hname, htexts⟩ := emitVerdict_ctx cfg rc stopped { w with env := w.env.tick }
  unfold finishRun
  simp only [stopClock, nowMs_eq]
  rw [completeRun_report]
  cases cfg.haveArena with
  | false => exact ⟨_, fun h => ⟨(htexts ⟨h.1, h.2⟩).1, (htexts ⟨h.1, h.2⟩).2⟩, hname, congrArg _ hrc⟩
  | true => exact ⟨_, fun h => htexts ⟨h.1, h.2⟩, hname, congrArg _ hrc⟩

theorem verdictRc_ne_ok_iff (cfg : BlockCfg P) (rc : ℤ) (duration : BitVec 32) :
    verdictRc cfg rc duration ≠ ok ↔ rc ≠ ok ∨ cfg.TimedOut duration := by
  unfold verdictRc
  by_cases h : cfg.TimedOut duration
  · rw [if_pos h]
    exact ⟨fun _ => Or.inr h, fun _ => by decide⟩
  · rw [if_neg h]
    exact ⟨Or.inl, fun hrc => hrc.resolve_right h⟩

/-- **The report of a run** is one on a context and a code, and the run fails
under a name that fits exactly when these say so. -/
theorem run_report {cfg : BlockCfg P} {box : ℕ} (hbox : cfg.blackbox = some box)
    (hname : FitsField cfg.blockName) (fn : GuardFn P) (w : World P) :
    ∃ (guard : GuardCtx P) (rc : ℤ), (loxguardRun (some cfg) (some fn) w).1 = reportOf guard rc ∧
      (fn.KeepsTexts → guard.Texts) ∧
      (cfg.FailsNamed box fn w ↔ rc ≠ ok ∧ ∃ name, guard.blockName = some name ∧ FitsField name) := by
  have hguard := guardOf_texts cfg (w.env.reading 0)
  rcases loxguardRun_cases hbox fn w with ⟨hq, hrun⟩ | ⟨-, hopen, aux, adapters, breaker, hrun⟩ |
    ⟨hq, hclosed, -⟩
  · rw [hrun]
    obtain ⟨guard, htexts, hblock, hreport⟩ := refuseRun_report hbox hguard
      (show (CStr.lit "QUARANTINED").bytes ≠ [] by decide)
      ((entryStreak w.streaks (some cfg.blockName)).setWidth P.sizeBits)
      (cfg.maxFailures.setWidth P.sizeBits) 0 (w.entered cfg box)
    exact ⟨guard, errUnsupported, hreport, fun _ => htexts,
      fun _ => ⟨by decide, cfg.blockName, hblock, hname⟩, fun _ => Or.inl hq⟩
  · rw [hrun]
    obtain ⟨guard, htexts, hblock, hreport⟩ := refuseRun_report hbox hguard
      (show (CStr.lit "BREAKER_OPEN").bytes ≠ [] by decide) 0 0 aux
      { w.entered cfg box with adapters, env := { (w.entered cfg box).env with breaker } }
    exact ⟨guard, errUnsupported, hreport, fun _ => htexts,
      fun _ => ⟨by decide, cfg.blockName, hblock, hname⟩, fun _ => Or.inr (Or.inl hopen)⟩
  · rw [loxguardRun_called hbox fn hq hclosed]
    obtain ⟨guard, htexts, hblock, hreport⟩ := finishRun_report cfg (cfg.outcome box fn w).1
      (cfg.outcome box fn w).2.1 (cfg.outcome box fn w).2.2
    refine ⟨guard, _, hreport, fun hfn => htexts (hfn _ _ hguard), ?_⟩
    rw [verdictRc_ne_ok_iff, hblock]
    exact ⟨fun h => (h.resolve_left hq).resolve_left hclosed, fun h => Or.inr (Or.inr h)⟩

/-! ### Attribution -/

/-- A report on a context without empty texts can be read back. -/
theorem readBack_reportOf {guard : GuardCtx P} (hguard : guard.Texts) (rc : ℤ)
    {event : Option (ExtEvent P)} {outLen : ℕ}
    (hlen : (reportLine (reportOf guard rc) event).length < outLen) (out : ReportSnapshot) :
    (readBack (reportOf guard rc) event outLen out).1 = true := by
  have hreason : ∀ s, (reportOf guard rc).reason = some s → s.bytes ≠ [] := by
    intro s hs
    obtain rfl := Option.some_inj.mp hs
    split
    · cases hlast : guard.lastEvent.reason with
      | none => exact show ascii "ERROR" ≠ [] by decide
      | some reason => exact hguard.reason reason hlast
    · decide
  exact (report_round_trip (reportOf guard rc) event hguard.blockName hreason (by omega) out).1.mpr hlen

/-- Read back, a report on a context blames the block it blamed exactly when
it is a report on a failure and the name of the block fits. -/
theorem attribution_reportOf {guard : GuardCtx P} {rc : ℤ} {event : Option (ExtEvent P)} {outLen : ℕ}
    (hlen : (reportLine (reportOf guard rc) event).length < outLen) {out : ReportSnapshot}
    (hread : (readBack (reportOf guard rc) event outLen out).1 = true) :
    (readBack (reportOf guard rc) event outLen out).2.report.lastFailedBlock =
        (reportOf guard rc).lastFailedBlock ↔
      rc ≠ ok ∧ ∃ name, guard.blockName = some name ∧ FitsField name := by
  rw [lastFailedBlock_of_read hlen hread]
  simp only [reportOf, reportBlock]
  by_cases hrc : rc ≠ ok
  · rw [if_pos hrc]
    cases guard.blockName with
    | none => simp [hrc]
    | some name =>
      simp only [Option.getD_some, Option.some_inj, fitText_eq_iff]
      constructor
      · intro h
        exact ⟨hrc, name, rfl, h⟩
      · intro h
        obtain ⟨-, given, hgiven, hfits⟩ := h
        rw [hgiven]
        exact hfits
  · rw [if_neg hrc]
    simp [hrc]

/-- **Failure attribution.** The complete line of a run's report, read back,
blames the block that the report blames (or none, as the report) exactly when
the run fails under a name that fits its field. It can be read back whenever
the function leaves no empty text. -/
theorem attribution_iff {cfg : BlockCfg P} {box : ℕ} (hbox : cfg.blackbox = some box)
    (hname : FitsField cfg.blockName) (fn : GuardFn P) (w : World P) (event : Option (ExtEvent P))
    (out : ReportSnapshot) {outLen : ℕ}
    (hlen : (reportLine (loxguardRun (some cfg) (some fn) w).1 event).length < outLen) :
    let r := (loxguardRun (some cfg) (some fn) w).1
    (fn.KeepsTexts → (readBack r event outLen out).1 = true) ∧
      ((readBack r event outLen out).1 = true →
        ((readBack r event outLen out).2.report.lastFailedBlock = r.lastFailedBlock ↔
          cfg.FailsNamed box fn w)) := by
  intro r
  obtain ⟨guard, rc, hr, htexts, hfails⟩ := run_report hbox hname fn w
  rw [hr] at hlen
  rw [show r = reportOf guard rc from hr, hfails]
  exact ⟨fun hfn => readBack_reportOf (htexts hfn) rc hlen out, attribution_reportOf hlen⟩

/-- For a script the name in the context is the block's, so its run fails
under a name that fits exactly when it fails. -/
theorem failsNamed_script_iff {cfg : BlockCfg P} (hname : FitsField cfg.blockName) (box : ℕ)
    (s : Script P) (w : World P) :
    cfg.FailsNamed box s.exec w ↔
      cfg.QuarantinedAt (entryStreak w.streaks (some cfg.blockName)) ∨ w.env.BreakerOpen ∨
        (cfg.outcome box s.exec w).1 ≠ ok ∨
        cfg.TimedOut ((cfg.outcome box s.exec w).2.2.env.reading 0 -
          (cfg.outcome box s.exec w).2.1.startTicks) := by
  have hblock : (cfg.outcome box s.exec w).2.1.blockName = some cfg.blockName := exec_blockName s _ _
  have hnamed : ∃ name, (cfg.outcome box s.exec w).2.1.blockName = some name ∧ FitsField name :=
    ⟨cfg.blockName, hblock, hname⟩
  unfold BlockCfg.FailsNamed
  simp only [hnamed, and_true]

/-- The report of a run of a block whose function returns `rc`, in a fresh
process. -/
def singleReport (rc : ℤ) : Report :=
  (loxguardRun (some (BlockCfg.plain (.lit "b") 0 : BlockCfg .host)) (some (Script.ret rc).exec)
    (.start .quiet)).1

/-- A run that fails is blamed on its block. -/
theorem attribution_failed :
    (readBack (singleReport (-1)) (none : Option (ExtEvent .host)) 128 .zero).1 = true ∧
      (readBack (singleReport (-1)) (none : Option (ExtEvent .host)) 128 .zero).2.report.lastFailedBlock =
        (singleReport (-1)).lastFailedBlock := by
  have hlen : (reportLine (singleReport (-1)) (none : Option (ExtEvent .host))).length < 128 := by
    decide +kernel
  have hname : FitsField (BlockCfg.plain (.lit "b") 0 : BlockCfg .host).blockName := by decide +kernel
  obtain ⟨hread, hiff⟩ := attribution_iff rfl hname (Script.ret (-1)).exec (.start .quiet) none .zero hlen
  have h := hread (exec_keepsTexts _)
  refine ⟨h, (hiff h).mpr ?_⟩
  rw [failsNamed_script_iff hname]
  exact Or.inr (Or.inr (Or.inl (by decide)))

/-- A run that succeeds is blamed on its block as well. -/
theorem attribution_succeeded : (singleReport 0).lastFailedBlock = none ∧
    (readBack (singleReport 0) (none : Option (ExtEvent .host)) 128 .zero).1 = true ∧
    (readBack (singleReport 0) (none : Option (ExtEvent .host)) 128 .zero).2.report.lastFailedBlock =
      some (.lit "b") := by
  decide +kernel

end Loxguard
