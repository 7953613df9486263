/-
# The lifecycle of a run

The marks a run leaves, the events it stores and the calls of guarded
functions, follow a grammar whatever runs are nested in it: `ENTERED`, the
body, `COMPLETED`. The body is an `ERROR` when the run is refused, otherwise
the marks of the guarded function and the verdict (`RunStream`). The marks of
a guarded function are one bounds event for each incident of its own and the
whole stream of each run it starts, in program order (`Script.Stream`).

So events are well bracketed at any depth, and a run that is not `OK` leaves a
failure of its own block between its brackets.

Key definitions: `Mark`, `Verdict`, `RunStream`, `Script.Stream`.
Key theorems: `exec_stream`, `run_stream`, `RunStream.wellBracketed`,
`RunStream.failure_inside`, `lifecycle_grammar`.
-/
import Loxguard.Lib.Bracket
import Loxguard.RunSteps

namespace Loxguard

open Lib

variable {P : Platform}

/-! ### The grammar -/

/-- What a run leaves: events stored and guarded functions called. -/
inductive Mark (P : Platform)
  | stored (box : ℕ) (ev : ExtEvent P)
  | invoked (block : Option CStr)

/-- The marks among effects. -/
def marks (effs : List (Effect P)) : List (Mark P) :=
  effs.filterMap fun
    | .event box ev _ => some (.stored box ev)
    | .invoke block => some (.invoked block)
    | .recovery _ _ => none

/-- The verdict on a run whose function returned `rc` after incidents of its
own or none: the result and the events. -/
inductive Verdict (cfg : BlockCfg P) (block : Option CStr) (duration : BitVec 32) :
    ℤ → Bool → Result → List (ExtEvent P) → Prop
  | timeout {rc : ℤ} {own : Bool} (h : cfg.TimedOut duration) :
      Verdict cfg block duration rc own .timeout
        [⟨.blockTimeout, block, some (.lit "TIMEOUT"), duration.setWidth P.sizeBits,
          cfg.timeoutMs.setWidth P.sizeBits, 0⟩]
  | ok {own : Bool} (h : ¬ cfg.TimedOut duration) :
      Verdict cfg block duration Loxguard.ok own .ok [⟨.blockOk, block, some (.lit "OK"), 0, 0, 0⟩]
  | error {rc : ℤ} (h : ¬ cfg.TimedOut duration) (hrc : rc ≠ Loxguard.ok) :
      Verdict cfg block duration rc false .error [⟨.blockError, block, some (.lit "ERROR"), 0, 0, 0⟩]
  | incident {rc : ℤ} (h : ¬ cfg.TimedOut duration) (hrc : rc ≠ Loxguard.ok) :
      Verdict cfg block duration rc true .bounds []

/-- The stream of a run: its result and its marks, where `body` are the marks
its function can leave, whether it had incidents of its own, and what it
returned. -/
inductive RunStream (cfg : BlockCfg P) (box : ℕ) (body : List (Mark P) → Bool → ℤ → Prop) :
    Result → List (Mark P) → Prop
  | refused (reason : CStr)
      (hreason : reason = .lit "QUARANTINED" ∨ reason = .lit "BREAKER_OPEN")
      (index limit : P.Size) (aux duration : BitVec 32) :
      RunStream cfg box body .error
        [.stored box (enteredEvent (some cfg.blockName)),
          .stored box ⟨.blockError, some cfg.blockName, some reason, index, limit, aux⟩,
          .stored box (completedEvent (some cfg.blockName) duration)]
  | ran {ms : List (Mark P)} {own : Bool} {rc : ℤ} {duration : BitVec 32} {result : Result}
      {verdict : List (ExtEvent P)} (hbody : body ms own rc)
      (hverdict : Verdict cfg (some cfg.blockName) duration rc own result verdict) :
      RunStream cfg box body result
        (.stored box (enteredEvent (some cfg.blockName)) :: .invoked (some cfg.blockName) ::
          (ms ++ verdict.map (.stored box) ++
            [.stored box (completedEvent (some cfg.blockName) duration)]))

/-- The stream of a nested run, nothing without a configuration or a
blackbox. -/
def NestedStream (cfg : Option (BlockCfg P))
    (body : Option CStr → ℕ → Span P → List (Mark P) → Bool → ℤ → Prop) (result : Result)
    (ms : List (Mark P)) : Prop :=
  match cfg with
  | none => ms = []
  | some cfg =>
    match cfg.blackbox with
    | none => ms = []
    | some box => RunStream cfg box (body (some cfg.blockName) box cfg.output) result ms

/-- The marks of a script run for `block` with an output span, whether it had
incidents of its own, and what it returned. -/
def Script.Stream : Script P → Option CStr → ℕ → Span P → List (Mark P) → Bool → ℤ → Prop
  | .ret rc', _, _, _, ms, own, rc => ms = [] ∧ own = false ∧ rc = rc'
  | .write index _ next, block, box, output, ms, own, rc =>
    if output.Rejects index then
      ∃ ms' own', ms = .stored box (boundsEvent block index output.len) :: ms' ∧ own = true ∧
        (next (output.writeRc index)).Stream block box output ms' own' rc
    else (next (output.writeRc index)).Stream block box output ms own rc
  | .emitBounds index limit next, block, box, output, ms, own, rc =>
    ∃ ms' own', ms = .stored box (boundsEvent block index limit) :: ms' ∧ own = true ∧
      next.Stream block box output ms' own' rc
  | .run cfg fn next, block, box, output, ms, own, rc =>
    ∃ ms₁ ms₂ report, ms = ms₁ ++ ms₂ ∧ NestedStream cfg fn.Stream report.result ms₁ ∧
      (next report).Stream block box output ms₂ own rc

/-! ### Runs follow the grammar -/

theorem marks_append (effs effs' : List (Effect P)) : marks (effs ++ effs') = marks effs ++ marks effs' :=
  List.filterMap_append

theorem marks_recoveryEffects (env : Env) (ctx : GuardCtx P) (rc : ℤ) :
    marks (recoveryEffects env ctx rc) = [] := by
  unfold recoveryEffects
  split <;> rfl

/-- The context after a guarded function: at most the last event changed, to an
incident if there were any. -/
structure GuardCtx.After (ctx : GuardCtx P) (own : Bool) (ctx' : GuardCtx P) : Prop where
  blockName : ctx'.blockName = ctx.blockName
  blackbox : ctx'.blackbox = ctx.blackbox
  output : ctx'.output = ctx.output
  startTicks : ctx'.startTicks = ctx.startTicks
  lastKind : ctx'.lastEvent.kind = if own then .blockWriteOutOfBounds else ctx.lastEvent.kind

theorem GuardCtx.After.of_bounds {ctx ctx' : GuardCtx P} {index limit : P.Size} {rc : ℤ} {own : Bool}
    (h : (ctx.note (boundsEvent ctx.blockName index limit) rc).After own ctx') : ctx.After true ctx' where
  blockName := h.blockName
  blackbox := h.blackbox
  output := h.output
  startTicks := h.startTicks
  lastKind := by
    rw [h.lastKind]
    cases own <;> rfl

/-- What a guarded function does to the trace and its context. -/
def Streams (fn : GuardFn P) (body : Option CStr → ℕ → Span P → List (Mark P) → Bool → ℤ → Prop) : Prop :=
  ∀ (ctx : GuardCtx P) (w : World P) (box : ℕ), ctx.blackbox = some box →
    ∃ effs own, (fn ctx w).2.2.trace = w.trace ++ effs ∧
      body ctx.blockName box ctx.output (marks effs) own (fn ctx w).1 ∧
      ctx.After own (fn ctx w).2.1

theorem completeRun_marks {guard : GuardCtx P} {box : ℕ} (h : guard.blackbox = some box) (rc : ℤ)
    (w : World P) : (completeRun guard rc w).1 = reportOf guard rc ∧
      ∃ effs, (completeRun guard rc w).2.trace = w.trace ++ effs ∧
        marks effs = [.stored box (completedEvent guard.blockName guard.durationTicks)] := by
  rw [completeRun_eq h]
  refine ⟨rfl, _, List.append_assoc .., ?_⟩
  rw [marks_append, marks_recoveryEffects]
  rfl

/-- **A refused run** follows the grammar. -/
theorem refuseRun_stream {guard : GuardCtx P} {box : ℕ} (h : guard.blackbox = some box) (reason : CStr)
    (index limit : P.Size) (aux : BitVec 32) (w : World P) :
    (refuseRun guard reason index limit aux w).1.result = .error ∧
    ∃ effs duration, (refuseRun guard reason index limit aux w).2.trace = w.trace ++ effs ∧
      marks effs = [.stored box ⟨.blockError, guard.blockName, some reason, index, limit, aux⟩,
        .stored box (completedEvent guard.blockName duration)] := by
  rw [refuseRun_eq h]
  let ev : ExtEvent P := ⟨.blockError, guard.blockName, some reason, index, limit, aux⟩
  let refused : GuardCtx P :=
    { guard.note ev w.env.persist.head with durationTicks := w.env.reading 0 - guard.startTicks }
  obtain ⟨hreport, effs, htrace, hmarks⟩ := completeRun_marks
    (show refused.blackbox = some box from h) errUnsupported
    { w.emit box ev with env := (w.emit box ev).env.tick }
  refine ⟨?_, _, w.env.reading 0 - guard.startTicks, htrace.trans (List.append_assoc ..), ?_⟩
  · rw [show (completeRun _ _ _).1 = _ from hreport]
    rfl
  · rw [marks_append, hmarks]
    rfl

theorem marks_eventEffects (box : ℕ) (evs : List (ExtEvent P)) (persist : Stream' ℤ) :
    marks (eventEffects box evs persist) = evs.map (.stored box) := by
  induction evs generalizing persist with
  | nil => rfl
  | cons ev evs ih => exact congrArg (Mark.stored box ev :: ·) (ih persist.tail)

/-- The verdict goes with the result of the report. -/
theorem verdict_verdictEvents (cfg : BlockCfg P) {guard guard' : GuardCtx P} {own : Bool}
    (hlast : guard.lastEvent.kind = .none) (hafter : guard.After own guard') (rc : ℤ)
    (persist : Stream' ℤ) (duration : BitVec 32) (scratch : Option (Arena P)) :
    let evs := verdictEvents cfg guard'.blockName rc guard'.lastEvent.kind duration
    Verdict cfg guard.blockName duration rc own
      (reportOf { GuardCtx.noteAll { guard' with durationTicks := duration } persist evs with scratch }
        (verdictRc cfg rc duration)).result evs := by
  intro evs
  have hkind := hafter.lastKind
  rw [hlast] at hkind
  by_cases hto : cfg.TimedOut duration
  · have hevs : evs = _ := if_pos hto
    have hrc : verdictRc cfg rc duration = errTimeout := if_pos hto
    rw [hevs, hrc, hafter.blockName]
    exact .timeout hto
  have hrc : verdictRc cfg rc duration = rc := if_neg hto
  by_cases hok : rc = ok
  · have hevs : evs = _ := (if_neg hto).trans (if_pos hok)
    rw [hevs, hrc, hafter.blockName, hok]
    exact .ok hto
  cases own with
  | false =>
    have hevs : evs = _ := (if_neg hto).trans ((if_neg hok).trans (if_pos hkind))
    rw [hevs, hrc, hafter.blockName]
    simp only [reportOf, if_pos hok]
    exact .error hto hok
  | true =>
    have hne : guard'.lastEvent.kind ≠ .none := by rw [hkind]; simp
    have hevs : evs = _ := (if_neg hto).trans ((if_neg hok).trans (if_neg hne))
    rw [hevs, hrc]
    simp only [reportOf, if_pos hok, GuardCtx.noteAll, hkind]
    exact .incident hto hok

/-- **The end of a run that was not refused** follows the grammar. -/
theorem finishRun_stream (cfg : BlockCfg P) {guard guard' : GuardCtx P} {box : ℕ} {own : Bool}
    (h : guard.blackbox = some box) (hlast : guard.lastEvent.kind = .none)
    (hafter : guard.After own guard') (rc : ℤ) (w : World P) :
    ∃ effs duration verdict, (finishRun cfg rc guard' w).2.trace = w.trace ++ effs ∧
      marks effs = verdict.map (.stored box) ++
        [.stored box (completedEvent guard.blockName duration)] ∧
      Verdict cfg guard.blockName duration rc own (finishRun cfg rc guard' w).1.result verdict := by
  have h' : guard'.blackbox = some box := hafter.blackbox.trans h
  obtain ⟨scratch, adapters, breaker, hfinish⟩ := finishRun_eq cfg h' rc w rfl rfl
  let duration := w.env.reading 0 - guard'.startTicks
  let evs := verdictEvents cfg guard'.blockName rc guard'.lastEvent.kind duration
  let guard'' : GuardCtx P :=
    { GuardCtx.noteAll { guard' with durationTicks := duration } w.env.persist evs with scratch }
  let w' := World.emitAll { w with env := w.env.tick } box evs
  have hbox : guard''.blackbox = some box := (noteAll_blackbox evs _ _).trans h'
  have hname : guard''.blockName = guard.blockName := (noteAll_blockName evs _ _).trans hafter.blockName
  have htrace₁ : w'.trace = w.trace ++ eventEffects box evs w.env.persist :=
    emitAll_trace box evs { w with env := w.env.tick }
  obtain ⟨hreport, effs₂, htrace₂, hmarks₂⟩ := completeRun_marks hbox (verdictRc cfg rc duration)
    { w' with adapters, env := { w'.env with breaker } }
  rw [hfinish]
  refine ⟨eventEffects box evs w.env.persist ++ effs₂, guard''.durationTicks, evs, ?_, ?_, ?_⟩
  · rw [← List.append_assoc]
    exact htrace₂.trans (congrArg (· ++ effs₂) htrace₁)
  · rw [marks_append, marks_eventEffects, hmarks₂, hname]
  · rw [show (completeRun _ _ _).1 = _ from hreport]
    have hduration : guard''.durationTicks = duration := noteAll_durationTicks evs _ _
    rw [hduration]
    exact verdict_verdictEvents cfg hlast hafter rc w.env.persist duration scratch

/-- **A run follows the grammar** when its function does. -/
theorem run_stream {cfg : BlockCfg P} {box : ℕ} (hbox : cfg.blackbox = some box) {fn : GuardFn P}
    {body : Option CStr → ℕ → Span P → List (Mark P) → Bool → ℤ → Prop} (hfn : Streams fn body)
    (w : World P) : ∃ effs, (loxguardRun (some cfg) (some fn) w).2.trace = w.trace ++ effs ∧
      RunStream cfg box (body (some cfg.blockName) box cfg.output)
        (loxguardRun (some cfg) (some fn) w).1.result (marks effs) := by
  have hguard : (guardOf cfg (w.env.reading 0)).blackbox = some box := hbox
  have hentered : (w.entered cfg box).trace =
      w.trace ++ [.event box (enteredEvent (some cfg.blockName)) w.env.persist.head] := rfl
  rcases loxguardRun_cases hbox fn w with ⟨-, hrun⟩ | ⟨-, -, aux, adapters, breaker, hrun⟩ |
    ⟨-, -, adapters, breaker, hrun⟩
  · rw [hrun]
    obtain ⟨hresult, effs, duration, htrace, hmarks⟩ := refuseRun_stream hguard (.lit "QUARANTINED")
      ((entryStreak w.streaks (some cfg.blockName)).setWidth P.sizeBits)
      (cfg.maxFailures.setWidth P.sizeBits) 0 (w.entered cfg box)
    refine ⟨_, htrace.trans (by rw [hentered, List.append_assoc]), ?_⟩
    rw [marks_append, hmarks, hresult]
    exact .refused _ (Or.inl rfl) _ _ _ _
  · rw [hrun]
    obtain ⟨hresult, effs, duration, htrace, hmarks⟩ := refuseRun_stream hguard (.lit "BREAKER_OPEN")
      0 0 aux { w.entered cfg box with adapters, env := { (w.entered cfg box).env with breaker } }
    refine ⟨_, htrace.trans (by rw [hentered, List.append_assoc]), ?_⟩
    rw [marks_append, hmarks, hresult]
    exact .refused _ (Or.inr rfl) _ _ _ _
  · rw [hrun]
    let called : World P :=
      { w.entered cfg box with
        adapters
        env := { (w.entered cfg box).env with breaker }
        trace := (w.entered cfg box).trace ++ [.invoke (some cfg.blockName)] }
    obtain ⟨effs, own, htrace, hbody, hafter⟩ := hfn (guardOf cfg (w.env.reading 0)) called box hguard
    obtain ⟨effs', duration, verdict, htrace', hmarks, hverdict⟩ := finishRun_stream cfg hguard rfl hafter
      (fn (guardOf cfg (w.env.reading 0)) called).1 (fn (guardOf cfg (w.env.reading 0)) called).2.2
    let start : List (Effect P) :=
      [.event box (enteredEvent (some cfg.blockName)) w.env.persist.head, .invoke (some cfg.blockName)]
    refine ⟨start ++ (effs ++ effs'), ?_, ?_⟩
    · rw [htrace', htrace]
      simp [called, hentered, start]
    · rw [marks_append, marks_append, hmarks]
      have hran : RunStream cfg box _ _ _ := .ran hbody hverdict
      rw [List.append_assoc] at hran
      exact hran

theorem run_invokes {cfg : BlockCfg P} {box : ℕ} (hbox : cfg.blackbox = some box) {fn : GuardFn P}
    {body : Option CStr → ℕ → Span P → List (Mark P) → Bool → ℤ → Prop} (hfn : Streams fn body)
    (w : World P) (hq : ¬ cfg.QuarantinedAt (entryStreak w.streaks (some cfg.blockName)))
    (hclosed : ¬ w.env.BreakerOpen) : ∃ effs, (loxguardRun (some cfg) (some fn) w).2.trace =
      w.trace ++ (.event box (enteredEvent (some cfg.blockName)) w.env.persist.head ::
        .invoke (some cfg.blockName) :: effs) := by
  have hguard : (guardOf cfg (w.env.reading 0)).blackbox = some box := hbox
  rcases loxguardRun_cases hbox fn w with ⟨h, -⟩ | ⟨-, h, -⟩ | ⟨-, -, adapters, breaker, hrun⟩
  · exact absurd h hq
  · exact absurd h hclosed
  · let called : World P :=
      { w.entered cfg box with
        adapters
        env := { (w.entered cfg box).env with breaker }
        trace := (w.entered cfg box).trace ++ [.invoke (some cfg.blockName)] }
    obtain ⟨effs, own, htrace, -, hafter⟩ := hfn (guardOf cfg (w.env.reading 0)) called box hguard
    obtain ⟨effs', duration, verdict, htrace', -⟩ := finishRun_stream cfg hguard rfl hafter
      (fn (guardOf cfg (w.env.reading 0)) called).1 (fn (guardOf cfg (w.env.reading 0)) called).2.2
    have hentered : (w.entered cfg box).trace =
        w.trace ++ [.event box (enteredEvent (some cfg.blockName)) w.env.persist.head] := rfl
    refine ⟨effs ++ effs', ?_⟩
    rw [hrun, htrace', htrace]
    simp [called, hentered]

theorem nested_stream (cfg : Option (BlockCfg P)) {fn : GuardFn P}
    {body : Option CStr → ℕ → Span P → List (Mark P) → Bool → ℤ → Prop} (hfn : Streams fn body)
    (w : World P) : ∃ effs, (loxguardRun cfg (some fn) w).2.trace = w.trace ++ effs ∧
      NestedStream cfg body (loxguardRun cfg (some fn) w).1.result (marks effs) := by
  cases cfg with
  | none => exact ⟨[], (List.append_nil _).symm, rfl⟩
  | some cfg =>
    cases hbox : cfg.blackbox with
    | none =>
      refine ⟨[], by rw [loxguardRun_of_null hbox, List.append_nil], ?_⟩
      simp only [NestedStream, hbox]
      rfl
    | some box =>
      obtain ⟨effs, htrace, hstream⟩ := run_stream hbox hfn w
      refine ⟨effs, htrace, ?_⟩
      simpa only [NestedStream, hbox] using hstream

/-- **Guarded functions follow the grammar**: by induction on the script. -/
theorem exec_stream : ∀ s : Script P, Streams s.exec s.Stream
  | .ret rc, ctx, w, box, h =>
    ⟨[], false, (List.append_nil _).symm, ⟨rfl, rfl, rfl⟩, ⟨rfl, rfl, rfl, rfl, rfl⟩⟩
  | .write index value next, ctx, w, box, h => by
    by_cases hr : ctx.output.Rejects index
    · obtain ⟨effs, own, htrace, hstream, hafter⟩ := exec_stream (next (ctx.output.writeRc index))
        (ctx.note (boundsEvent ctx.blockName index ctx.output.len) w.env.persist.head)
        (w.emit box (boundsEvent ctx.blockName index ctx.output.len)) box h
      simp only [Script.exec, checkedOutputWriteU8_rejected h hr]
      refine ⟨_, true, htrace.trans (List.append_assoc ..), ?_, hafter.of_bounds⟩
      rw [Script.Stream, if_pos hr]
      exact ⟨marks effs, own, rfl, rfl, hstream⟩
    · obtain ⟨mem, hwrite⟩ := checkedOutputWriteU8_other hr value w
      obtain ⟨effs, own, htrace, hstream, hafter⟩ := exec_stream (next (ctx.output.writeRc index))
        ctx { w with mem } box h
      simp only [Script.exec, hwrite]
      refine ⟨effs, own, htrace, ?_, hafter⟩
      rwa [Script.Stream, if_neg hr]
  | .emitBounds index limit next, ctx, w, box, h => by
    obtain ⟨effs, own, htrace, hstream, hafter⟩ := exec_stream next
      (ctx.note (boundsEvent ctx.blockName index limit) w.env.persist.head)
      (w.emit box (boundsEvent ctx.blockName index limit)) box h
    simp only [Script.exec, guardEmitBounds_eq h]
    exact ⟨_, true, htrace.trans (List.append_assoc ..), ⟨marks effs, own, rfl, rfl, hstream⟩,
      hafter.of_bounds⟩
  | .run cfg fn next, ctx, w, box, h => by
    obtain ⟨effs₁, htrace₁, hnested⟩ := nested_stream cfg (exec_stream fn) w
    obtain ⟨effs₂, own, htrace₂, hstream, hafter⟩ := exec_stream
      (next (loxguardRun cfg (some fn.exec) w).1) ctx (loxguardRun cfg (some fn.exec) w).2 box h
    refine ⟨effs₁ ++ effs₂, own, ?_, ?_, hafter⟩
    · rw [← List.append_assoc, ← htrace₁]
      exact htrace₂
    · rw [marks_append]
      exact ⟨_, _, _, rfl, hnested, hstream⟩

/-! ### What the grammar says -/

/-- The events among marks. -/
def markedEvents (ms : List (Mark P)) : List (ExtEvent P) :=
  ms.filterMap fun
    | .stored _ ev => some ev
    | .invoked _ => none

/-- The block whose bracket an event opens. -/
def opens (ev : ExtEvent P) : Option (Option CStr) :=
  if ev.kind = .blockEntered then some ev.blockName else none

/-- The block whose bracket an event closes. -/
def closes (ev : ExtEvent P) : Option (Option CStr) :=
  if ev.kind = .blockCompleted then some ev.blockName else none

/-- `ENTERED` and `COMPLETED` are well bracketed, block by block. -/
def WellBracketed (evs : List (ExtEvent P)) : Prop := Bracket.Balanced opens closes evs

theorem markedEvents_append (ms ms' : List (Mark P)) :
    markedEvents (ms ++ ms') = markedEvents ms ++ markedEvents ms' :=
  List.filterMap_append

theorem markedEvents_stored (box : ℕ) (evs : List (ExtEvent P)) :
    markedEvents (evs.map (Mark.stored box)) = evs := by
  rw [markedEvents, List.filterMap_map]
  exact List.filterMap_some

theorem markedEvents_marks (effs : List (Effect P)) : markedEvents (marks effs) = storedEvents effs := by
  rw [markedEvents, marks, List.filterMap_filterMap, storedEvents]
  apply List.filterMap_congr
  intro eff _
  cases eff <;> rfl

theorem WellBracketed.cons {ev : ExtEvent P} {evs : List (ExtEvent P)} (ho : ev.kind ≠ .blockEntered)
    (hc : ev.kind ≠ .blockCompleted) (h : WellBracketed evs) : WellBracketed (ev :: evs) :=
  .plain (if_neg ho) (if_neg hc) h

theorem WellBracketed.run {block : Option CStr} {evs : List (ExtEvent P)} (h : WellBracketed evs)
    (duration : BitVec 32) :
    WellBracketed (enteredEvent block :: (evs ++ [completedEvent block duration])) :=
  Bracket.Balanced.wrap (k := block) rfl rfl h

theorem Verdict.wellBracketed {cfg : BlockCfg P} {block : Option CStr} {duration : BitVec 32} {rc : ℤ}
    {own : Bool} {result : Result} {evs : List (ExtEvent P)}
    (h : Verdict cfg block duration rc own result evs) : WellBracketed evs := by
  cases h with
  | timeout h => exact .cons nofun nofun .nil
  | ok h => exact .cons nofun nofun .nil
  | error h hrc => exact .cons nofun nofun .nil
  | incident h hrc => exact .nil

theorem markedEvents_ran (box : ℕ) (block : Option CStr) (ms : List (Mark P))
    (verdict : List (ExtEvent P)) (duration : BitVec 32) :
    markedEvents (.stored box (enteredEvent block) :: .invoked block ::
        (ms ++ verdict.map (.stored box) ++ [.stored box (completedEvent block duration)])) =
      enteredEvent block :: (markedEvents ms ++ verdict ++ [completedEvent block duration]) := by
  conv_rhs => rw [← markedEvents_stored box verdict, ← markedEvents_append]
  exact congrArg (enteredEvent block :: ·) (markedEvents_append _ _)

theorem RunStream.wellBracketed {cfg : BlockCfg P} {box : ℕ} {body : List (Mark P) → Bool → ℤ → Prop}
    (hbody : ∀ ms own rc, body ms own rc → WellBracketed (markedEvents ms)) {result : Result}
    {ms : List (Mark P)} (h : RunStream cfg box body result ms) : WellBracketed (markedEvents ms) := by
  cases h with
  | refused reason hreason index limit aux duration =>
    have hrefusal : WellBracketed
        [⟨.blockError, some cfg.blockName, some reason, index, limit, aux⟩] :=
      .cons nofun nofun .nil
    exact hrefusal.run duration
  | ran hran hverdict =>
    rename_i ms own rc duration verdict
    have hinner := (hbody _ _ _ hran).append hverdict.wellBracketed
    rw [markedEvents_ran]
    exact WellBracketed.run hinner duration

theorem Script.Stream.wellBracketed : ∀ (s : Script P) {block : Option CStr} {box : ℕ} {output : Span P}
    {ms : List (Mark P)} {own : Bool} {rc : ℤ}, s.Stream block box output ms own rc →
    WellBracketed (markedEvents ms)
  | .ret _, _, _, _, _, _, _, ⟨hms, _, _⟩ => by
    rw [hms]
    exact .nil
  | .write index value next, block, box, output, ms, own, rc, h => by
    rw [Script.Stream] at h
    split at h
    · obtain ⟨ms', own', rfl, -, h⟩ := h
      exact .cons nofun nofun (Script.Stream.wellBracketed _ h)
    · exact Script.Stream.wellBracketed _ h
  | .emitBounds index limit next, block, box, output, ms, own, rc, h => by
    obtain ⟨ms', own', rfl, -, h⟩ := h
    exact .cons nofun nofun (Script.Stream.wellBracketed _ h)
  | .run cfg fn next, block, box, output, ms, own, rc, h => by
    obtain ⟨ms₁, ms₂, report, rfl, hnested, h⟩ := h
    rw [markedEvents_append]
    refine Bracket.Balanced.append ?_ (Script.Stream.wellBracketed _ h)
    unfold NestedStream at hnested
    split at hnested
    · rw [hnested]
      exact .nil
    · split at hnested
      · rw [hnested]
        exact .nil
      · exact hnested.wellBracketed fun ms own rc => Script.Stream.wellBracketed fn

/-- Incidents of its own leave a failure of the block among the marks. -/
theorem Script.Stream.own_failure : ∀ (s : Script P) {block : Option CStr} {box : ℕ} {output : Span P}
    {ms : List (Mark P)} {own : Bool} {rc : ℤ}, s.Stream block box output ms own rc → own = true →
    ∃ ev ∈ markedEvents ms, ev.kind.isFailure = true ∧ ev.blockName = block
  | .ret _, _, _, _, _, _, _, ⟨_, hown, _⟩, h => by
    rw [hown] at h
    cases h
  | .write index value next, block, box, output, ms, own, rc, h, hown => by
    rw [Script.Stream] at h
    split at h
    · obtain ⟨ms', own', rfl, -, h⟩ := h
      exact ⟨_, List.mem_cons_self, rfl, rfl⟩
    · exact Script.Stream.own_failure _ h hown
  | .emitBounds index limit next, block, box, output, ms, own, rc, h, hown => by
    obtain ⟨ms', own', rfl, -, h⟩ := h
    exact ⟨_, List.mem_cons_self, rfl, rfl⟩
  | .run cfg fn next, block, box, output, ms, own, rc, h, hown => by
    obtain ⟨ms₁, ms₂, report, rfl, -, h⟩ := h
    obtain ⟨ev, hmem, hev⟩ := Script.Stream.own_failure _ h hown
    rw [markedEvents_append]
    exact ⟨ev, List.mem_append_right _ hmem, hev⟩

/-- A run that is not `OK` leaves a failure of its block between its
brackets. -/
theorem RunStream.failure_inside {cfg : BlockCfg P} {box : ℕ}
    {body : List (Mark P) → Bool → ℤ → Prop}
    (hbody : ∀ ms rc, body ms true rc →
      ∃ ev ∈ markedEvents ms, ev.kind.isFailure = true ∧ ev.blockName = some cfg.blockName)
    {result : Result} {ms : List (Mark P)} (h : RunStream cfg box body result ms)
    (hresult : result ≠ .ok) : ∃ inner duration, markedEvents ms =
      enteredEvent (some cfg.blockName) :: (inner ++ [completedEvent (some cfg.blockName) duration]) ∧
      ∃ ev ∈ inner, ev.kind.isFailure = true ∧ ev.blockName = some cfg.blockName := by
  cases h with
  | refused reason hreason index limit aux duration =>
    exact ⟨[_], duration, rfl, _, List.mem_singleton_self _, rfl, rfl⟩
  | ran hran hverdict =>
    rename_i ms own rc duration verdict
    refine ⟨markedEvents ms ++ verdict, duration, markedEvents_ran .., ?_⟩
    cases hverdict with
    | timeout h => exact ⟨_, List.mem_append_right _ (List.mem_singleton_self _), rfl, rfl⟩
    | ok h => exact absurd rfl hresult
    | error h hrc => exact ⟨_, List.mem_append_right _ (List.mem_singleton_self _), rfl, rfl⟩
    | incident h hrc =>
      obtain ⟨ev, hmem, hev⟩ := hbody _ _ hran
      exact ⟨ev, List.mem_append_left _ hmem, hev⟩

/-- **The lifecycle grammar.** Whatever a run's function does and whatever runs
it nests, the marks of the run follow the grammar, its events are well
bracketed, and if it is not `OK` there is a failure of its block between its
`ENTERED` and its `COMPLETED`. -/
theorem lifecycle_grammar (cfg : BlockCfg P) (box : ℕ) (hbox : cfg.blackbox = some box)
    (fn : Script P) (w : World P) : ∃ effs,
      (loxguardRun (some cfg) (some fn.exec) w).2.trace = w.trace ++ effs ∧
      RunStream cfg box (fn.Stream (some cfg.blockName) box cfg.output)
        (loxguardRun (some cfg) (some fn.exec) w).1.result (marks effs) ∧
      WellBracketed (storedEvents effs) ∧
      ((loxguardRun (some cfg) (some fn.exec) w).1.result ≠ .ok → ∃ inner duration,
        storedEvents effs = enteredEvent (some cfg.blockName) ::
          (inner ++ [completedEvent (some cfg.blockName) duration]) ∧
        ∃ ev ∈ inner, ev.kind.isFailure = true ∧ ev.blockName = some cfg.blockName) := by
  obtain ⟨effs, htrace, hstream⟩ := run_stream hbox (exec_stream fn) w
  refine ⟨effs, htrace, hstream, ?_, fun hresult => ?_⟩
  · rw [← markedEvents_marks]
    exact hstream.wellBracketed fun _ _ _ => Script.Stream.wellBracketed fn
  · rw [← markedEvents_marks]
    exact hstream.failure_inside (fun _ _ h => Script.Stream.own_failure fn h rfl) hresult

theorem lifecycle_grammar_nested :
    let inner : Script .host := .write 17 0xAB fun rc => .ret rc
    let fn : Script .host := .emitBounds 0 0 (.run (some (.plain (.lit "c") 1)) inner fun _ => .ret (-1))
    let cfg : BlockCfg .host := .plain (.lit "b") 1
    ∃ effs, (loxguardRun (some cfg) (some fn.exec) (World.start .quiet)).2.trace = [] ++ effs ∧
      RunStream cfg 1 (fn.Stream (some cfg.blockName) 1 cfg.output)
        (loxguardRun (some cfg) (some fn.exec) (World.start .quiet)).1.result (marks effs) ∧
      WellBracketed (storedEvents effs) ∧
      ((loxguardRun (some cfg) (some fn.exec) (World.start .quiet)).1.result ≠ .ok → ∃ inner duration,
        storedEvents effs = enteredEvent (some cfg.blockName) ::
          (inner ++ [completedEvent (some cfg.blockName) duration]) ∧
        ∃ ev ∈ inner, ev.kind.isFailure = true ∧ ev.blockName = some cfg.blockName) :=
  lifecycle_grammar (.plain (.lit "b") 1) 1 rfl
    (.emitBounds 0 0 (.run (some (.plain (.lit "c") 1)) (.write 17 0xAB fun rc => .ret rc)
      fun _ => .ret (-1))) (World.start .quiet)

end Loxguard
