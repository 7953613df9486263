/-
# What the steps of a run do

Each part of a run as an equation: an event stored (`emitEventEx_eq`), a
checked write (`checkedOutputWriteU8_rejected`, `checkedOutputWriteU8_other`), the
report (`finalizeReport_eq`), the end of a run (`completeRun_eq`), a refusal
(`refuseRun_eq`), the verdict (`finishRun_eq`), and the decision between a
refusal and the call of the guarded function (`loxguardRun_cases`). What comes
later never unfolds the run again.

A world is followed through `World.emit`, the world after an event was stored;
the block states and the memory are carried along without being looked at.

Key definitions: `World.emit`, `GuardCtx.note`, `Env.reading`, `reportOf`,
`verdictEvents`.
Key theorems: `emitEventEx_eq`, `completeRun_eq`, `refuseRun_eq`,
`finishRun_eq`, `loxguardRun_cases`.
-/
import Loxguard.Run

namespace Loxguard

open Lib

variable {P : Platform}

/-! ### Storing an event -/

/-- The world after an event went to the blackbox at `box`. -/
def World.emit (w : World P) (box : ℕ) (ev : ExtEvent P) : World P where
  streaks := observe ev.blockName w.streaks ev.kind
  adapters :=
    let streaks := observe ev.blockName w.streaks ev.kind
    healthAfter (watchdogObserveEvent w.adapters ev) ev.blockName ev.kind
      (streaks.read (failureStreakForBlock w.streaks ev.blockName).2)
  mem := w.mem
  blackboxes := Function.update w.blackboxes box (blackboxStore (w.blackboxes box) (.ofExt ev))
  env := { w.env with persist := w.env.persist.tail }
  trace := w.trace ++ [.event box ev w.env.persist.head]

section Emit

variable (w : World P) (box : ℕ) (ev : ExtEvent P)

@[simp] theorem emit_streaks : (w.emit box ev).streaks = observe ev.blockName w.streaks ev.kind := rfl

@[simp] theorem emit_trace :
    (w.emit box ev).trace = w.trace ++ [.event box ev w.env.persist.head] := rfl

@[simp] theorem emit_env : (w.emit box ev).env = { w.env with persist := w.env.persist.tail } := rfl

end Emit

/-- The context after an event was stored and tracked. -/
def GuardCtx.note (ctx : GuardCtx P) (ev : ExtEvent P) (persistRc : ℤ) : GuardCtx P :=
  { ctx with lastEvent := ev, lastEventPersisted := if persistRc = ok then 1 else 0 }

/-- **Storing an event**, tracked as the last one. -/
theorem emitEventEx_eq {ctx : GuardCtx P} {box : ℕ} (h : ctx.blackbox = some box) (kind : EventKind)
    (reason : CStr) (index limit : P.Size) (auxCode : BitVec 32) (w : World P) :
    let ev : ExtEvent P := ⟨kind, ctx.blockName, some reason, index, limit, auxCode⟩
    emitEventEx ctx kind reason index limit auxCode true w =
      (ok, ctx.note ev w.env.persist.head, w.emit box ev) := by
  cases ctx
  subst h
  rfl

theorem emitEventEx_untracked {ctx : GuardCtx P} {box : ℕ} (h : ctx.blackbox = some box)
    (kind : EventKind) (reason : CStr) (index limit : P.Size) (auxCode : BitVec 32) (w : World P) :
    emitEventEx ctx kind reason index limit auxCode false w =
      (ok, ctx, w.emit box ⟨kind, ctx.blockName, some reason, index, limit, auxCode⟩) := by
  cases ctx
  subst h
  rfl

/-! ### Incidents -/

/-- The event of a bounds incident. -/
def boundsEvent (blockName : Option CStr) (index limit : P.Size) : ExtEvent P :=
  ⟨.blockWriteOutOfBounds, blockName, some (.lit "BOUNDS"), index, limit, 0⟩

theorem guardEmitBounds_eq {ctx : GuardCtx P} {box : ℕ} (h : ctx.blackbox = some box)
    (index limit : P.Size) (w : World P) :
    guardEmitBounds ctx index limit w =
      (ctx.note (boundsEvent ctx.blockName index limit) w.env.persist.head,
        w.emit box (boundsEvent ctx.blockName index limit)) := by
  rw [guardEmitBounds, emitEventEx_eq h]
  rfl

/-- A checked write past the end of the output is an incident. -/
theorem checkedOutputWriteU8_rejected {ctx : GuardCtx P} {box : ℕ} (h : ctx.blackbox = some box)
    {index : P.Size} (hr : ctx.output.Rejects index) (value : UInt8) (w : World P) :
    checkedOutputWriteU8 ctx index value w =
      (ctx.output.writeRc index,
        ctx.note (boundsEvent ctx.blockName index ctx.output.len) w.env.persist.head,
        w.emit box (boundsEvent ctx.blockName index ctx.output.len)) := by
  have hrc := (writeRc_eq_bounds_iff _ _).mpr hr
  simp only [checkedOutputWriteU8, spanWriteU8_rejected _ hr, if_pos, hrc, guardEmitBounds_eq h]

theorem checkedOutputWriteU8_other {ctx : GuardCtx P} {index : P.Size}
    (hr : ¬ ctx.output.Rejects index) (value : UInt8) (w : World P) :
    ∃ mem, checkedOutputWriteU8 ctx index value w =
      (ctx.output.writeRc index, ctx, { w with mem }) := by
  have hrc : (spanWriteU8 w.mem (some ctx.output) index value).1 ≠ errBounds := by
    rw [spanWriteU8_rc]
    exact fun he => hr ((writeRc_eq_bounds_iff _ _).mp he)
  refine ⟨(spanWriteU8 w.mem (some ctx.output) index value).2, ?_⟩
  rw [← spanWriteU8_rc w.mem ctx.output index value]
  exact if_neg hrc

/-! ### The clock -/

/-- The clock readings to come: all 0 without a time function. -/
def Env.reading (env : Env) (n : ℕ) : BitVec 32 :=
  match env.timeNow with
  | none => 0
  | some readings => readings.get n

/-- The environment after a clock reading. -/
def Env.tick (env : Env) : Env := { env with timeNow := env.timeNow.map Stream'.tail }

@[simp] theorem reading_tick (env : Env) (n : ℕ) : env.tick.reading n = env.reading (n + 1) := by
  unfold Env.reading Env.tick
  cases env.timeNow <;> rfl

theorem nowMs_eq (w : World P) : nowMs w = (w.env.reading 0, { w with env := w.env.tick }) := by
  unfold nowMs Env.reading Env.tick
  cases h : w.env.timeNow with
  | none =>
    have henv : w.env = { w.env with timeNow := none } := by rw [← h]
    rw [Option.map_none, ← henv]
  | some readings => rfl

/-! ### The report -/

/-- The report on a context and a return code. -/
def reportOf (ctx : GuardCtx P) (rc : ℤ) : Report where
  lastBlock := ctx.blockName
  lastFailedBlock := if rc ≠ ok then ctx.blockName else none
  reason := some (if rc ≠ ok then ctx.lastEvent.reason.getD (.lit "ERROR") else .lit "NONE")
  result := if rc ≠ ok then resultOfKind ctx.lastEvent.kind else .ok
  action := if rc ≠ ok then policyDecide (some ctx.lastEvent) else .none
  durationTicks := ctx.durationTicks
  eventPersisted := ctx.lastEventPersisted

/-- The calls of the recovery callback. -/
def recoveryEffects (env : Env) (ctx : GuardCtx P) (rc : ℤ) : List (Effect P) :=
  if rc ≠ ok ∧ env.recoveryCb then [.recovery ctx.lastEvent (policyDecide (some ctx.lastEvent))] else []

theorem finalizeReport_eq (ctx : GuardCtx P) (rc : ℤ) (w : World P) :
    finalizeReport ctx rc w =
      (reportOf ctx rc, { w with trace := w.trace ++ recoveryEffects w.env ctx rc }) := by
  unfold finalizeReport reportOf recoveryEffects invokeRecovery
  by_cases hrc : rc ≠ ok
  · cases w.env.recoveryCb <;> simp [hrc]
  · simp [hrc]

/-- The event at the end of a run. -/
def completedEvent (blockName : Option CStr) (duration : BitVec 32) : ExtEvent P :=
  ⟨.blockCompleted, blockName, some (.lit "COMPLETED"), duration.setWidth P.sizeBits, 0, 0⟩

/-- **The end of a run.** -/
theorem completeRun_eq {guard : GuardCtx P} {box : ℕ} (h : guard.blackbox = some box) (rc : ℤ)
    (w : World P) :
    let w' := w.emit box (completedEvent guard.blockName guard.durationTicks)
    completeRun guard rc w =
      (reportOf guard rc, { w' with trace := w'.trace ++ recoveryEffects w.env guard rc }) := by
  simp only [completeRun, emitEventEx_untracked h, finalizeReport_eq]
  rfl

/-! ### A refusal -/

/-- **A refused run**: the reason, `COMPLETED`, the report. -/
theorem refuseRun_eq {guard : GuardCtx P} {box : ℕ} (h : guard.blackbox = some box) (reason : CStr)
    (index limit : P.Size) (auxCode : BitVec 32) (w : World P) :
    let ev : ExtEvent P := ⟨.blockError, guard.blockName, some reason, index, limit, auxCode⟩
    refuseRun guard reason index limit auxCode w =
      completeRun { guard.note ev w.env.persist.head with
          durationTicks := w.env.reading 0 - guard.startTicks } errUnsupported
        { w.emit box ev with env := (w.emit box ev).env.tick } := by
  simp only [refuseRun, emitEventEx_eq h, stopClock, nowMs_eq]
  rfl

/-! ### The verdict -/

/-- The return code a run goes on with. -/
def verdictRc (cfg : BlockCfg P) (rc : ℤ) (duration : BitVec 32) : ℤ :=
  if cfg.TimedOut duration then errTimeout else rc

/-- The event of the verdict, if there is one. -/
def verdictEvents (cfg : BlockCfg P) (blockName : Option CStr) (rc : ℤ) (lastKind : EventKind)
    (duration : BitVec 32) : List (ExtEvent P) :=
  if cfg.TimedOut duration then
    [⟨.blockTimeout, blockName, some (.lit "TIMEOUT"), duration.setWidth P.sizeBits,
      cfg.timeoutMs.setWidth P.sizeBits, 0⟩]
  else if rc = ok then [⟨.blockOk, blockName, some (.lit "OK"), 0, 0, 0⟩]
  else if lastKind = .none then [⟨.blockError, blockName, some (.lit "ERROR"), 0, 0, 0⟩]
  else []

theorem verdictEvents_blockName (cfg : BlockCfg P) (blockName : Option CStr) (rc : ℤ)
    (lastKind : EventKind) (duration : BitVec 32) :
    ∀ ev ∈ verdictEvents cfg blockName rc lastKind duration, ev.blockName = blockName := by
  unfold verdictEvents
  split
  · simp
  · split
    · simp
    · split <;> simp

/-- The world after events went to a blackbox one after the other. -/
def World.emitAll (w : World P) (box : ℕ) (evs : List (ExtEvent P)) : World P :=
  evs.foldl (fun w ev => w.emit box ev) w

/-- The context after events were stored and tracked, with the outcomes of
their persistence. -/
def GuardCtx.noteAll (ctx : GuardCtx P) (persist : Stream' ℤ) : List (ExtEvent P) → GuardCtx P
  | [] => ctx
  | ev :: evs => (ctx.note ev persist.head).noteAll persist.tail evs

/-- Events stored one after the other, with the outcomes of their
persistence. -/
def eventEffects (box : ℕ) : List (ExtEvent P) → Stream' ℤ → List (Effect P)
  | [], _ => []
  | ev :: evs, persist => .event box ev persist.head :: eventEffects box evs persist.tail

theorem emitAll_trace (box : ℕ) (evs : List (ExtEvent P)) (w : World P) :
    (w.emitAll box evs).trace = w.trace ++ eventEffects box evs w.env.persist := by
  induction evs generalizing w with
  | nil => exact (List.append_nil _).symm
  | cons ev evs ih =>
    calc ((w.emit box ev).emitAll box evs).trace
        = (w.emit box ev).trace ++ eventEffects box evs w.env.persist.tail := ih (w.emit box ev)
      _ = w.trace ++ (.event box ev w.env.persist.head :: eventEffects box evs w.env.persist.tail) := by
          rw [emit_trace, List.append_assoc, List.singleton_append]

theorem emitAll_env (box : ℕ) (evs : List (ExtEvent P)) (w : World P) :
    (w.emitAll box evs).env = { w.env with persist := w.env.persist.drop evs.length } := by
  induction evs generalizing w with
  | nil => rfl
  | cons ev evs ih => exact ih (w.emit box ev)

/-- The breaker's answer changes nothing but the answers to come. -/
theorem nextAnswer_eq (w : World P) :
    ∃ breaker, (nextAnswer w).2 = { w with env := { w.env with breaker } } := by
  unfold nextAnswer
  cases w.env.breaker with
  | none => exact ⟨w.env.breaker, rfl⟩
  | some answers => exact ⟨some answers.tail, rfl⟩

theorem nextAnswer_none {w : World P} (h : w.env.breaker = none) : nextAnswer w = (none, w) := by
  rw [nextAnswer, h]

/-- **The verdict** on a run. -/
theorem emitVerdict_eq (cfg : BlockCfg P) (rc : ℤ) {guard : GuardCtx P} {box : ℕ}
    (h : guard.blackbox = some box) (w : World P) :
    let evs := verdictEvents cfg guard.blockName rc guard.lastEvent.kind guard.durationTicks
    emitVerdict cfg rc guard w = (verdictRc cfg rc guard.durationTicks,
      guard.noteAll w.env.persist evs, w.emitAll box evs) := by
  simp only [emitVerdict, verdictEvents, verdictRc, emitEventEx_eq h]
  by_cases hto : cfg.TimedOut guard.durationTicks
  · simp only [if_pos hto]
    rfl
  by_cases hok : rc = ok
  · simp only [if_neg hto, if_pos hok]
    rfl
  by_cases hlast : guard.lastEvent.kind = .none
  · simp only [if_neg hto, if_neg hok, if_pos hlast]
    rfl
  · simp only [if_neg hto, if_neg hok, if_neg hlast]
    rfl

section NoteAll

variable (evs : List (ExtEvent P)) (ctx : GuardCtx P) (persist : Stream' ℤ)

/-- Storing events changes what is tracked and nothing else. -/
theorem noteAll_frame : ctx.noteAll persist evs =
    { ctx with
      lastEvent := (ctx.noteAll persist evs).lastEvent
      lastEventPersisted := (ctx.noteAll persist evs).lastEventPersisted } := by
  induction evs generalizing ctx persist with
  | nil => rfl
  | cons ev evs ih => exact ih (ctx.note ev persist.head) persist.tail

@[simp] theorem noteAll_blackbox : (ctx.noteAll persist evs).blackbox = ctx.blackbox := by
  rw [noteAll_frame evs ctx persist]

@[simp] theorem noteAll_blockName : (ctx.noteAll persist evs).blockName = ctx.blockName := by
  rw [noteAll_frame evs ctx persist]

@[simp] theorem noteAll_startTicks : (ctx.noteAll persist evs).startTicks = ctx.startTicks := by
  rw [noteAll_frame evs ctx persist]

@[simp] theorem noteAll_durationTicks : (ctx.noteAll persist evs).durationTicks = ctx.durationTicks := by
  rw [noteAll_frame evs ctx persist]

end NoteAll

theorem finishRun_answer (cfg : BlockCfg P) {guard : GuardCtx P} {box : ℕ}
    (h : guard.blackbox = some box) (rc : ℤ) (w : World P) {duration : BitVec 32}
    {evs : List (ExtEvent P)} (hduration : w.env.reading 0 - guard.startTicks = duration)
    (hevs : verdictEvents cfg guard.blockName rc guard.lastEvent.kind duration = evs) :
    let guard' := GuardCtx.noteAll { guard with durationTicks := duration } w.env.persist evs
    let answer := nextAnswer (World.emitAll { w with env := w.env.tick } box evs)
    ∃ scratch, finishRun cfg rc guard w =
      completeRun { guard' with scratch } (verdictRc cfg rc duration)
        { answer.2 with
          adapters := recoveryReportResultForBlock answer.2.adapters guard'.blockName answer.1 } := by
  intro guard' answer
  subst hduration hevs
  let stopped : GuardCtx P := { guard with durationTicks := w.env.reading 0 - guard.startTicks }
  have hverdict := emitVerdict_eq cfg rc (show stopped.blackbox = some box from h)
    { w with env := w.env.tick }
  refine ⟨if !cfg.haveArena then none else guard'.scratch, ?_⟩
  have hfinish : finishRun cfg rc guard w =
      completeRun (if !cfg.haveArena then { guard' with scratch := none } else guard')
        (verdictRc cfg rc (w.env.reading 0 - guard.startTicks))
        { answer.2 with
          adapters := recoveryReportResultForBlock answer.2.adapters guard'.blockName answer.1 } := by
    simp only [finishRun, stopClock, nowMs_eq]
    rw [show emitVerdict cfg rc _ _ = _ from hverdict]
    rfl
  rw [hfinish]
  cases cfg.haveArena <;> rfl

/-- **The end of a run that was not refused.** Besides the verdict only the
block states, the breaker and the scratch arena change. -/
theorem finishRun_eq (cfg : BlockCfg P) {guard : GuardCtx P} {box : ℕ} (h : guard.blackbox = some box)
    (rc : ℤ) (w : World P) {duration : BitVec 32} {evs : List (ExtEvent P)}
    (hduration : w.env.reading 0 - guard.startTicks = duration)
    (hevs : verdictEvents cfg guard.blockName rc guard.lastEvent.kind duration = evs) :
    let guard' := GuardCtx.noteAll { guard with durationTicks := duration } w.env.persist evs
    let w' := World.emitAll { w with env := w.env.tick } box evs
    ∃ scratch adapters breaker, finishRun cfg rc guard w =
      completeRun { guard' with scratch } (verdictRc cfg rc duration)
        { w' with adapters, env := { w'.env with breaker } } := by
  intro guard' w'
  obtain ⟨scratch, hfinish⟩ := finishRun_answer cfg h rc w hduration hevs
  obtain ⟨breaker, hanswer⟩ := nextAnswer_eq w'
  refine ⟨scratch, recoveryReportResultForBlock w'.adapters guard'.blockName (nextAnswer w').1,
    breaker, ?_⟩
  rw [hfinish, hanswer]

theorem finishRun_default (cfg : BlockCfg P) {guard : GuardCtx P} {box : ℕ}
    (h : guard.blackbox = some box) (rc : ℤ) {w : World P} (hbreaker : w.env.breaker = none)
    {duration : BitVec 32} {evs : List (ExtEvent P)}
    (hduration : w.env.reading 0 - guard.startTicks = duration)
    (hevs : verdictEvents cfg guard.blockName rc guard.lastEvent.kind duration = evs) :
    let guard' := GuardCtx.noteAll { guard with durationTicks := duration } w.env.persist evs
    ∃ scratch, finishRun cfg rc guard w =
      completeRun { guard' with scratch } (verdictRc cfg rc duration)
        (World.emitAll { w with env := w.env.tick } box evs) := by
  intro guard'
  obtain ⟨scratch, hfinish⟩ := finishRun_answer cfg h rc w hduration hevs
  refine ⟨scratch, ?_⟩
  rw [hfinish, nextAnswer_none]
  · rfl
  · rw [emitAll_env]
    exact hbreaker

/-! ### The decision -/

/-- The event at the start of a run. -/
def enteredEvent (blockName : Option CStr) : ExtEvent P :=
  ⟨.blockEntered, blockName, some (.lit "ENTERED"), 0, 0, 0⟩

/-- The streak a run of the block compares with its limit. -/
def entryStreak (t : StreakTable) (blockName : Option CStr) : BitVec 32 :=
  streakOf (observe blockName t .blockEntered) blockName

/-- The world of a run when it is decided whether the function is called. -/
def World.entered (w : World P) (cfg : BlockCfg P) (box : ℕ) : World P :=
  let w' := World.emit { w with env := w.env.tick } box (enteredEvent (some cfg.blockName))
  { w' with streaks := (failureStreakForBlock w'.streaks (some cfg.blockName)).1 }

/-- The breaker refuses the attempt. -/
def Env.BreakerOpen (env : Env) : Prop :=
  ∃ answers, env.breaker = some answers ∧ answers.head.allowed = false

theorem attemptRun_default (cfg : BlockCfg P) (fn : GuardFn P) (guard : GuardCtx P) {w : World P}
    (h : w.env.breaker = none) :
    let r := fn guard { w with trace := w.trace ++ [.invoke guard.blockName] }
    attemptRun cfg fn guard w = finishRun cfg r.1 r.2.1 r.2.2 := by
  rw [attemptRun, nextAnswer_none h]
  rfl

/-- A run that is not quarantined: refused by the breaker, or the function is
called. -/
theorem attemptRun_cases (cfg : BlockCfg P) (fn : GuardFn P) (guard : GuardCtx P) (w : World P) :
    (w.env.BreakerOpen ∧ ∃ aux adapters breaker, attemptRun cfg fn guard w =
      refuseRun guard (.lit "BREAKER_OPEN") 0 0 aux
        { w with adapters, env := { w.env with breaker } }) ∨
    (¬ w.env.BreakerOpen ∧ ∃ adapters breaker,
      let r := fn guard
        { w with
          adapters
          env := { w.env with breaker }
          trace := w.trace ++ [.invoke guard.blockName] }
      attemptRun cfg fn guard w = finishRun cfg r.1 r.2.1 r.2.2) := by
  cases hb : w.env.breaker with
  | none =>
    right
    refine ⟨?_, w.adapters, w.env.breaker, attemptRun_default cfg fn guard hb⟩
    rintro ⟨answers, h, -⟩
    rw [hb] at h
    cases h
  | some answers =>
    have hnext : nextAnswer w =
        (some answers.head, { w with env := { w.env with breaker := some answers.tail } }) := by
      rw [nextAnswer, hb]
    let asked := (recoveryAllowAttemptForBlock w.adapters guard.blockName (some answers.head)).2
    cases hallow : answers.head.allowed with
    | false =>
      left
      refine ⟨⟨answers, hb, hallow⟩,
        BitVec.ofInt 32 (recoveryStateGetForBlock asked guard.blockName).1,
        (recoveryStateGetForBlock asked guard.blockName).2, some answers.tail, ?_⟩
      rw [attemptRun, hnext]
      simp only [recoveryAllowAttemptForBlock, hallow]
      rfl
    | true =>
      right
      refine ⟨?_, asked, some answers.tail, ?_⟩
      · rintro ⟨answers', h, hclosed⟩
        rw [hb, Option.some_inj] at h
        rw [← h, hallow] at hclosed
        cases hclosed
      · rw [attemptRun, hnext]
        simp only [recoveryAllowAttemptForBlock, hallow]
        rfl

/-- **A run** with a blackbox: `ENTERED`, and the decision. -/
theorem loxguardRun_eq {cfg : BlockCfg P} {box : ℕ} (hbox : cfg.blackbox = some box) (fn : GuardFn P)
    (w : World P) :
    let guard := guardOf cfg (w.env.reading 0)
    let streak := entryStreak w.streaks (some cfg.blockName)
    loxguardRun (some cfg) (some fn) w =
      if cfg.QuarantinedAt streak then
        refuseRun guard (.lit "QUARANTINED") (streak.setWidth P.sizeBits)
          (cfg.maxFailures.setWidth P.sizeBits) 0 (w.entered cfg box)
      else attemptRun cfg fn guard (w.entered cfg box) := by
  have hguard : (guardOf cfg (w.env.reading 0)).blackbox = some box := hbox
  have hnone : cfg.blackbox ≠ none := by rw [hbox]; simp
  simp only [loxguardRun, if_neg hnone, nowMs_eq, emitEventEx_untracked hguard]
  rfl

/-- A run without a blackbox does nothing. -/
theorem loxguardRun_of_null {cfg : BlockCfg P} (h : cfg.blackbox = none) (fn : GuardFn P) (w : World P) :
    loxguardRun (some cfg) (some fn) w = (nullReport, w) := by
  rw [loxguardRun, if_pos h]

/-- **The three ways of a run**: refused for too many failures, refused by the
breaker, or the function is called. -/
theorem loxguardRun_cases {cfg : BlockCfg P} {box : ℕ} (hbox : cfg.blackbox = some box)
    (fn : GuardFn P) (w : World P) :
    let X := some cfg.blockName
    let guard := guardOf cfg (w.env.reading 0)
    let streak := entryStreak w.streaks X
    (cfg.QuarantinedAt streak ∧ loxguardRun (some cfg) (some fn) w =
      refuseRun guard (.lit "QUARANTINED") (streak.setWidth P.sizeBits)
        (cfg.maxFailures.setWidth P.sizeBits) 0 (w.entered cfg box)) ∨
    (¬ cfg.QuarantinedAt streak ∧ w.env.BreakerOpen ∧ ∃ aux adapters breaker,
      loxguardRun (some cfg) (some fn) w =
        refuseRun guard (.lit "BREAKER_OPEN") 0 0 aux
          { w.entered cfg box with adapters, env := { (w.entered cfg box).env with breaker } }) ∨
    (¬ cfg.QuarantinedAt streak ∧ ¬ w.env.BreakerOpen ∧ ∃ adapters breaker,
      let r := fn guard
        { w.entered cfg box with
          adapters
          env := { (w.entered cfg box).env with breaker }
          trace := (w.entered cfg box).trace ++ [.invoke X] }
      loxguardRun (some cfg) (some fn) w = finishRun cfg r.1 r.2.1 r.2.2) := by
  intro X guard streak
  rw [loxguardRun_eq hbox fn w]
  by_cases hq : cfg.QuarantinedAt streak
  · exact Or.inl ⟨hq, if_pos hq⟩
  · right
    rw [if_neg hq]
    rcases attemptRun_cases cfg fn guard (w.entered cfg box) with h | h
    · exact Or.inl ⟨hq, h⟩
    · exact Or.inr ⟨hq, h⟩

end Loxguard
