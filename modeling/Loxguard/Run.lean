/-
# Guarded runs

`loxguard_run` and what it is made of. A run works on a guard context and on
the world: the failure streaks, the block states, the memory, the blackboxes
by address, and the environment that gives the clock readings, the outcomes of
`lox_adapter_persist_event`, the breaker's answers and whether a recovery
callback is installed. The trace lists what a run does that others can see.

A guarded function is any function of context and world; a `Script` is one
that makes checked writes, reports bounds incidents and starts nested runs,
each step free to depend on what the earlier ones returned.

Key definitions: `World`, `emitEventEx`, `checkedOutputWriteU8`,
`loxguardRun`, `Script.exec`, `Call`, `runAll`.
-/
import Loxguard.Adapters
import Loxguard.Arena
import Loxguard.Blackbox
import Loxguard.Streak
import Mathlib.Data.Stream.Init

namespace Loxguard

open Lib

variable {P : Platform}

/-! ### The records -/

/-- `loxguard_block_cfg_t`. The blackbox is given by its address, the scratch
memory by its own, 0 for null. -/
structure BlockCfg (P : Platform) where
  name : Option CStr
  timeoutMs : BitVec 32
  maxFailures : BitVec 32
  input : Span P
  output : Span P
  scratch : ℕ
  scratchLen : P.Size
  blackbox : Option ℕ
deriving DecidableEq

/-- `lox_guard_ctx_t`. -/
structure GuardCtx (P : Platform) where
  input : Span P
  output : Span P
  scratch : Option (Arena P)
  blockName : Option CStr
  lastEvent : ExtEvent P
  blackbox : Option ℕ
  startTicks : BitVec 32
  durationTicks : BitVec 32
  lastEventPersisted : ℤ
deriving DecidableEq

/-- What the outside gives: the readings of the time function, if there is
one, the outcomes of `lox_adapter_persist_event`, the breaker's answers, if it
is built in, and whether there is a recovery callback. -/
structure Env where
  timeNow : Option (Stream' (BitVec 32))
  persist : Stream' ℤ
  breaker : Option (Stream' BreakerAnswer)
  recoveryCb : Bool

/-- What a run does that can be seen from outside. -/
inductive Effect (P : Platform)
  /-- An event goes to `lox_blackbox_store` for the blackbox at `box`, and to
  `lox_adapter_persist_event`, which returns `persistRc`. -/
  | event (box : ℕ) (ev : ExtEvent P) (persistRc : ℤ)
  /-- The guarded function is called. -/
  | invoke (block : Option CStr)
  /-- The recovery callback is called. -/
  | recovery (ev : ExtEvent P) (action : Action)
deriving DecidableEq

/-- What runs read and write besides their locals. -/
structure World (P : Platform) where
  streaks : StreakTable
  adapters : BlockStates
  mem : Mem
  blackboxes : ℕ → Blackbox P
  env : Env
  trace : List (Effect P)

/-- A fresh process. -/
structure World.Fresh (w : World P) : Prop where
  streaks : w.streaks = .fresh
  adapters : w.adapters = .fresh
  trace : w.trace = []

/-- A fresh process with empty blackboxes and zeroed memory. -/
def World.start (env : Env) : World P :=
  ⟨.fresh, .fresh, fun _ => 0, fun _ => blackboxInit, env, []⟩

theorem World.start_fresh (env : Env) : (World.start env : World P).Fresh := ⟨rfl, rfl, rfl⟩

/-- No time function, persistence that succeeds, no breaker and no callback. -/
def Env.quiet : Env := ⟨none, Stream'.const ok, none, false⟩

/-! ### The environment -/

/-- `lox_adapter_now_ms`. -/
def nowMs (w : World P) : BitVec 32 × World P :=
  match w.env.timeNow with
  | none => (0, w)
  | some readings =>
    (readings.head, { w with env := { w.env with timeNow := some readings.tail } })

/-- The breaker's next answer. -/
def nextAnswer (w : World P) : Option BreakerAnswer × World P :=
  match w.env.breaker with
  | none => (none, w)
  | some answers =>
    (some answers.head, { w with env := { w.env with breaker := some answers.tail } })

/-- `lox_invoke_recovery`. -/
def invokeRecovery (event : ExtEvent P) (action : Action) (w : World P) : World P :=
  if w.env.recoveryCb then { w with trace := w.trace ++ [.recovery event action] } else w

/-! ### Events -/

/-- The health code an event sets, `none` where it sets none. -/
def EventKind.health : EventKind → Option ℤ
  | .blockEntered => some 1
  | .blockOk => some 0
  | .blockTimeout => some 2
  | .blockWriteOutOfBounds | .blockArenaOverflow | .blockMemoryFault | .blockPanic | .blockFault
  | .blockError => some 3
  | .blockUnsupported => some 4
  | .blockCompleted | .none => Option.none

/-- The block states after an event of a block whose streak it left at
`streak`. -/
def healthAfter (t : BlockStates) (blockName : Option CStr) (kind : EventKind) (streak : BitVec 32) :
    BlockStates :=
  let t := match kind.health with
    | some code => healthSetForBlock t blockName code
    | none => t
  if 5 ≤ streak then healthSetForBlock t blockName 5
  else if 3 ≤ streak then healthSetForBlock t blockName 4
  else t

/-- `lox_emit_event_ex`, with a context that is not null. -/
def emitEventEx (ctx : GuardCtx P) (kind : EventKind) (reason : CStr) (index limit : P.Size)
    (auxCode : BitVec 32) (trackAsLast : Bool) (w : World P) : ℤ × GuardCtx P × World P :=
  match ctx.blackbox with
  | none => (errNull, ctx, w)
  | some box =>
    let (streaks, failureStreak) := failureStreakForBlock w.streaks ctx.blockName
    let ev : ExtEvent P := ⟨kind, ctx.blockName, some reason, index, limit, auxCode⟩
    let blackboxes :=
      Function.update w.blackboxes box (blackboxStore (w.blackboxes box) (.ofExt ev))
    let persistRc := w.env.persist.head
    let env := { w.env with persist := w.env.persist.tail }
    let adapters := watchdogObserveEvent w.adapters ev
    let persisted := if persistRc = ok then 1 else 0
    let ctx :=
      if trackAsLast then { ctx with lastEvent := ev, lastEventPersisted := persisted } else ctx
    let streaks := streaks.write failureStreak (kind.nextStreak (streaks.read failureStreak))
    let adapters := healthAfter adapters ctx.blockName kind (streaks.read failureStreak)
    (ok, ctx,
      { w with
        streaks, adapters, blackboxes, env
        trace := w.trace ++ [.event box ev persistRc] })

/-- `lox_guard_emit_bounds`. -/
def guardEmitBounds (ctx : GuardCtx P) (index limit : P.Size) (w : World P) : GuardCtx P × World P :=
  (emitEventEx ctx .blockWriteOutOfBounds (.lit "BOUNDS") index limit 0 true w).2

/-- `lox_checked_output_write_u8`. -/
def checkedOutputWriteU8 (ctx : GuardCtx P) (index : P.Size) (value : UInt8) (w : World P) :
    ℤ × GuardCtx P × World P :=
  let (rc, mem) := spanWriteU8 w.mem (some ctx.output) index value
  let w := { w with mem }
  if rc = errBounds then (rc, guardEmitBounds ctx index ctx.output.len w) else (rc, ctx, w)

/-! ### The report -/

/-- `lox_policy_decide`. -/
def policyDecide : Option (ExtEvent P) → Action
  | none => .none
  | some event => if event.kind.isFailure then .dropInput else .none

/-- The result of a run that is not `OK`, by its last event. -/
def resultOfKind : EventKind → Result
  | .blockTimeout => .timeout
  | .blockWriteOutOfBounds => .bounds
  | .blockArenaOverflow => .arena
  | .blockMemoryFault => .memoryFault
  | .blockUnsupported => .unsupported
  | _ => .error

/-- `lox_finalize_report`. -/
def finalizeReport (ctx : GuardCtx P) (rc : ℤ) (w : World P) : Report × World P :=
  if rc ≠ ok then
    let action := policyDecide (some ctx.lastEvent)
    ({ lastBlock := ctx.blockName
       lastFailedBlock := ctx.blockName
       reason := some (ctx.lastEvent.reason.getD (.lit "ERROR"))
       result := resultOfKind ctx.lastEvent.kind
       action
       durationTicks := ctx.durationTicks
       eventPersisted := ctx.lastEventPersisted },
      invokeRecovery ctx.lastEvent action w)
  else
    ({ lastBlock := ctx.blockName
       lastFailedBlock := none
       reason := some (.lit "NONE")
       result := .ok
       action := .none
       durationTicks := ctx.durationTicks
       eventPersisted := ctx.lastEventPersisted }, w)

/-- The report of a run that lacks its configuration, blackbox or function. -/
def nullReport : Report :=
  ⟨none, none, some (.lit "NULL"), .error, .none, 0, 0⟩

/-! ### The run -/

/-- A `loxguard_fn_t` with its user context. -/
abbrev GuardFn (P : Platform) := GuardCtx P → World P → ℤ × GuardCtx P × World P

/-- A configuration of a block with 4 bytes of output, that stores into the
blackbox at 1. -/
def BlockCfg.plain (name : CStr) (maxFailures : BitVec 32) : BlockCfg P :=
  ⟨some name, 0, maxFailures, ⟨0, 0, 0⟩, spanWritable 1 4, 0, 0, some 1⟩

/-- The name a run goes by. -/
def BlockCfg.blockName (cfg : BlockCfg P) : CStr :=
  match cfg.name with
  | none => .lit "guard_block"
  | some name => if name.bytes = [] then .lit "guard_block" else name

/-- The limit on failures is set and the streak has reached it. -/
def BlockCfg.QuarantinedAt (cfg : BlockCfg P) (streak : BitVec 32) : Prop :=
  0 < cfg.maxFailures ∧ cfg.maxFailures ≤ streak

instance (cfg : BlockCfg P) (streak : BitVec 32) : Decidable (cfg.QuarantinedAt streak) :=
  inferInstanceAs (Decidable (_ ∧ _))

/-- The time limit is set and was passed. -/
def BlockCfg.TimedOut (cfg : BlockCfg P) (duration : BitVec 32) : Prop :=
  0 < cfg.timeoutMs ∧ cfg.timeoutMs < duration

instance (cfg : BlockCfg P) (duration : BitVec 32) : Decidable (cfg.TimedOut duration) :=
  inferInstanceAs (Decidable (_ ∧ _))

/-- `have_arena`. -/
def BlockCfg.haveArena (cfg : BlockCfg P) : Bool := cfg.scratch ≠ 0 ∧ 0 < cfg.scratchLen

/-- The guard context at the start of a run. -/
def guardOf (cfg : BlockCfg P) (startTicks : BitVec 32) : GuardCtx P where
  input := cfg.input
  output := cfg.output
  scratch := if cfg.haveArena then some (arenaInit cfg.scratch cfg.scratchLen) else none
  blockName := some cfg.blockName
  lastEvent := Event.zero P none
  blackbox := cfg.blackbox
  startTicks := startTicks
  durationTicks := 0
  lastEventPersisted := 0

/-- Read the clock and take the time since the start. -/
def stopClock (guard : GuardCtx P) (w : World P) : GuardCtx P × World P :=
  let (endTicks, w) := nowMs w
  ({ guard with durationTicks := endTicks - guard.startTicks }, w)

/-- The end of every run: `COMPLETED` and the report. -/
def completeRun (guard : GuardCtx P) (rc : ℤ) (w : World P) : Report × World P :=
  let (_, guard, w) := emitEventEx guard .blockCompleted (.lit "COMPLETED")
    (guard.durationTicks.setWidth P.sizeBits) 0 0 false w
  finalizeReport guard rc w

/-- A refused run, from the decision on. -/
def refuseRun (guard : GuardCtx P) (reason : CStr) (index limit : P.Size) (auxCode : BitVec 32)
    (w : World P) : Report × World P :=
  let (_, guard, w) := emitEventEx guard .blockError reason index limit auxCode true w
  let (guard, w) := stopClock guard w
  completeRun guard errUnsupported w

/-- The verdict on a run whose function returned `rc`. -/
def emitVerdict (cfg : BlockCfg P) (rc : ℤ) (guard : GuardCtx P) (w : World P) :
    ℤ × GuardCtx P × World P :=
  if cfg.TimedOut guard.durationTicks then
    (errTimeout, (emitEventEx guard .blockTimeout (.lit "TIMEOUT")
      (guard.durationTicks.setWidth P.sizeBits) (cfg.timeoutMs.setWidth P.sizeBits) 0 true w).2)
  else if rc = ok then (rc, (emitEventEx guard .blockOk (.lit "OK") 0 0 0 true w).2)
  else if guard.lastEvent.kind = .none then
    (rc, (emitEventEx guard .blockError (.lit "ERROR") 0 0 0 true w).2)
  else (rc, guard, w)

/-- A run from the return of its function on. -/
def finishRun (cfg : BlockCfg P) (rc : ℤ) (guard : GuardCtx P) (w : World P) : Report × World P :=
  let (guard, w) := stopClock guard w
  let (rc, guard, w) := emitVerdict cfg rc guard w
  let (answer, w) := nextAnswer w
  let w := { w with adapters := recoveryReportResultForBlock w.adapters guard.blockName answer }
  let guard := if !cfg.haveArena then { guard with scratch := none } else guard
  completeRun guard rc w

/-- A run that is not quarantined, from the question to the breaker on. -/
def attemptRun (cfg : BlockCfg P) (fn : GuardFn P) (guard : GuardCtx P) (w : World P) :
    Report × World P :=
  let (answer, w) := nextAnswer w
  let (allowed, adapters) := recoveryAllowAttemptForBlock w.adapters guard.blockName answer
  let w := { w with adapters }
  if !allowed then
    let (state, adapters) := recoveryStateGetForBlock w.adapters guard.blockName
    refuseRun guard (.lit "BREAKER_OPEN") 0 0 (BitVec.ofInt 32 state) { w with adapters }
  else
    let w := { w with trace := w.trace ++ [.invoke guard.blockName] }
    let (rc, guard, w) := fn guard w
    finishRun cfg rc guard w

/-- `loxguard_run`. -/
def loxguardRun (cfg : Option (BlockCfg P)) (fn : Option (GuardFn P)) (w : World P) :
    Report × World P :=
  match cfg, fn with
  | some cfg, some fn =>
    if cfg.blackbox = none then (nullReport, w)
    else
      let (startTicks, w) := nowMs w
      let guard := guardOf cfg startTicks
      let (_, guard, w) := emitEventEx guard .blockEntered (.lit "ENTERED") 0 0 0 false w
      let (streaks, failureStreak) := failureStreakForBlock w.streaks guard.blockName
      let w := { w with streaks }
      let streak := w.streaks.read failureStreak
      if cfg.QuarantinedAt streak then
        refuseRun guard (.lit "QUARANTINED") (streak.setWidth P.sizeBits)
          (cfg.maxFailures.setWidth P.sizeBits) 0 w
      else attemptRun cfg fn guard w
  | _, _ => (nullReport, w)

/-! ### Guarded functions -/

/-- What a guarded function does: checked writes, bounds incidents of its own
and nested runs, then a return code. -/
inductive Script (P : Platform)
  | ret (rc : ℤ)
  | write (index : P.Size) (value : UInt8) (next : ℤ → Script P)
  | emitBounds (index limit : P.Size) (next : Script P)
  | run (cfg : Option (BlockCfg P)) (fn : Script P) (next : Report → Script P)

/-- The function a script stands for. -/
def Script.exec : Script P → GuardFn P
  | .ret rc, ctx, w => (rc, ctx, w)
  | .write index value next, ctx, w =>
    let (rc, ctx, w) := checkedOutputWriteU8 ctx index value w
    (next rc).exec ctx w
  | .emitBounds index limit next, ctx, w =>
    let (ctx, w) := guardEmitBounds ctx index limit w
    next.exec ctx w
  | .run cfg fn next, ctx, w =>
    let (report, w) := loxguardRun cfg (some fn.exec) w
    (next report).exec ctx w

/-- A guarded function that starts no nested run. -/
inductive FlatScript (P : Platform)
  | ret (rc : ℤ)
  | write (index : P.Size) (value : UInt8) (next : ℤ → FlatScript P)
  | emitBounds (index limit : P.Size) (next : FlatScript P)

/-- The script it is. -/
def FlatScript.toScript : FlatScript P → Script P
  | .ret rc => .ret rc
  | .write index value next => .write index value fun rc => (next rc).toScript
  | .emitBounds index limit next => .emitBounds index limit next.toScript

/-- The bounds incidents of a function run with an output span, with their
limits. -/
def FlatScript.incidents (output : Span P) : FlatScript P → List (P.Size × P.Size)
  | .ret _ => []
  | .write index _ next =>
    (if output.Rejects index then [(index, output.len)] else []) ++
      (next (output.writeRc index)).incidents output
  | .emitBounds index limit next => (index, limit) :: next.incidents output

/-- What a function run with an output span returns. -/
def FlatScript.returned (output : Span P) : FlatScript P → ℤ
  | .ret rc => rc
  | .write index _ next => (next (output.writeRc index)).returned output
  | .emitBounds _ _ next => next.returned output

/-! ### Calls -/

/-- A call of `loxguard_run`, with the environment it meets. -/
structure Call (P : Platform) where
  cfg : BlockCfg P
  fn : Script P
  env : Env

namespace Call

/-- The name of the block. -/
def block (c : Call P) : CStr := c.cfg.blockName

/-- Make the call. -/
def exec (c : Call P) (w : World P) : Report × World P :=
  loxguardRun (some c.cfg) (some c.fn.exec) { w with env := c.env }

/-- What the call adds to the trace. -/
def effects (c : Call P) (w : World P) : List (Effect P) := (c.exec w).2.trace.drop w.trace.length

end Call

/-- A call of `loxguard_run` with no nested runs. -/
structure FlatCall (P : Platform) where
  cfg : BlockCfg P
  fn : FlatScript P
  env : Env

/-- The call it is. -/
def FlatCall.toCall (c : FlatCall P) : Call P := ⟨c.cfg, c.fn.toScript, c.env⟩

/-- The events among effects. -/
def storedEvents (effs : List (Effect P)) : List (ExtEvent P) :=
  effs.filterMap fun
    | .event _ ev _ => some ev
    | _ => none

/-- The guarded function was called. -/
def Invoked (effs : List (Effect P)) : Prop := ∃ block, Effect.invoke block ∈ effs

instance (effs : List (Effect P)) : Decidable (Invoked effs) :=
  decidable_of_iff (∃ eff ∈ effs, (match eff with | .invoke _ => true | _ => false) = true) <| by
    constructor
    · rintro ⟨eff, hmem, h⟩
      cases eff with
      | event box ev persistRc => cases h
      | invoke block => exact ⟨block, hmem⟩
      | recovery ev action => cases h
    · rintro ⟨block, hmem⟩
      exact ⟨_, hmem, rfl⟩

/-- An event of a refusal for too many failures was stored. -/
def Quarantined (effs : List (Effect P)) : Prop :=
  ∃ ev ∈ storedEvents effs, ev.kind = .blockError ∧ ev.reason = some (.lit "QUARANTINED")

instance (effs : List (Effect P)) : Decidable (Quarantined effs) :=
  inferInstanceAs (Decidable (∃ ev ∈ storedEvents effs, _))

/-- What is seen of a call. -/
structure Outcome (P : Platform) where
  block : CStr
  report : Report
  effects : List (Effect P)

/-- A call as a step of the process. -/
def Call.step (w : World P) (c : Call P) : Outcome P × World P :=
  (⟨c.block, (c.exec w).1, c.effects w⟩, (c.exec w).2)

/-- Make the calls one after the other. -/
def runAll (w : World P) (cs : List (Call P)) : List (Outcome P) × World P := Runs.run Call.step w cs

end Loxguard
