/-
# Demo runs

The demo runs of the library: a checked parser, and five that store one
incident, two of which ask the port table whether the active port supports
them. Each starts an empty blackbox, stores `ENTERED`, one event of its own and
`COMPLETED`, and reports what its own event says (`demo_tells`). The parser
stores an `OK` exactly when its arena has room for 8 aligned bytes and its
output is there and longer than 17 bytes, and then it has written byte 17 and
no other (`parser_demo_exact`).

A demo never asks its streak, but what it stores counts: between demos and
calls in any order, a call is refused for too many failures by the events of
both (`refused_after_demos_iff`).

Key definitions: `findPort`, `runDemo`, `packetParserBlock`,
`runCheckedParserDemo`, `Demo`, `StoresOne`, `DemoRan`, `Act`.
Key theorems: `runDemo_ran`, `demo_tells`, `ports_route`, `parser_demo_exact`,
`refused_after_demos_iff`.
-/
import Loxguard.Footprint
import Loxguard.Tally

namespace Loxguard

open Lib

variable {P : Platform}

/-! ### The ports -/

/-- `lox_port_info_t`. The id is an enumerator's value or any other `int`. -/
structure PortInfo where
  id : ℤ
  name : CStr
  flags : BitVec 32
deriving DecidableEq

/-- `LOX_PORT_FLAG_RTOS`. -/
def portFlagRtos : BitVec 32 := 1

/-- `LOX_PORT_FLAG_MPU`. -/
def portFlagMpu : BitVec 32 := 2

/-- `g_ports`, the first of them. -/
def hostPort : PortInfo := ⟨0, .lit "host", 0⟩

/-- `g_ports`. -/
def ports : List PortInfo :=
  [hostPort, ⟨1, .lit "freertos_stub", portFlagRtos⟩, ⟨2, .lit "cortexm_stub", portFlagMpu⟩]

/-- `find_port`. -/
def findPort (id : ℤ) : PortInfo := (ports.find? fun p => p.id = id).getD hostPort

/-- `lox_port_set_active`, with the active port before and after it. -/
def portSetActive (active id : ℤ) : ℤ × ℤ := if (findPort id).id ≠ id then (-1, active) else (0, id)

/-- `lox_port_get_active`. -/
def portGetActive (active : ℤ) : PortInfo := findPort active

/-- A port in the table has the flag. -/
def portSupports (flag : BitVec 32) (id : ℤ) : ℤ :=
  let p := findPort id
  if p.id ≠ id then 0 else if p.flags &&& flag ≠ 0 then 1 else 0

/-- `lox_port_supports_rtos`. -/
def portSupportsRtos (id : ℤ) : ℤ := portSupports portFlagRtos id

/-- `lox_port_supports_mpu`. -/
def portSupportsMpu (id : ℤ) : ℤ := portSupports portFlagMpu id

/-! ### What the demos have in common -/

/-- `lox_blackbox_init`, of nothing for null. -/
def World.initBlackbox (w : World P) : Option ℕ → World P
  | none => w
  | some box => { w with blackboxes := Function.update w.blackboxes box blackboxInit }

/-- A context `memset` to zero, with a block and a blackbox. -/
def GuardCtx.zeroed (blockName : CStr) (blackbox : Option ℕ) : GuardCtx P :=
  ⟨⟨0, 0, 0⟩, ⟨0, 0, 0⟩, none, some blockName, Event.zero P none, blackbox, 0, 0, 0⟩

/-- The course of a demo: an empty blackbox, `ENTERED`, what the demo does,
`COMPLETED` and the report. -/
def runDemo (ctx : GuardCtx P) (body : GuardFn P) (w : World P) : Report × World P :=
  let w := w.initBlackbox ctx.blackbox
  let (startTicks, w) := nowMs w
  let ctx := { ctx with startTicks }
  let (_, ctx, w) := emitEventEx ctx .blockEntered (.lit "ENTERED") 0 0 0 false w
  let (rc, ctx, w) := body ctx w
  let (ctx, w) := stopClock ctx w
  completeRun ctx rc w

/-- A demo that stores one event and returns a code. -/
def storeAndReturn (kind : EventKind) (reason : CStr) (index limit : P.Size) (auxCode : BitVec 32)
    (rc : ℤ) : GuardFn P :=
  fun ctx w => (rc, (emitEventEx ctx kind reason index limit auxCode true w).2)

/-- `lox_emit_unsupported`, with a context that is not null. -/
def emitUnsupported (reason : CStr) : GuardFn P := fun ctx w =>
  match ctx.blackbox with
  | none => (errNull, ctx, w)
  | some _ =>
    let ctx := { ctx with lastEvent := ⟨.blockUnsupported, ctx.blockName, some reason, 0, 0, 0⟩ }
    (errUnsupported, (emitEventEx ctx .blockUnsupported reason 0 0 0 true w).2)

/-! ### The short demos -/

/-- `lox_run_checked_parser_timeout_demo`. -/
def runCheckedParserTimeoutDemo (blackbox : Option ℕ) : World P → Report × World P :=
  runDemo (.zeroed (.lit "packet_parser") blackbox)
    (storeAndReturn .blockTimeout (.lit "TIMEOUT") 0 0 0 errTimeout)

/-- `lox_run_guard_panic_demo`. The panic hook does nothing. -/
def runGuardPanicDemo (blackbox : Option ℕ) : World P → Report × World P :=
  runDemo (.zeroed (.lit "panic_guard_block") blackbox)
    (storeAndReturn .blockPanic (.lit "PANIC") 0 0 1 errUnsupported)

/-- `lox_run_guard_fault_demo`. -/
def runGuardFaultDemo (blackbox : Option ℕ) : World P → Report × World P :=
  runDemo (.zeroed (.lit "fault_guard_block") blackbox)
    (storeAndReturn .blockFault (.lit "FAULT") 0 0 2 errUnsupported)

/-- `lox_run_rtos_timeout_demo`, with the active port. -/
def runRtosTimeoutDemo (active : ℤ) (blackbox : Option ℕ) (taskName : Option CStr)
    (tickBudget : BitVec 32) : World P → Report × World P :=
  runDemo (.zeroed (taskName.getD (.lit "rtos_task")) blackbox)
    (if portSupportsRtos (portGetActive active).id = 0 then emitUnsupported (.lit "RTOS_UNSUPPORTED")
      else storeAndReturn .blockTimeout (.lit "RTOS_TIMEOUT") (tickBudget.setWidth P.sizeBits) 0 0 errTimeout)

/-- `lox_run_mpu_fault_demo`, with the active port. -/
def runMpuFaultDemo (active : ℤ) (blackbox : Option ℕ) (blockName : Option CStr)
    (faultAddr cfsr hfsr : BitVec 32) : World P → Report × World P :=
  runDemo (.zeroed (blockName.getD (.lit "mpu_block")) blackbox)
    (if portSupportsMpu (portGetActive active).id = 0 then emitUnsupported (.lit "MPU_UNSUPPORTED")
      else storeAndReturn .blockMemoryFault (.lit "MPU_FAULT") (faultAddr.setWidth P.sizeBits)
        (cfsr.setWidth P.sizeBits) hfsr errMemoryFault)

/-! ### The parser -/

/-- `packet_parser_block`, with a context that is not null. -/
def packetParserBlock : GuardFn P := fun ctx w =>
  match ctx.scratch with
  | none => (errNull, ctx, w)
  | some scratch =>
    match arenaAlloc scratch 8 4 with
    | (none, scratch) =>
      let ev : ExtEvent P :=
        ⟨.blockArenaOverflow, ctx.blockName, some (.lit "ARENA"), arenaUsed scratch, scratch.size, 0⟩
      let ctx := { ctx with scratch := some scratch, lastEvent := ev }
      (errArenaFull, (emitEventEx ctx .blockArenaOverflow (.lit "ARENA") (arenaUsed scratch) scratch.size
        0 true w).2)
    -- the first byte of the input is read and not used
    | (some _, scratch) => checkedOutputWriteU8 { ctx with scratch := some scratch } 17 0xAB w

/-- `lox_run_checked_parser_demo` from the call of the parser on. -/
def checkedParserCalled : GuardFn P := fun ctx w =>
  let (rc, ctx, w) := packetParserBlock ctx w
  let (ctx, w) :=
    if rc = ok then (emitEventEx ctx .blockOk (.lit "OK") 0 0 0 true w).2
    else if ctx.lastEvent.kind = .none then (emitEventEx ctx .blockError (.lit "ERROR") 0 0 0 true w).2
    else (ctx, w)
  let (answer, w) := nextAnswer w
  (rc, ctx, { w with adapters := recoveryReportResultForBlock w.adapters ctx.blockName answer })

/-- `lox_run_checked_parser_demo` between `ENTERED` and the end. -/
def checkedParserAttempt : GuardFn P := fun ctx w =>
  let (answer, w) := nextAnswer w
  let (allowed, adapters) := recoveryAllowAttemptForBlock w.adapters ctx.blockName answer
  let w := { w with adapters }
  if !allowed then
    let (state, adapters) := recoveryStateGet w.adapters
    storeAndReturn .blockError (.lit "BREAKER_OPEN") 0 0 (BitVec.ofInt 32 state) errUnsupported ctx
      { w with adapters }
  else checkedParserCalled ctx w

/-- `lox_run_checked_parser_demo`. -/
def runCheckedParserDemo (input : ℕ) (inLen : P.Size) (output : ℕ) (outLen : P.Size) (scratch : ℕ)
    (scratchLen : P.Size) (blackbox : Option ℕ) : World P → Report × World P :=
  runDemo
    { GuardCtx.zeroed (.lit "packet_parser") blackbox with
      input := spanReadonly input inLen
      output := spanWritable output outLen
      scratch := some (arenaInit scratch scratchLen) }
    checkedParserAttempt

/-- A demo with its arguments. -/
inductive Demo (P : Platform)
  | checkedParser (input : ℕ) (inLen : P.Size) (output : ℕ) (outLen : P.Size) (scratch : ℕ)
      (scratchLen : P.Size)
  | checkedParserTimeout
  | guardPanic
  | guardFault
  | rtosTimeout (taskName : Option CStr) (tickBudget : BitVec 32)
  | mpuFault (blockName : Option CStr) (faultAddr cfsr hfsr : BitVec 32)

namespace Demo

/-- Run the demo. -/
def exec (active : ℤ) (blackbox : Option ℕ) : Demo P → World P → Report × World P
  | checkedParser input inLen output outLen scratch scratchLen =>
    runCheckedParserDemo input inLen output outLen scratch scratchLen blackbox
  | checkedParserTimeout => runCheckedParserTimeoutDemo blackbox
  | guardPanic => runGuardPanicDemo blackbox
  | guardFault => runGuardFaultDemo blackbox
  | rtosTimeout taskName tickBudget => runRtosTimeoutDemo active blackbox taskName tickBudget
  | mpuFault blockName faultAddr cfsr hfsr =>
    runMpuFaultDemo active blackbox blockName faultAddr cfsr hfsr

/-- The block the demo runs as. -/
def block : Demo P → CStr
  | checkedParser .. | checkedParserTimeout => .lit "packet_parser"
  | guardPanic => .lit "panic_guard_block"
  | guardFault => .lit "fault_guard_block"
  | rtosTimeout taskName _ => taskName.getD (.lit "rtos_task")
  | mpuFault blockName .. => blockName.getD (.lit "mpu_block")

end Demo

/-! ### What a demo does -/

/-- A demo stores one event of its block and takes it as the last one; it
returns `OK` with an `OK` and an error with a failure. It leaves the memory
`mem`, and besides, the block states, the breaker and its arena may change. -/
structure StoresOne (box : ℕ) (ctx : GuardCtx P) (w : World P) (ev : ExtEvent P) (mem : Mem)
    (r : ℤ × GuardCtx P × World P) : Prop where
  block : ev.blockName = ctx.blockName
  reason : ev.reason ≠ none
  rc : r.1 = ok ↔ ev.kind = .blockOk
  kind : ev.kind ≠ .blockOk → ev.kind.isFailure = true
  ctx : ∃ scratch, r.2.1 = { ctx.note ev w.env.persist.head with scratch }
  world : ∃ adapters breaker,
    r.2.2 = { w.emit box ev with mem, adapters, env := { (w.emit box ev).env with breaker } }

section StoresOne

variable {box : ℕ} {ctx : GuardCtx P} (hbox : ctx.blackbox = some box) {w : World P}

/-- Other block states and another breaker before it do not matter. -/
theorem StoresOne.from_changed {ev : ExtEvent P} {mem mem' : Mem} {adapters : BlockStates}
    {breaker : Option (Stream' BreakerAnswer)} {r : ℤ × GuardCtx P × World P}
    (h : StoresOne box ctx { w with mem := mem', adapters, env := { w.env with breaker } } ev mem r) :
    StoresOne box ctx w ev mem r := by
  obtain ⟨hblock, hreason, hrc, hkind, hctx, hworld⟩ := h
  exact ⟨hblock, hreason, hrc, hkind, hctx, hworld⟩

include hbox

theorem storeAndReturn_storesOne {kind : EventKind} (reason : CStr) (index limit : P.Size)
    (auxCode : BitVec 32) {rc : ℤ} (hkind : kind.isFailure = true) (hrc : rc ≠ ok) :
    StoresOne box ctx w ⟨kind, ctx.blockName, some reason, index, limit, auxCode⟩ w.mem
      (storeAndReturn kind reason index limit auxCode rc ctx w) := by
  have hne : kind ≠ .blockOk := fun he => by rw [he] at hkind; cases hkind
  rw [storeAndReturn, emitEventEx_eq hbox]
  exact ⟨rfl, by simp, iff_of_false hrc hne, fun _ => hkind, ⟨ctx.scratch, rfl⟩,
    ⟨(w.emit box _).adapters, w.env.breaker, rfl⟩⟩

theorem emitUnsupported_storesOne (reason : CStr) :
    StoresOne box ctx w ⟨.blockUnsupported, ctx.blockName, some reason, 0, 0, 0⟩ w.mem
      (emitUnsupported reason ctx w) := by
  have hset : emitUnsupported reason ctx w =
      storeAndReturn .blockUnsupported reason 0 0 0 errUnsupported
        { ctx with lastEvent := ⟨.blockUnsupported, ctx.blockName, some reason, 0, 0, 0⟩ } w := by
    rw [emitUnsupported, hbox]
    rfl
  have hone := storeAndReturn_storesOne (w := w)
    (show ({ ctx with lastEvent := ⟨.blockUnsupported, ctx.blockName, some reason, 0, 0, 0⟩ } :
      GuardCtx P).blackbox = some box from hbox) reason 0 0 0
    (show EventKind.blockUnsupported.isFailure = true from rfl) (show errUnsupported ≠ ok by decide)
  rw [hset]
  exact ⟨hone.block, hone.reason, hone.rc, hone.kind, hone.ctx, hone.world⟩

end StoresOne

/-! ### The parser between its events -/

/-- The event of an arena that is full. -/
def arenaEvent (ctx : GuardCtx P) (scratch : Arena P) : ExtEvent P :=
  ⟨.blockArenaOverflow, ctx.blockName, some (.lit "ARENA"), arenaUsed scratch, scratch.size, 0⟩

/-- The arena has no room for the parser. -/
def NoRoom (scratch : Arena P) : Prop := (arenaAlloc scratch 8 4).1 = none

instance (scratch : Arena P) : Decidable (NoRoom scratch) := inferInstanceAs (Decidable (_ = none))

/-- The event of the parser when the breaker lets it try. -/
def parserEvent (ctx : GuardCtx P) (scratch : Arena P) : ExtEvent P :=
  if NoRoom scratch then arenaEvent ctx scratch
  else if ctx.output.Rejects 17 then boundsEvent ctx.blockName 17 ctx.output.len
  else if ctx.output.writeRc 17 = ok then ⟨.blockOk, ctx.blockName, some (.lit "OK"), 0, 0, 0⟩
  else ⟨.blockError, ctx.blockName, some (.lit "ERROR"), 0, 0, 0⟩

theorem parserEvent_kind (ctx : GuardCtx P) (scratch : Arena P) : (parserEvent ctx scratch).kind =
    if NoRoom scratch then .blockArenaOverflow
    else if ctx.output.Rejects 17 then .blockWriteOutOfBounds
    else if ctx.output.writeRc 17 = ok then .blockOk
    else .blockError := by
  unfold parserEvent
  split_ifs <;> rfl

/-- The memory after it. -/
def parserMem (ctx : GuardCtx P) (scratch : Arena P) (mem : Mem) : Mem :=
  if NoRoom scratch then mem else (spanWriteU8 mem (some ctx.output) 17 0xAB).2

theorem arenaAlloc_of_none {a : Arena P} {size align : P.Size} (h : (arenaAlloc a size align).1 = none) :
    arenaAlloc a size align = (none, a) := by
  unfold arenaAlloc arenaPlace at h ⊢
  dsimp only at h ⊢
  split_ifs at h ⊢
  · rfl
  · rfl
  · rfl
  · rfl
  · cases hadd : safeAddSize _ size with
    | none => rfl
    | some stop =>
      rw [hadd] at h
      dsimp only at h ⊢
      split_ifs at h ⊢
      · rfl

section Parser

variable {box : ℕ} {ctx : GuardCtx P} (hbox : ctx.blackbox = some box) {scratch : Arena P}
  (hscratch : ctx.scratch = some scratch)

include hbox hscratch in
/-- An arena that is full ends the parser's work with an event. -/
theorem packetParserBlock_noRoom (h : NoRoom scratch) (w : World P) :
    packetParserBlock ctx w =
      (errArenaFull, ctx.note (arenaEvent ctx scratch) w.env.persist.head,
        w.emit box (arenaEvent ctx scratch)) := by
  unfold packetParserBlock
  rw [hscratch]
  dsimp only
  rw [arenaAlloc_of_none h]
  dsimp only
  rw [emitEventEx_eq (show GuardCtx.blackbox { ctx with scratch := some scratch, lastEvent := _ } = some box
    from hbox)]
  rw [← hscratch]
  rfl

include hscratch in
theorem packetParserBlock_room (h : ¬ NoRoom scratch) (w : World P) :
    ∃ scratch', packetParserBlock ctx w =
      checkedOutputWriteU8 { ctx with scratch := some scratch' } 17 0xAB w := by
  unfold packetParserBlock
  rw [hscratch]
  dsimp only
  obtain ⟨p, hp⟩ := Option.ne_none_iff_exists'.mp h
  rw [show arenaAlloc scratch 8 4 = (some p, (arenaAlloc scratch 8 4).2) from Prod.ext hp rfl]
  exact ⟨_, rfl⟩

/-- The end of the parser's demo: the verdict on what the parser left, and the
report to the breaker. -/
theorem checkedParserCalled_of {rc : ℤ} {ctx' : GuardCtx P} {w w' : World P}
    (hblock : packetParserBlock ctx w = (rc, ctx', w')) {judged : GuardCtx P} {after : World P}
    (hverdict : (if rc = ok then (emitEventEx ctx' .blockOk (.lit "OK") 0 0 0 true w').2
      else if ctx'.lastEvent.kind = .none then (emitEventEx ctx' .blockError (.lit "ERROR") 0 0 0 true w').2
      else (ctx', w')) = (judged, after)) :
    ∃ adapters breaker, checkedParserCalled ctx w =
      (rc, judged, { after with adapters, env := { after.env with breaker } }) := by
  obtain ⟨breaker, hanswer⟩ := nextAnswer_eq after
  refine ⟨recoveryReportResultForBlock after.adapters judged.blockName (nextAnswer after).1, breaker, ?_⟩
  unfold checkedParserCalled
  rw [hblock]
  dsimp only
  rw [hverdict]
  dsimp only
  rw [hanswer]

include hbox hscratch in
/-- **The parser** stores the one event it should. -/
theorem checkedParserCalled_storesOne (hlast : ctx.lastEvent.kind = .none) (w : World P) :
    StoresOne box ctx w (parserEvent ctx scratch) (parserMem ctx scratch w.mem)
      (checkedParserCalled ctx w) := by
  unfold parserEvent parserMem
  by_cases hroom : NoRoom scratch
  · obtain ⟨adapters, breaker, hcalled⟩ := checkedParserCalled_of
      (packetParserBlock_noRoom hbox hscratch hroom w) (if_neg (by decide))
    rw [hcalled, if_pos hroom, if_pos hroom]
    exact ⟨rfl, by simp [arenaEvent], by simp [arenaEvent, errArenaFull, ok], fun _ => rfl,
      ⟨ctx.scratch, rfl⟩, ⟨adapters, breaker, rfl⟩⟩
  obtain ⟨scratch', hblock⟩ := packetParserBlock_room hscratch hroom w
  have hbox' : GuardCtx.blackbox { ctx with scratch := some scratch' } = some box := hbox
  rw [if_neg hroom, if_neg hroom]
  by_cases hrejects : ctx.output.Rejects 17
  · have hrc : ctx.output.writeRc 17 = errBounds := (writeRc_eq_bounds_iff _ _).mpr hrejects
    rw [checkedOutputWriteU8_rejected hbox' hrejects, hrc] at hblock
    obtain ⟨adapters, breaker, hcalled⟩ := checkedParserCalled_of hblock
      ((if_neg (by decide)).trans (if_neg (by simp [GuardCtx.note, boundsEvent])))
    rw [hcalled, if_pos hrejects, spanWriteU8_rejected _ hrejects]
    exact ⟨rfl, by simp [boundsEvent], by simp [boundsEvent, errBounds, ok], fun _ => rfl,
      ⟨some scratch', rfl⟩, ⟨adapters, breaker, rfl⟩⟩
  have hrc : ctx.output.writeRc 17 ≠ errBounds := fun he => hrejects ((writeRc_eq_bounds_iff _ _).mp he)
  let written : World P := { w with mem := (spanWriteU8 w.mem (some ctx.output) 17 0xAB).2 }
  have hwrite : packetParserBlock ctx w =
      (ctx.output.writeRc 17, { ctx with scratch := some scratch' }, written) := by
    rw [hblock, checkedOutputWriteU8, ← spanWriteU8_rc w.mem ctx.output 17 0xAB]
    rw [← spanWriteU8_rc w.mem ctx.output 17 0xAB] at hrc
    exact if_neg hrc
  rw [if_neg hrejects]
  by_cases hok : ctx.output.writeRc 17 = ok
  · obtain ⟨adapters, breaker, hcalled⟩ := checkedParserCalled_of hwrite
      ((if_pos hok).trans (congrArg Prod.snd (emitEventEx_eq hbox' ..)))
    rw [hcalled, if_pos hok]
    exact ⟨rfl, by simp, iff_of_true hok rfl, fun hne => absurd rfl hne, ⟨some scratch', rfl⟩,
      ⟨adapters, breaker, rfl⟩⟩
  · obtain ⟨adapters, breaker, hcalled⟩ := checkedParserCalled_of hwrite
      ((if_neg hok).trans ((if_pos hlast).trans (congrArg Prod.snd (emitEventEx_eq hbox' ..))))
    rw [hcalled, if_neg hok]
    exact ⟨rfl, by simp, iff_of_false hok (by simp), fun _ => rfl, ⟨some scratch', rfl⟩,
      ⟨adapters, breaker, rfl⟩⟩

include hbox hscratch in
/-- The parser's demo stores one event, whatever the breaker says. -/
theorem checkedParserAttempt_storesOne (hlast : ctx.lastEvent.kind = .none) (w : World P) :
    ∃ ev mem, StoresOne box ctx w ev mem (checkedParserAttempt ctx w) ∧
      (w.env.breaker = none → ev = parserEvent ctx scratch ∧ mem = parserMem ctx scratch w.mem) := by
  obtain ⟨breaker, hanswer⟩ := nextAnswer_eq w
  let asked := recoveryAllowAttemptForBlock w.adapters ctx.blockName (nextAnswer w).1
  have hask : checkedParserAttempt ctx w =
      if !asked.1 then
        storeAndReturn .blockError (.lit "BREAKER_OPEN") 0 0 (BitVec.ofInt 32 (recoveryStateGet asked.2).1)
          errUnsupported ctx
          { w with adapters := (recoveryStateGet asked.2).2, env := { w.env with breaker } }
      else checkedParserCalled ctx { w with adapters := asked.2, env := { w.env with breaker } } := by
    unfold checkedParserAttempt
    dsimp only
    rw [hanswer]
  rw [hask]
  by_cases hrefused : (!asked.1) = true
  · have hone := storeAndReturn_storesOne hbox
      (w := { w with adapters := (recoveryStateGet asked.2).2, env := { w.env with breaker } })
      (.lit "BREAKER_OPEN") 0 0 (BitVec.ofInt 32 (recoveryStateGet asked.2).1)
      (show EventKind.blockError.isFailure = true from rfl) (show errUnsupported ≠ ok by decide)
    rw [if_pos hrefused]
    refine ⟨_, _, hone.from_changed, fun hnone => ?_⟩
    have hallowed : asked.1 = true := by
      show (recoveryAllowAttemptForBlock w.adapters ctx.blockName (nextAnswer w).1).1 = true
      rw [nextAnswer_none hnone]
      rfl
    rw [hallowed] at hrefused
    cases hrefused
  · rw [if_neg hrefused]
    exact ⟨_, _, (checkedParserCalled_storesOne hbox hscratch hlast _).from_changed, fun _ => ⟨rfl, rfl⟩⟩

end Parser

/-! ### A demo and its report -/

/-- The events of a demo. -/
def demoEvents (block : CStr) (env : Env) (ev : ExtEvent P) : List (ExtEvent P) :=
  [enteredEvent (some block), ev, completedEvent (some block) (env.reading 1 - env.reading 0)]

/-- The report of a demo on its own event. -/
def demoReport (block : CStr) (env : Env) (ev : ExtEvent P) : Report where
  lastBlock := some block
  lastFailedBlock := if ev.kind = .blockOk then none else some block
  reason := if ev.kind = .blockOk then some (.lit "NONE") else ev.reason
  result := if ev.kind = .blockOk then .ok else resultOfKind ev.kind
  action := if ev.kind = .blockOk then .none else .dropInput
  durationTicks := env.reading 1 - env.reading 0
  eventPersisted := if env.persist.tail.head = ok then 1 else 0

/-- A demo of a block ran: it left an empty blackbox with its events, the
memory `mem` and its report. -/
structure DemoRan (block : CStr) (box : ℕ) (w : World P) (ev : ExtEvent P) (mem : Mem)
    (r : Report × World P) : Prop where
  own : ev.blockName = some block
  kind : ev.kind ≠ .blockOk → ev.kind.isFailure = true
  report : r.1 = demoReport block w.env ev
  mem : r.2.mem = mem
  streaks : r.2.streaks = ((demoEvents block w.env ev).map Event.kind).foldl (observe (some block)) w.streaks
  blackboxes : r.2.blackboxes =
    Function.update w.blackboxes box (stores blackboxInit (demoEvents block w.env ev))
  trace : r.2.trace = w.trace ++ eventEffects box (demoEvents block w.env ev) w.env.persist ++
    if ev.kind ≠ .blockOk ∧ w.env.recoveryCb then [.recovery ev .dropInput] else []

/-- The world of a demo after `ENTERED`. -/
def World.demoEntered (w : World P) (box : ℕ) (block : CStr) : World P :=
  let empty := w.initBlackbox (some box)
  World.emit { empty with env := empty.env.tick } box (enteredEvent (some block))

/-- **A demo** that stores one event leaves three and reports on its own. -/
theorem runDemo_ran {ctx : GuardCtx P} {box : ℕ} {block : CStr} (hbox : ctx.blackbox = some box)
    (hblock : ctx.blockName = some block) {body : GuardFn P} {w : World P} {ev : ExtEvent P} {mem : Mem}
    (hbody : StoresOne box { ctx with startTicks := w.env.reading 0 } (w.demoEntered box block) ev mem
      (body { ctx with startTicks := w.env.reading 0 } (w.demoEntered box block))) :
    DemoRan block box w ev mem (runDemo ctx body w) := by
  obtain ⟨input, output, scratch₀, _, lastEvent, _, startTicks, durationTicks, lastEventPersisted⟩ := ctx
  subst hbox hblock
  let started : GuardCtx P :=
    ⟨input, output, scratch₀, some block, lastEvent, some box, w.env.reading 0, durationTicks,
      lastEventPersisted⟩
  let r := body started (w.demoEntered box block)
  have hrun : runDemo ⟨input, output, scratch₀, some block, lastEvent, some box, startTicks, durationTicks,
      lastEventPersisted⟩ body w = completeRun
        { r.2.1 with durationTicks := r.2.2.env.reading 0 - r.2.1.startTicks } r.1
        { r.2.2 with env := r.2.2.env.tick } := by
    unfold runDemo stopClock
    simp only [nowMs_eq]
    rfl
  obtain ⟨scratch, hctx⟩ := hbody.ctx
  obtain ⟨adapters, breaker, hworld⟩ := hbody.world
  let after : World P :=
    let stored := (w.demoEntered box block).emit box ev
    { stored with mem, adapters, env := { stored.env with breaker } }
  let judged : GuardCtx P :=
    { started.note ev w.env.persist.tail.head with
      scratch, durationTicks := w.env.reading 1 - w.env.reading 0 }
  have hreading : r.2.2.env.reading 0 - r.2.1.startTicks = w.env.reading 1 - w.env.reading 0 := by
    rw [show r.2.2 = _ from hworld, show r.2.1 = _ from hctx]
    exact congrArg (· - w.env.reading 0) (reading_tick w.env 0)
  have hcomplete : runDemo ⟨input, output, scratch₀, some block, lastEvent, some box, startTicks,
      durationTicks, lastEventPersisted⟩ body w = completeRun judged r.1 { after with env := after.env.tick } := by
    rw [hrun, hreading, show r.2.2 = after from hworld, show r.2.1 = _ from hctx]
    rfl
  rw [hcomplete, completeRun_eq (show judged.blackbox = some box from rfl)]
  have hfailed : ev.kind ≠ .blockOk → policyDecide (some ev) = .dropInput := fun hne => if_pos (hbody.kind hne)
  obtain ⟨reason, hreason⟩ := Option.ne_none_iff_exists'.mp hbody.reason
  refine ⟨hbody.block, hbody.kind, ?_, rfl, ?_, ?_, ?_⟩
  · by_cases hok : ev.kind = .blockOk
    · have hrc : ¬ r.1 ≠ ok := not_not.mpr (hbody.rc.mpr hok)
      simp only [reportOf, demoReport, if_neg hrc, if_pos hok]
      rfl
    · have hrc : r.1 ≠ ok := fun he => hok (hbody.rc.mp he)
      simp only [reportOf, demoReport, if_pos hrc, if_neg hok]
      rw [show judged.lastEvent = ev from rfl, hfailed hok, hreason]
      rfl
  · show observe (some block) (observe ev.blockName (observe (some block) w.streaks .blockEntered) ev.kind)
      .blockCompleted = _
    rw [show ev.blockName = some block from hbody.block]
    rfl
  · funext other
    by_cases hother : other = box
    · subst hother
      simp only [World.emit, after, World.demoEntered, World.initBlackbox, Function.update_self]
      rfl
    · simp only [World.emit, after, World.demoEntered, World.initBlackbox, Function.update_of_ne hother]
  · have hrecovery : recoveryEffects after.env.tick judged r.1 =
        if ev.kind ≠ .blockOk ∧ w.env.recoveryCb then [.recovery ev .dropInput] else [] := by
      show (if r.1 ≠ ok ∧ w.env.recoveryCb then [Effect.recovery ev (policyDecide (some ev))] else []) = _
      by_cases hok : ev.kind = .blockOk
      · rw [if_neg fun h => h.1 (hbody.rc.mpr hok), if_neg fun h => h.1 hok]
      · have hrc : r.1 ≠ ok := fun he => hok (hbody.rc.mp he)
        simp only [hrc, hok, ne_eq, not_false_eq_true, true_and, hfailed hok]
    show (((w.trace ++ [_]) ++ [_]) ++ [_]) ++ recoveryEffects after.env.tick judged r.1 = _
    rw [hrecovery, List.append_assoc w.trace, List.append_assoc w.trace]
    rfl

theorem runDemo_stores (box : ℕ) (block : CStr) (w : World P) {kind : EventKind} (reason : CStr)
    (index limit : P.Size) (auxCode : BitVec 32) {rc : ℤ} (hkind : kind.isFailure = true) (hrc : rc ≠ ok) :
    DemoRan block box w ⟨kind, some block, some reason, index, limit, auxCode⟩ w.mem
      (runDemo (.zeroed block (some box)) (storeAndReturn kind reason index limit auxCode rc) w) :=
  runDemo_ran rfl rfl (storeAndReturn_storesOne rfl reason index limit auxCode hkind hrc)

theorem runDemo_unsupported (box : ℕ) (block : CStr) (w : World P) (reason : CStr) :
    DemoRan block box w ⟨.blockUnsupported, some block, some reason, 0, 0, 0⟩ w.mem
      (runDemo (.zeroed block (some box)) (emitUnsupported reason) w) :=
  runDemo_ran rfl rfl (emitUnsupported_storesOne rfl reason)

/-- The context of the parser's demo. -/
def GuardCtx.parser (input : ℕ) (inLen : P.Size) (output : ℕ) (outLen : P.Size) (scratch : ℕ)
    (scratchLen : P.Size) (box : ℕ) : GuardCtx P :=
  { GuardCtx.zeroed (.lit "packet_parser") (some box) with
    input := spanReadonly input inLen
    output := spanWritable output outLen
    scratch := some (arenaInit scratch scratchLen) }

theorem runCheckedParserDemo_ran (input : ℕ) (inLen : P.Size) (output : ℕ) (outLen : P.Size) (scratch : ℕ)
    (scratchLen : P.Size) (box : ℕ) (w : World P) :
    let ctx := GuardCtx.parser input inLen output outLen scratch scratchLen box
    ∃ ev mem, DemoRan (.lit "packet_parser") box w ev mem
      (runCheckedParserDemo input inLen output outLen scratch scratchLen (some box) w) ∧
      (w.env.breaker = none → ev = parserEvent ctx (arenaInit scratch scratchLen) ∧
        mem = parserMem ctx (arenaInit scratch scratchLen) w.mem) := by
  intro ctx
  obtain ⟨ev, mem, hone, hdefault⟩ := checkedParserAttempt_storesOne
    (show GuardCtx.blackbox { ctx with startTicks := w.env.reading 0 } = some box from rfl) rfl rfl
    (w.demoEntered box (.lit "packet_parser"))
  exact ⟨ev, mem, runDemo_ran rfl rfl hone, hdefault⟩

/-! ### The demos -/

/-- **Every demo** leaves three events and its report. -/
theorem Demo.exec_ran (active : ℤ) (box : ℕ) (d : Demo P) (w : World P) :
    ∃ ev mem, DemoRan d.block box w ev mem (d.exec active (some box) w) := by
  cases d with
  | checkedParser input inLen output outLen scratch scratchLen =>
    obtain ⟨ev, mem, hran, -⟩ := runCheckedParserDemo_ran input inLen output outLen scratch scratchLen box w
    exact ⟨ev, mem, hran⟩
  | checkedParserTimeout =>
    have hran : DemoRan _ box w _ _ (runCheckedParserTimeoutDemo (some box) w) :=
      runDemo_stores box _ w _ 0 0 0 rfl (by decide)
    exact ⟨_, _, hran⟩
  | guardPanic =>
    have hran : DemoRan _ box w _ _ (runGuardPanicDemo (some box) w) :=
      runDemo_stores box _ w _ 0 0 1 rfl (by decide)
    exact ⟨_, _, hran⟩
  | guardFault =>
    have hran : DemoRan _ box w _ _ (runGuardFaultDemo (some box) w) :=
      runDemo_stores box _ w _ 0 0 2 rfl (by decide)
    exact ⟨_, _, hran⟩
  | rtosTimeout taskName tickBudget =>
    show ∃ ev mem, DemoRan _ box w ev mem (runRtosTimeoutDemo active (some box) taskName tickBudget w)
    unfold runRtosTimeoutDemo
    split
    · exact ⟨_, _, runDemo_unsupported box _ w _⟩
    · exact ⟨_, _, runDemo_stores box _ w _ _ 0 0 rfl (by decide)⟩
  | mpuFault blockName faultAddr cfsr hfsr =>
    show ∃ ev mem, DemoRan _ box w ev mem (runMpuFaultDemo active (some box) blockName faultAddr cfsr hfsr w)
    unfold runMpuFaultDemo
    split
    · exact ⟨_, _, runDemo_unsupported box _ w _⟩
    · exact ⟨_, _, runDemo_stores box _ w _ _ _ _ rfl (by decide)⟩

/-- **A demo tells what it did**, whatever the process did before and whatever
port is active: its blackbox holds `ENTERED`, one event of its own and
`COMPLETED` and no other blackbox changed, its report is made of its own event,
and the recovery callback is called with that event unless it is an `OK`. -/
theorem demo_tells (active : ℤ) (box : ℕ) (d : Demo P) (w : World P) :
    let r := d.exec active (some box) w
    ∃ ev : ExtEvent P, ev.blockName = some d.block ∧ (ev.kind = .blockOk ∨ ev.kind.isFailure = true) ∧
      (r.2.blackboxes box).contents = (demoEvents d.block w.env ev).map recorded ∧
      (∀ other, other ≠ box → r.2.blackboxes other = w.blackboxes other) ∧
      r.1 = demoReport d.block w.env ev ∧
      recoveries (r.2.trace.drop w.trace.length) =
        if ev.kind ≠ .blockOk ∧ w.env.recoveryCb then [(ev, .dropInput)] else [] := by
  intro r
  obtain ⟨ev, mem, hran⟩ := d.exec_ran active box w
  refine ⟨ev, hran.own, or_iff_not_imp_left.mpr hran.kind, ?_, fun other hne => ?_, hran.report, ?_⟩
  · rw [hran.blackboxes, Function.update_self]
    exact (contents_stores _ rfl).trans (Window.rtake_eq_self (by simp [demoEvents]))
  · rw [hran.blackboxes, Function.update_of_ne hne]
  · rw [hran.trace, List.append_assoc, List.drop_left, recoveries_append, recoveries_eventEffects]
    split_ifs <;> rfl

/-! ### The port that is active -/

/-- The port that is active after requests to set it. -/
def portAfter (active : ℤ) (ids : List ℤ) : ℤ := ids.foldl (fun active id => (portSetActive active id).2) active

/-- The id of a port in the table. -/
def PortKnown (id : ℤ) : Prop := id = 0 ∨ id = 1 ∨ id = 2

instance (id : ℤ) : Decidable (PortKnown id) := inferInstanceAs (Decidable (_ ∨ _))

theorem findPort_id_iff (id : ℤ) : (findPort id).id = id ↔ PortKnown id := by
  unfold PortKnown
  constructor
  · intro h
    by_contra hno
    rw [not_or, not_or] at hno
    have hnone : ports.find? (fun p => p.id = id) = none := by
      rw [List.find?_eq_none]
      intro p hp
      simp only [ports, hostPort, List.mem_cons, List.not_mem_nil, or_false] at hp
      rcases hp with rfl | rfl | rfl
      · simpa using Ne.symm hno.1
      · simpa using Ne.symm hno.2.1
      · simpa using Ne.symm hno.2.2
    rw [findPort, hnone] at h
    exact hno.1 h.symm
  · rintro (rfl | rfl | rfl) <;> rfl

theorem portSetActive_snd (active id : ℤ) :
    (portSetActive active id).2 = if PortKnown id then id else active := by
  unfold portSetActive
  by_cases hknown : PortKnown id
  · rw [if_pos hknown, if_neg (not_not.mpr ((findPort_id_iff id).mpr hknown))]
  · rw [if_neg hknown, if_pos fun h => hknown ((findPort_id_iff id).mp h)]

/-- **The port that is active** is the last one set that is in the table. -/
theorem portAfter_eq (active : ℤ) (ids : List ℤ) :
    portAfter active ids = (ids.filter PortKnown).getLast?.getD active := by
  induction ids generalizing active with
  | nil => rfl
  | cons id ids ih =>
    show portAfter (portSetActive active id).2 ids = _
    rw [ih, portSetActive_snd]
    by_cases hknown : PortKnown id
    · rw [if_pos hknown, List.filter_cons_of_pos (by simpa using hknown), List.getLast?_cons, Option.getD_some]
    · rw [if_neg hknown, List.filter_cons_of_neg (by simpa using hknown)]

/-- **Routing by the port**: after any requests to set the port from the host's
on, the demo of a task's timeout is a timeout exactly if the last known port
set is the one with tasks, the demo of a memory fault is a memory fault exactly
if it is the one with a protection unit, and each is unsupported otherwise. -/
theorem ports_route (ids : List ℤ) (box : ℕ) (taskName blockName : Option CStr)
    (tickBudget faultAddr cfsr hfsr : BitVec 32) (w : World P) :
    let active := portAfter 0 ids
    let last := (ids.filter PortKnown).getLast?.getD 0
    (runRtosTimeoutDemo active (some box) taskName tickBudget w).1.result =
        (if last = 1 then .timeout else .unsupported) ∧
      (runMpuFaultDemo active (some box) blockName faultAddr cfsr hfsr w).1.result =
        if last = 2 then .memoryFault else .unsupported := by
  intro active last
  have hlast : active = last := portAfter_eq 0 ids
  have hknown : PortKnown last := by
    show PortKnown ((ids.filter PortKnown).getLast?.getD 0)
    cases hget : (ids.filter PortKnown).getLast? with
    | none => exact Or.inl rfl
    | some id =>
      have hmem := List.mem_of_getLast? hget
      exact of_decide_eq_true (List.mem_filter.mp hmem).2
  have hunsupported : ∀ (block reason : CStr),
      (runDemo (.zeroed block (some box)) (emitUnsupported reason) w).1.result = .unsupported := by
    intro block reason
    rw [(runDemo_unsupported box block w reason).report]
    rfl
  have htimeout : ∀ (block : CStr),
      (runDemo (.zeroed block (some box)) (storeAndReturn .blockTimeout (.lit "RTOS_TIMEOUT")
        (tickBudget.setWidth P.sizeBits) 0 0 errTimeout) w).1.result = .timeout := by
    intro block
    rw [(runDemo_stores box block w (.lit "RTOS_TIMEOUT") _ 0 0 rfl (by decide)).report]
    rfl
  have hfault : ∀ (block : CStr),
      (runDemo (.zeroed block (some box)) (storeAndReturn .blockMemoryFault (.lit "MPU_FAULT")
        (faultAddr.setWidth P.sizeBits) (cfsr.setWidth P.sizeBits) hfsr errMemoryFault) w).1.result =
          .memoryFault := by
    intro block
    rw [(runDemo_stores box block w (.lit "MPU_FAULT") _ _ hfsr rfl (by decide)).report]
    rfl
  rw [hlast]
  rcases hknown with h | h | h <;> rw [h]
  · exact ⟨hunsupported _ _, hunsupported _ _⟩
  · exact ⟨htimeout _, hunsupported _ _⟩
  · exact ⟨hunsupported _ _, hfault _⟩

/-! ### The parser, exactly -/

theorem toNat_small {n : ℕ} (h : n < 2 ^ 32) : (BitVec.ofNat P.sizeBits n).toNat = n := by
  have hwide : 2 ^ 32 ≤ 2 ^ P.sizeBits := Nat.pow_le_pow_right (by decide) P.le_sizeBits
  rw [BitVec.toNat_ofNat, Nat.mod_eq_of_lt (h.trans_le hwide)]

/-- The region holds 8 bytes from a multiple of 4 on. -/
def HasEight (scratch : ℕ) (scratchLen : P.Size) : Prop :=
  scratch ≠ 0 ∧ Align.roundUp scratch 4 + 8 ≤ scratch + scratchLen.toNat

instance (scratch : ℕ) (scratchLen : P.Size) : Decidable (HasEight scratch scratchLen) :=
  inferInstanceAs (Decidable (_ ∧ _))

theorem noRoom_iff {scratch : ℕ} {scratchLen : P.Size}
    (hend : scratch + scratchLen.toNat < 2 ^ P.sizeBits) :
    NoRoom (arenaInit scratch scratchLen) ↔ ¬ HasEight scratch scratchLen := by
  unfold NoRoom HasEight
  by_cases hnull : scratch = 0
  · have hnone : (arenaAlloc (arenaInit scratch scratchLen : Arena P) 8 4).1 = none := by
      unfold arenaAlloc
      exact congrArg Prod.fst (if_pos (Or.inl hnull))
    exact iff_of_true hnone fun h => h.1 hnull
  · have hwf : (arenaInit scratch scratchLen : Arena P).Wf := ⟨hnull, hend, Nat.zero_le _⟩
    have hfour : (4 : P.Size).toNat = 4 := toNat_small (by decide)
    have height : (8 : P.Size).toNat = 8 := toNat_small (by decide)
    have hpow : (4 : ℕ).isPowerOfTwo := ⟨2, rfl⟩
    have hnext : (arenaInit scratch scratchLen : Arena P).next 4 = Align.roundUp scratch 4 := by
      unfold Arena.next
      rw [hfour]
      rfl
    rw [arenaAlloc_eq hwf, hfour, height, hnext]
    by_cases hfits : Align.roundUp scratch 4 + 8 ≤ scratch + scratchLen.toNat
    · rw [if_pos ⟨hpow, hfits⟩]
      exact iff_of_false (Option.some_ne_none _) fun h => h ⟨hnull, hfits⟩
    · rw [if_neg fun h => hfits h.2]
      exact iff_of_true rfl fun h => hfits h.2

theorem writable_seventeen (output : ℕ) (outLen : P.Size) (mem : Mem) :
    ((spanWritable output outLen).Rejects 17 ↔ output ≠ 0 ∧ outLen.toNat ≤ 17) ∧
      ((spanWritable output outLen).writeRc 17 = ok ↔ output ≠ 0 ∧ 17 < outLen.toNat) ∧
      (spanWriteU8 mem (some (spanWritable output outLen)) 17 0xAB).2 =
        if output ≠ 0 ∧ 17 < outLen.toNat then Function.update mem (output + 17) 0xAB else mem := by
  have hseventeen : (17 : P.Size).toNat = 17 := toNat_small (by decide)
  have hflag : ((spanFlagRead ||| spanFlagWrite) &&& spanFlagWrite = 0) = False := by decide
  have hlen : outLen ≤ 17 ↔ outLen.toNat ≤ 17 := by rw [BitVec.le_def, hseventeen]
  unfold Span.Rejects Span.writeRc spanWriteU8 spanWritable
  simp only [hlen, hseventeen, hflag, if_false, ne_eq, not_false_eq_true, true_and]
  by_cases hnull : output = 0
  · simp [hnull, errNull, ok]
  by_cases hshort : outLen.toNat ≤ 17
  · have hnot : ¬ 17 < outLen.toNat := by omega
    simp [hnull, hshort, hnot, errBounds, ok]
  · have hlong : 17 < outLen.toNat := by omega
    simp [hnull, hshort, hlong]

/-- **The parser's demo, exactly**: without a breaker it is `OK` if and only
if its arena holds 8 aligned bytes and its output is there and longer than 17
bytes, and then byte 17 was written and no other. An arena that is too small
comes first, then an output that is null, then one that is too short, and in
all of these nothing is written. -/
theorem parser_demo_exact (input : ℕ) (inLen : P.Size) (output : ℕ) (outLen : P.Size) {scratch : ℕ}
    {scratchLen : P.Size} (hend : scratch + scratchLen.toNat < 2 ^ P.sizeBits) (box : ℕ) {w : World P}
    (hbreaker : w.env.breaker = none) :
    let r := runCheckedParserDemo input inLen output outLen scratch scratchLen (some box) w
    (r.1.result = .arena ↔ ¬ HasEight scratch scratchLen) ∧
      (r.1.result = .error ↔ HasEight scratch scratchLen ∧ output = 0) ∧
      (r.1.result = .bounds ↔ HasEight scratch scratchLen ∧ output ≠ 0 ∧ outLen.toNat ≤ 17) ∧
      (r.1.result = .ok ↔ HasEight scratch scratchLen ∧ output ≠ 0 ∧ 17 < outLen.toNat) ∧
      r.2.mem = if r.1.result = .ok then Function.update w.mem (output + 17) 0xAB else w.mem := by
  intro r
  obtain ⟨ev, mem, hran, hdefault⟩ := runCheckedParserDemo_ran input inLen output outLen scratch scratchLen
    box w
  obtain ⟨hev, hmem⟩ := hdefault hbreaker
  have hroom := noRoom_iff hend
  have hresult : r.1.result = if ev.kind = .blockOk then .ok else resultOfKind ev.kind := by
    rw [show r.1 = _ from hran.report]
    rfl
  obtain ⟨hrejects, hok, hwritten⟩ := writable_seventeen output outLen w.mem
  have hkind : ev.kind = if ¬ HasEight scratch scratchLen then .blockArenaOverflow
      else if output ≠ 0 ∧ outLen.toNat ≤ 17 then .blockWriteOutOfBounds
      else if output ≠ 0 ∧ 17 < outLen.toNat then .blockOk
      else .blockError := by
    rw [hev, parserEvent_kind]
    simp only [← hroom, ← hrejects, ← hok]
    rfl
  have hmem' : r.2.mem = if ¬ HasEight scratch scratchLen then w.mem
      else if output ≠ 0 ∧ 17 < outLen.toNat then Function.update w.mem (output + 17) 0xAB else w.mem := by
    rw [← hwritten]
    simp only [← hroom]
    exact hran.mem.trans hmem
  rw [hmem', hresult, hkind]
  by_cases hfits : HasEight scratch scratchLen
  swap
  · simp [hfits, resultOfKind]
  by_cases hnull : output = 0
  · simp [hfits, hnull, resultOfKind]
  by_cases hshort : outLen.toNat ≤ 17
  · have hnot : ¬ 17 < outLen.toNat := by omega
    simp [hfits, hnull, hshort, hnot, resultOfKind]
  · have hlong : 17 < outLen.toNat := by omega
    simp [hfits, hnull, hshort, hlong]

theorem parser_demo_exact_ok :
    (runCheckedParserDemo (P := .host) 0 0 100 18 65 11 (some 1) (World.start .quiet)).1.result = .ok :=
  (parser_demo_exact (P := .host) 0 0 100 18 (show 65 + (11 : Platform.host.Size).toNat < 2 ^ 64 by decide)
    1 rfl).2.2.2.1.mpr (by decide)

/-! ### Demos between calls -/

/-- A call, or a demo with the port that is active, its blackbox and the
environment it meets. -/
inductive Act (P : Platform)
  | call (c : Call P)
  | demo (active : ℤ) (box : ℕ) (d : Demo P) (env : Env)

/-- The process after it. -/
def Act.exec (w : World P) : Act P → World P
  | call c => (c.exec w).2
  | demo active box d env => (d.exec active (some box) { w with env }).2

/-- Its blocks, also those of nested runs, have names that fit a slot. -/
def Act.Fits : Act P → Prop
  | call c => c.Calls Fitting
  | demo _ _ d _ => (blockKey (some d.block)).length ≤ 63

theorem DemoRan.counts {block : CStr} {box : ℕ} {w : World P} {ev : ExtEvent P} {mem : Mem}
    {r : Report × World P} (h : DemoRan block box w ev mem r) (hlen : (blockKey (some block)).length ≤ 63) :
    ∃ effs, r.2.trace = w.trace ++ effs ∧ Counts w effs r.2 := by
  refine ⟨_, h.trace.trans (List.append_assoc ..), fun evs hw => ?_⟩
  have hevents : storedEvents (eventEffects box (demoEvents block w.env ev) w.env.persist ++
      if ev.kind ≠ .blockOk ∧ w.env.recoveryCb then [.recovery ev .dropInput] else []) =
        demoEvents block w.env ev := by
    rw [storedEvents_append, storedEvents_eventEffects]
    split_ifs <;> exact List.append_nil _
  have hown : (blockKey ev.blockName).length ≤ 63 := by rwa [h.own]
  have hthree := ((hw.observe (enteredEvent (some block)) hlen).observe ev hown).observe
    (completedEvent (some block) (w.env.reading 1 - w.env.reading 0)) hlen
  rw [hevents, h.streaks]
  rw [h.own, List.append_assoc, List.append_assoc] at hthree
  exact hthree

theorem Act.counts (a : Act P) (ha : a.Fits) (w : World P) :
    ∃ effs, (a.exec w).trace = w.trace ++ effs ∧ Counts w effs (a.exec w) := by
  cases a with
  | call c => exact counts_runAll [c] (fun _ h => List.mem_singleton.mp h ▸ ha) w
  | demo active box d env =>
    obtain ⟨ev, mem, hran⟩ := d.exec_ran active box { w with env }
    exact hran.counts ha

theorem tallied_acts (acts : List (Act P)) (hacts : ∀ a ∈ acts, a.Fits) {w : World P}
    (hw : Tallied w.streaks (storedEvents w.trace)) :
    Tallied (acts.foldl Act.exec w).streaks (storedEvents (acts.foldl Act.exec w).trace) := by
  induction acts generalizing w with
  | nil => exact hw
  | cons a acts ih =>
    apply ih
    · exact fun b hb => hacts b (List.mem_cons_of_mem _ hb)
    · obtain ⟨effs, htrace, hcounts⟩ := a.counts (hacts a List.mem_cons_self) w
      rw [htrace, storedEvents_append]
      exact hcounts _ hw

/-- **Demos count too**: after calls and demos in any order, a call is refused
for too many failures exactly when the failures of its block since the last
`OK`, counted in the trace since the last event of another block, have reached
its limit. Only the call asks its streak, but what demos of the block stored is
counted. -/
theorem refused_after_demos_iff {w : World P} (hw : w.Fresh) (acts : List (Act P))
    (hacts : ∀ a ∈ acts, a.Fits) (c : Call P) (hc : c.block.length ≤ 63) (hbox : c.cfg.blackbox ≠ none) :
    let w' := acts.foldl Act.exec w
    (¬ Invoked (c.effects w') ∧ Quarantined (c.effects w')) ↔
      0 < c.cfg.maxFailures ∧ c.cfg.maxFailures ≤ BitVec.ofNat 32 (failuresSinceOk
        ((ownEvents (some c.block) (storedEvents w'.trace)).map Event.kind)) := by
  have hstart : Tallied w.streaks (storedEvents w.trace) := by
    rw [hw.streaks, hw.trace]
    exact StreakTable.fresh_tallied
  exact (tallied_acts acts hacts hstart).refused_iff hc hbox

/-- The parser's block, with a limit of two failures. -/
def parserCall : Call .host := ⟨.plain (.lit "packet_parser") 2, .ret 0, .quiet⟩

/-- Two demos of the parser that fail. -/
def failedDemos : List (Act .host) :=
  [.demo 0 1 .checkedParserTimeout .quiet, .demo 0 1 (.checkedParser 0 0 100 8 65 11) .quiet]

theorem failedDemos_fit : ∀ a ∈ failedDemos, a.Fits := by
  intro a ha
  simp only [failedDemos, List.mem_cons, List.not_mem_nil, or_false] at ha
  rcases ha with rfl | rfl <;> exact show (blockKey (some (.lit "packet_parser"))).length ≤ 63 by decide

theorem refused_after_demos_iff_failed :
    ¬ Invoked (parserCall.effects (failedDemos.foldl Act.exec (World.start .quiet))) ∧
      Quarantined (parserCall.effects (failedDemos.foldl Act.exec (World.start .quiet))) :=
  (refused_after_demos_iff (World.start_fresh .quiet) failedDemos failedDemos_fit parserCall (by decide)
    (by decide)).mpr (by decide +kernel)

end Loxguard
