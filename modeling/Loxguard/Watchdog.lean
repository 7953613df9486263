/-
# The build with the watchdog library

With the watchdog library built in, `lox_adapter_watchdog_observe_event`, the
kick and the reset call it, and it calls `lox_mwdt_timeout_cb` back when a task
is late or starved. The library is not part of the repository: what each of its
functions returns, and what it calls the callback with meanwhile, is given.

The callback and the kick write the aggregate watchdog state only, and every
getter copies the aggregates from the active slot before it reads them. So in
no sequence of adapter calls, whatever the library does, is any answer another
one than in the default build (`mwdt_transparent`): the library's timeouts are
never seen.

Key definitions: `MwdtCall`, `MwdtStates`, `mwdtTimeoutCb`, `mwdtEnsureInit`,
`watchdogObserveEventMwdt`, `mwdtStep`, `SameBut`.
Key theorems: `sameBut_ensureInit`, `sameBut_observe`, `mwdtStep_sim`,
`mwdt_transparent`.
-/
import Loxguard.Queries
import Mathlib.Data.Stream.Init

namespace Loxguard

open Lib

variable {P : Platform}

/-! ### The library -/

/-- The state of a watched task, as the callback tells them apart. -/
inductive TaskState
  | starved
  | late
  | other

/-- A call of a library function: whether it returned `MWDT_OK`, the index
`mwdt_register` returned, and the events the timeout callback was called with
meanwhile, `none` for a null one. -/
structure MwdtCall where
  isOk : Bool
  index : ℤ
  timeouts : List (Option TaskState)

/-- The block states, with `g_mwdt_ready` and `g_mwdt_idx` and the library
calls to come. -/
structure MwdtStates where
  blocks : BlockStates
  ready : Bool
  idx : ℤ
  library : Stream' MwdtCall

/-- The state of a fresh process. -/
def MwdtStates.fresh (library : Stream' MwdtCall) : MwdtStates := ⟨.fresh, false, -1, library⟩

/-- `g_watchdog_state` is written. -/
def BlockStates.setWatchdog (t : BlockStates) (state : ℤ) : BlockStates :=
  { t with codes := { t.codes with watchdogState := state } }

/-- `lox_mwdt_timeout_cb`. -/
def mwdtTimeoutCb (t : BlockStates) : Option TaskState → BlockStates
  | none => t
  | some .starved => t.setWatchdog 2
  | some .late => if t.codes.watchdogState < 2 then t.setWatchdog 1 else t
  | some .other => t

/-- A library function is called. -/
def MwdtStates.call (s : MwdtStates) : MwdtCall × MwdtStates :=
  (s.library.head,
    { s with
      blocks := s.library.head.timeouts.foldl mwdtTimeoutCb s.blocks
      library := s.library.tail })

/-- `lox_mwdt_ensure_init`. -/
def mwdtEnsureInit (s : MwdtStates) : MwdtStates :=
  if s.ready then s
  else
    let (init, s) := s.call
    if !init.isOk then s
    else
      let (_, s) := s.call
      let (register, s) := s.call
      let s := { s with idx := register.index }
      if register.index < 0 then s else { s with ready := true }

/-! ### The operations that call it -/

/-- `lox_adapter_watchdog_kick`. -/
def watchdogKickMwdt (s : MwdtStates) : MwdtStates :=
  let s := mwdtEnsureInit s
  if s.ready then
    let (_, s) := s.call
    { s with blocks := s.blocks.setWatchdog 0 }
  else s

/-- A slot's watchdog state is set. -/
def MwdtStates.setSlot (s : MwdtStates) (slot : BlockPtr) (state : ℤ) : MwdtStates :=
  { s with
    blocks := refreshAggregateStates
      (s.blocks.write slot { s.blocks.read slot with watchdogState := state }) }

/-- The end of `lox_adapter_watchdog_observe_event`, which both builds have. -/
def MwdtStates.observeSlot (s : MwdtStates) (slot : BlockPtr) (kind : EventKind) : MwdtStates :=
  let t := match kind with
    | .blockTimeout => s.blocks.write slot { s.blocks.read slot with watchdogState := 1 }
    | .blockError | .blockWriteOutOfBounds | .blockArenaOverflow | .blockMemoryFault =>
      s.blocks.write slot { s.blocks.read slot with watchdogState := 2 }
    | .blockEntered | .blockOk => s.blocks.write slot { s.blocks.read slot with watchdogState := 0 }
    | _ => s.blocks
  { s with blocks := refreshAggregateStates t }

/-- `lox_adapter_watchdog_observe_event`, with an event that is not null. -/
def watchdogObserveEventMwdt (s : MwdtStates) (event : ExtEvent P) : MwdtStates :=
  let (t, slot) := blockStateGet s.blocks event.blockName
  let s := mwdtEnsureInit { s with blocks := t }
  if s.ready then
    match event.kind with
    | .blockEntered | .blockOk =>
      let (_, s) := s.call
      s.setSlot slot 0
    -- returns before the aggregates are refreshed
    | .blockCompleted => s
    | .blockTimeout => s.setSlot slot 1
    | .blockError | .blockWriteOutOfBounds | .blockArenaOverflow | .blockMemoryFault => s.setSlot slot 2
    | _ => s.observeSlot slot event.kind
  else s.observeSlot slot event.kind

/-- `lox_adapter_watchdog_reset`. -/
def watchdogResetMwdt (s : MwdtStates) : MwdtStates :=
  let s := { s with blocks := watchdogReset s.blocks }
  if s.ready ∧ 0 ≤ s.idx then
    let (_, s) := s.call
    s
  else s

/-- An operation of the adapters in the build with the library. -/
def mwdtStep (s : MwdtStates) : AdapterOp P → Returned × MwdtStates
  | .block (.watchdogObserveEvent (some event)) => (none, watchdogObserveEventMwdt s event)
  | .block .watchdogReset => (none, watchdogResetMwdt s)
  | .watchdogKick => (none, watchdogKickMwdt s)
  | op => ((op.step s.blocks).1, { s with blocks := (op.step s.blocks).2 })

/-! ### The aggregates are all the library touches -/

/-- The same but for the aggregates. -/
def SameBut (t t' : BlockStates) : Prop := ∃ codes, t' = { t with codes }

section SameBut

variable {t t' t'' : BlockStates}

theorem SameBut.refl (t : BlockStates) : SameBut t t := ⟨t.codes, rfl⟩

theorem SameBut.trans (h : SameBut t t') (h' : SameBut t' t'') : SameBut t t'' := by
  obtain ⟨codes, rfl⟩ := h
  obtain ⟨codes', rfl⟩ := h'
  exact ⟨codes', rfl⟩

/-- Which codes the aggregates are copied from does not depend on them. -/
theorem SameBut.alike (h : SameBut t t') : Alike t' t := by
  obtain ⟨codes, rfl⟩ := h
  exact ⟨rfl, rfl⟩

theorem SameBut.refresh_eq (h : SameBut t t') : refreshAggregateStates t' = refreshAggregateStates t := by
  obtain ⟨codes, rfl⟩ := h
  rw [refreshAggregateStates_eq, refreshAggregateStates_eq]
  rfl

theorem sameBut_refresh (t : BlockStates) : SameBut (refreshAggregateStates t) t :=
  ⟨t.codes, by rw [refreshAggregateStates_eq]⟩

theorem SameBut.read_eq (h : SameBut t t') (p : BlockPtr) : t'.read p = t.read p := by
  obtain ⟨codes, rfl⟩ := h
  cases p <;> rfl

theorem SameBut.write (h : SameBut t t') (p : BlockPtr) (codes : BlockCodes) :
    SameBut (t.write p codes) (t'.write p codes) := by
  obtain ⟨aggregates, rfl⟩ := h
  exact ⟨aggregates, by cases p <;> rfl⟩

theorem SameBut.setSlot {s : MwdtStates} (h : SameBut t s.blocks) (slot : BlockPtr) (state : ℤ) :
    (s.setSlot slot state).blocks =
      refreshAggregateStates (t.write slot { t.read slot with watchdogState := state }) := by
  unfold MwdtStates.setSlot
  rw [h.read_eq]
  exact (h.write slot _).refresh_eq

end SameBut

theorem sameBut_timeoutCb (t : BlockStates) (event : Option TaskState) :
    SameBut t (mwdtTimeoutCb t event) := by
  unfold mwdtTimeoutCb
  split
  · exact .refl t
  · exact ⟨_, rfl⟩
  · split
    · exact ⟨_, rfl⟩
    · exact .refl t
  · exact .refl t

/-- **A library call** changes the aggregates at most. -/
theorem sameBut_call (s : MwdtStates) : SameBut s.blocks s.call.2.blocks := by
  suffices hall : ∀ (events : List (Option TaskState)) (t : BlockStates),
      SameBut t (events.foldl mwdtTimeoutCb t) from hall _ _
  intro events
  induction events with
  | nil => exact SameBut.refl
  | cons event events ih => exact fun t => (sameBut_timeoutCb t event).trans (ih _)

theorem sameBut_ensureInit (s : MwdtStates) : SameBut s.blocks (mwdtEnsureInit s).blocks := by
  have hinit := sameBut_call s
  have hregister := (hinit.trans (sameBut_call _)).trans (sameBut_call s.call.2.call.2)
  unfold mwdtEnsureInit
  dsimp only
  split
  · exact .refl _
  · split
    · exact hinit
    · split
      · exact hregister
      · exact hregister

/-- **An event** is observed as in the default build, but for the aggregates
after `COMPLETED`. -/
theorem sameBut_observe (s : MwdtStates) (event : ExtEvent P) :
    SameBut (watchdogObserveEvent s.blocks event) (watchdogObserveEventMwdt s event).blocks := by
  let found := blockStateGet s.blocks event.blockName
  let ready := mwdtEnsureInit { s with blocks := found.1 }
  have hready : SameBut found.1 ready.blocks := sameBut_ensureInit { s with blocks := found.1 }
  have hcalled : SameBut found.1 ready.call.2.blocks := hready.trans (sameBut_call ready)
  have hslot : SameBut (watchdogObserveEvent s.blocks event)
      (ready.observeSlot found.2 event.kind).blocks := by
    have hwrite := fun codes => (hready.write found.2 codes).refresh_eq
    unfold watchdogObserveEvent MwdtStates.observeSlot
    dsimp only
    rw [hready.read_eq]
    cases event.kind <;> simp only [hwrite, hready.refresh_eq] <;> exact .refl _
  have hobserve : watchdogObserveEventMwdt s event =
      if ready.ready then
        match event.kind with
        | .blockEntered | .blockOk => ready.call.2.setSlot found.2 0
        | .blockCompleted => ready
        | .blockTimeout => ready.setSlot found.2 1
        | .blockError | .blockWriteOutOfBounds | .blockArenaOverflow | .blockMemoryFault =>
          ready.setSlot found.2 2
        | _ => ready.observeSlot found.2 event.kind
      else ready.observeSlot found.2 event.kind := rfl
  rw [hobserve]
  split
  · have hset : ∀ {s' : MwdtStates}, SameBut found.1 s'.blocks → ∀ state, SameBut
        (refreshAggregateStates
          (found.1.write found.2 { found.1.read found.2 with watchdogState := state }))
        (s'.setSlot found.2 state).blocks := fun h state => by
      rw [h.setSlot]
      exact .refl _
    unfold watchdogObserveEvent at hslot ⊢
    generalize event.kind = kind at hslot ⊢
    cases kind with
    | blockEntered => exact hset hcalled 0
    | blockOk => exact hset hcalled 0
    | blockCompleted => exact (sameBut_refresh _).trans hready
    | blockTimeout => exact hset hready 1
    | blockError => exact hset hready 2
    | blockWriteOutOfBounds => exact hset hready 2
    | blockArenaOverflow => exact hset hready 2
    | blockMemoryFault => exact hset hready 2
    | blockPanic => exact hslot
    | blockFault => exact hslot
    | blockUnsupported => exact hslot
    | none => exact hslot
  · exact hslot

/-! ### The two builds side by side -/

/-- **An operation** answers as in the default build, and leaves the block
states as it does but for the aggregates. -/
theorem mwdtStep_sim (s : MwdtStates) (op : AdapterOp P) :
    (mwdtStep s op).1 = (op.step s.blocks).1 ∧
      SameBut (op.step s.blocks).2 (mwdtStep s op).2.blocks := by
  cases op with
  | block op =>
    cases op with
    | watchdogObserveEvent event =>
      cases event with
      | none => exact ⟨rfl, .refl _⟩
      | some event => exact ⟨rfl, sameBut_observe s event⟩
    | watchdogReset =>
      refine ⟨rfl, ?_⟩
      unfold mwdtStep watchdogResetMwdt
      dsimp only
      split
      · exact sameBut_call { s with blocks := watchdogReset s.blocks }
      · exact .refl _
    | healthSetForBlock => exact ⟨rfl, .refl _⟩
    | recoveryReset => exact ⟨rfl, .refl _⟩
    | healthGetForBlock => exact ⟨rfl, .refl _⟩
    | watchdogStateGetForBlock => exact ⟨rfl, .refl _⟩
    | recoveryStateGetForBlock => exact ⟨rfl, .refl _⟩
  | watchdogKick =>
    refine ⟨rfl, ?_⟩
    have hready := sameBut_ensureInit s
    unfold mwdtStep watchdogKickMwdt
    dsimp only
    split
    · exact (hready.trans (sameBut_call _)).trans ⟨_, rfl⟩
    · exact hready
  | healthGet => exact ⟨rfl, .refl _⟩
  | watchdogStateGet => exact ⟨rfl, .refl _⟩
  | recoveryStateGet => exact ⟨rfl, .refl _⟩
  | recoveryAllowAttemptForBlock => exact ⟨rfl, .refl _⟩
  | recoveryReportResultForBlock => exact ⟨rfl, .refl _⟩
  | logEvent => exact ⟨rfl, .refl _⟩

/-- **The watchdog library is never seen.** Whatever the library returns and
whenever it calls the timeout callback, every sequence of adapter calls is
answered as in the default build. -/
theorem mwdt_transparent (library : Stream' MwdtCall) (ops : List (AdapterOp P)) :
    (Runs.run mwdtStep (.fresh library) ops).1 = (Runs.run AdapterOp.step .fresh ops).1 := by
  have hstep : ∀ op ∈ ops, ∀ (s : MwdtStates) (t : BlockStates), Alike s.blocks t →
      (mwdtStep s op).1 = (op.step t).1 ∧ Alike (mwdtStep s op).2.blocks (op.step t).2 := by
    intro op _ s t h
    obtain ⟨hout, hsame⟩ := mwdtStep_sim s op
    obtain ⟨hout', halike⟩ := h.step op
    exact ⟨hout.trans hout', hsame.alike.trans halike⟩
  exact (Runs.run_simulates ops (.fresh library) .fresh hstep ⟨rfl, rfl⟩).1

end Loxguard
