/-
# The build with the breaker library

With the breaker library built in, every slot of the block states has a
breaker, made when it is first asked. The library is not part of the
repository; its functions are given. Making a breaker may fail; then it is
tried again the next time, and until it succeeds every attempt is allowed and
the recovery state is left as it is. A slot that is claimed, or an overflow
slot that is taken over, has no breaker made yet.

An attempt is refused exactly when the breaker is open and time remains
(`allowAttemptRes_eq`), so a run is one whose answers are given, none where
there is no breaker, and a refusal leaves recovery state 1
(`breaker_refines_answers`). With at most eight names that fit, and breakers
that can be made, they stand for one breaker a block, which no other block's
attempts, reports or lookups reach (`breakers_refine_map`).

Key definitions: `BreakerLib`, `BreakerSlot`, `ResStates`, `mresEnsureInit`,
`blockStateGetRes`, `allowAttemptRes`, `reportResultRes`, `ResOp`,
`BreakersFor`, `SimulatesRes`.
Key theorems: `breaker_refines_answers`, `SimulatesRes.get`,
`SimulatesRes.step`, `breakers_refine_map`.
-/
import Loxguard.BlockTable

namespace Loxguard

open Lib

variable {P : Platform} {β : Type}

/-! ### The library -/

/-- `mres_breaker_state_t`. -/
inductive BreakerState
  | closed
  | isOpen
  | halfOpen
deriving DecidableEq

/-- The recovery state a breaker's state is copied to. -/
def BreakerState.code : BreakerState → ℤ
  | .closed => 0
  | .isOpen => 1
  | .halfOpen => 2

/-- The breaker library, with breakers of type `β`: the breaker of zero bytes;
`mres_breaker_init` with the policy, which says whether it returned `MRES_OK`
and what it made of the breaker; the queries, which take a constant breaker
and the clock; the reports and the reset. -/
structure BreakerLib (β : Type) where
  zero : β
  init : β → Bool × β
  state : β → BreakerState
  remainingMs : β → BitVec 32 → ℕ
  reportSuccess : β → β
  reportFailure : β → BitVec 32 → β
  reset : β → β

/-- The part of `lox_adapter_block_state_t` that only this build has. -/
structure BreakerSlot (β : Type) where
  breaker : β
  ready : Bool

/-- The block states with their breakers. -/
structure ResStates (β : Type) where
  blocks : BlockStates
  breakers : BlockPtr → BreakerSlot β

/-- A slot's breaker is replaced. -/
def ResStates.setBreaker (s : ResStates β) (slot : BlockPtr) (breaker : BreakerSlot β) : ResStates β :=
  { s with breakers := Function.update s.breakers slot breaker }

/-! ### The operations -/

/-- `lox_block_state_get`: a slot that was not found has no breaker yet. -/
def blockStateGetRes (s : ResStates β) (blockName : Option CStr) : ResStates β × BlockPtr :=
  let key := blockKey blockName
  let found := (findBlock s.blocks key (hashBlockName (some key)) (List.finRange 8) none).1
  let (blocks, slot) := blockStateGet s.blocks blockName
  let breakers :=
    if found.isSome then s.breakers
    else Function.update s.breakers slot { s.breakers slot with ready := false }
  (⟨blocks, breakers⟩, slot)

variable (lib : BreakerLib β)

/-- The state of a fresh process. -/
def ResStates.fresh : ResStates β := ⟨.fresh, fun _ => ⟨lib.zero, false⟩⟩

/-- `lox_mres_ensure_init`. -/
def mresEnsureInit (slot : BreakerSlot β) : BreakerSlot β :=
  if slot.ready then slot
  else
    let (isOk, breaker) := lib.init slot.breaker
    if !isOk then { slot with breaker } else ⟨breaker, true⟩

/-- `lox_sync_recovery_state`. -/
def syncRecoveryStateRes (s : ResStates β) (slot : BlockPtr) : ResStates β :=
  if !(s.breakers slot).ready then s
  else
    { s with
      blocks := refreshAggregateStates (s.blocks.write slot
        { s.blocks.read slot with recoveryState := (lib.state (s.breakers slot).breaker).code }) }

/-- `lox_adapter_recovery_allow_attempt_for_block`. -/
def allowAttemptRes (s : ResStates β) (blockName : Option CStr) (now : BitVec 32) :
    Bool × ResStates β :=
  let (s, slot) := blockStateGetRes s blockName
  let s := s.setBreaker slot (mresEnsureInit lib (s.breakers slot))
  if (s.breakers slot).ready then
    if lib.state (s.breakers slot).breaker = .isOpen ∧
        0 < lib.remainingMs (s.breakers slot).breaker now then
      (false, syncRecoveryStateRes lib s slot)
    else (true, syncRecoveryStateRes lib s slot)
  else (true, s)

/-- `lox_adapter_recovery_report_result_for_block`. -/
def reportResultRes (s : ResStates β) (blockName : Option CStr) (success : ℤ) (now : BitVec 32) :
    ResStates β :=
  let (s, slot) := blockStateGetRes s blockName
  let s := s.setBreaker slot (mresEnsureInit lib (s.breakers slot))
  if (s.breakers slot).ready then
    let breaker := (s.breakers slot).breaker
    let breaker := if success ≠ 0 then lib.reportSuccess breaker else lib.reportFailure breaker now
    syncRecoveryStateRes lib (s.setBreaker slot ⟨breaker, true⟩) slot
  else s

/-- The body of the loop of `lox_adapter_recovery_reset` for a slot in use. -/
def resetBreaker (slot : BreakerSlot β) : BreakerSlot β :=
  let slot := mresEnsureInit lib slot
  if slot.ready then { slot with breaker := lib.reset slot.breaker } else slot

/-- `lox_adapter_recovery_reset`: the overflow slot is cleared, and the
breakers of the slots in use are made and reset. -/
def recoveryResetRes (s : ResStates β) : ResStates β :=
  let blocks := recoveryReset s.blocks
  ⟨blocks, fun
    | none => ⟨lib.zero, false⟩
    | some i =>
      if (blocks.slots i).inUse then resetBreaker lib (s.breakers (some i)) else s.breakers (some i)⟩

/-- `lox_adapter_watchdog_reset`: the overflow slot is cleared. -/
def watchdogResetRes (s : ResStates β) : ResStates β :=
  ⟨watchdogReset s.blocks, Function.update s.breakers none ⟨lib.zero, false⟩⟩

/-- An operation on the block states and the breakers. -/
inductive ResOp (P : Platform)
  | block (op : BlockOp P)
  | allowAttempt (blockName : Option CStr) (now : BitVec 32)
  | reportResult (blockName : Option CStr) (success : ℤ) (now : BitVec 32)

/-- The block name an operation of one block is called with. -/
def BlockOp.name? : BlockOp P → Option (Option CStr)
  | .healthSetForBlock blockName _ | .healthGetForBlock blockName | .watchdogStateGetForBlock blockName
  | .recoveryStateGetForBlock blockName => some blockName
  | .watchdogObserveEvent event => event.map Event.blockName
  | .watchdogReset | .recoveryReset => none

/-- An operation: what it returns, and the state after it. -/
def ResOp.step (s : ResStates β) : ResOp P → Returned × ResStates β
  | .allowAttempt blockName now =>
    (some (if (allowAttemptRes lib s blockName now).1 then 1 else 0),
      (allowAttemptRes lib s blockName now).2)
  | .reportResult blockName success now => (none, reportResultRes lib s blockName success now)
  | .block .recoveryReset => (none, recoveryResetRes lib s)
  | .block .watchdogReset => (none, watchdogResetRes lib s)
  | .block op =>
    ((op.step s.blocks).1,
      ⟨(op.step s.blocks).2,
        match op.name? with
        | some blockName => (blockStateGetRes s blockName).1.breakers
        | none => s.breakers⟩)

/-! ### The answers of a breaker -/

/-- What a breaker that is there answers before a block is called. -/
def BreakerSlot.answer (slot : BreakerSlot β) (now : BitVec 32) : Option BreakerAnswer :=
  if slot.ready then
    some ⟨!decide (lib.state slot.breaker = .isOpen ∧ 0 < lib.remainingMs slot.breaker now),
      (lib.state slot.breaker).code⟩
  else none

/-- A breaker that is there is told how a block went. -/
def BreakerSlot.told (slot : BreakerSlot β) (success : ℤ) (now : BitVec 32) : BreakerSlot β :=
  if slot.ready then
    { slot with
      breaker := if success ≠ 0 then lib.reportSuccess slot.breaker else lib.reportFailure slot.breaker now }
  else slot

/-- The recovery state a block has after its breaker was told. -/
def BreakerSlot.toldAnswer (slot : BreakerSlot β) : Option BreakerAnswer :=
  if slot.ready then some ⟨true, (lib.state slot.breaker).code⟩ else none

/-- `lox_adapter_recovery_allow_attempt_for_block` with the answer given, `none`
when there is no breaker to ask. -/
def allowAttemptAnswered (t : BlockStates) (blockName : Option CStr) (answer : Option BreakerAnswer) :
    Bool × BlockStates :=
  match answer with
  | none => (true, (blockStateGet t blockName).1)
  | some answer => recoveryAllowAttemptForBlock t blockName (some answer)

/-- `lox_adapter_recovery_report_result_for_block` with the answer given. -/
def reportResultAnswered (t : BlockStates) (blockName : Option CStr) (answer : Option BreakerAnswer) :
    BlockStates :=
  match answer with
  | none => (blockStateGet t blockName).1
  | some answer => recoveryReportResultForBlock t blockName (some answer)

section Answers

variable (s : ResStates β) (blockName : Option CStr)

/-- The breaker of a block when it is asked or told. -/
def breakerOf : BreakerSlot β :=
  mresEnsureInit lib ((blockStateGetRes s blockName).1.breakers (blockStateGetRes s blockName).2)

/-- The breakers after the breaker of a block was replaced. -/
def breakersWith (slot : BreakerSlot β) : BlockPtr → BreakerSlot β :=
  Function.update (blockStateGetRes s blockName).1.breakers (blockStateGetRes s blockName).2 slot

@[simp] theorem setBreaker_breakers (s : ResStates β) (slot : BlockPtr) (breaker : BreakerSlot β) :
    (s.setBreaker slot breaker).breakers slot = breaker := Function.update_self ..

theorem setBreaker_setBreaker (s : ResStates β) (slot : BlockPtr) (b b' : BreakerSlot β) :
    (s.setBreaker slot b).setBreaker slot b' = s.setBreaker slot b' := by
  simp only [ResStates.setBreaker, Function.update_idem]

theorem syncRecoveryStateRes_eq {s : ResStates β} {slot : BlockPtr} {breaker : BreakerSlot β}
    (h : breaker.ready = true) (allowed : Bool) :
    syncRecoveryStateRes lib (s.setBreaker slot breaker) slot =
      ⟨syncRecoveryState s.blocks slot ⟨allowed, (lib.state breaker.breaker).code⟩,
        Function.update s.breakers slot breaker⟩ := by
  unfold syncRecoveryStateRes
  rw [setBreaker_breakers, h]
  rfl

/-- **An attempt** is refused when the breaker is open and time remains. -/
theorem allowAttemptRes_eq (now : BitVec 32) :
    let slot := breakerOf lib s blockName
    let attempt := allowAttemptAnswered s.blocks blockName (slot.answer lib now)
    allowAttemptRes lib s blockName now = (attempt.1, ⟨attempt.2, breakersWith s blockName slot⟩) := by
  intro slot attempt
  let found := blockStateGetRes s blockName
  have hattempt : allowAttemptRes lib s blockName now =
      if slot.ready then
        if lib.state slot.breaker = .isOpen ∧ 0 < lib.remainingMs slot.breaker now then
          (false, syncRecoveryStateRes lib (found.1.setBreaker found.2 slot) found.2)
        else (true, syncRecoveryStateRes lib (found.1.setBreaker found.2 slot) found.2)
      else (true, found.1.setBreaker found.2 slot) := by
    unfold allowAttemptRes
    simp only [setBreaker_breakers]
    rfl
  rw [hattempt]
  by_cases hready : slot.ready = true
  · rw [if_pos hready]
    have hanswer : attempt = allowAttemptAnswered s.blocks blockName (some ⟨_, _⟩) :=
      congrArg (allowAttemptAnswered s.blocks blockName) (if_pos hready)
    rw [hanswer]
    by_cases hrefused : lib.state slot.breaker = .isOpen ∧ 0 < lib.remainingMs slot.breaker now
    · rw [if_pos hrefused, syncRecoveryStateRes_eq lib hready false]
      simp only [hrefused]
      rfl
    · rw [if_neg hrefused, syncRecoveryStateRes_eq lib hready true]
      simp only [hrefused]
      rfl
  · rw [if_neg hready]
    have hanswer : attempt = allowAttemptAnswered s.blocks blockName none :=
      congrArg (allowAttemptAnswered s.blocks blockName) (if_neg hready)
    rw [hanswer]
    rfl

/-- **A report** tells the breaker of the block. -/
theorem reportResultRes_eq (success : ℤ) (now : BitVec 32) :
    let slot := (breakerOf lib s blockName).told lib success now
    reportResultRes lib s blockName success now =
      ⟨reportResultAnswered s.blocks blockName (slot.toldAnswer lib), breakersWith s blockName slot⟩ := by
  let found := blockStateGetRes s blockName
  let asked := breakerOf lib s blockName
  let breaker := if success ≠ 0 then lib.reportSuccess asked.breaker else lib.reportFailure asked.breaker now
  have hreport : reportResultRes lib s blockName success now =
      if asked.ready then syncRecoveryStateRes lib (found.1.setBreaker found.2 ⟨breaker, true⟩) found.2
      else found.1.setBreaker found.2 asked := by
    unfold reportResultRes
    simp only [setBreaker_breakers, setBreaker_setBreaker]
    rfl
  intro slot
  rw [hreport]
  by_cases hready : asked.ready = true
  · have htold : slot = ⟨breaker, true⟩ := by
      simp only [slot, BreakerSlot.told]
      rw [if_pos hready]
      exact congrArg (BreakerSlot.mk breaker) hready
    rw [if_pos hready, syncRecoveryStateRes_eq lib rfl true, htold]
    rfl
  · have htold : slot = asked := if_neg hready
    have hanswer : slot.toldAnswer lib = none := by
      rw [htold]
      exact if_neg hready
    rw [if_neg hready, hanswer, htold]
    rfl

end Answers

/-- An operation with the answer of the breaker given, if it asks one and there
is one. -/
def ResOp.answeredStep (t : BlockStates) : ResOp P × Option BreakerAnswer → Returned × BlockStates
  | (.block op, _) => op.step t
  | (.allowAttempt blockName _, answer) =>
    let (allowed, t) := allowAttemptAnswered t blockName answer
    (some (if allowed then 1 else 0), t)
  | (.reportResult blockName _ _, answer) => (none, reportResultAnswered t blockName answer)

/-- When an attempt is refused, the breaker is open. -/
def SoundAnswer (answer : Option BreakerAnswer) : Prop :=
  ∀ a, answer = some a → a.allowed = false → a.state = 1

theorem soundAnswer_answer (slot : BreakerSlot β) (now : BitVec 32) :
    SoundAnswer (slot.answer lib now) := by
  unfold BreakerSlot.answer
  split
  · rintro a ⟨⟩ hrefused
    have hopen : lib.state slot.breaker = .isOpen ∧ 0 < lib.remainingMs slot.breaker now := by
      simpa using hrefused
    exact congrArg BreakerState.code hopen.1
  · rintro a ⟨⟩

theorem soundAnswer_toldAnswer (slot : BreakerSlot β) : SoundAnswer (slot.toldAnswer lib) := by
  unfold BreakerSlot.toldAnswer
  split
  · rintro a ⟨⟩ hrefused
    cases hrefused
  · rintro a ⟨⟩

/-- The operation asks a breaker or tells it something. -/
def ResOp.Asks : ResOp P → Prop
  | .block _ => False
  | .allowAttempt _ _ | .reportResult _ _ _ => True

theorem ready_ensureInit {lib : BreakerLib β} (hinit : ∀ b, (lib.init b).1 = true) (slot : BreakerSlot β) :
    (mresEnsureInit lib slot).ready = true := by
  unfold mresEnsureInit
  by_cases hready : slot.ready = true
  · rw [if_pos hready]
    exact hready
  · rw [if_neg hready]
    simp only [hinit slot.breaker, Bool.not_true, Bool.false_eq_true, if_false]

/-- A step is one with an answer given, and there is one if breakers can be
made. -/
theorem ResOp.step_answered (s : ResStates β) (op : ResOp P) : ∃ answer : Option BreakerAnswer,
    SoundAnswer answer ∧ ((∀ b, (lib.init b).1 = true) → op.Asks → answer.isSome) ∧
      (op.step lib s).1 = (answeredStep s.blocks (op, answer)).1 ∧
      (op.step lib s).2.blocks = (answeredStep s.blocks (op, answer)).2 := by
  cases op with
  | block op =>
    refine ⟨none, nofun, fun _ hasks => hasks.elim, ?_⟩
    cases op with
    | watchdogObserveEvent event => cases event <;> exact ⟨rfl, rfl⟩
    | watchdogReset => exact ⟨rfl, rfl⟩
    | recoveryReset => exact ⟨rfl, rfl⟩
    | healthSetForBlock => exact ⟨rfl, rfl⟩
    | healthGetForBlock => exact ⟨rfl, rfl⟩
    | watchdogStateGetForBlock => exact ⟨rfl, rfl⟩
    | recoveryStateGetForBlock => exact ⟨rfl, rfl⟩
  | allowAttempt blockName now =>
    refine ⟨_, soundAnswer_answer lib (breakerOf lib s blockName) now, fun hinit _ => ?_, ?_, ?_⟩
    · have hready : (breakerOf lib s blockName).ready = true := ready_ensureInit hinit _
      rw [BreakerSlot.answer, if_pos hready]
      rfl
    · rw [ResOp.step, allowAttemptRes_eq]
      rfl
    · rw [ResOp.step, allowAttemptRes_eq]
      rfl
  | reportResult blockName success now =>
    refine ⟨_, soundAnswer_toldAnswer lib ((breakerOf lib s blockName).told lib success now),
      fun hinit _ => ?_, rfl, ?_⟩
    · have hready : (breakerOf lib s blockName).ready = true := ready_ensureInit hinit _
      rw [BreakerSlot.told, if_pos hready, BreakerSlot.toldAnswer, if_pos hready]
      rfl
    · rw [ResOp.step, reportResultRes_eq]
      rfl

/-- **Whatever the breaker library makes of its breakers**, a run of operations
is one with answers given, of which every refusal comes with recovery state 1,
an open breaker. An operation that asks goes without an answer only where a
breaker could not be made. -/
theorem breaker_refines_answers (ops : List (ResOp P)) : ∃ answers : List (Option BreakerAnswer),
    answers.length = ops.length ∧ (∀ answer ∈ answers, SoundAnswer answer) ∧
      ((∀ b, (lib.init b).1 = true) → ∀ p ∈ ops.zip answers, p.1.Asks → p.2.isSome) ∧
      (Runs.run (ResOp.step lib) (.fresh lib) ops).1 =
        (Runs.run ResOp.answeredStep .fresh (ops.zip answers)).1 ∧
      (Runs.run (ResOp.step lib) (.fresh lib) ops).2.blocks =
        (Runs.run ResOp.answeredStep .fresh (ops.zip answers)).2 := by
  suffices hall : ∀ (ops : List (ResOp P)) (s : ResStates β), ∃ answers : List (Option BreakerAnswer),
      answers.length = ops.length ∧ (∀ answer ∈ answers, SoundAnswer answer) ∧
      ((∀ b, (lib.init b).1 = true) → ∀ p ∈ ops.zip answers, p.1.Asks → p.2.isSome) ∧
      (Runs.run (ResOp.step lib) s ops).1 =
        (Runs.run ResOp.answeredStep s.blocks (ops.zip answers)).1 ∧
      (Runs.run (ResOp.step lib) s ops).2.blocks =
        (Runs.run ResOp.answeredStep s.blocks (ops.zip answers)).2 from hall ops (.fresh lib)
  intro ops
  induction ops with
  | nil =>
    exact fun s => ⟨[], rfl, fun _ h => absurd h List.not_mem_nil, fun _ _ h => absurd h List.not_mem_nil,
      rfl, rfl⟩
  | cons op ops ih =>
    intro s
    obtain ⟨answer, hsound, hasked, hout, hblocks⟩ := op.step_answered lib s
    obtain ⟨answers, hlen, hsounds, haskeds, houts, hlast⟩ := ih (op.step lib s).2
    rw [hblocks] at houts hlast
    refine ⟨answer :: answers, congrArg (· + 1) hlen, List.forall_mem_cons.mpr ⟨hsound, hsounds⟩, ?_, ?_,
      hlast⟩
    · rw [List.zip_cons_cons]
      exact fun hinit => List.forall_mem_cons.mpr ⟨hasked hinit, haskeds hinit⟩
    · rw [Runs.run, List.zip_cons_cons, Runs.run, houts, hout]

/-! ### One breaker a block -/

/-- An operation on a plain map from names to codes and one from names to
breakers. -/
def ResOp.mapStep (m : (CStr → BlockCodes) × (CStr → β)) :
    ResOp P → Returned × ((CStr → BlockCodes) × (CStr → β))
  | .allowAttempt blockName now =>
    let key := blockKey blockName
    let state := lib.state (m.2 key)
    (some (if state = .isOpen ∧ 0 < lib.remainingMs (m.2 key) now then 0 else 1),
      (Function.update m.1 key { m.1 key with recoveryState := state.code }, m.2))
  | .reportResult blockName success now =>
    let key := blockKey blockName
    let breaker := if success ≠ 0 then lib.reportSuccess (m.2 key) else lib.reportFailure (m.2 key) now
    (none, (Function.update m.1 key { m.1 key with recoveryState := (lib.state breaker).code },
      Function.update m.2 key breaker))
  | .block .recoveryReset =>
    (none, ((BlockOp.mapStep (P := P) m.1 .recoveryReset).2, fun key => lib.reset (m.2 key)))
  | .block op => ((op.mapStep m.1).1, ((op.mapStep m.1).2, m.2))

/-- The operation is of no block but one of `names`. -/
def ResOp.Within (names : Finset CStr) : ResOp P → Prop
  | .block op => op.Within names
  | .allowAttempt blockName _ | .reportResult blockName _ _ => blockKey blockName ∈ names

/-- The breaker a slot has, or gets when it is asked. -/
def BreakerSlot.made (new : β) (slot : BreakerSlot β) : β := if slot.ready then slot.breaker else new

theorem mresEnsureInit_eq {lib : BreakerLib β} {new : β} (hinit : ∀ b, lib.init b = (true, new))
    (slot : BreakerSlot β) : mresEnsureInit lib slot = ⟨slot.made new, true⟩ := by
  obtain ⟨breaker, ready⟩ := slot
  cases ready with
  | true => rfl
  | false =>
    simp only [mresEnsureInit, hinit breaker]
    rfl

/-- The breakers of the slots stand for the breakers of the blocks they
hold. -/
structure BreakersFor (new : β) (t : BlockStates) (breakers : BlockPtr → BreakerSlot β) (b : CStr → β) :
    Prop where
  held : ∀ {i key}, SlotTable.Holds t.entries key i → (breakers (some i)).made new = b key
  free : ∀ {key}, (∀ i, ¬ SlotTable.Holds t.entries key i) → b key = new

theorem holds_iff (t : BlockStates) (key : CStr) (i : Fin 8) :
    SlotTable.Holds t.entries key i ↔ (t.slots i).inUse = true ∧ (t.slots i).blockName.text = key := by
  constructor
  · rintro ⟨codes, hentry⟩
    obtain ⟨huse, hname, -⟩ := entry_eq_some.mp hentry
    exact ⟨huse, hname⟩
  · rintro ⟨huse, hname⟩
    exact ⟨_, entry_eq_some.mpr ⟨huse, hname, rfl⟩⟩

theorem holds_modifyBlock (t : BlockStates) (blockName : Option CStr) (f : BlockCodes → BlockCodes)
    (key : CStr) (i : Fin 8) : SlotTable.Holds (modifyBlock t blockName f).entries key i ↔
      SlotTable.Holds (blockStateGet t blockName).1.entries key i := by
  have hslot : ∀ (t : BlockStates) (p : BlockPtr) (codes : BlockCodes),
      ((t.write p codes).slots i).inUse = (t.slots i).inUse ∧
        ((t.write p codes).slots i).blockName = (t.slots i).blockName := by
    intro t p codes
    cases p with
    | none => exact ⟨rfl, rfl⟩
    | some j =>
      simp only [BlockStates.write, BlockStates.setSlot, BlockStates.slot, Function.update_apply]
      split
      · rename_i hij
        rw [hij]
        exact ⟨rfl, rfl⟩
      · exact ⟨rfl, rfl⟩
  rw [holds_iff, holds_iff, modifyBlock]
  simp only [refresh_slots, hslot]

theorem holds_resetBlockStates (t : BlockStates) (f : BlockCodes → BlockCodes) (key : CStr) (i : Fin 8) :
    SlotTable.Holds (resetBlockStates t f).entries key i ↔ SlotTable.Holds t.entries key i := by
  rw [holds_iff, holds_iff, resetBlockStates]
  simp only [refresh_slots]
  split <;> exact Iff.rfl

section BreakersFor

variable {new : β} {t t' : BlockStates} {breakers : BlockPtr → BreakerSlot β} {b : CStr → β}

theorem BreakersFor.congr (h : BreakersFor new t breakers b)
    (hholds : ∀ key i, SlotTable.Holds t'.entries key i ↔ SlotTable.Holds t.entries key i) :
    BreakersFor new t' breakers b where
  held hi := h.held ((hholds _ _).mp hi)
  free hno := h.free fun i hi => hno i ((hholds _ _).mpr hi)

theorem BreakersFor.set (h : BreakersFor new t breakers b)
    (hinj : ∀ {i j key}, SlotTable.Holds t.entries key i → SlotTable.Holds t.entries key j → i = j)
    {i : Fin 8} {key : CStr} (hi : SlotTable.Holds t.entries key i) (breaker : β) :
    BreakersFor new t (Function.update breakers (some i) ⟨breaker, true⟩) (Function.update b key breaker) where
  held {j other} hj := by
    by_cases hji : j = i
    · subst hji
      have hother : other = key := by
        rw [holds_iff] at hi hj
        exact hj.2.symm.trans hi.2
      rw [hother, Function.update_self, Function.update_self]
      rfl
    · have hother : other ≠ key := fun he => hji (hinj (he ▸ hj) hi)
      rw [Function.update_of_ne hother, Function.update_of_ne (fun he => hji (Option.some_inj.mp he))]
      exact h.held hj
  free {other} hno := by
    have hother : other ≠ key := fun he => hno i (he ▸ hi)
    rw [Function.update_of_ne hother]
    exact h.free hno

/-- The overflow slot stands for no block. -/
theorem BreakersFor.overflow (h : BreakersFor new t breakers b) (slot : BreakerSlot β) :
    BreakersFor new t (Function.update breakers none slot) b where
  held hi := by
    rw [Function.update_of_ne (Option.some_ne_none _)]
    exact h.held hi
  free := h.free

end BreakersFor

/-- The block states and the breakers stand for two maps. -/
structure SimulatesRes (new : β) (names : Finset CStr) (s : ResStates β)
    (m : (CStr → BlockCodes) × (CStr → β)) (last : Option CStr) : Prop where
  blocks : Simulates names s.blocks m.1 last
  breakers : BreakersFor new s.blocks s.breakers m.2

theorem simulatesRes_fresh (new : β) (names : Finset CStr) :
    SimulatesRes new names (.fresh lib) (fun _ => .zero, fun _ => new) none where
  blocks := simulates_fresh names
  breakers := ⟨fun _ => rfl, fun _ => rfl⟩

section SimulatesRes

variable {lib} {new : β} {names : Finset CStr} {s : ResStates β} {m : (CStr → BlockCodes) × (CStr → β)}
  {last : Option CStr}

/-- **A free slot claimed** for a name that no slot holds has no breaker yet. -/
theorem BreakersFor.claim {t t' : BlockStates} {breakers : BlockPtr → BreakerSlot β} {b : CStr → β}
    (h : BreakersFor new t breakers b) (breaker : β) {i : Fin 8} {key : CStr} {codes : BlockCodes}
    (hi : t.entries i = none) (hnot : ∀ j, ¬ SlotTable.Holds t.entries key j)
    (ht : t'.entries = Function.update t.entries i (some (key, codes))) :
    BreakersFor new t' (Function.update breakers (some i) ⟨breaker, false⟩) b where
  held {j other} hj := by
    obtain ⟨other_codes, hentry⟩ := hj
    rw [ht] at hentry
    rcases SlotTable.update_eq_some hentry with ⟨rfl, he⟩ | ⟨hne, he⟩
    · cases he
      rw [Function.update_self, h.free hnot]
      rfl
    · rw [Function.update_of_ne fun hsome => hne (Option.some_inj.mp hsome)]
      exact h.held ⟨other_codes, he⟩
  free {other} hno := by
    apply h.free
    intro j hj
    have hne : j ≠ i := fun he => SlotTable.not_holds_none hi (he ▸ hj)
    obtain ⟨codes, hentry⟩ := hj
    apply hno j
    rw [ht]
    exact ⟨codes, by rw [Function.update_of_ne hne]; exact hentry⟩

/-- **The lookup** of one of at most eight names that fit: a slot that holds
the name, and breakers that stand for the breakers of the blocks. -/
theorem SimulatesRes.get (h : SimulatesRes new names s m last) (hcard : names.card ≤ 8)
    {blockName : Option CStr} (hmem : blockKey blockName ∈ names) (hlen : (blockKey blockName).length ≤ 63) :
    ∃ i, (blockStateGetRes s blockName).2 = some i ∧
      SlotTable.Holds (blockStateGetRes s blockName).1.blocks.entries (blockKey blockName) i ∧
      SimulatesRes new names (blockStateGetRes s blockName).1 m (some (blockKey blockName)) := by
  obtain ⟨i, hptr, hsim, hentry⟩ := h.blocks.get hcard hmem hlen
  refine ⟨i, hptr, ⟨_, hentry⟩, hsim, ?_⟩
  have hfound := (findBlock_eq s.blocks (blockKey blockName) (List.finRange 8) none).1
  have hget : (blockStateGetRes s blockName).1 = ⟨(blockStateGet s.blocks blockName).1,
      if ((List.finRange 8).find? (s.blocks.Matches (blockKey blockName))).isSome then s.breakers
      else Function.update s.breakers (some i) { s.breakers (some i) with ready := false }⟩ := by
    rw [← hfound, ← hptr]
    rfl
  rw [hget]
  cases hfind : (List.finRange 8).find? (s.blocks.Matches (blockKey blockName)) with
  | some j =>
    have hkept : (blockStateGet s.blocks blockName).1 = { s.blocks with active := j } := by
      rw [BlockStates.Found.get hfind]
    rw [hkept]
    exact h.breakers.congr fun _ _ => Iff.rfl
  | none =>
    have hnot : ∀ j, ¬ SlotTable.Holds s.blocks.entries (blockKey blockName) j := fun j hj =>
      (unknown_iff s.blocks blockName).mpr hfind j ((h.blocks.matches_iff _ j).mpr hj)
    rw [blockStateGet_eq, hfind] at hptr ⊢
    cases hfree : (List.finRange 8).find? s.blocks.IsFree with
    | none =>
      rw [hfree] at hptr
      cases hptr
    | some j =>
      rw [hfree] at hptr
      obtain rfl : j = i := Option.some_inj.mp hptr
      have huse : (s.blocks.slots j).inUse = false := by
        simpa [BlockStates.IsFree] using List.find?_some hfree
      apply h.breakers.claim (s.breakers (some j)).breaker (entry_eq_none.mpr huse) hnot
      exact (entries_setSlot s.blocks j _).trans (by rw [entry_claimFor _ hlen])

/-- **An attempt or a report**: the recovery state of one block's codes is
copied, and its breaker changes. -/
theorem SimulatesRes.modify (h : SimulatesRes new names s m last) (hcard : names.card ≤ 8)
    {blockName : Option CStr} (hmem : blockKey blockName ∈ names) (hlen : (blockKey blockName).length ≤ 63)
    (f : BlockCodes → BlockCodes) (breaker : β) :
    SimulatesRes new names
      ⟨modifyBlock s.blocks blockName f, breakersWith s blockName ⟨breaker, true⟩⟩
      (Function.update m.1 (blockKey blockName) (f (m.1 (blockKey blockName))),
        Function.update m.2 (blockKey blockName) breaker)
      (some (blockKey blockName)) := by
  obtain ⟨i, hptr, hholds, hsim⟩ := h.get hcard hmem hlen
  refine ⟨h.blocks.modify hcard hmem hlen f, ?_⟩
  rw [breakersWith, hptr]
  apply (hsim.breakers.set (fun hi hj => hsim.blocks.refines.inj hi hj) hholds breaker).congr
  exact fun key j => holds_modifyBlock s.blocks blockName f key j

theorem SimulatesRes.breakerOf_eq (h : SimulatesRes new names s m last)
    (hinit : ∀ b, lib.init b = (true, new)) (hcard : names.card ≤ 8) {blockName : Option CStr}
    (hmem : blockKey blockName ∈ names) (hlen : (blockKey blockName).length ≤ 63) :
    breakerOf lib s blockName = ⟨m.2 (blockKey blockName), true⟩ := by
  obtain ⟨i, hptr, hholds, hsim⟩ := h.get hcard hmem hlen
  rw [breakerOf, mresEnsureInit_eq hinit, hptr, hsim.breakers.held hholds]

theorem SimulatesRes.query (h : SimulatesRes new names s m last) (hcard : names.card ≤ 8)
    {blockName : Option CStr} (hmem : blockKey blockName ∈ names)
    (hlen : (blockKey blockName).length ≤ 63) :
    (queryBlock s.blocks blockName).1 = m.1 (blockKey blockName) ∧
      SimulatesRes new names (blockStateGetRes s blockName).1 m (some (blockKey blockName)) := by
  obtain ⟨-, -, -, hsim⟩ := h.get hcard hmem hlen
  exact ⟨(h.blocks.query hcard hmem hlen).1, hsim⟩

/-- Setting the codes of one block leaves the breakers as the lookup left
them. -/
theorem SimulatesRes.modifyCodes (h : SimulatesRes new names s m last) (hcard : names.card ≤ 8)
    {blockName : Option CStr} (hmem : blockKey blockName ∈ names) (hlen : (blockKey blockName).length ≤ 63)
    (f : BlockCodes → BlockCodes) :
    SimulatesRes new names ⟨modifyBlock s.blocks blockName f, (blockStateGetRes s blockName).1.breakers⟩
      (Function.update m.1 (blockKey blockName) (f (m.1 (blockKey blockName))), m.2)
      (some (blockKey blockName)) := by
  obtain ⟨-, -, -, hsim⟩ := h.get hcard hmem hlen
  refine ⟨h.blocks.modify hcard hmem hlen f, hsim.breakers.congr fun key j => ?_⟩
  exact holds_modifyBlock s.blocks blockName f key j

theorem SimulatesRes.recoveryReset (h : SimulatesRes new names s m last)
    (hinit : ∀ b, lib.init b = (true, new)) (hreset : lib.reset new = new) :
    SimulatesRes new names (recoveryResetRes lib s)
      (fun key => { m.1 key with recoveryState := 0 }, fun key => lib.reset (m.2 key)) none where
  blocks := h.blocks.reset (fun codes => { codes with recoveryState := 0 }) rfl
  breakers := by
    have hholds : ∀ key i, SlotTable.Holds (Loxguard.recoveryReset s.blocks).entries key i ↔
        SlotTable.Holds s.blocks.entries key i :=
      holds_resetBlockStates s.blocks fun codes => { codes with recoveryState := 0 }
    refine ⟨fun {i key} hi => ?_, fun {key} hno => ?_⟩
    · have huse : ((Loxguard.recoveryReset s.blocks).slots i).inUse = true := ((holds_iff _ key i).mp hi).1
      have hmade : (recoveryResetRes lib s).breakers (some i) =
          ⟨lib.reset ((s.breakers (some i)).made new), true⟩ := by
        refine (if_pos huse).trans ?_
        rw [resetBreaker, mresEnsureInit_eq hinit]
        rfl
      rw [hmade, h.breakers.held ((hholds key i).mp hi)]
      rfl
    · show lib.reset (m.2 key) = new
      rw [h.breakers.free fun i hi => hno i ((hholds key i).mpr hi), hreset]

/-- **Every operation** does to the block states and the breakers what it does
to the two maps. -/
theorem SimulatesRes.step (h : SimulatesRes new names s m last) (hcard : names.card ≤ 8)
    (hlen : ∀ b ∈ names, b.length ≤ 63) (hinit : ∀ b, lib.init b = (true, new))
    (hreset : lib.reset new = new) {op : ResOp P} (hop : op.Within names) :
    (op.step lib s).1 = (op.mapStep lib m).1 ∧
      ∃ last, SimulatesRes new names (op.step lib s).2 (op.mapStep lib m).2 last := by
  cases op with
  | allowAttempt blockName now =>
    have hbreaker := h.breakerOf_eq hinit hcard hop (hlen _ hop)
    have hsim := h.modify hcard hop (hlen _ hop)
      (fun codes => { codes with recoveryState := (lib.state (m.2 (blockKey blockName))).code })
      (m.2 (blockKey blockName))
    rw [Function.update_eq_self] at hsim
    have hallowed : (allowAttemptAnswered s.blocks blockName
        ((⟨m.2 (blockKey blockName), true⟩ : BreakerSlot β).answer lib now)).1 =
          !decide (lib.state (m.2 (blockKey blockName)) = .isOpen ∧
            0 < lib.remainingMs (m.2 (blockKey blockName)) now) := rfl
    rw [ResOp.step, allowAttemptRes_eq, hbreaker]
    refine ⟨?_, _, hsim⟩
    dsimp only
    rw [hallowed]
    by_cases hrefused : lib.state (m.2 (blockKey blockName)) = .isOpen ∧
        0 < lib.remainingMs (m.2 (blockKey blockName)) now
    · simp [ResOp.mapStep, hrefused]
    · simp [ResOp.mapStep, hrefused]
  | reportResult blockName success now =>
    have hbreaker := h.breakerOf_eq hinit hcard hop (hlen _ hop)
    rw [ResOp.step, reportResultRes_eq lib s blockName success now, hbreaker]
    exact ⟨rfl, _, h.modify hcard hop (hlen _ hop) (fun codes => { codes with recoveryState := _ }) _⟩
  | block op =>
    cases op with
    | healthSetForBlock blockName degraded =>
      have hmem := hop _ rfl
      exact ⟨rfl, _, h.modifyCodes hcard hmem (hlen _ hmem) fun codes => { codes with healthCode := degraded }⟩
    | watchdogObserveEvent event =>
      cases event with
      | none => exact ⟨rfl, _, h⟩
      | some event =>
        have hmem := hop _ rfl
        have hsim := h.modifyCodes hcard hmem (hlen _ hmem) event.kind.watched
        rw [← watchdogObserveEvent_eq] at hsim
        exact ⟨rfl, _, hsim⟩
    | watchdogReset =>
      refine ⟨rfl, none, h.blocks.reset (fun codes => { codes with watchdogState := 0 }) rfl, ?_⟩
      apply (h.breakers.overflow ⟨lib.zero, false⟩).congr
      exact holds_resetBlockStates s.blocks fun codes => { codes with watchdogState := 0 }
    | recoveryReset => exact ⟨rfl, none, h.recoveryReset hinit hreset⟩
    | healthGetForBlock blockName =>
      have hmem := hop _ rfl
      obtain ⟨hcodes, hsim⟩ := h.query hcard hmem (hlen _ hmem)
      exact ⟨congrArg (fun codes : BlockCodes => some codes.healthCode) hcodes, _, hsim⟩
    | watchdogStateGetForBlock blockName =>
      have hmem := hop _ rfl
      obtain ⟨hcodes, hsim⟩ := h.query hcard hmem (hlen _ hmem)
      exact ⟨congrArg (fun codes : BlockCodes => some codes.watchdogState) hcodes, _, hsim⟩
    | recoveryStateGetForBlock blockName =>
      have hmem := hop _ rfl
      obtain ⟨hcodes, hsim⟩ := h.query hcard hmem (hlen _ hmem)
      exact ⟨congrArg (fun codes : BlockCodes => some codes.recoveryState) hcodes, _, hsim⟩

end SimulatesRes

/-- **One breaker a block.** With at most eight block names of at most 63
bytes, breakers that can be made and are then new, and a new breaker that a
reset leaves new, every run of operations returns what it returns on a map from
names to codes and one from names to breakers: no block's lookup, attempt or
report reaches another block's breaker. -/
theorem breakers_refine_map {new : β} (hinit : ∀ b, lib.init b = (true, new)) (hreset : lib.reset new = new)
    (names : Finset CStr) (hcard : names.card ≤ 8) (hlen : ∀ b ∈ names, b.length ≤ 63)
    (ops : List (ResOp P)) (hops : ∀ op ∈ ops, op.Within names) :
    (Runs.run (ResOp.step lib) (.fresh lib) ops).1 =
      (Runs.run (ResOp.mapStep lib) (fun _ => .zero, fun _ => new) ops).1 := by
  refine (Runs.run_simulates (R := fun s m => ∃ last, SimulatesRes new names s m last) ops (.fresh lib)
    (fun _ => .zero, fun _ => new) ?_ ⟨none, simulatesRes_fresh lib new names⟩).1
  rintro op hop s m ⟨last, h⟩
  exact h.step hcard hlen hinit hreset (hops op hop)

/-- A breaker that counts the failures, and is open from the third on until
a second has passed. -/
def countingBreaker : BreakerLib (ℕ × BitVec 32) where
  zero := (0, 0)
  init := fun _ => (true, (0, 0))
  state := fun b => if 3 ≤ b.1 then .isOpen else .closed
  remainingMs := fun b now => 1000 - (now - b.2).toNat
  reportSuccess := fun _ => (0, 0)
  reportFailure := fun b now => (b.1 + 1, now)
  reset := fun _ => (0, 0)

/-- Three failures of one block, and an attempt of it and of another. -/
def trippedBlock : List (ResOp .host) :=
  List.replicate 3 (.reportResult none 0 5) ++
    [.allowAttempt none 6, .allowAttempt (some (.lit "b")) 6, .allowAttempt none 2000]

theorem breakers_refine_map_tripped : (Runs.run (ResOp.step countingBreaker) (.fresh countingBreaker) trippedBlock).1 =
    [none, none, none, some 0, some 1, some 1] := by
  have hops : ∀ op ∈ trippedBlock, op.Within {.lit "global", .lit "b"} := by
    intro op hop
    simp only [trippedBlock, List.mem_append, List.mem_replicate, List.mem_cons, List.not_mem_nil,
      or_false] at hop
    rcases hop with ⟨-, rfl⟩ | rfl | rfl | rfl <;> unfold ResOp.Within <;> decide
  exact (breakers_refine_map countingBreaker (fun _ => rfl) rfl {.lit "global", .lit "b"} (by decide) (by decide)
    trippedBlock hops).trans (by decide +kernel)

end Loxguard
