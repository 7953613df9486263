/-
# The adapters

The block states of `loxguard_adapters.c`: the per-block health, watchdog and
recovery codes, their aggregates and the breaker's answer. The block table has
the shape of the streak table, but its search takes only a slot that is not in
use as the free one. The aggregates are copied from the slot that was looked
up last.

The circuit breaker is not part of the repository. In the default build there
is none and every attempt is allowed; otherwise what it answers is given.

Key definitions: `BlockStates`, `blockStateGet`, `healthSetForBlock`,
`watchdogObserveEvent`, `watchdogStateGet`, `watchdogReset`,
`recoveryAllowAttemptForBlock`.
-/
import Loxguard.Slots
import Mathlib.Data.BitVec
import Mathlib.Data.List.FinRange

namespace Loxguard

open Lib

variable {P : Platform}

/-- The codes of `lox_adapter_block_state_t`. -/
structure BlockCodes where
  healthCode : ℤ
  watchdogState : ℤ
  recoveryState : ℤ
deriving DecidableEq

/-- The codes of a slot that was just claimed. -/
def BlockCodes.zero : BlockCodes := ⟨0, 0, 0⟩

/-- The state of `loxguard_adapters.c`. `active` is `g_active_block_slot`, 8
when it is the overflow slot; the codes are the aggregates. -/
structure BlockStates where
  slots : Fin 8 → Slot BlockCodes
  overflow : Slot BlockCodes
  active : ℕ
  codes : BlockCodes

/-- The state of a fresh process. -/
def BlockStates.fresh : BlockStates := ⟨fun _ => .empty .zero, .empty .zero, 8, .zero⟩

/-- A pointer to a block state: the slot, `none` for the overflow slot. -/
abbrev BlockPtr := Option (Fin 8)

/-- The slot a pointer refers to. -/
def BlockStates.slot (t : BlockStates) : BlockPtr → Slot BlockCodes
  | some i => t.slots i
  | none => t.overflow

/-- Read through a pointer. -/
def BlockStates.read (t : BlockStates) (p : BlockPtr) : BlockCodes := (t.slot p).data

/-- Replace the slot a pointer refers to. -/
def BlockStates.setSlot (t : BlockStates) (p : BlockPtr) (slot : Slot BlockCodes) : BlockStates :=
  match p with
  | some i => { t with slots := Function.update t.slots i slot }
  | none => { t with overflow := slot }

/-- Write through a pointer. -/
def BlockStates.write (t : BlockStates) (p : BlockPtr) (codes : BlockCodes) : BlockStates :=
  t.setSlot p { t.slot p with data := codes }

/-- The search of `lox_block_state_get` over the slots that are left: the slot
found, and `free_idx`. -/
def findBlock (t : BlockStates) (key : CStr) (keyHash : BitVec 32) :
    List (Fin 8) → Option (Fin 8) → Option (Fin 8) × Option (Fin 8)
  | [], freeIdx => (none, freeIdx)
  | i :: is, freeIdx =>
    if (t.slots i).inUse then
      if (t.slots i).nameMatches key keyHash then (some i, freeIdx)
      else findBlock t key keyHash is freeIdx
    else findBlock t key keyHash is (if freeIdx = none then some i else freeIdx)

/-- `lox_block_state_get`. -/
def blockStateGet (t : BlockStates) (blockName : Option CStr) : BlockStates × BlockPtr :=
  let key := blockKey blockName
  let keyHash := hashBlockName (some key)
  match findBlock t key keyHash (List.finRange 8) none with
  | (some i, _) => ({ t with active := i }, some i)
  | (none, none) =>
    ({ t.setSlot none (t.overflow.claim key keyHash .zero) with active := 8 }, none)
  | (none, some i) =>
    ({ t.setSlot (some i) ((t.slots i).claim key keyHash .zero) with active := i }, some i)

/-- `lox_refresh_aggregate_states`. -/
def refreshAggregateStates (t : BlockStates) : BlockStates :=
  let slot : Option (Slot BlockCodes) :=
    if h : t.active < 8 then
      if (t.slots ⟨t.active, h⟩).inUse then some (t.slots ⟨t.active, h⟩) else none
    else if t.active = 8 ∧ t.overflow.inUse then some t.overflow
    else none
  match slot with
  | none => { t with codes := .zero }
  | some slot => { t with codes := slot.data }

/-- `lox_adapter_health_set_for_block`. -/
def healthSetForBlock (t : BlockStates) (blockName : Option CStr) (degraded : ℤ) : BlockStates :=
  let (t, slot) := blockStateGet t blockName
  refreshAggregateStates (t.write slot { t.read slot with healthCode := degraded })

/-- `lox_adapter_watchdog_observe_event`. -/
def watchdogObserveEvent (t : BlockStates) (event : ExtEvent P) : BlockStates :=
  let (t, slot) := blockStateGet t event.blockName
  let t := match event.kind with
    | .blockTimeout => t.write slot { t.read slot with watchdogState := 1 }
    | .blockError | .blockWriteOutOfBounds | .blockArenaOverflow | .blockMemoryFault =>
      t.write slot { t.read slot with watchdogState := 2 }
    | .blockEntered | .blockOk => t.write slot { t.read slot with watchdogState := 0 }
    | _ => t
  refreshAggregateStates t

/-! ### Queries and resets -/

/-- `lox_adapter_watchdog_state_get`. -/
def watchdogStateGet (t : BlockStates) : ℤ × BlockStates :=
  let t := refreshAggregateStates t
  (t.codes.watchdogState, t)

/-- `lox_adapter_watchdog_state_get_for_block`. -/
def watchdogStateGetForBlock (t : BlockStates) (blockName : Option CStr) : ℤ × BlockStates :=
  let (t, slot) := blockStateGet t blockName
  ((t.read slot).watchdogState, t)

/-- The part `lox_adapter_watchdog_reset` and `lox_adapter_recovery_reset`
share: a code of every slot in use, the overflow slot, the active slot. -/
def resetBlockStates (t : BlockStates) (reset : BlockCodes → BlockCodes) : BlockStates :=
  refreshAggregateStates
    { t with
      slots := fun i =>
        if (t.slots i).inUse then { t.slots i with data := reset (t.slots i).data } else t.slots i
      overflow := .empty .zero
      active := 8 }

/-- `lox_adapter_watchdog_reset`. -/
def watchdogReset (t : BlockStates) : BlockStates :=
  resetBlockStates t fun codes => { codes with watchdogState := 0 }

/-- `lox_adapter_recovery_reset`. -/
def recoveryReset (t : BlockStates) : BlockStates :=
  resetBlockStates t fun codes => { codes with recoveryState := 0 }

/-- `lox_adapter_health_get`. -/
def healthGet (t : BlockStates) : ℤ × BlockStates :=
  let t := refreshAggregateStates t
  (t.codes.healthCode, t)

/-- `lox_adapter_health_get_for_block`. -/
def healthGetForBlock (t : BlockStates) (blockName : Option CStr) : ℤ × BlockStates :=
  let (t, slot) := blockStateGet t blockName
  ((t.read slot).healthCode, t)

/-- `lox_adapter_recovery_state_get`. -/
def recoveryStateGet (t : BlockStates) : ℤ × BlockStates :=
  let t := refreshAggregateStates t
  (t.codes.recoveryState, t)

/-! ### The breaker -/

/-- What a breaker answers: whether the attempt is allowed, and the recovery
state it is in. -/
structure BreakerAnswer where
  allowed : Bool
  state : ℤ
deriving DecidableEq

/-- `lox_sync_recovery_state`. -/
def syncRecoveryState (t : BlockStates) (slot : BlockPtr) (answer : BreakerAnswer) : BlockStates :=
  refreshAggregateStates (t.write slot { t.read slot with recoveryState := answer.state })

/-- `lox_adapter_recovery_allow_attempt_for_block`, with no breaker in the
default build. -/
def recoveryAllowAttemptForBlock (t : BlockStates) (blockName : Option CStr)
    (breaker : Option BreakerAnswer) : Bool × BlockStates :=
  match breaker with
  | none => (true, t)
  | some answer =>
    let (t, slot) := blockStateGet t blockName
    (answer.allowed, syncRecoveryState t slot answer)

/-- `lox_adapter_recovery_report_result_for_block`; `breaker` is the answer
after the report. -/
def recoveryReportResultForBlock (t : BlockStates) (blockName : Option CStr)
    (breaker : Option BreakerAnswer) : BlockStates :=
  match breaker with
  | none => t
  | some answer =>
    let (t, slot) := blockStateGet t blockName
    syncRecoveryState t slot answer

/-- `lox_adapter_recovery_state_get_for_block`. -/
def recoveryStateGetForBlock (t : BlockStates) (blockName : Option CStr) : ℤ × BlockStates :=
  let (t, slot) := blockStateGet t blockName
  ((t.read slot).recoveryState, t)

end Loxguard
