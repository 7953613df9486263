/-
# The block table

The block states as a machine: every operation of the adapters on them is a
step (`BlockOp`, `AdapterOp`). `lox_block_state_get` finds the slot of a name,
or claims the first slot that is not in use, or falls back on the overflow
slot, which it clears (`blockStateGet_eq`). So a state that was just set is
read back exactly when the name fits a slot and has one or gets one, in every
state the operations reach (`block_state_survives_iff`).

With at most eight names that fit, the overflow slot is never used, and the
table stands for a map from names to codes (`table_refines_map`).

Key definitions: `BlockOp`, `AdapterOp`, `BlockStates.HasRoom`,
`BlockOp.mapStep`, `Simulates`.
Key theorems: `blockStateGet_eq`, `block_state_survives_iff`,
`Simulates.step`, `table_refines_map`.
-/
import Loxguard.Adapters
import Loxguard.Lib.Runs
import Loxguard.Lib.SlotTable

namespace Loxguard

open Lib

variable {P : Platform}

/-! ### The operations -/

/-- The operations on the state of one block, and the resets. -/
inductive BlockOp (P : Platform)
  | healthSetForBlock (blockName : Option CStr) (degraded : ℤ)
  | watchdogObserveEvent (event : Option (ExtEvent P))
  | watchdogReset
  | recoveryReset
  | healthGetForBlock (blockName : Option CStr)
  | watchdogStateGetForBlock (blockName : Option CStr)
  | recoveryStateGetForBlock (blockName : Option CStr)

/-- The operations of the adapters in the default build. The log, the
watchdog's timer, the breaker and the debug functions are not built in there;
the clock, the bus counters and the panic hook have nothing to do with the
block states. -/
inductive AdapterOp (P : Platform)
  | block (op : BlockOp P)
  | healthGet
  | watchdogStateGet
  | recoveryStateGet
  | recoveryAllowAttemptForBlock (blockName : Option CStr)
  | recoveryReportResultForBlock (blockName : Option CStr) (success : ℤ)
  | watchdogKick
  | logEvent (event : Option (ExtEvent P))

/-- What an operation that returns a number returns. -/
abbrev Returned := Option ℤ

/-- An operation: what it returns, and the state after it. -/
def BlockOp.step (t : BlockStates) : BlockOp P → Returned × BlockStates
  | .healthSetForBlock blockName degraded => (none, Loxguard.healthSetForBlock t blockName degraded)
  | .watchdogObserveEvent none => (none, t)
  | .watchdogObserveEvent (some event) => (none, Loxguard.watchdogObserveEvent t event)
  | .watchdogReset => (none, Loxguard.watchdogReset t)
  | .recoveryReset => (none, Loxguard.recoveryReset t)
  | .healthGetForBlock blockName => (Loxguard.healthGetForBlock t blockName).map some id
  | .watchdogStateGetForBlock blockName => (Loxguard.watchdogStateGetForBlock t blockName).map some id
  | .recoveryStateGetForBlock blockName => (Loxguard.recoveryStateGetForBlock t blockName).map some id

/-- An operation of the default build: what it returns, and the state after
it. -/
def AdapterOp.step (t : BlockStates) : AdapterOp P → Returned × BlockStates
  | .block op => op.step t
  | .healthGet => (Loxguard.healthGet t).map some id
  | .watchdogStateGet => (Loxguard.watchdogStateGet t).map some id
  | .recoveryStateGet => (Loxguard.recoveryStateGet t).map some id
  | .recoveryAllowAttemptForBlock blockName =>
    let (allowed, t) := Loxguard.recoveryAllowAttemptForBlock t blockName none
    (some (if allowed then 1 else 0), t)
  | .recoveryReportResultForBlock blockName _ =>
    (none, Loxguard.recoveryReportResultForBlock t blockName none)
  | .watchdogKick => (none, t)
  | .logEvent _ => (some ok, t)

/-- The block an operation looks up. -/
def BlockOp.block : BlockOp P → Option CStr
  | .healthSetForBlock blockName _ | .healthGetForBlock blockName | .watchdogStateGetForBlock blockName
  | .recoveryStateGetForBlock blockName => some (blockKey blockName)
  | .watchdogObserveEvent event => event.map fun event => blockKey event.blockName
  | .watchdogReset | .recoveryReset => none

/-! ### Looking a name up -/

/-- Slot `i` is found by the name. -/
def BlockStates.Matches (t : BlockStates) (key : CStr) (i : Fin 8) : Bool :=
  (t.slots i).nameMatches key (hashBlockName (some key))

/-- Slot `i` is free. -/
def BlockStates.IsFree (t : BlockStates) (i : Fin 8) : Bool := !(t.slots i).inUse

theorem findBlock_eq (t : BlockStates) (key : CStr) (is : List (Fin 8)) (freeIdx : Option (Fin 8)) :
    (findBlock t key (hashBlockName (some key)) is freeIdx).1 = is.find? (t.Matches key) ∧
      (is.find? (t.Matches key) = none →
        (findBlock t key (hashBlockName (some key)) is freeIdx).2 = freeIdx.or (is.find? t.IsFree)) := by
  induction is generalizing freeIdx with
  | nil => cases freeIdx <;> simp [findBlock]
  | cons i is ih =>
    unfold findBlock
    by_cases huse : (t.slots i).inUse = true
    · have hfree : ¬ t.IsFree i = true := by simp [BlockStates.IsFree, huse]
      rw [if_pos huse, List.find?_cons_of_neg hfree]
      by_cases hmatch : (t.slots i).nameMatches key (hashBlockName (some key)) = true
      · rw [if_pos hmatch, List.find?_cons_of_pos (by exact hmatch)]
        exact ⟨rfl, fun h => absurd h (Option.some_ne_none i)⟩
      · rw [if_neg hmatch, List.find?_cons_of_neg (by exact hmatch)]
        exact ih freeIdx
    · have hfree : t.IsFree i = true := by simp [BlockStates.IsFree, huse]
      have hmatch : ¬ t.Matches key i = true := fun h => huse ((Slot.nameMatches_iff ..).mp h).1
      rw [if_neg huse, List.find?_cons_of_pos hfree, List.find?_cons_of_neg hmatch]
      obtain ⟨ih1, ih2⟩ := ih (if freeIdx = none then some i else freeIdx)
      refine ⟨ih1, fun hnone => ?_⟩
      rw [ih2 hnone]
      cases freeIdx <;> simp

/-- A slot claimed for a name. -/
def Slot.claimFor {α : Type} (slot : Slot α) (key : CStr) (data : α) : Slot α :=
  slot.claim key (hashBlockName (some key)) data

/-- **The lookup**: the first slot the name finds, else the first free slot,
claimed, else the overflow slot, claimed. -/
theorem blockStateGet_eq (t : BlockStates) (blockName : Option CStr) : blockStateGet t blockName =
    match (List.finRange 8).find? (t.Matches (blockKey blockName)), (List.finRange 8).find? t.IsFree with
    | some i, _ => ({ t with active := i }, some i)
    | none, some i =>
      ({ t.setSlot (some i) ((t.slots i).claimFor (blockKey blockName) .zero) with active := i }, some i)
    | none, none =>
      ({ t.setSlot none (t.overflow.claimFor (blockKey blockName) .zero) with active := 8 }, none) := by
  obtain ⟨h1, h2⟩ := findBlock_eq t (blockKey blockName) (List.finRange 8) none
  rw [blockStateGet]
  cases hfind : (List.finRange 8).find? (t.Matches (blockKey blockName)) with
  | some i =>
    rw [hfind] at h1
    rw [show findBlock t (blockKey blockName) (hashBlockName (some (blockKey blockName)))
      (List.finRange 8) none = (some i, _) from Prod.ext h1 rfl]
  | none =>
    rw [hfind] at h1
    have hfree := h2 hfind
    rw [Option.none_or] at hfree
    cases hroom : (List.finRange 8).find? t.IsFree with
    | some i =>
      rw [hroom] at hfree
      rw [show findBlock t (blockKey blockName) (hashBlockName (some (blockKey blockName)))
        (List.finRange 8) none = (none, some i) from Prod.ext h1 hfree]
      rfl
    | none =>
      rw [hroom] at hfree
      rw [show findBlock t (blockKey blockName) (hashBlockName (some (blockKey blockName)))
        (List.finRange 8) none = (none, none) from Prod.ext h1 hfree]
      rfl

theorem matches_iff (t : BlockStates) (key : CStr) (i : Fin 8) : t.Matches key i = true ↔
    (t.slots i).inUse = true ∧ (t.slots i).nameHash = hashBlockName (some key) ∧
      (t.slots i).blockName.text = key :=
  Slot.nameMatches_iff ..

/-- The lookup finds the name in slot `i`. -/
def BlockStates.Found (t : BlockStates) (blockName : Option CStr) (i : Fin 8) : Prop :=
  (List.finRange 8).find? (t.Matches (blockKey blockName)) = some i

/-- No slot is found by the name. -/
def BlockStates.Unknown (t : BlockStates) (blockName : Option CStr) : Prop :=
  ∀ i, ¬ t.Matches (blockKey blockName) i = true

theorem unknown_iff (t : BlockStates) (blockName : Option CStr) :
    t.Unknown blockName ↔ (List.finRange 8).find? (t.Matches (blockKey blockName)) = none := by
  rw [List.find?_eq_none]
  exact ⟨fun h i _ => h i, fun h i => h i (List.mem_finRange i)⟩

theorem BlockStates.Found.get {t : BlockStates} {blockName : Option CStr} {i : Fin 8}
    (h : t.Found blockName i) : blockStateGet t blockName = ({ t with active := i }, some i) := by
  rw [blockStateGet_eq, show (List.finRange 8).find? (t.Matches (blockKey blockName)) = some i from h]

/-- Which slots a name finds does not depend on their codes. -/
theorem matches_write (t : BlockStates) (p : BlockPtr) (codes : BlockCodes) :
    (t.write p codes).Matches = t.Matches := by
  funext key j
  cases p with
  | none => rfl
  | some i =>
    simp only [BlockStates.Matches, BlockStates.write, BlockStates.setSlot, BlockStates.slot,
      Function.update_apply]
    split
    · rename_i hj
      rw [Slot.nameMatches_data, hj]
    · rfl

theorem read_write (t : BlockStates) (p : BlockPtr) (codes : BlockCodes) :
    (t.write p codes).read p = codes := by
  cases p with
  | none => rfl
  | some i => simp [BlockStates.write, BlockStates.read, BlockStates.setSlot, BlockStates.slot]

theorem write_read (t : BlockStates) (p : BlockPtr) : t.write p (t.read p) = t := by
  cases p with
  | none => rfl
  | some i =>
    simp [BlockStates.write, BlockStates.read, BlockStates.setSlot, BlockStates.slot]

/-- The codes the aggregates are copied from. -/
def BlockStates.activeCodes (t : BlockStates) : BlockCodes :=
  if h : t.active < 8 then
    if (t.slots ⟨t.active, h⟩).inUse then (t.slots ⟨t.active, h⟩).data else .zero
  else if t.active = 8 ∧ t.overflow.inUse then t.overflow.data
  else .zero

theorem refreshAggregateStates_eq (t : BlockStates) :
    refreshAggregateStates t = { t with codes := t.activeCodes } := by
  unfold refreshAggregateStates BlockStates.activeCodes
  split_ifs <;> rfl

@[simp] theorem refresh_slots (t : BlockStates) : (refreshAggregateStates t).slots = t.slots := by
  rw [refreshAggregateStates_eq]

@[simp] theorem refresh_overflow (t : BlockStates) :
    (refreshAggregateStates t).overflow = t.overflow := by
  rw [refreshAggregateStates_eq]

@[simp] theorem refresh_active (t : BlockStates) : (refreshAggregateStates t).active = t.active := by
  rw [refreshAggregateStates_eq]

@[simp] theorem refresh_codes (t : BlockStates) : (refreshAggregateStates t).codes = t.activeCodes := by
  rw [refreshAggregateStates_eq]

@[simp] theorem activeCodes_refresh (t : BlockStates) :
    (refreshAggregateStates t).activeCodes = t.activeCodes := by
  rw [refreshAggregateStates_eq]
  rfl

theorem healthGet_fst (t : BlockStates) : (healthGet t).1 = t.activeCodes.healthCode := by
  rw [healthGet, refresh_codes]

theorem watchdogStateGet_fst (t : BlockStates) : (watchdogStateGet t).1 = t.activeCodes.watchdogState := by
  rw [watchdogStateGet, refresh_codes]

theorem recoveryStateGet_fst (t : BlockStates) : (recoveryStateGet t).1 = t.activeCodes.recoveryState := by
  rw [recoveryStateGet, refresh_codes]

theorem matches_refresh (t : BlockStates) : (refreshAggregateStates t).Matches = t.Matches := by
  rw [refreshAggregateStates_eq]
  rfl

theorem read_refresh (t : BlockStates) (p : BlockPtr) : (refreshAggregateStates t).read p = t.read p := by
  rw [refreshAggregateStates_eq]
  cases p <;> rfl

/-! ### Changes and queries -/

/-- Look a block up and change its codes. -/
def modifyBlock (t : BlockStates) (blockName : Option CStr) (f : BlockCodes → BlockCodes) :
    BlockStates :=
  let found := blockStateGet t blockName
  refreshAggregateStates (found.1.write found.2 (f (found.1.read found.2)))

/-- Look a block up and read its codes. -/
def queryBlock (t : BlockStates) (blockName : Option CStr) : BlockCodes × BlockStates :=
  let found := blockStateGet t blockName
  (found.1.read found.2, found.1)

/-- What an event makes of the codes of its block. -/
def EventKind.watched (kind : EventKind) (codes : BlockCodes) : BlockCodes :=
  match kind with
  | .blockTimeout => { codes with watchdogState := 1 }
  | .blockError | .blockWriteOutOfBounds | .blockArenaOverflow | .blockMemoryFault =>
    { codes with watchdogState := 2 }
  | .blockEntered | .blockOk => { codes with watchdogState := 0 }
  | _ => codes

theorem healthSetForBlock_eq (t : BlockStates) (blockName : Option CStr) (degraded : ℤ) :
    healthSetForBlock t blockName degraded =
      modifyBlock t blockName fun codes => { codes with healthCode := degraded } := rfl

theorem watchdogObserveEvent_eq (t : BlockStates) (event : ExtEvent P) :
    watchdogObserveEvent t event = modifyBlock t event.blockName event.kind.watched := by
  unfold watchdogObserveEvent modifyBlock EventKind.watched
  cases event.kind <;> simp only [write_read]

theorem healthGetForBlock_eq (t : BlockStates) (blockName : Option CStr) :
    healthGetForBlock t blockName = (queryBlock t blockName).map BlockCodes.healthCode id := rfl

theorem watchdogStateGetForBlock_eq (t : BlockStates) (blockName : Option CStr) :
    watchdogStateGetForBlock t blockName = (queryBlock t blockName).map BlockCodes.watchdogState id := rfl

theorem recoveryStateGetForBlock_eq (t : BlockStates) (blockName : Option CStr) :
    recoveryStateGetForBlock t blockName = (queryBlock t blockName).map BlockCodes.recoveryState id := rfl

theorem queryBlock_snd (t : BlockStates) (blockName : Option CStr) :
    (queryBlock t blockName).2 = (blockStateGet t blockName).1 := rfl

theorem matches_modifyBlock (t : BlockStates) (blockName : Option CStr) (f : BlockCodes → BlockCodes) :
    (modifyBlock t blockName f).Matches = (blockStateGet t blockName).1.Matches := by
  unfold modifyBlock
  dsimp only
  rw [matches_refresh, matches_write]

section Lookup

variable {t : BlockStates} {blockName : Option CStr}

/-- The table has a slot for the name: the name fits a slot, and some slot is
found by it or free. -/
def BlockStates.HasRoom (t : BlockStates) (blockName : Option CStr) : Prop :=
  (blockKey blockName).length ≤ 63 ∧
    ∃ i, t.Matches (blockKey blockName) i = true ∨ (t.slots i).inUse = false

theorem finRange_find?_eq {p : Fin 8 → Bool} {i : Fin 8} (hi : p i = true) (h : ∀ j, p j = true → j = i) :
    (List.finRange 8).find? p = some i := by
  cases hfind : (List.finRange 8).find? p with
  | none => exact absurd hi (List.find?_eq_none.mp hfind i (List.mem_finRange i))
  | some j => rw [h j (List.find?_some hfind)]

theorem exists_free_of_hasRoom (h : t.HasRoom blockName) (hnot : t.Unknown blockName) :
    ∃ i, (List.finRange 8).find? t.IsFree = some i ∧ (t.slots i).inUse = false := by
  obtain ⟨-, i, hi | hi⟩ := h
  · exact absurd hi (hnot i)
  · cases hfind : (List.finRange 8).find? t.IsFree with
    | none =>
      have hall := List.find?_eq_none.mp hfind i (List.mem_finRange i)
      exact absurd (show t.IsFree i = true by simp [BlockStates.IsFree, hi]) hall
    | some j =>
      refine ⟨j, rfl, ?_⟩
      have hj := List.find?_some hfind
      simpa [BlockStates.IsFree] using hj

/-- **A name with room is found** after it was looked up. -/
theorem found_of_hasRoom (h : t.HasRoom blockName) : ∃ i, (blockStateGet t blockName).2 = some i ∧
    (blockStateGet t blockName).1.Found blockName i := by
  by_cases hfound : ∃ i, t.Found blockName i
  · obtain ⟨i, hi⟩ := hfound
    rw [hi.get]
    exact ⟨i, rfl, hi⟩
  · have hfind : (List.finRange 8).find? (t.Matches (blockKey blockName)) = none :=
      Option.eq_none_iff_forall_ne_some.mpr fun i hi => hfound ⟨i, hi⟩
    have hnot := (unknown_iff t blockName).mpr hfind
    obtain ⟨i, hfree, -⟩ := exists_free_of_hasRoom h hnot
    rw [blockStateGet_eq, hfind, hfree]
    refine ⟨i, rfl, finRange_find?_eq ?_ fun j hj => ?_⟩
    · simp only [BlockStates.Matches, BlockStates.setSlot, Function.update_self]
      exact Slot.nameMatches_claim_self _ h.1 _ _
    · by_contra hne
      simp only [BlockStates.Matches, BlockStates.setSlot, Function.update_of_ne hne] at hj
      exact hnot j hj

theorem query_of_unknown (h : t.Unknown blockName) : (queryBlock t blockName).1 = .zero := by
  have hfind := (unknown_iff t blockName).mp h
  unfold queryBlock
  rw [blockStateGet_eq, hfind]
  cases (List.finRange 8).find? t.IsFree with
  | none => rfl
  | some i => simp [BlockStates.read, BlockStates.slot, BlockStates.setSlot, Slot.claimFor, Slot.claim]

/-- **With room** a change is read back. -/
theorem query_modify (h : t.HasRoom blockName) (f : BlockCodes → BlockCodes) :
    (queryBlock (modifyBlock t blockName f) blockName).1 = f (queryBlock t blockName).1 := by
  obtain ⟨i, hptr, hfound⟩ := found_of_hasRoom h
  have hafter : (modifyBlock t blockName f).Found blockName i := by
    unfold BlockStates.Found
    rw [matches_modifyBlock]
    exact hfound
  have hread : (modifyBlock t blockName f).read (some i) = f ((blockStateGet t blockName).1.read (some i)) := by
    unfold modifyBlock
    dsimp only
    rw [read_refresh, hptr, read_write]
  unfold queryBlock
  dsimp only
  rw [hafter.get, hptr]
  exact hread

end Lookup

/-! ### Names in slots -/

/-- Every slot holds a name that fits it. -/
def BlockStates.WellNamed (t : BlockStates) : Prop := ∀ i, (t.slots i).blockName.text.length ≤ 63

theorem wellNamed_fresh : BlockStates.fresh.WellNamed := by
  intro i
  show (CharBuf.zero 64).text.length ≤ 63
  rw [CharBuf.text_zero]
  exact Nat.zero_le 63

theorem wellNamed_of_slots {t t' : BlockStates} (h : t.WellNamed)
    (hslots : ∀ i, (t'.slots i).blockName = (t.slots i).blockName) : t'.WellNamed := by
  intro i
  rw [hslots]
  exact h i

section WellNamed

variable {t : BlockStates} (h : t.WellNamed)
include h

theorem BlockStates.WellNamed.get (blockName : Option CStr) : (blockStateGet t blockName).1.WellNamed := by
  rw [blockStateGet_eq]
  cases (List.finRange 8).find? (t.Matches (blockKey blockName)) with
  | some i => exact h
  | none =>
    cases (List.finRange 8).find? t.IsFree with
    | none => exact h
    | some i =>
      intro j
      by_cases hj : j = i
      · subst hj
        simp only [BlockStates.setSlot, Function.update_self, Slot.claimFor, Slot.claim,
          CharBuf.text_copy]
        exact CStr.length_take_le _ 63
      · simp only [BlockStates.setSlot, Function.update_of_ne hj]
        exact h j

theorem BlockStates.WellNamed.write (p : BlockPtr) (codes : BlockCodes) : (t.write p codes).WellNamed := by
  apply wellNamed_of_slots h
  intro i
  cases p with
  | none => rfl
  | some j =>
    simp only [BlockStates.write, BlockStates.setSlot, BlockStates.slot, Function.update_apply]
    split
    · rename_i hi
      rw [hi]
    · rfl

theorem BlockStates.WellNamed.refresh : (refreshAggregateStates t).WellNamed :=
  wellNamed_of_slots h fun i => by rw [refresh_slots]

theorem BlockStates.WellNamed.modify (blockName : Option CStr) (f : BlockCodes → BlockCodes) :
    (modifyBlock t blockName f).WellNamed :=
  ((h.get blockName).write _ _).refresh

theorem BlockStates.WellNamed.reset (f : BlockCodes → BlockCodes) : (resetBlockStates t f).WellNamed := by
  apply wellNamed_of_slots h
  intro i
  unfold resetBlockStates
  simp only [refresh_slots]
  split <;> rfl

/-- **Every operation** keeps names that fit. -/
theorem BlockStates.WellNamed.step (op : AdapterOp P) : (op.step t).2.WellNamed := by
  cases op with
  | block op =>
    cases op with
    | healthSetForBlock blockName degraded =>
      rw [AdapterOp.step, BlockOp.step, healthSetForBlock_eq]
      exact h.modify blockName _
    | watchdogObserveEvent event =>
      cases event with
      | none => exact h
      | some event =>
        rw [AdapterOp.step, BlockOp.step, watchdogObserveEvent_eq]
        exact h.modify event.blockName _
    | watchdogReset =>
      exact h.reset fun codes => { codes with watchdogState := 0 }
    | recoveryReset =>
      exact h.reset fun codes => { codes with recoveryState := 0 }
    | healthGetForBlock blockName =>
      rw [AdapterOp.step, BlockOp.step, healthGetForBlock_eq]
      exact h.get blockName
    | watchdogStateGetForBlock blockName =>
      rw [AdapterOp.step, BlockOp.step, watchdogStateGetForBlock_eq]
      exact h.get blockName
    | recoveryStateGetForBlock blockName =>
      rw [AdapterOp.step, BlockOp.step, recoveryStateGetForBlock_eq]
      exact h.get blockName
  | healthGet => exact h.refresh
  | watchdogStateGet => exact h.refresh
  | recoveryStateGet => exact h.refresh
  | recoveryAllowAttemptForBlock blockName => exact h
  | recoveryReportResultForBlock blockName success => exact h
  | watchdogKick => exact h
  | logEvent event => exact h

/-- **Without room** a change is lost. -/
theorem query_modify_of_not_hasRoom {blockName : Option CStr} (hno : ¬ t.HasRoom blockName)
    (f : BlockCodes → BlockCodes) : (queryBlock (modifyBlock t blockName f) blockName).1 = .zero := by
  apply query_of_unknown
  intro i
  by_cases hlen : (blockKey blockName).length ≤ 63
  · -- all slots are in use for other names, so the overflow slot was taken
    have hfull : ∀ j, ¬ t.Matches (blockKey blockName) j = true ∧ ¬ t.IsFree j = true := by
      intro j
      refine ⟨fun hj => hno ⟨hlen, j, Or.inl hj⟩, fun hj => hno ⟨hlen, j, Or.inr ?_⟩⟩
      simpa [BlockStates.IsFree] using hj
    have hfind := (unknown_iff t blockName).mp fun j => (hfull j).1
    have hroom : (List.finRange 8).find? t.IsFree = none :=
      List.find?_eq_none.mpr fun j _ => (hfull j).2
    rw [matches_modifyBlock, blockStateGet_eq, hfind, hroom]
    exact (hfull i).1
  · have hnamed := (h.modify blockName f) i
    rw [Bool.not_eq_true]
    exact Slot.not_nameMatches_of_long _ (by omega) hnamed _

end WellNamed

/-- **When a block's state survives.** In every state the adapters reach, a
health code just set is read back, and so is the timeout just observed, if and
only if the name fits a slot and the table has one for it: one found by the
name, or a free one. -/
theorem block_state_survives_iff (ops : List (AdapterOp P)) (name : Option CStr) (v : ℤ)
    (reason : Option CStr) (index limit : P.Size) (aux : BitVec 32) :
    let t := (Runs.run AdapterOp.step .fresh ops).2
    ((healthGetForBlock (healthSetForBlock t name v) name).1 = v ∧
      (watchdogStateGetForBlock
        (watchdogObserveEvent t ⟨.blockTimeout, name, reason, index, limit, aux⟩) name).1 = 1) ↔
      t.HasRoom name := by
  intro t
  have hnamed : t.WellNamed :=
    Runs.run_invariant ops BlockStates.fresh (fun op _ _ hs => BlockStates.WellNamed.step hs op)
      wellNamed_fresh
  rw [healthSetForBlock_eq, watchdogObserveEvent_eq]
  constructor
  · rintro ⟨-, hwatchdog⟩
    by_contra hno
    have hlost := query_modify_of_not_hasRoom hnamed hno (EventKind.blockTimeout.watched)
    have hzero : (1 : ℤ) = BlockCodes.zero.watchdogState := by
      rw [← hlost]
      exact hwatchdog.symm
    exact absurd hzero (by decide)
  · intro hroom
    exact ⟨congrArg BlockCodes.healthCode (query_modify hroom _),
      congrArg BlockCodes.watchdogState (query_modify hroom _)⟩

/-- A name of 64 bytes, one more than a slot keeps. -/
def wideName : CStr := ⟨List.replicate 64 98, by decide⟩

theorem block_state_lost :
    (healthGetForBlock (healthSetForBlock .fresh (some wideName) 5) (some wideName)).1 ≠ 5 ∧
    (watchdogStateGetForBlock (watchdogObserveEvent (P := .host) .fresh
      ⟨.blockTimeout, some wideName, none, 0, 0, 0⟩) (some wideName)).1 ≠ 1 := by
  decide +kernel

/-! ### The table as a map -/

/-- What a slot in use holds: a name and codes. -/
def Slot.entry {α : Type} (slot : Slot α) : Option (CStr × α) :=
  if slot.inUse then some (slot.blockName.text, slot.data) else none

/-- The table of the slots. -/
def BlockStates.entries (t : BlockStates) (i : Fin 8) : Option (CStr × BlockCodes) := (t.slots i).entry

/-- An operation on a plain map from names to codes. -/
def BlockOp.mapStep (m : CStr → BlockCodes) : BlockOp P → Returned × (CStr → BlockCodes)
  | .healthSetForBlock blockName degraded =>
    let key := blockKey blockName
    (none, Function.update m key { m key with healthCode := degraded })
  | .watchdogObserveEvent none => (none, m)
  | .watchdogObserveEvent (some event) =>
    let key := blockKey event.blockName
    (none, Function.update m key (event.kind.watched (m key)))
  | .watchdogReset => (none, fun key => { m key with watchdogState := 0 })
  | .recoveryReset => (none, fun key => { m key with recoveryState := 0 })
  | .healthGetForBlock blockName => (some (m (blockKey blockName)).healthCode, m)
  | .watchdogStateGetForBlock blockName => (some (m (blockKey blockName)).watchdogState, m)
  | .recoveryStateGetForBlock blockName => (some (m (blockKey blockName)).recoveryState, m)

/-- The operation looks up no block but one of `names`. -/
def BlockOp.Within (names : Finset CStr) (op : BlockOp P) : Prop := ∀ b, op.block = some b → b ∈ names

/-- The block looked up last, since the last reset. -/
def BlockOp.lastBlock (last : Option CStr) : BlockOp P → Option CStr
  | .watchdogReset | .recoveryReset => none
  | op => op.block.or last

/-- The block states stand for the map `m`, and `last` is the block whose
slot is the active one. -/
structure Simulates (names : Finset CStr) (t : BlockStates) (m : CStr → BlockCodes)
    (last : Option CStr) : Prop where
  refines : SlotTable.Refines names .zero t.entries m
  hashed : ∀ i, (t.slots i).inUse = true →
    (t.slots i).nameHash = hashBlockName (some (t.slots i).blockName.text)
  overflow : t.overflow.inUse = false
  active : match last with
    | none => t.active = 8
    | some b => ∃ i : Fin 8, t.active = i ∧ SlotTable.Holds t.entries b i

theorem simulates_fresh (names : Finset CStr) : Simulates names .fresh (fun _ => .zero) none where
  refines := SlotTable.Refines.free
  hashed i h := by cases h
  overflow := rfl
  active := rfl

theorem entry_eq_some {α : Type} {slot : Slot α} {key : CStr} {data : α} :
    slot.entry = some (key, data) ↔ slot.inUse = true ∧ slot.blockName.text = key ∧ slot.data = data := by
  unfold Slot.entry
  rw [Option.ite_none_right_eq_some, Option.some_inj, Prod.mk.injEq]

theorem entry_eq_none {α : Type} {slot : Slot α} : slot.entry = none ↔ slot.inUse = false := by
  unfold Slot.entry
  cases slot.inUse <;> simp

theorem entry_claimFor (slot : Slot BlockCodes) {key : CStr} (h : key.length ≤ 63) :
    (slot.claimFor key .zero).entry = some (key, .zero) := by
  unfold Slot.claimFor Slot.claim Slot.entry
  rw [if_pos rfl, CharBuf.text_copy, CStr.take_eq_self h]

theorem entries_setSlot (t : BlockStates) (i : Fin 8) (slot : Slot BlockCodes) :
    (t.setSlot (some i) slot).entries = Function.update t.entries i slot.entry := by
  funext j
  unfold BlockStates.entries BlockStates.setSlot
  simp only [Function.update_apply]
  split <;> rfl

section Simulates

variable {names : Finset CStr} {t : BlockStates} {m : CStr → BlockCodes} {last : Option CStr}

/-- With the hashes of the names in the slots, a name finds the slot that
holds it. -/
theorem Simulates.matches_iff (h : Simulates names t m last) (key : CStr) (i : Fin 8) :
    t.Matches key i = true ↔ SlotTable.Holds t.entries key i := by
  rw [Loxguard.matches_iff]
  constructor
  · rintro ⟨huse, -, hname⟩
    exact ⟨(t.slots i).data, entry_eq_some.mpr ⟨huse, hname, rfl⟩⟩
  · rintro ⟨codes, hentry⟩
    obtain ⟨huse, hname, -⟩ := entry_eq_some.mp hentry
    exact ⟨huse, by rw [h.hashed i huse, hname], hname⟩

/-- **The lookup** of one of at most eight names that fit: a slot that holds
the name, with the codes of the map. -/
theorem Simulates.get (h : Simulates names t m last) (hcard : names.card ≤ 8) {blockName : Option CStr}
    (hmem : blockKey blockName ∈ names) (hlen : (blockKey blockName).length ≤ 63) :
    ∃ i, (blockStateGet t blockName).2 = some i ∧
      Simulates names (blockStateGet t blockName).1 m (some (blockKey blockName)) ∧
      (blockStateGet t blockName).1.entries i = some (blockKey blockName, m (blockKey blockName)) := by
  by_cases hfound : ∃ i, t.Found blockName i
  · obtain ⟨i, hi⟩ := hfound
    obtain ⟨codes, hentry⟩ := (h.matches_iff _ i).mp (List.find?_some hi)
    rw [hi.get]
    refine ⟨i, rfl, ⟨h.refines, h.hashed, h.overflow, i, rfl, codes, hentry⟩, ?_⟩
    rw [h.refines.value hentry]
    exact hentry
  · have hfind : (List.finRange 8).find? (t.Matches (blockKey blockName)) = none :=
      Option.eq_none_iff_forall_ne_some.mpr fun i hi => hfound ⟨i, hi⟩
    have hnot : ∀ i, ¬ SlotTable.Holds t.entries (blockKey blockName) i := fun i hi =>
      (unknown_iff t blockName).mpr hfind i ((h.matches_iff _ i).mpr hi)
    -- eight slots are enough for the names, so one is free
    obtain ⟨j, hj⟩ := h.refines.exists_free (by simpa using hcard) hmem hnot
    have hroom : t.HasRoom blockName := ⟨hlen, j, Or.inr (entry_eq_none.mp hj)⟩
    obtain ⟨i, hfree, huse⟩ := exists_free_of_hasRoom hroom ((unknown_iff t blockName).mpr hfind)
    have hentry : t.entries i = none := entry_eq_none.mpr huse
    have hafter : (t.setSlot (some i) ((t.slots i).claimFor (blockKey blockName) .zero)).entries =
        Function.update t.entries i (some (blockKey blockName, .zero)) := by
      rw [entries_setSlot, entry_claimFor _ hlen]
    have hclaimed : (t.setSlot (some i) ((t.slots i).claimFor (blockKey blockName) .zero)).entries i =
        some (blockKey blockName, .zero) := by
      rw [hafter, Function.update_self]
    rw [blockStateGet_eq, hfind, hfree]
    refine ⟨i, rfl, ⟨?_, ?_, h.overflow, i, rfl, .zero, hclaimed⟩, ?_⟩
    · have hclaim := h.refines.claim hentry hmem hnot
      rw [← hafter] at hclaim
      exact hclaim
    · intro k hk
      by_cases hki : k = i
      · subst hki
        simp only [BlockStates.setSlot, Function.update_self, Slot.claimFor, Slot.claim,
          CharBuf.text_copy, CStr.take_eq_self hlen]
      · simp only [BlockStates.setSlot, Function.update_of_ne hki] at hk ⊢
        exact h.hashed k hk
    · rw [h.refines.default hnot]
      exact hclaimed

theorem entries_write {i : Fin 8} {key : CStr} {old : BlockCodes} (h : t.entries i = some (key, old))
    (codes : BlockCodes) :
    (t.write (some i) codes).entries = Function.update t.entries i (some (key, codes)) := by
  obtain ⟨huse, hname, -⟩ := entry_eq_some.mp h
  unfold BlockStates.write
  rw [entries_setSlot]
  exact congrArg _ (entry_eq_some.mpr ⟨huse, hname, rfl⟩)

theorem Simulates.refresh (h : Simulates names t m last) :
    Simulates names (refreshAggregateStates t) m last := by
  rw [refreshAggregateStates_eq]
  exact ⟨h.refines, h.hashed, h.overflow, h.active⟩

/-- **A change** of one block's codes. -/
theorem Simulates.modify (h : Simulates names t m last) (hcard : names.card ≤ 8)
    {blockName : Option CStr} (hmem : blockKey blockName ∈ names) (hlen : (blockKey blockName).length ≤ 63)
    (f : BlockCodes → BlockCodes) :
    Simulates names (modifyBlock t blockName f)
      (Function.update m (blockKey blockName) (f (m (blockKey blockName)))) (some (blockKey blockName)) := by
  obtain ⟨i, hptr, hsim, hentry⟩ := h.get hcard hmem hlen
  have hread : (blockStateGet t blockName).1.read (some i) = m (blockKey blockName) :=
    (entry_eq_some.mp hentry).2.2
  have hentries := entries_write hentry (f (m (blockKey blockName)))
  unfold modifyBlock
  dsimp only
  rw [hptr, hread]
  apply Simulates.refresh
  refine ⟨?_, ?_, hsim.overflow, ?_⟩
  · rw [hentries]
    exact hsim.refines.write hentry _
  · intro k hk
    by_cases hki : k = i
    · subst hki
      simp only [BlockStates.write, BlockStates.setSlot, BlockStates.slot, Function.update_self] at hk ⊢
      exact hsim.hashed k hk
    · simp only [BlockStates.write, BlockStates.setSlot, BlockStates.slot,
        Function.update_of_ne hki] at hk ⊢
      exact hsim.hashed k hk
  · obtain ⟨j, hactive, hholds⟩ := hsim.active
    refine ⟨j, hactive, ?_⟩
    obtain rfl : j = i := hsim.refines.inj hholds ⟨_, hentry⟩
    exact ⟨_, by rw [hentries, Function.update_self]⟩

/-- **A query** of one block's codes. -/
theorem Simulates.query (h : Simulates names t m last) (hcard : names.card ≤ 8)
    {blockName : Option CStr} (hmem : blockKey blockName ∈ names)
    (hlen : (blockKey blockName).length ≤ 63) :
    (queryBlock t blockName).1 = m (blockKey blockName) ∧
      Simulates names (queryBlock t blockName).2 m (some (blockKey blockName)) := by
  obtain ⟨i, hptr, hsim, hentry⟩ := h.get hcard hmem hlen
  refine ⟨?_, hsim⟩
  unfold queryBlock
  dsimp only
  rw [hptr]
  exact (entry_eq_some.mp hentry).2.2

/-- **A reset** of one code of all blocks. -/
theorem Simulates.reset (h : Simulates names t m last) (f : BlockCodes → BlockCodes) (hf : f .zero = .zero) :
    Simulates names (resetBlockStates t f) (fun key => f (m key)) none := by
  unfold resetBlockStates
  apply Simulates.refresh
  have hentries : ∀ i, Slot.entry (if (t.slots i).inUse = true then
      { t.slots i with data := f (t.slots i).data } else t.slots i) =
        (t.entries i).map fun kv => (kv.1, f kv.2) := by
    intro i
    unfold BlockStates.entries Slot.entry
    by_cases huse : (t.slots i).inUse = true
    · simp [huse]
    · simp [huse]
  refine ⟨?_, ?_, rfl, rfl⟩
  · have hmap := h.refines.map hf
    rw [← funext hentries] at hmap
    exact hmap
  · intro i
    dsimp only
    split
    · exact h.hashed i
    · exact h.hashed i

/-- **Every operation** does to the block states what it does to the map. -/
theorem Simulates.step (h : Simulates names t m last) (hcard : names.card ≤ 8)
    (hlen : ∀ b ∈ names, b.length ≤ 63) {op : BlockOp P} (hop : op.Within names) :
    (op.step t).1 = (op.mapStep m).1 ∧
      Simulates names (op.step t).2 (op.mapStep m).2 (op.lastBlock last) := by
  cases op with
  | healthSetForBlock blockName degraded =>
    have hmem := hop _ rfl
    rw [BlockOp.step, healthSetForBlock_eq]
    exact ⟨rfl, h.modify hcard hmem (hlen _ hmem) fun codes => { codes with healthCode := degraded }⟩
  | watchdogObserveEvent event =>
    cases event with
    | none => exact ⟨rfl, h⟩
    | some event =>
      have hmem := hop _ rfl
      rw [BlockOp.step, watchdogObserveEvent_eq]
      exact ⟨rfl, h.modify hcard hmem (hlen _ hmem) event.kind.watched⟩
  | watchdogReset =>
    exact ⟨rfl, h.reset (fun codes => { codes with watchdogState := 0 }) rfl⟩
  | recoveryReset =>
    exact ⟨rfl, h.reset (fun codes => { codes with recoveryState := 0 }) rfl⟩
  | healthGetForBlock blockName =>
    have hmem := hop _ rfl
    obtain ⟨hcodes, hsim⟩ := h.query hcard hmem (hlen _ hmem)
    rw [BlockOp.step, healthGetForBlock_eq]
    exact ⟨congrArg (fun codes : BlockCodes => some codes.healthCode) hcodes, hsim⟩
  | watchdogStateGetForBlock blockName =>
    have hmem := hop _ rfl
    obtain ⟨hcodes, hsim⟩ := h.query hcard hmem (hlen _ hmem)
    rw [BlockOp.step, watchdogStateGetForBlock_eq]
    exact ⟨congrArg (fun codes : BlockCodes => some codes.watchdogState) hcodes, hsim⟩
  | recoveryStateGetForBlock blockName =>
    have hmem := hop _ rfl
    obtain ⟨hcodes, hsim⟩ := h.query hcard hmem (hlen _ hmem)
    rw [BlockOp.step, recoveryStateGetForBlock_eq]
    exact ⟨congrArg (fun codes : BlockCodes => some codes.recoveryState) hcodes, hsim⟩

end Simulates

/-- What the three getters of a block return. -/
def codesOf (t : BlockStates) (blockName : Option CStr) : BlockCodes where
  healthCode := (healthGetForBlock t blockName).1
  watchdogState := (watchdogStateGetForBlock t blockName).1
  recoveryState := (recoveryStateGetForBlock t blockName).1

theorem codesOf_eq (t : BlockStates) (blockName : Option CStr) :
    codesOf t blockName = (queryBlock t blockName).1 := rfl

/-- An operation of one block leaves the map as it is for every other. -/
theorem mapStep_of_ne (m : CStr → BlockCodes) {op : BlockOp P} {b : CStr} (hop : op.block = some b)
    {key : CStr} (hne : key ≠ b) : (op.mapStep m).2 key = m key := by
  cases op with
  | healthSetForBlock blockName degraded =>
    obtain rfl := Option.some_inj.mp hop
    exact Function.update_of_ne hne ..
  | watchdogObserveEvent event =>
    cases event with
    | none => rfl
    | some event =>
      obtain rfl := Option.some_inj.mp hop
      exact Function.update_of_ne hne ..
  | watchdogReset => cases hop
  | recoveryReset => cases hop
  | healthGetForBlock blockName => rfl
  | watchdogStateGetForBlock blockName => rfl
  | recoveryStateGetForBlock blockName => rfl

theorem simulates_run {names : Finset CStr} (hcard : names.card ≤ 8) (hlen : ∀ b ∈ names, b.length ≤ 63)
    (ops : List (BlockOp P)) (hops : ∀ op ∈ ops, op.Within names) {t : BlockStates}
    {m : CStr → BlockCodes} {last : Option CStr} (h : Simulates names t m last) :
    (Runs.run BlockOp.step t ops).1 = (Runs.run BlockOp.mapStep m ops).1 ∧
      ∃ last, Simulates names (Runs.run BlockOp.step t ops).2 (Runs.run BlockOp.mapStep m ops).2 last := by
  refine Runs.run_simulates (R := fun t m => ∃ last, Simulates names t m last) ops t m ?_ ⟨last, h⟩
  rintro op hop t m ⟨last, h⟩
  obtain ⟨hout, hnext⟩ := h.step hcard hlen (hops op hop)
  exact ⟨hout, op.lastBlock last, hnext⟩

/-- **The block table is a map.** With at most eight block names of at most 63
bytes, every run of operations from the empty table returns what a plain map
from names to codes returns. An operation of one block leaves what the getters
of another return, and no two slots in use have the same name. -/
theorem table_refines_map (names : Finset CStr) (hcard : names.card ≤ 8)
    (hlen : ∀ b ∈ names, b.length ≤ 63) (ops : List (BlockOp P)) (hops : ∀ op ∈ ops, op.Within names) :
    let r := Runs.run BlockOp.step .fresh ops
    r.1 = (Runs.run BlockOp.mapStep (fun _ => .zero) ops).1 ∧
      (∀ op : BlockOp P, op.Within names → ∀ b, op.block = some b →
        ∀ other, blockKey other ∈ names → blockKey other ≠ b →
          codesOf (op.step r.2).2 other = codesOf r.2 other) ∧
      ∀ i j, (r.2.slots i).inUse = true → (r.2.slots j).inUse = true →
        (r.2.slots i).blockName.text = (r.2.slots j).blockName.text → i = j := by
  intro r
  obtain ⟨hout, last, hsim⟩ := simulates_run hcard hlen ops hops (simulates_fresh names)
  refine ⟨hout, ?_, ?_⟩
  · intro op hop b hb other hmem hne
    obtain ⟨-, hnext⟩ := hsim.step hcard hlen hop
    rw [codesOf_eq, codesOf_eq, (hnext.query hcard hmem (hlen _ hmem)).1,
      (hsim.query hcard hmem (hlen _ hmem)).1]
    exact mapStep_of_ne _ hb hne
  · intro i j hi hj hname
    refine hsim.refines.inj (k := (r.2.slots i).blockName.text) ⟨(r.2.slots i).data, ?_⟩
      ⟨(r.2.slots j).data, ?_⟩
    · exact entry_eq_some.mpr ⟨hi, rfl, rfl⟩
    · exact entry_eq_some.mpr ⟨hj, hname.symm, rfl⟩

/-- Health codes for the default block and another one, and a query. -/
def twoBlocks : List (BlockOp .host) :=
  [.healthSetForBlock none 3, .healthSetForBlock (some (.lit "b")) 4, .healthGetForBlock none]

theorem table_refines_map_two : (Runs.run BlockOp.step .fresh twoBlocks).1 = [none, none, some 3] := by
  have hops : ∀ op ∈ twoBlocks, op.Within {.lit "global", .lit "b"} := by
    intro op hop b hb
    simp only [twoBlocks, List.mem_cons, List.not_mem_nil, or_false] at hop
    rcases hop with rfl | rfl | rfl <;> cases hb <;> decide
  exact (table_refines_map {.lit "global", .lit "b"} (by decide) (by decide) twoBlocks hops).1.trans
    (by decide +kernel)

end Loxguard
