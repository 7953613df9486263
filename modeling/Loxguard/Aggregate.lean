/-
# The aggregate watchdog state

The aggregate is declared as the maximum over the blocks, but a refresh copies
it from the active slot, which every lookup moves. Over runs and operations of
at most eight blocks with names that fit, the active slot is that of the block
looked up last since the last reset (`Known.step`); a run looks its own block
up last. So the aggregate is the maximum exactly when no block in use has a
higher state than that block (`aggregate_max_iff`), and a query of a healthy
block is enough to hide a failing one (`aggregate_hides`).

Key definitions: `ProcessStep`, `BlockStates.blocksInUse`,
`BlockStates.maxWatchdog`, `lastBlockOf`, `Known`.
Key theorems: `Known.step`, `aggregate_max_iff`.
-/
import Loxguard.Tables

namespace Loxguard

open Lib

variable {P : Platform}

/-! ### The process -/

/-- A step of the process: an operation of the adapters or a call of
`loxguard_run`. -/
inductive ProcessStep (P : Platform)
  | adapter (op : AdapterOp P)
  | run (c : Call P)

namespace ProcessStep

/-- Take a step: what it returns, and the world after it. -/
def step (w : World P) : ProcessStep P → (Returned ⊕ Report) × World P
  | .adapter op =>
    let (returned, adapters) := op.step w.adapters
    (.inl returned, { w with adapters })
  | .run c =>
    let (report, w) := c.exec w
    (.inr report, w)

/-- The step looks up no block but those of `names`. -/
def Within (names : Finset CStr) : ProcessStep P → Prop
  | .adapter (.block op) => op.Within names
  | .adapter _ => True
  | .run c => c.Within names

/-- A run meets the default build. -/
def Default : ProcessStep P → Prop
  | .adapter _ => True
  | .run c => c.Default

/-- The block looked up last, since the last reset. A run that has a blackbox
looks its own block up last. -/
def lastBlock (last : Option CStr) : ProcessStep P → Option CStr
  | .adapter (.block op) => op.lastBlock last
  | .adapter _ => last
  | .run c => if c.cfg.blackbox = none then last else some c.block

end ProcessStep

/-- The block that steps looked up last, since the last reset. -/
def lastBlockOf (steps : List (ProcessStep P)) : Option CStr :=
  steps.foldl ProcessStep.lastBlock none

/-! ### The maximum -/

/-- The block states in use, the overflow slot among them. -/
def BlockStates.blocksInUse (t : BlockStates) : List BlockPtr :=
  (none :: (List.finRange 8).map some).filter fun p => (t.slot p).inUse

/-- The maximum of the watchdog states of all blocks in use, 0 when there are
none. -/
def BlockStates.maxWatchdog (t : BlockStates) : ℤ :=
  ((t.blocksInUse.map fun p => (t.read p).watchdogState).max?).getD 0

theorem mem_blocksInUse (t : BlockStates) (p : BlockPtr) :
    p ∈ t.blocksInUse ↔ (t.slot p).inUse = true := by
  unfold BlockStates.blocksInUse
  rw [List.mem_filter, and_iff_right_iff_imp]
  intro _
  cases p with
  | none => exact List.mem_cons_self
  | some i => exact List.mem_cons_of_mem _ (List.mem_map_of_mem (List.mem_finRange i))

/-- When a number is the maximum of a list that has it or 0. -/
theorem max?_getD_eq_iff {l : List ℤ} (hl : ∀ x ∈ l, 0 ≤ x) {v : ℤ} (hv : v ∈ l ∨ v = 0) :
    v = l.max?.getD 0 ↔ ∀ x ∈ l, x ≤ v := by
  cases hmax : l.max? with
  | none =>
    obtain rfl : l = [] := List.max?_eq_none_iff.mp hmax
    have hzero : v = 0 := hv.resolve_left List.not_mem_nil
    exact iff_of_true hzero (by simp)
  | some a =>
    obtain ⟨hmem, hle⟩ := List.max?_eq_some_iff.mp hmax
    rw [Option.getD_some]
    constructor
    · rintro rfl
      exact hle
    · intro hall
      refine le_antisymm ?_ (hall a hmem)
      rcases hv with hv | rfl
      · exact hle v hv
      · exact hl a hmem

/-! ### What is known of the block states -/

/-- The block states stand for a map without negative watchdog states, and
`last` is the block whose slot is the active one. -/
structure Known (names : Finset CStr) (t : BlockStates) (last : Option CStr) : Prop where
  simulates : ∃ m, Simulates names t m last ∧ ∀ key, 0 ≤ (m key).watchdogState
  key : ∀ b, last = some b → blockKey (some b) = b

theorem known_fresh (names : Finset CStr) : Known names .fresh none where
  simulates := ⟨fun _ => .zero, simulates_fresh names, fun _ => le_rfl⟩
  key := nofun

@[simp] theorem blockKey_blockKey (name : Option CStr) : blockKey (some (blockKey name)) = blockKey name := by
  have hglobal : blockKey (some (.lit "global")) = .lit "global" := by decide
  cases name with
  | none => exact hglobal
  | some s =>
    by_cases hs : s.bytes = []
    · rw [show blockKey (some s) = .lit "global" from if_pos hs, hglobal]
    · rw [show blockKey (some s) = s from if_neg hs]
      exact if_neg hs

theorem watched_nonneg (kind : EventKind) {codes : BlockCodes} (h : 0 ≤ codes.watchdogState) :
    0 ≤ (kind.watched codes).watchdogState := by
  unfold EventKind.watched
  cases kind <;> simp [h]

theorem mapStep_nonneg {m : CStr → BlockCodes} (h : ∀ key, 0 ≤ (m key).watchdogState) (op : BlockOp P)
    (key : CStr) : 0 ≤ ((op.mapStep m).2 key).watchdogState := by
  have hupdate : ∀ (b : CStr) {codes : BlockCodes}, 0 ≤ codes.watchdogState →
      0 ≤ (Function.update m b codes key).watchdogState := by
    intro b codes hcodes
    rw [Function.update_apply]
    split
    · exact hcodes
    · exact h key
  cases op with
  | healthSetForBlock blockName degraded => exact hupdate _ (h _)
  | watchdogObserveEvent event =>
    cases event with
    | none => exact h key
    | some event => exact hupdate _ (watched_nonneg event.kind (h _))
  | watchdogReset => exact le_rfl
  | recoveryReset => exact h key
  | healthGetForBlock blockName => exact h key
  | watchdogStateGetForBlock blockName => exact h key
  | recoveryStateGetForBlock blockName => exact h key

theorem lastBlock_key {last : Option CStr} (h : ∀ b, last = some b → blockKey (some b) = b)
    (op : BlockOp P) : ∀ b, op.lastBlock last = some b → blockKey (some b) = b := by
  cases op with
  | watchdogObserveEvent event =>
    cases event with
    | none => exact h
    | some event =>
      rintro _ ⟨⟩
      exact blockKey_blockKey _
  | watchdogReset => exact nofun
  | recoveryReset => exact nofun
  | _ =>
    rintro _ ⟨⟩
    exact blockKey_blockKey _

section Known

variable {names : Finset CStr} (hcard : names.card ≤ 8) (hlen : ∀ b ∈ names, b.length ≤ 63)
include hcard hlen

theorem Known.op {t : BlockStates} {last : Option CStr} (h : Known names t last) {op : BlockOp P}
    (hop : op.Within names) : Known names (op.step t).2 (op.lastBlock last) where
  simulates := by
    obtain ⟨m, hsim, hpos⟩ := h.simulates
    exact ⟨_, (hsim.step hcard hlen hop).2, mapStep_nonneg hpos op⟩
  key := lastBlock_key h.key op

omit hcard hlen in
theorem Known.refresh {t : BlockStates} {last : Option CStr} (h : Known names t last) :
    Known names (refreshAggregateStates t) last := by
  obtain ⟨m, hsim, hpos⟩ := h.simulates
  exact ⟨⟨m, hsim.refresh, hpos⟩, h.key⟩

theorem Known.observe {s : Tables} {last : Option CStr} (h : Known names s.adapters last)
    {ev : ExtEvent P} (hev : blockKey ev.blockName ∈ names) :
    Known names (s.observe ev).adapters (some (blockKey ev.blockName)) := by
  obtain ⟨m, hsim, hpos⟩ := h.simulates
  refine ⟨⟨_, hsim.observed hcard ev hev (hlen _ hev) _, ?_⟩, ?_⟩
  · intro key
    rw [Function.update_apply]
    split
    · exact watched_nonneg ev.kind (hpos _)
    · exact hpos key
  · rintro _ ⟨⟩
    exact blockKey_blockKey _

theorem Known.observeAll {evs : List (ExtEvent P)} (hevs : ∀ ev ∈ evs, blockKey ev.blockName ∈ names)
    {s : Tables} {last : Option CStr} (h : Known names s.adapters last) :
    ∃ last, Known names (evs.foldl Tables.observe s).adapters last := by
  induction evs generalizing s last with
  | nil => exact ⟨last, h⟩
  | cons ev evs ih =>
    exact ih (fun e he => hevs e (List.mem_cons_of_mem _ he))
      (h.observe hcard hlen (hevs ev List.mem_cons_self))

theorem Known.call {w : World P} {last : Option CStr} (h : Known names w.adapters last) {c : Call P}
    (hc : c.Within names) (hdefault : c.Default) :
    Known names (c.exec w).2.adapters (ProcessStep.lastBlock last (.run c)) := by
  cases hbox : c.cfg.blackbox with
  | none =>
    have hlast : ProcessStep.lastBlock last (.run c) = last := if_pos hbox
    rw [exec_of_null hbox, hlast]
    exact h
  | some box =>
    have hlast : ProcessStep.lastBlock last (.run c) = some c.block :=
      if_neg (by rw [hbox]; exact Option.some_ne_none box)
    obtain ⟨evs, duration, hleads⟩ := c.exec_leads hlen hc hdefault hbox w
    let before : Tables := evs.foldl Tables.observe (World.tables { w with env := c.env })
    obtain ⟨last', hbefore⟩ : ∃ last', Known names before.adapters last' :=
      Known.observeAll hcard hlen (fun ev hev => hleads.within ev (List.mem_append_left _ hev)) h
    have hafter := hbefore.observe hcard hlen
      (hleads.within _ (List.mem_append_right _ List.mem_cons_self))
    have hname : blockKey (completedEvent (P := P) (some c.block) duration).blockName = c.block :=
      blockKey_blockName c.cfg
    have htables : (c.exec w).2.adapters =
        (before.observe (completedEvent (P := P) (some c.block) duration)).adapters := by
      calc (c.exec w).2.tables.adapters
          = ((evs ++ [completedEvent (some c.block) duration]).foldl Tables.observe
              (World.tables { w with env := c.env })).adapters := congrArg Tables.adapters hleads.tables
        _ = (before.observe (completedEvent (P := P) (some c.block) duration)).adapters := by
            rw [List.foldl_append, List.foldl_cons, List.foldl_nil]
    rw [hname] at hafter
    rw [htables, hlast]
    exact hafter

/-- **Every step of the process** keeps what is known. -/
theorem Known.step {w : World P} {last : Option CStr} (h : Known names w.adapters last)
    {s : ProcessStep P} (hs : s.Within names) (hdefault : s.Default) :
    Known names (s.step w).2.adapters (s.lastBlock last) := by
  cases s with
  | adapter op =>
    cases op with
    | block op => exact h.op hcard hlen hs
    | healthGet => exact h.refresh
    | watchdogStateGet => exact h.refresh
    | recoveryStateGet => exact h.refresh
    | recoveryAllowAttemptForBlock blockName => exact h
    | recoveryReportResultForBlock blockName success => exact h
    | watchdogKick => exact h
    | logEvent event => exact h
  | run c => exact h.call hcard hlen hs hdefault

theorem Known.steps {steps : List (ProcessStep P)} (hsteps : ∀ s ∈ steps, s.Within names)
    (hdefault : ∀ s ∈ steps, s.Default) {w : World P} {last : Option CStr}
    (h : Known names w.adapters last) :
    Known names (Runs.run ProcessStep.step w steps).2.adapters
      (steps.foldl ProcessStep.lastBlock last) := by
  induction steps generalizing w last with
  | nil => exact h
  | cons s steps ih =>
    apply ih
    · exact fun s' hs' => hsteps s' (List.mem_cons_of_mem _ hs')
    · exact fun s' hs' => hdefault s' (List.mem_cons_of_mem _ hs')
    · exact h.step hcard hlen (hsteps s List.mem_cons_self) (hdefault s List.mem_cons_self)

end Known

/-! ### The aggregate -/

/-- The watchdog state of the block that was looked up last, 0 when there is
none. -/
def watchdogOfLast (t : BlockStates) (last : Option CStr) : ℤ :=
  last.elim 0 fun b => (watchdogStateGetForBlock t (some b)).1

section Aggregate

variable {names : Finset CStr} {t : BlockStates} {last : Option CStr}

/-- **The aggregate** is the state of the block looked up last, which is in use. -/
theorem Known.aggregate (h : Known names t last) (hcard : names.card ≤ 8)
    (hlen : ∀ b ∈ names, b.length ≤ 63) :
    (watchdogStateGet t).1 = watchdogOfLast t last ∧
      ((∃ p ∈ t.blocksInUse, (t.read p).watchdogState = watchdogOfLast t last) ∨
        watchdogOfLast t last = 0) := by
  obtain ⟨m, hsim, -⟩ := h.simulates
  have hactive := hsim.active
  rw [watchdogStateGet_fst]
  unfold BlockStates.activeCodes
  cases last with
  | none =>
    have hoverflow := hsim.overflow
    refine ⟨?_, Or.inr rfl⟩
    rw [dif_neg (by rw [show t.active = 8 from hactive]; decide), hoverflow]
    simp [watchdogOfLast, BlockCodes.zero]
  | some b =>
    obtain ⟨i, hi, codes, hentry⟩ := hactive
    obtain ⟨huse, hname, hdata⟩ := entry_eq_some.mp hentry
    have hkey := h.key b rfl
    have hmem : blockKey (some b) ∈ names := by
      rw [hkey]
      exact hsim.refines.key_mem hentry
    have hstate : (t.slots i).data.watchdogState = watchdogOfLast t (some b) := by
      have hquery := (hsim.query hcard hmem (hlen _ hmem)).1
      show _ = (watchdogStateGetForBlock t (some b)).1
      rw [watchdogStateGetForBlock_eq, Prod.map_fst, hquery, hkey, hsim.refines.value hentry, ← hdata]
    have hlt : t.active < 8 := by rw [hi]; exact i.isLt
    have hslot : (⟨t.active, hlt⟩ : Fin 8) = i := Fin.ext hi
    refine ⟨?_, Or.inl ⟨some i, (mem_blocksInUse t _).mpr huse, hstate⟩⟩
    rw [dif_pos hlt, hslot, if_pos huse]
    exact hstate

theorem Known.nonneg (h : Known names t last) {p : BlockPtr} (hp : p ∈ t.blocksInUse) :
    0 ≤ (t.read p).watchdogState := by
  obtain ⟨m, hsim, hpos⟩ := h.simulates
  have huse := (mem_blocksInUse t p).mp hp
  cases p with
  | none =>
    rw [show (t.slot none).inUse = false from hsim.overflow] at huse
    cases huse
  | some i =>
    have hentry : t.entries i = some ((t.slots i).blockName.text, (t.slots i).data) :=
      entry_eq_some.mpr ⟨huse, rfl, rfl⟩
    rw [show t.read (some i) = _ from (hsim.refines.value hentry).symm]
    exact hpos _

end Aggregate

/-- **When the aggregate watchdog state is the maximum.** After any sequence of
adapter operations and runs over at most eight block names of at most 63
bytes, it is the maximum over the blocks in use if and only if none of them
has a higher state than the block looked up last since the last reset. -/
theorem aggregate_max_iff (names : Finset CStr) (hcard : names.card ≤ 8)
    (hlen : ∀ b ∈ names, b.length ≤ 63) {w : World P} (hw : w.Fresh) (steps : List (ProcessStep P))
    (hsteps : ∀ s ∈ steps, s.Within names) (hdefault : ∀ s ∈ steps, s.Default) :
    let t := (Runs.run ProcessStep.step w steps).2.adapters
    (watchdogStateGet t).1 = t.maxWatchdog ↔
      ∀ p ∈ t.blocksInUse, (t.read p).watchdogState ≤ watchdogOfLast t (lastBlockOf steps) := by
  intro t
  have hknown : Known names t (lastBlockOf steps) := by
    apply Known.steps hcard hlen hsteps hdefault
    rw [hw.adapters]
    exact known_fresh names
  obtain ⟨hvalue, hattained⟩ := hknown.aggregate hcard hlen
  rw [hvalue]
  refine (max?_getD_eq_iff ?_ ?_).trans List.forall_mem_map
  · exact List.forall_mem_map.mpr fun p hp => hknown.nonneg hp
  · rcases hattained with ⟨p, hp, hstate⟩ | hzero
    · exact Or.inl (List.mem_map.mpr ⟨p, hp, hstate⟩)
    · exact Or.inr hzero

/-- A run of `"a"` that fails. -/
def failingRun : ProcessStep .host := .run (FlatCall.returning (.lit "a") 0 (-1)).toCall

/-- A run of `"b"` that succeeds. -/
def healthyRun : ProcessStep .host := .run (FlatCall.returning (.lit "b") 0 0).toCall

/-- The block states after runs in a fresh process. -/
def statesAfter (steps : List (ProcessStep .host)) : BlockStates :=
  (Runs.run ProcessStep.step (World.start .quiet) steps).2.adapters

theorem aggregate_max_iff_failing :
    (watchdogStateGet (statesAfter [healthyRun, failingRun])).1 =
      (statesAfter [healthyRun, failingRun]).maxWatchdog := by
  have hall : ∀ {p : ProcessStep .host → Prop}, p healthyRun → p failingRun →
      ∀ s ∈ [healthyRun, failingRun], p s := by
    intro p h1 h2 s hs
    simp only [List.mem_cons, List.not_mem_nil, or_false] at hs
    rcases hs with rfl | rfl
    · exact h1
    · exact h2
  refine (aggregate_max_iff {.lit "a", .lit "b"} (by decide) (by decide) (World.start_fresh .quiet)
    [healthyRun, failingRun] ?_ ?_).mpr (by decide +kernel)
  · exact hall ⟨by decide, trivial⟩ ⟨by decide, trivial⟩
  · exact hall rfl rfl

/-- A run of a healthy block hides the failing one. -/
theorem aggregate_hides :
    (watchdogStateGet (statesAfter [failingRun, healthyRun])).1 = 0 ∧
      (statesAfter [failingRun, healthyRun]).maxWatchdog = 2 := by
  decide +kernel

end Loxguard
