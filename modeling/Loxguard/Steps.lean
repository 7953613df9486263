/-
# The steps of a run

Whatever a guarded function does and whatever runs it nests, a run is made of
six kinds of phases, each of a block that is called: the block is entered, the
breaker answers, the function is called, an incident is stored, memory is
written, the run is closed with its verdict (`run_phases`). The phases are
made of smaller steps (`Phase.steps`).

So what composes and holds of every phase, or of every step, holds of every
run and of any number of calls (`runAll_phases`, `runAll_steps`), and it is
enough to look at the steps.

Key definitions: `OfRun`, `Judged`, `World.InvokedSince`, `Phase`, `Step`, `Script.Calls`,
`Call.Calls`.
Key theorems: `exec_phases`, `run_phases`, `Phase.steps`, `runAll_phases`,
`runAll_steps`.
-/
import Loxguard.Lib.Runs
import Loxguard.Lib.Traces
import Loxguard.RunSteps

namespace Loxguard

open Lib

variable {P : Platform}

/-! ### Phases -/

/-- The guard context of a block in the course of its run. -/
structure Guards (cfg : BlockCfg P) (box : ℕ) (guard : GuardCtx P) : Prop where
  blackbox : guard.blackbox = some box
  blockName : guard.blockName = some cfg.blockName
  output : guard.output = cfg.output
  last : guard.lastEvent.kind = .none ∨
    ∃ index limit, guard.lastEvent = boundsEvent (some cfg.blockName) index limit

/-- The reasons runs give for their events. -/
def runReasons : List CStr :=
  [.lit "ENTERED", .lit "OK", .lit "ERROR", .lit "TIMEOUT", .lit "BOUNDS", .lit "QUARANTINED",
    .lit "BREAKER_OPEN", .lit "COMPLETED"]

/-- An event of a run of the block. -/
structure OfRun (block : Option CStr) (ev : ExtEvent P) : Prop where
  blockName : ev.blockName = block
  reason : ∃ reason ∈ runReasons, ev.reason = some reason

/-- The verdict on a run or its refusal: the events and the return code it is
closed with. -/
inductive Judged (block : Option CStr) (last : ExtEvent P) : List (ExtEvent P) → ℤ → Prop
  | ok : Judged block last [⟨.blockOk, block, some (.lit "OK"), 0, 0, 0⟩] Loxguard.ok
  | failed {ev : ExtEvent P} {rc : ℤ} (hev : OfRun block ev) (hkind : ev.kind.isFailure = true)
      (hrc : rc ≠ Loxguard.ok) : Judged block last [ev] rc
  | incident {rc : ℤ} (index limit : P.Size) (hlast : last = boundsEvent block index limit)
      (hrc : rc ≠ Loxguard.ok) : Judged block last [] rc

/-- The world when a run is judged: the events of the verdict are stored, the
clock is read and the breaker is told. -/
def World.judge (w : World P) (box : ℕ) (evs : List (ExtEvent P)) (adapters : BlockStates)
    (breaker : Option (Stream' BreakerAnswer)) : World P :=
  { w.emitAll box evs with adapters, env := { (w.emitAll box evs).env.tick with breaker } }

/-- What the end of a run does that can be seen. -/
def closeEffects (env : Env) (box : ℕ) (guard : GuardCtx P) (rc : ℤ) : List (Effect P) :=
  .event box (completedEvent guard.blockName guard.durationTicks) env.persist.head ::
    recoveryEffects env guard rc

/-- The world after the end of a run. -/
def World.close (w : World P) (box : ℕ) (guard : GuardCtx P) (rc : ℤ) : World P :=
  let w' := w.emit box (completedEvent guard.blockName guard.durationTicks)
  { w' with trace := w'.trace ++ recoveryEffects w.env guard rc }

/-- The function of the block has been called since the trace was `past`. -/
def World.InvokedSince (w : World P) (past : List (Effect P)) (cfg : BlockCfg P) : Prop :=
  ∃ effs, w.trace = past ++ effs ∧ .invoke (some cfg.blockName) ∈ effs

/-- A phase of a run of one of the blocks, with what can be seen of it. Only a
function called since the trace was `past` writes. -/
inductive Phase (past : List (Effect P)) (cfgs : Set (BlockCfg P)) :
    World P → List (Effect P) → World P → Prop
  | enter {cfg : BlockCfg P} {box : ℕ} (hcfg : cfg ∈ cfgs) (hbox : cfg.blackbox = some box)
      (w : World P) :
      Phase past cfgs w [.event box (enteredEvent (some cfg.blockName)) w.env.persist.head]
        (w.entered cfg box)
  | ask (w : World P) (adapters : BlockStates) (breaker : Option (Stream' BreakerAnswer)) :
      Phase past cfgs w [] { w with adapters, env := { w.env with breaker } }
  | invoke {cfg : BlockCfg P} (hcfg : cfg ∈ cfgs) (w : World P) :
      Phase past cfgs w [.invoke (some cfg.blockName)]
        { w with trace := w.trace ++ [.invoke (some cfg.blockName)] }
  | bounds {cfg : BlockCfg P} {box : ℕ} (hcfg : cfg ∈ cfgs) (hbox : cfg.blackbox = some box)
      (w : World P) (index limit : P.Size) :
      Phase past cfgs w [.event box (boundsEvent (some cfg.blockName) index limit) w.env.persist.head]
        (w.emit box (boundsEvent (some cfg.blockName) index limit))
  | write {cfg : BlockCfg P} (hcfg : cfg ∈ cfgs) (w : World P)
      (hinvoked : w.InvokedSince past cfg) (index : P.Size) (value : UInt8) :
      Phase past cfgs w [] { w with mem := (spanWriteU8 w.mem (some cfg.output) index value).2 }
  | close {cfg : BlockCfg P} {box : ℕ} (hcfg : cfg ∈ cfgs) (hbox : cfg.blackbox = some box)
      (w : World P) {guard : GuardCtx P} (hguard : Guards cfg box guard) {evs : List (ExtEvent P)}
      {rc : ℤ} (h : Judged guard.blockName guard.lastEvent evs rc) (adapters : BlockStates)
      (breaker : Option (Stream' BreakerAnswer)) :
      Phase past cfgs w
        (eventEffects box evs w.env.persist ++ closeEffects (w.judge box evs adapters breaker).env box
          (guard.noteAll w.env.persist evs) rc)
        ((w.judge box evs adapters breaker).close box (guard.noteAll w.env.persist evs) rc)

/-- Phases one after the other. -/
abbrev Phases (past : List (Effect P)) (cfgs : Set (BlockCfg P)) :
    World P → List (Effect P) → World P → Prop :=
  Traces.Steps (Phase past cfgs)

/-! ### Steps -/

/-- A step of a run of one of the blocks, with what can be seen of it. -/
inductive Step (past : List (Effect P)) (cfgs : Set (BlockCfg P)) :
    World P → List (Effect P) → World P → Prop
  | enter {cfg : BlockCfg P} {box : ℕ} (hcfg : cfg ∈ cfgs) (hbox : cfg.blackbox = some box)
      (w : World P) :
      Step past cfgs w [.event box (enteredEvent (some cfg.blockName)) w.env.persist.head]
        (w.entered cfg box)
  | emit {cfg : BlockCfg P} {box : ℕ} (hcfg : cfg ∈ cfgs) (hbox : cfg.blackbox = some box)
      (w : World P) {ev : ExtEvent P} (hev : OfRun (some cfg.blockName) ev) :
      Step past cfgs w [.event box ev w.env.persist.head] (w.emit box ev)
  | tick (w : World P) : Step past cfgs w [] { w with env := w.env.tick }
  | ask (w : World P) (adapters : BlockStates) (breaker : Option (Stream' BreakerAnswer)) :
      Step past cfgs w [] { w with adapters, env := { w.env with breaker } }
  | invoke {cfg : BlockCfg P} (hcfg : cfg ∈ cfgs) (w : World P) :
      Step past cfgs w [.invoke (some cfg.blockName)]
        { w with trace := w.trace ++ [.invoke (some cfg.blockName)] }
  | recovery (w : World P) (ev : ExtEvent P) (action : Action) :
      Step past cfgs w [.recovery ev action] { w with trace := w.trace ++ [.recovery ev action] }
  | write {cfg : BlockCfg P} (hcfg : cfg ∈ cfgs) (w : World P)
      (hinvoked : w.InvokedSince past cfg) (index : P.Size) (value : UInt8) :
      Step past cfgs w [] { w with mem := (spanWriteU8 w.mem (some cfg.output) index value).2 }

/-- Steps one after the other. -/
abbrev Steps (past : List (Effect P)) (cfgs : Set (BlockCfg P)) :
    World P → List (Effect P) → World P → Prop :=
  Traces.Steps (Step past cfgs)

section Reasons

variable (block : Option CStr)

theorem ofRun_entered : OfRun block (enteredEvent block : ExtEvent P) :=
  ⟨rfl, .lit "ENTERED", by decide, rfl⟩

theorem ofRun_bounds (index limit : P.Size) : OfRun block (boundsEvent block index limit) :=
  ⟨rfl, .lit "BOUNDS", by decide, rfl⟩

theorem ofRun_completed (duration : BitVec 32) : OfRun block (completedEvent block duration : ExtEvent P) :=
  ⟨rfl, .lit "COMPLETED", by decide, rfl⟩

theorem Judged.ofRun {block : Option CStr} {last : ExtEvent P} {evs : List (ExtEvent P)} {rc : ℤ}
    (h : Judged block last evs rc) : ∀ ev ∈ evs, OfRun block ev := by
  intro ev hev
  cases h with
  | ok =>
    rw [List.mem_singleton.mp hev]
    exact ⟨rfl, .lit "OK", by decide, rfl⟩
  | failed hof => rwa [List.mem_singleton.mp hev]
  | incident => cases hev

end Reasons

section Steps

variable {past : List (Effect P)} {cfgs : Set (BlockCfg P)} {cfg : BlockCfg P} {box : ℕ}

theorem emitAll_steps (hcfg : cfg ∈ cfgs) (hbox : cfg.blackbox = some box) (w : World P)
    (evs : List (ExtEvent P)) (hevs : ∀ ev ∈ evs, OfRun (some cfg.blockName) ev) :
    Steps past cfgs w (eventEffects box evs w.env.persist) (w.emitAll box evs) := by
  induction evs generalizing w with
  | nil => exact .refl w
  | cons ev evs ih =>
    have hfirst : Steps past cfgs w [.event box ev w.env.persist.head] (w.emit box ev) :=
      .single (.emit hcfg hbox w (hevs ev List.mem_cons_self))
    exact hfirst.trans (ih (w.emit box ev) fun e he => hevs e (List.mem_cons_of_mem _ he))

theorem recovery_steps (w : World P) (env : Env) (guard : GuardCtx P) (rc : ℤ) :
    Steps past cfgs w (recoveryEffects env guard rc)
      { w with trace := w.trace ++ recoveryEffects env guard rc } := by
  unfold recoveryEffects
  split
  · exact .single (.recovery w _ _)
  · rw [List.append_nil]
    exact .refl w

theorem close_steps (hcfg : cfg ∈ cfgs) (hbox : cfg.blackbox = some box) (w : World P)
    {guard : GuardCtx P} (hname : guard.blockName = some cfg.blockName) (rc : ℤ) :
    Steps past cfgs w (closeEffects w.env box guard rc) (w.close box guard rc) := by
  have hcompleted : Step past cfgs w _ (w.emit box (completedEvent guard.blockName guard.durationTicks)) :=
    .emit hcfg hbox w (hname ▸ ofRun_completed guard.blockName _)
  exact (Traces.Steps.single hcompleted).trans (recovery_steps _ w.env guard rc)

/-- **The phases are made of steps.** -/
theorem Phase.steps {w w' : World P} {effs : List (Effect P)} (h : Phase past cfgs w effs w') :
    Steps past cfgs w effs w' := by
  cases h with
  | enter hcfg hbox w => exact .single (.enter hcfg hbox w)
  | ask w adapters breaker => exact .single (.ask w adapters breaker)
  | invoke hcfg w => exact .single (.invoke hcfg w)
  | bounds hcfg hbox w index limit => exact .single (.emit hcfg hbox w (ofRun_bounds _ index limit))
  | write hcfg w hinvoked index value => exact .single (.write hcfg w hinvoked index value)
  | close hcfg hbox w hguard hjudged adapters breaker =>
    rename_i cfg box guard evs rc
    have hevs : ∀ ev ∈ evs, OfRun (some cfg.blockName) ev := by
      rw [← hguard.blockName]
      exact hjudged.ofRun
    have hemitted : Steps past cfgs w _ (w.emitAll box evs) := emitAll_steps hcfg hbox w evs hevs
    have hticked := hemitted.tail (.tick (w.emitAll box evs))
    have hasked := hticked.tail (.ask _ adapters breaker)
    have hclosed := hasked.trans (close_steps hcfg hbox (w.judge box evs adapters breaker)
      ((noteAll_blockName evs guard w.env.persist).trans hguard.blockName) rc)
    rwa [List.append_nil, List.append_nil] at hclosed

/-- What can be seen of a step is what it adds to the trace. -/
theorem Step.trace {w w' : World P} {effs : List (Effect P)} (h : Step past cfgs w effs w') :
    w'.trace = w.trace ++ effs := by
  cases h with
  | enter => rfl
  | emit => rfl
  | tick => exact (List.append_nil _).symm
  | ask => exact (List.append_nil _).symm
  | invoke => rfl
  | recovery => rfl
  | write => exact (List.append_nil _).symm

theorem composes_trace :
    Traces.Composes fun (w : World P) effs w' => w'.trace = w.trace ++ effs where
  refl _ := (List.append_nil _).symm
  trans h h' := by rw [h', h, List.append_assoc]

theorem Phases.trace {w w' : World P} {effs : List (Effect P)} (h : Phases past cfgs w effs w') :
    w'.trace = w.trace ++ effs :=
  (h.refine Phase.steps).lift composes_trace Step.trace

theorem Phases.prefix_trace {w w' : World P} {effs : List (Effect P)} (h : Phases past cfgs w effs w')
    (hpast : past <+: w.trace) : past <+: w'.trace := by
  rw [h.trace]
  exact hpast.trans (List.prefix_append ..)

theorem World.InvokedSince.prefix_trace {w : World P} (h : w.InvokedSince past cfg) :
    past <+: w.trace := by
  obtain ⟨effs, htrace, -⟩ := h
  exact ⟨effs, htrace.symm⟩

theorem World.InvokedSince.extend {w w' : World P} (h : w.InvokedSince past cfg) {effs : List (Effect P)}
    (htrace : w'.trace = w.trace ++ effs) : w'.InvokedSince past cfg := by
  obtain ⟨before, hw, hmem⟩ := h
  refine ⟨before ++ effs, ?_, List.mem_append_left _ hmem⟩
  rw [htrace, hw, List.append_assoc]

theorem Phases.invokedSince {w w' : World P} {effs : List (Effect P)} (h : Phases past cfgs w effs w')
    (hinvoked : w.InvokedSince past cfg) : w'.InvokedSince past cfg :=
  hinvoked.extend h.trace

theorem invokedSince_invoke {w : World P} (hpast : past <+: w.trace) (cfg : BlockCfg P) :
    World.InvokedSince { w with trace := w.trace ++ [.invoke (some cfg.blockName)] } past cfg := by
  obtain ⟨before, htrace⟩ := hpast
  refine ⟨before ++ [.invoke (some cfg.blockName)], ?_, List.mem_append_right _ (List.mem_singleton_self _)⟩
  rw [← List.append_assoc, htrace]

end Steps

/-! ### Runs are made of phases -/

theorem completeRun_close {guard : GuardCtx P} {box : ℕ} (h : guard.blackbox = some box) (rc : ℤ)
    (w : World P) : (completeRun guard rc w).2 = w.close box guard rc :=
  congrArg Prod.snd (completeRun_eq h rc w)

theorem judged_verdict (cfg : BlockCfg P) {box : ℕ} {guard : GuardCtx P} (h : Guards cfg box guard)
    (rc : ℤ) (duration : BitVec 32) : Judged guard.blockName guard.lastEvent
      (verdictEvents cfg guard.blockName rc guard.lastEvent.kind duration)
      (verdictRc cfg rc duration) := by
  unfold verdictEvents verdictRc
  by_cases hto : cfg.TimedOut duration
  · rw [if_pos hto, if_pos hto]
    exact .failed ⟨rfl, .lit "TIMEOUT", by decide, rfl⟩ rfl (by decide)
  rw [if_neg hto, if_neg hto]
  by_cases hok : rc = ok
  · rw [if_pos hok, hok]
    exact .ok
  rw [if_neg hok]
  rcases h.last with hnone | ⟨index, limit, hlast⟩
  · rw [if_pos hnone]
    exact .failed ⟨rfl, .lit "ERROR", by decide, rfl⟩ rfl hok
  · rw [if_neg (by rw [hlast]; exact nofun)]
    exact .incident index limit (by rw [hlast, h.blockName]) hok

/-- The clock is read before or after events are stored. -/
theorem emitAll_tick (w : World P) (box : ℕ) (evs : List (ExtEvent P)) :
    World.emitAll { w with env := w.env.tick } box evs =
      { w.emitAll box evs with env := (w.emitAll box evs).env.tick } := by
  induction evs generalizing w with
  | nil => rfl
  | cons ev evs ih => exact ih (w.emit box ev)

section Run

variable {past : List (Effect P)} {cfgs : Set (BlockCfg P)} {cfg : BlockCfg P} {box : ℕ}

theorem refuseRun_phase (hcfg : cfg ∈ cfgs) (hbox : cfg.blackbox = some box) {guard : GuardCtx P}
    (hguard : Guards cfg box guard) {reason : CStr} (hreason : reason ∈ runReasons)
    (index limit : P.Size) (aux : BitVec 32) (w : World P) :
    ∃ effs, Phase past cfgs w effs (refuseRun guard reason index limit aux w).2 := by
  let ev : ExtEvent P := ⟨.blockError, guard.blockName, some reason, index, limit, aux⟩
  let stopped : GuardCtx P := { guard with durationTicks := w.env.reading 0 - guard.startTicks }
  have hstopped : Guards cfg box stopped := ⟨hguard.blackbox, hguard.blockName, hguard.output, hguard.last⟩
  have hjudged : Judged stopped.blockName stopped.lastEvent [ev] errUnsupported :=
    .failed ⟨rfl, reason, hreason, rfl⟩ rfl (by decide)
  have hclose : (refuseRun guard reason index limit aux w).2 =
      (w.judge box [ev] (w.emit box ev).adapters (w.emit box ev).env.breaker).close box
        (stopped.note ev w.env.persist.head) errUnsupported := by
    rw [refuseRun_eq hguard.blackbox]
    exact completeRun_close (show (stopped.note ev w.env.persist.head).blackbox = _ from hguard.blackbox) _ _
  rw [hclose]
  exact ⟨_, .close hcfg hbox w hstopped hjudged _ _⟩

theorem finishRun_phase (hcfg : cfg ∈ cfgs) (hbox : cfg.blackbox = some box) {guard : GuardCtx P}
    (hguard : Guards cfg box guard) (rc : ℤ) (w : World P) :
    ∃ effs, Phase past cfgs w effs (finishRun cfg rc guard w).2 := by
  let duration := w.env.reading 0 - guard.startTicks
  let evs := verdictEvents cfg guard.blockName rc guard.lastEvent.kind duration
  let stopped : GuardCtx P := { guard with durationTicks := duration }
  have hstopped : Guards cfg box stopped := ⟨hguard.blackbox, hguard.blockName, hguard.output, hguard.last⟩
  have hjudged : Judged stopped.blockName stopped.lastEvent evs (verdictRc cfg rc duration) :=
    judged_verdict cfg hstopped rc duration
  obtain ⟨scratch, adapters, breaker, hfinish⟩ := finishRun_eq cfg hguard.blackbox rc w
    (show _ = duration from rfl) (show _ = evs from rfl)
  have hbox' : (stopped.noteAll w.env.persist evs).blackbox = some box :=
    (noteAll_blackbox evs stopped _).trans hguard.blackbox
  have hclose : (finishRun cfg rc guard w).2 = (w.judge box evs adapters breaker).close box
      (stopped.noteAll w.env.persist evs) (verdictRc cfg rc duration) := by
    rw [hfinish, emitAll_tick]
    exact completeRun_close (show ({ stopped.noteAll w.env.persist evs with scratch }).blackbox = _
      from hbox') _ _
  rw [hclose]
  exact ⟨_, .close hcfg hbox w hstopped hjudged adapters breaker⟩

theorem guards_guardOf (hbox : cfg.blackbox = some box) (startTicks : BitVec 32) :
    Guards cfg box (guardOf cfg startTicks) :=
  ⟨hbox, rfl, rfl, Or.inl rfl⟩

/-- A guarded function is made of phases, when it is called in the course of a
run of any of the blocks. -/
def PhasesOf (past : List (Effect P)) (cfgs : Set (BlockCfg P)) (fn : GuardFn P) : Prop :=
  ∀ (cfg : BlockCfg P) (box : ℕ) (guard : GuardCtx P) (w : World P), cfg ∈ cfgs →
    cfg.blackbox = some box → Guards cfg box guard → w.InvokedSince past cfg →
    (∃ effs, Phases past cfgs w effs (fn guard w).2.2) ∧ Guards cfg box (fn guard w).2.1

/-- **A run** of one of the blocks is made of phases when its function is. -/
theorem run_phases (hcfg : cfg ∈ cfgs) (hbox : cfg.blackbox = some box) {fn : GuardFn P}
    (hfn : PhasesOf past cfgs fn) {w : World P} (hpast : past <+: w.trace) :
    ∃ effs, Phases past cfgs w effs (loxguardRun (some cfg) (some fn) w).2 := by
  have hguard : Guards cfg box (guardOf cfg (w.env.reading 0)) := guards_guardOf hbox _
  have hentered : Phases past cfgs w _ (w.entered cfg box) := .single (.enter hcfg hbox w)
  rcases loxguardRun_cases hbox fn w with ⟨-, hrun⟩ | ⟨-, -, aux, adapters, breaker, hrun⟩ |
    ⟨-, -, adapters, breaker, hrun⟩
  · obtain ⟨effs, hrefused⟩ := refuseRun_phase hcfg hbox hguard (show .lit "QUARANTINED" ∈ runReasons by decide)
      ((entryStreak w.streaks (some cfg.blockName)).setWidth P.sizeBits)
      (cfg.maxFailures.setWidth P.sizeBits) 0 (w.entered cfg box)
    rw [hrun]
    exact ⟨_, hentered.tail hrefused⟩
  · have hasked := hentered.tail (.ask (w.entered cfg box) adapters breaker)
    obtain ⟨effs, hrefused⟩ := refuseRun_phase hcfg hbox hguard (show .lit "BREAKER_OPEN" ∈ runReasons by decide) 0 0
      aux { w.entered cfg box with adapters, env := { (w.entered cfg box).env with breaker } }
    rw [hrun]
    exact ⟨_, hasked.tail hrefused⟩
  · have hasked := hentered.tail (.ask (w.entered cfg box) adapters breaker)
    have hcalled := hasked.tail (.invoke hcfg _)
    obtain ⟨⟨effs, hbody⟩, hguard'⟩ := hfn cfg box _
      { w.entered cfg box with
        adapters
        env := { (w.entered cfg box).env with breaker }
        trace := (w.entered cfg box).trace ++ [.invoke (some cfg.blockName)] } hcfg hbox hguard
      (invokedSince_invoke (Phases.prefix_trace hasked hpast) cfg)
    obtain ⟨effs', hfinished⟩ := finishRun_phase hcfg hbox hguard' _ _
    rw [hrun]
    exact ⟨_, (hcalled.trans hbody).tail hfinished⟩

end Run

/-! ### Guarded functions -/

/-- The runs a function starts, at any depth, are of blocks among `cfgs`. -/
def Script.Calls (cfgs : Set (BlockCfg P)) : Script P → Prop
  | .ret _ => True
  | .write _ _ next => ∀ rc, (next rc).Calls cfgs
  | .emitBounds _ _ next => next.Calls cfgs
  | .run cfg fn next =>
    (∀ c, cfg = some c → c ∈ cfgs) ∧ fn.Calls cfgs ∧ ∀ report, (next report).Calls cfgs

theorem Script.calls_univ : ∀ s : Script P, s.Calls Set.univ
  | .ret _ => trivial
  | .write _ _ next => fun rc => (next rc).calls_univ
  | .emitBounds _ _ next => next.calls_univ
  | .run _ fn next => ⟨fun _ _ => trivial, fn.calls_univ, fun report => (next report).calls_univ⟩

theorem Guards.note {cfg : BlockCfg P} {box : ℕ} {guard : GuardCtx P} (h : Guards cfg box guard)
    (index limit : P.Size) (rc : ℤ) :
    Guards cfg box (guard.note (boundsEvent guard.blockName index limit) rc) :=
  ⟨h.blackbox, h.blockName, h.output, Or.inr ⟨index, limit, by rw [← h.blockName]; rfl⟩⟩

section Exec

variable {past : List (Effect P)} {cfgs : Set (BlockCfg P)}

theorem nested_phases (cfg : Option (BlockCfg P)) (hcfg : ∀ c, cfg = some c → c ∈ cfgs)
    {fn : GuardFn P} (hfn : PhasesOf past cfgs fn) {w : World P} (hpast : past <+: w.trace) :
    ∃ effs, Phases past cfgs w effs (loxguardRun cfg (some fn) w).2 := by
  cases cfg with
  | none => exact ⟨[], .refl w⟩
  | some c =>
    cases hbox : c.blackbox with
    | none =>
      rw [loxguardRun_of_null hbox]
      exact ⟨[], .refl w⟩
    | some box => exact run_phases (hcfg c rfl) hbox hfn hpast

/-- A checked write is an incident or writes memory. -/
theorem checkedOutputWriteU8_phases {cfg : BlockCfg P} {box : ℕ} {guard : GuardCtx P}
    (hcfg : cfg ∈ cfgs) (hbox : cfg.blackbox = some box) (hguard : Guards cfg box guard)
    (index : P.Size) (value : UInt8) {w : World P} (hinvoked : w.InvokedSince past cfg) :
    (∃ effs, Phase past cfgs w effs (checkedOutputWriteU8 guard index value w).2.2) ∧
      Guards cfg box (checkedOutputWriteU8 guard index value w).2.1 := by
  by_cases hr : guard.output.Rejects index
  · rw [checkedOutputWriteU8_rejected hguard.blackbox hr, hguard.blockName]
    refine ⟨⟨_, .bounds hcfg hbox w index guard.output.len⟩, ?_⟩
    have hnote := hguard.note index guard.output.len w.env.persist.head
    rwa [hguard.blockName] at hnote
  · have hrc : (spanWriteU8 w.mem (some guard.output) index value).1 ≠ errBounds := by
      rw [spanWriteU8_rc]
      exact fun h => hr ((writeRc_eq_bounds_iff _ _).mp h)
    have hwrite : (checkedOutputWriteU8 guard index value w).2 =
        (guard, { w with mem := (spanWriteU8 w.mem (some guard.output) index value).2 }) :=
      congrArg Prod.snd (if_neg hrc)
    rw [hwrite, hguard.output]
    exact ⟨⟨_, .write hcfg w hinvoked index value⟩, hguard⟩

/-- **A guarded function** is made of phases: by induction on the script, with
runs nested to any depth. -/
theorem exec_phases (s : Script P) (hs : s.Calls cfgs) : PhasesOf past cfgs s.exec := by
  induction s with
  | ret rc => exact fun cfg box guard w _ _ hguard _ => ⟨⟨[], .refl w⟩, hguard⟩
  | write index value next ih =>
    intro cfg box guard w hcfg hbox hguard hinvoked
    obtain ⟨⟨effs, hwrite⟩, hguard'⟩ :=
      checkedOutputWriteU8_phases hcfg hbox hguard index value hinvoked
    have hwritten : Phases past cfgs w effs _ := .single hwrite
    obtain ⟨⟨effs', hrest⟩, hguard''⟩ := ih _ (hs _) cfg box _
      (checkedOutputWriteU8 guard index value w).2.2 hcfg hbox hguard' (hwritten.invokedSince hinvoked)
    exact ⟨⟨_, hwritten.trans hrest⟩, hguard''⟩
  | emitBounds index limit next ih =>
    intro cfg box guard w hcfg hbox hguard hinvoked
    have hbounds : Phases past cfgs w _ _ := .single (.bounds hcfg hbox w index limit)
    rw [← hguard.blockName] at hbounds
    obtain ⟨⟨effs, hrest⟩, hguard'⟩ := ih hs cfg box _
      (w.emit box (boundsEvent guard.blockName index limit)) hcfg hbox
      (hguard.note index limit w.env.persist.head) (hbounds.invokedSince hinvoked)
    simp only [Script.exec, guardEmitBounds_eq hguard.blackbox]
    exact ⟨⟨_, hbounds.trans hrest⟩, hguard'⟩
  | run nested fn next ihfn ihnext =>
    intro cfg box guard w hcfg hbox hguard hinvoked
    obtain ⟨hnested, hfn, hnext⟩ := hs
    obtain ⟨effs, hran⟩ := nested_phases nested hnested (ihfn hfn) hinvoked.prefix_trace
    obtain ⟨⟨effs', hrest⟩, hguard'⟩ := ihnext _ (hnext _) cfg box guard
      (loxguardRun nested (some fn.exec) w).2 hcfg hbox hguard (hran.invokedSince hinvoked)
    exact ⟨⟨_, hran.trans hrest⟩, hguard'⟩

end Exec

/-! ### Calls -/

/-- The call, and the runs its function starts, are of blocks among `cfgs`. -/
def Call.Calls (cfgs : Set (BlockCfg P)) (c : Call P) : Prop := c.cfg ∈ cfgs ∧ c.fn.Calls cfgs

section Calls

variable {cfgs : Set (BlockCfg P)}

theorem Call.exec_phases {past : List (Effect P)} {c : Call P} (hc : c.Calls cfgs) {w : World P}
    (hpast : past <+: w.trace) :
    ∃ effs, Phases past cfgs { w with env := c.env } effs (c.exec w).2 :=
  nested_phases (some c.cfg) (fun _ h => Option.some_inj.mp h ▸ hc.1) (Loxguard.exec_phases c.fn hc.2)
    (show past <+: { w with env := c.env }.trace from hpast)

/-- **What composes and holds of every phase** holds of any calls, one after
the other, when it also holds where a new environment is met. -/
theorem runAll_phases {Q : World P → List (Effect P) → World P → Prop} (hQ : Traces.Composes Q)
    (henv : ∀ (w : World P) env, Q w [] { w with env }) (cs : List (Call P))
    (hcs : ∀ c ∈ cs, c.Calls cfgs) (w : World P)
    (hphase : ∀ {w₁ effs w₂}, Phase w.trace cfgs w₁ effs w₂ → Q w₁ effs w₂) :
    ∃ effs, Q w effs (runAll w cs).2 := by
  have hstep : ∀ c ∈ cs, ∀ w', (w.trace <+: w'.trace ∧ ∃ effs, Q w effs w') →
      w.trace <+: (Call.step w' c).2.trace ∧ ∃ effs, Q w effs (Call.step w' c).2 := by
    rintro c hc w' ⟨hpast, effs, hw'⟩
    obtain ⟨effs', hexec⟩ := Call.exec_phases (hcs c hc) hpast
    exact ⟨hexec.prefix_trace hpast, _,
      hQ.trans hw' (hQ.trans (henv w' c.env) (hexec.lift hQ hphase))⟩
  exact (Runs.run_invariant cs w hstep ⟨List.prefix_rfl, [], hQ.refl w⟩).2

/-- **What composes and holds of every step** holds of any calls. -/
theorem runAll_steps {Q : World P → List (Effect P) → World P → Prop} (hQ : Traces.Composes Q)
    (henv : ∀ (w : World P) env, Q w [] { w with env }) (cs : List (Call P))
    (hcs : ∀ c ∈ cs, c.Calls cfgs) (w : World P)
    (hstep : ∀ {w₁ effs w₂}, Step w.trace cfgs w₁ effs w₂ → Q w₁ effs w₂) :
    ∃ effs, Q w effs (runAll w cs).2 :=
  runAll_phases hQ henv cs hcs w fun h => h.steps.lift hQ hstep

end Calls

end Loxguard
