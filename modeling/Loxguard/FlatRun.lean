/-
# Runs without nested runs

A run whose function starts no other run is a function of its configuration,
of the incidents and the return code of its function, of the streak it finds,
the clock, the breaker and the outcomes of persistence. `courseOf` says what
happens between `ENTERED` and `COMPLETED`; report, effects and streak table
follow from it (`flat_run`).

Key definitions: `Course`, `courseOf`, `Course.report`, `Course.effects`,
`RunsAs`.
Key theorems: `exec_flat`, `flat_run`, `storedEvents_effects`,
`invoked_effects_iff`.
-/
import Loxguard.RunSteps

namespace Loxguard

open Lib

variable {P : Platform}

/-! ### Several events -/

theorem eventEffects_append (box : ℕ) (evs evs' : List (ExtEvent P)) (persist : Stream' ℤ) :
    eventEffects box (evs ++ evs') persist =
      eventEffects box evs persist ++ eventEffects box evs' (persist.drop evs.length) := by
  induction evs generalizing persist with
  | nil => rfl
  | cons ev evs ih =>
    simp only [List.cons_append, eventEffects, ih, List.length_cons]
    rfl

theorem noteAll_append (evs evs' : List (ExtEvent P)) (ctx : GuardCtx P) (persist : Stream' ℤ) :
    ctx.noteAll persist (evs ++ evs') =
      (ctx.noteAll persist evs).noteAll (persist.drop evs.length) evs' := by
  induction evs generalizing ctx persist with
  | nil => rfl
  | cons ev evs ih =>
    simp only [List.cons_append, GuardCtx.noteAll, ih, List.length_cons]
    rfl

theorem noteAll_with_duration (d : BitVec 32) (evs : List (ExtEvent P)) (ctx : GuardCtx P)
    (persist : Stream' ℤ) : GuardCtx.noteAll { ctx with durationTicks := d } persist evs =
      { ctx.noteAll persist evs with durationTicks := d } := by
  induction evs generalizing ctx persist with
  | nil => rfl
  | cons ev evs ih => exact ih (ctx.note ev persist.head) persist.tail

section EmitAll

variable (box : ℕ) (evs : List (ExtEvent P)) (w : World P)

theorem emitAll_streaks (block : Option CStr) (h : ∀ ev ∈ evs, ev.blockName = block) :
    (w.emitAll box evs).streaks = (evs.map Event.kind).foldl (observe block) w.streaks := by
  induction evs generalizing w with
  | nil => rfl
  | cons ev evs ih =>
    have hevs : ∀ e ∈ evs, e.blockName = block := fun e he => h e (List.mem_cons_of_mem _ he)
    calc ((w.emit box ev).emitAll box evs).streaks
        = (evs.map Event.kind).foldl (observe block) (w.emit box ev).streaks := ih (w.emit box ev) hevs
      _ = ((ev :: evs).map Event.kind).foldl (observe block) w.streaks := by
          rw [emit_streaks, h ev List.mem_cons_self, List.map_cons, List.foldl_cons]

theorem emitAll_with_mem (mem : Mem) :
    World.emitAll { w with mem } box evs = { w.emitAll box evs with mem } := by
  induction evs generalizing w with
  | nil => rfl
  | cons ev evs ih => exact ih (w.emit box ev)

end EmitAll

/-! ### The guarded function -/

/-- The events of the incidents of a function. -/
def FlatScript.incidentEvents (s : FlatScript P) (block : Option CStr) (output : Span P) :
    List (ExtEvent P) :=
  (s.incidents output).map fun incident => boundsEvent block incident.1 incident.2

/-- **A function without nested runs** stores its incidents and returns. -/
theorem exec_flat : ∀ (s : FlatScript P) (ctx : GuardCtx P) (w : World P) (box : ℕ),
    ctx.blackbox = some box →
    ∃ mem, s.toScript.exec ctx w = (s.returned ctx.output,
      ctx.noteAll w.env.persist (s.incidentEvents ctx.blockName ctx.output),
      { w.emitAll box (s.incidentEvents ctx.blockName ctx.output) with mem })
  | .ret rc, ctx, w, box, _ => ⟨w.mem, rfl⟩
  | .write index value next, ctx, w, box, h => by
    by_cases hr : ctx.output.Rejects index
    · obtain ⟨mem, hexec⟩ := exec_flat (next (ctx.output.writeRc index))
        (ctx.note (boundsEvent ctx.blockName index ctx.output.len) w.env.persist.head)
        (w.emit box (boundsEvent ctx.blockName index ctx.output.len)) box h
      have hevs : (FlatScript.write index value next).incidentEvents ctx.blockName ctx.output =
          boundsEvent ctx.blockName index ctx.output.len ::
            (next (ctx.output.writeRc index)).incidentEvents ctx.blockName ctx.output := by
        simp [FlatScript.incidentEvents, FlatScript.incidents, hr]
      refine ⟨mem, ?_⟩
      simp only [FlatScript.toScript, Script.exec, checkedOutputWriteU8_rejected h hr]
      rw [hexec, hevs]
      rfl
    · obtain ⟨mem, hwrite⟩ := checkedOutputWriteU8_other hr value w
      obtain ⟨mem', hexec⟩ := exec_flat (next (ctx.output.writeRc index)) ctx { w with mem } box h
      have hevs : (FlatScript.write index value next).incidentEvents ctx.blockName ctx.output =
          (next (ctx.output.writeRc index)).incidentEvents ctx.blockName ctx.output := by
        simp [FlatScript.incidentEvents, FlatScript.incidents, hr]
      refine ⟨mem', ?_⟩
      simp only [FlatScript.toScript, Script.exec, hwrite]
      rw [hexec, hevs, emitAll_with_mem]
      rfl
  | .emitBounds index limit next, ctx, w, box, h => by
    obtain ⟨mem, hexec⟩ := exec_flat next
      (ctx.note (boundsEvent ctx.blockName index limit) w.env.persist.head)
      (w.emit box (boundsEvent ctx.blockName index limit)) box h
    refine ⟨mem, ?_⟩
    simp only [FlatScript.toScript, Script.exec, guardEmitBounds_eq h]
    rw [hexec]
    rfl

theorem incidentEvents_blockName (s : FlatScript P) (block : Option CStr) (output : Span P) :
    ∀ ev ∈ s.incidentEvents block output, ev.blockName = block := by
  intro ev hev
  obtain ⟨incident, -, rfl⟩ := List.mem_map.mp hev
  rfl

/-! ### The course of a run -/

/-- What happens in a run between `ENTERED` and `COMPLETED`: whether its
function is called, the events it stores, and the return code it ends with. -/
structure Course (P : Platform) where
  invoked : Bool
  events : List (ExtEvent P)
  rc : ℤ

/-- The course of a refused run. -/
def Course.refusal (cfg : BlockCfg P) (reason : CStr) (index limit : P.Size)
    (aux : BitVec 32) : Course P :=
  ⟨false, [⟨.blockError, some cfg.blockName, some reason, index, limit, aux⟩], errUnsupported⟩

/-- The time from the first clock reading to the second, modulo 2^32. -/
def Env.elapsed (env : Env) : BitVec 32 := env.reading 1 - env.reading 0

/-- The kind of the last event after incidents. -/
def lastKindOf (evs : List (ExtEvent P)) : EventKind :=
  if evs = [] then .none else .blockWriteOutOfBounds

/-- The events of a run whose function is called: its incidents, and the
verdict. -/
def calledEvents (cfg : BlockCfg P) (fn : FlatScript P) (duration : BitVec 32) : List (ExtEvent P) :=
  let evs := fn.incidentEvents (some cfg.blockName) cfg.output
  evs ++ verdictEvents cfg (some cfg.blockName) (fn.returned cfg.output) (lastKindOf evs) duration

/-- **The course of a run** that finds a streak and takes `duration`. `refusal`
is the aux code of a refusal by the breaker. -/
def courseOf (cfg : BlockCfg P) (fn : FlatScript P) (streak : BitVec 32)
    (refusal : Option (BitVec 32)) (duration : BitVec 32) : Course P :=
  if cfg.QuarantinedAt streak then
    .refusal cfg (.lit "QUARANTINED") (streak.setWidth P.sizeBits)
      (cfg.maxFailures.setWidth P.sizeBits) 0
  else match refusal with
    | some aux => .refusal cfg (.lit "BREAKER_OPEN") 0 0 aux
    | none =>
      { invoked := true
        events := calledEvents cfg fn duration
        rc := verdictRc cfg (fn.returned cfg.output) duration }

namespace Course

variable (c : Course P) (cfg : BlockCfg P) (env : Env)

/-- The guard context at the end of a run. -/
def guard : GuardCtx P :=
  { (guardOf cfg (env.reading 0)).noteAll env.persist.tail c.events with durationTicks := env.elapsed }

/-- The report of a run. -/
def report : Report := reportOf (c.guard cfg env) c.rc

/-- The effects of a run up to `COMPLETED`. -/
def begun (box : ℕ) : List (Effect P) :=
  .event box (enteredEvent (some cfg.blockName)) env.persist.head ::
    ((if c.invoked then [.invoke (some cfg.blockName)] else []) ++
      eventEffects box c.events env.persist.tail)

/-- What is seen of a run. -/
def effects (box : ℕ) : List (Effect P) :=
  c.begun cfg env box ++
    (.event box (completedEvent (some cfg.blockName) env.elapsed)
      (env.persist.get (c.events.length + 1)) :: recoveryEffects env (c.guard cfg env) c.rc)

/-- The streak table after the events of a run. -/
def streaks (t : StreakTable) : StreakTable :=
  (c.events.map Event.kind).foldl (observe (some cfg.blockName))
    (failureStreakForBlock (observe (some cfg.blockName) t .blockEntered) (some cfg.blockName)).1

end Course

/-- The run from `w` has the course `c`. -/
structure RunsAs (cfg : BlockCfg P) (box : ℕ) (w : World P) (c : Course P) (r : Report × World P) :
    Prop where
  report : r.1 = c.report cfg w.env
  trace : r.2.trace = w.trace ++ c.effects cfg w.env box
  streaks : r.2.streaks = observe (some cfg.blockName) (c.streaks cfg w.streaks) .blockCompleted

/-! ### Every run has its course -/

/-- The world of a run from `w` on the course `c`, before `COMPLETED`. -/
structure Begun (cfg : BlockCfg P) (box : ℕ) (w : World P) (c : Course P) (w' : World P) : Prop where
  trace : w'.trace = w.trace ++ c.begun cfg w.env box
  streaks : w'.streaks = c.streaks cfg w.streaks
  persist : w'.env.persist = w.env.persist.drop (c.events.length + 1)
  recoveryCb : w'.env.recoveryCb = w.env.recoveryCb

theorem Begun.emitAll {cfg : BlockCfg P} {box : ℕ} {w w' : World P} {invoked : Bool}
    {evs evs' : List (ExtEvent P)} {rc : ℤ} (h : Begun cfg box w ⟨invoked, evs, rc⟩ w')
    (hblock : ∀ ev ∈ evs', ev.blockName = some cfg.blockName) :
    Begun cfg box w ⟨invoked, evs ++ evs', rc⟩ (w'.emitAll box evs') where
  trace := by
    rw [emitAll_trace, h.trace, h.persist, List.append_assoc]
    simp only [Course.begun, eventEffects_append, List.cons_append, List.append_assoc]
    rfl
  streaks := by
    rw [emitAll_streaks box evs' w' _ hblock, h.streaks]
    simp only [Course.streaks, List.map_append, List.foldl_append]
  persist := by
    rw [emitAll_env, List.length_append]
    show w'.env.persist.drop evs'.length = _
    rw [h.persist, Stream'.drop_drop, Nat.add_right_comm, Nat.add_assoc evs.length]
  recoveryCb := by
    rw [emitAll_env]
    exact h.recoveryCb

theorem Begun.complete {cfg : BlockCfg P} {box : ℕ} (hbox : cfg.blackbox = some box) {w w' : World P}
    {c : Course P} (h : Begun cfg box w c w') (scratch : Option (Arena P)) :
    RunsAs cfg box w c (completeRun { c.guard cfg w.env with scratch } c.rc w') := by
  have hguard : ({ c.guard cfg w.env with scratch } : GuardCtx P).blackbox = some box :=
    (noteAll_blackbox c.events _ _).trans hbox
  have hname : (c.guard cfg w.env).blockName = some cfg.blockName := noteAll_blockName c.events _ _
  rw [completeRun_eq hguard]
  refine ⟨rfl, ?_, ?_⟩
  · have hrecovery : recoveryEffects w'.env (c.guard cfg w.env) c.rc =
        recoveryEffects w.env (c.guard cfg w.env) c.rc := by
      rw [recoveryEffects, h.recoveryCb]
      rfl
    have hhead : w'.env.persist.head = w.env.persist.get (c.events.length + 1) := by
      rw [h.persist]
      exact (Stream'.head_drop ..)
    have htrace : (w'.emit box (completedEvent (some cfg.blockName) w.env.elapsed)).trace =
        w.trace ++ (c.begun cfg w.env box ++
          [.event box (completedEvent (some cfg.blockName) w.env.elapsed)
            (w.env.persist.get (c.events.length + 1))]) := by
      rw [emit_trace, h.trace, hhead, List.append_assoc]
    have hduration : (c.guard cfg w.env).durationTicks = w.env.elapsed := rfl
    simp only [hname, hduration, htrace]
    rw [Course.effects, ← hrecovery]
    simp only [List.append_assoc, List.singleton_append]
    rfl
  · show observe _ w'.streaks .blockCompleted = _
    rw [h.streaks]
    exact congrArg (fun name => observe name _ _) hname

/-- **A refused run** has the course of a refusal. -/
theorem refused_runsAs {cfg : BlockCfg P} {box : ℕ} (hbox : cfg.blackbox = some box) (w : World P)
    (reason : CStr) (index limit : P.Size) (aux : BitVec 32) (adapters : BlockStates)
    (breaker : Option (Stream' BreakerAnswer)) :
    RunsAs cfg box w (.refusal cfg reason index limit aux)
      (refuseRun (guardOf cfg (w.env.reading 0)) reason index limit aux
        { w.entered cfg box with adapters, env := { (w.entered cfg box).env with breaker } }) := by
  have hguard : (guardOf cfg (w.env.reading 0)).blackbox = some box := hbox
  rw [refuseRun_eq hguard]
  let ev : ExtEvent P := ⟨.blockError, some cfg.blockName, some reason, index, limit, aux⟩
  let refusing : World P :=
    { w.entered cfg box with adapters, env := { (w.entered cfg box).env with breaker } }
  have hticks : refusing.env.reading 0 = w.env.reading 1 := reading_tick w.env 0
  have hbegun : Begun cfg box w (.refusal cfg reason index limit aux)
      { refusing.emit box ev with env := (refusing.emit box ev).env.tick } :=
    ⟨List.append_assoc .., rfl, rfl, rfl⟩
  have hrun := hbegun.complete hbox (guardOf cfg (w.env.reading 0)).scratch
  rw [Course.guard, Env.elapsed, ← hticks] at hrun
  exact hrun

theorem noteAll_incidentEvents_kind (fn : FlatScript P) (block : Option CStr) (output : Span P)
    (ctx : GuardCtx P) (hlast' : ctx.lastEvent.kind = .none) (persist : Stream' ℤ) :
    (ctx.noteAll persist (fn.incidentEvents block output)).lastEvent.kind =
      lastKindOf (fn.incidentEvents block output) := by
  have hlast : ∀ (incidents : List (P.Size × P.Size)) (ctx : GuardCtx P) (persist : Stream' ℤ),
      incidents ≠ [] → (ctx.noteAll persist
        (incidents.map fun incident => boundsEvent block incident.1 incident.2)).lastEvent.kind =
          .blockWriteOutOfBounds := by
    intro incidents
    induction incidents with
    | nil => exact fun _ _ h => absurd rfl h
    | cons incident incidents ih =>
      intro ctx persist _
      cases incidents with
      | nil => rfl
      | cons => exact ih _ persist.tail (List.cons_ne_nil _ _)
  unfold FlatScript.incidentEvents lastKindOf
  by_cases hnil : fn.incidents output = []
  · rw [hnil]
    exact hlast'
  · rw [if_neg (by simpa using hnil), hlast _ _ _ hnil]

/-- **A run whose function is called** has the course of its function. -/
theorem called_runsAs {cfg : BlockCfg P} {box : ℕ} (hbox : cfg.blackbox = some box) (w : World P)
    (fn : FlatScript P) (adapters : BlockStates) (breaker : Option (Stream' BreakerAnswer)) :
    let r := fn.toScript.exec (guardOf cfg (w.env.reading 0))
      { w.entered cfg box with
        adapters
        env := { (w.entered cfg box).env with breaker }
        trace := (w.entered cfg box).trace ++ [.invoke (some cfg.blockName)] }
    RunsAs cfg box w
      ⟨true, calledEvents cfg fn w.env.elapsed, verdictRc cfg (fn.returned cfg.output) w.env.elapsed⟩
      (finishRun cfg r.1 r.2.1 r.2.2) := by
  let start : GuardCtx P := guardOf cfg (w.env.reading 0)
  let called : World P :=
    { w.entered cfg box with
      adapters
      env := { (w.entered cfg box).env with breaker }
      trace := (w.entered cfg box).trace ++ [.invoke (some cfg.blockName)] }
  let evs := fn.incidentEvents (some cfg.blockName) cfg.output
  obtain ⟨mem, hexec⟩ := exec_flat fn start called box hbox
  let returned : World P := { called.emitAll box evs with mem }
  let guard := start.noteAll w.env.persist.tail evs
  have hexec' : fn.toScript.exec start called = (fn.returned cfg.output, guard, returned) := hexec
  have hguard : guard.blackbox = some box := (noteAll_blackbox evs _ _).trans hbox
  have hname : guard.blockName = some cfg.blockName := noteAll_blockName evs _ _
  have hkind : guard.lastEvent.kind = lastKindOf evs := noteAll_incidentEvents_kind fn _ _ start rfl _
  have henv : returned.env = { called.env with persist := w.env.persist.drop (evs.length + 1) } :=
    emitAll_env box evs called
  have hduration : returned.env.reading 0 - guard.startTicks = w.env.elapsed := by
    rw [henv, show guard.startTicks = w.env.reading 0 from noteAll_startTicks evs _ _, Env.elapsed]
    exact congrArg (· - w.env.reading 0) (reading_tick w.env 0)
  have hverdict : verdictEvents cfg guard.blockName (fn.returned cfg.output) guard.lastEvent.kind
      w.env.elapsed = verdictEvents cfg (some cfg.blockName) (fn.returned cfg.output) (lastKindOf evs)
        w.env.elapsed := by rw [hname, hkind]
  obtain ⟨scratch, adapters', breaker', hfinish⟩ :=
    finishRun_eq cfg hguard (fn.returned cfg.output) returned hduration hverdict
  intro r
  rw [show r = _ from hexec', hfinish, noteAll_with_duration]
  have hevents : guard.noteAll returned.env.persist (verdictEvents cfg (some cfg.blockName)
      (fn.returned cfg.output) (lastKindOf evs) w.env.elapsed) =
        start.noteAll w.env.persist.tail (calledEvents cfg fn w.env.elapsed) := by
    rw [henv]
    exact (noteAll_append evs _ _ _).symm
  rw [hevents]
  refine Begun.complete hbox ?_ scratch
  have hcalled : Begun cfg box w
      ⟨true, [], verdictRc cfg (fn.returned cfg.output) w.env.elapsed⟩ called :=
    ⟨List.append_assoc .., rfl, rfl, rfl⟩
  have hreturned := hcalled.emitAll
    (incidentEvents_blockName fn (some cfg.blockName) cfg.output)
  have hticked : Begun cfg box w _ { returned with env := returned.env.tick } :=
    ⟨hreturned.trace, hreturned.streaks, hreturned.persist, hreturned.recoveryCb⟩
  have hended := hticked.emitAll
    (verdictEvents_blockName cfg _ (fn.returned cfg.output) (lastKindOf evs) w.env.elapsed)
  exact ⟨hended.trace, hended.streaks, hended.persist, hended.recoveryCb⟩

/-- **A run without nested runs** has its course. -/
theorem flat_run {cfg : BlockCfg P} {box : ℕ} (hbox : cfg.blackbox = some box) (fn : FlatScript P)
    (w : World P) : ∃ refusal : Option (BitVec 32), (refusal.isSome ↔ w.env.BreakerOpen) ∧
      RunsAs cfg box w
        (courseOf cfg fn (entryStreak w.streaks (some cfg.blockName)) refusal w.env.elapsed)
        (loxguardRun (some cfg) (some fn.toScript.exec) w) := by
  rcases loxguardRun_cases hbox fn.toScript.exec w with ⟨hq, hrun⟩ |
    ⟨hq, hopen, aux, adapters, breaker, hrun⟩ | ⟨hq, hclosed, adapters, breaker, hrun⟩
  · have hrefusal : ∃ refusal : Option (BitVec 32), refusal.isSome ↔ w.env.BreakerOpen := by
      by_cases hopen : w.env.BreakerOpen
      · exact ⟨some 0, by simp [hopen]⟩
      · exact ⟨none, by simp [hopen]⟩
    obtain ⟨refusal, hrefusal⟩ := hrefusal
    refine ⟨refusal, hrefusal, ?_⟩
    rw [hrun, show courseOf cfg fn _ refusal w.env.elapsed = _ from if_pos hq]
    exact refused_runsAs hbox w _ _ _ 0 (w.entered cfg box).adapters (w.entered cfg box).env.breaker
  · refine ⟨some aux, by simp [hopen], ?_⟩
    rw [hrun, courseOf, if_neg hq]
    exact refused_runsAs hbox w _ 0 0 aux adapters breaker
  · refine ⟨none, by simp [hclosed], ?_⟩
    rw [hrun, courseOf, if_neg hq]
    exact called_runsAs hbox w fn adapters breaker

/-! ### What is seen of a course -/

theorem storedEvents_append (effs effs' : List (Effect P)) :
    storedEvents (effs ++ effs') = storedEvents effs ++ storedEvents effs' :=
  List.filterMap_append

theorem storedEvents_eventEffects (box : ℕ) (evs : List (ExtEvent P)) (persist : Stream' ℤ) :
    storedEvents (eventEffects box evs persist) = evs := by
  induction evs generalizing persist with
  | nil => rfl
  | cons ev evs ih => exact congrArg (ev :: ·) (ih persist.tail)

theorem storedEvents_recoveryEffects (env : Env) (ctx : GuardCtx P) (rc : ℤ) :
    storedEvents (recoveryEffects env ctx rc) = [] := by
  unfold recoveryEffects
  split <;> rfl

theorem invoke_not_mem_eventEffects (box : ℕ) (block : Option CStr) (evs : List (ExtEvent P))
    (persist : Stream' ℤ) : .invoke block ∉ eventEffects box evs persist := by
  induction evs generalizing persist with
  | nil => exact List.not_mem_nil
  | cons ev evs ih =>
    simp only [eventEffects, List.mem_cons, reduceCtorEq, false_or]
    exact ih persist.tail

section Course

variable (c : Course P) (cfg : BlockCfg P) (env : Env) (box : ℕ)

/-- **The events of a run**: `ENTERED`, those of its course, `COMPLETED`. -/
theorem storedEvents_effects : storedEvents (c.effects cfg env box) =
    enteredEvent (some cfg.blockName) ::
      (c.events ++ [completedEvent (some cfg.blockName) env.elapsed]) := by
  have hinvoked : storedEvents (P := P)
      (if c.invoked then [.invoke (some cfg.blockName)] else []) = [] := by
    split <;> rfl
  have hbegun : storedEvents (c.begun cfg env box) =
      enteredEvent (some cfg.blockName) :: c.events := by
    apply congrArg (enteredEvent (some cfg.blockName) :: ·)
    calc storedEvents (_ ++ eventEffects box c.events env.persist.tail)
        = [] ++ storedEvents (eventEffects box c.events env.persist.tail) := by
          rw [storedEvents_append, hinvoked]
      _ = c.events := storedEvents_eventEffects ..
  rw [Course.effects, storedEvents_append, hbegun]
  apply congrArg (enteredEvent (some cfg.blockName) :: c.events ++ ·)
  exact congrArg (completedEvent (some cfg.blockName) env.elapsed :: ·)
    (storedEvents_recoveryEffects ..)

theorem invoked_effects_iff : Invoked (c.effects cfg env box) ↔ c.invoked := by
  have hrecovery : ∀ block, .invoke block ∉ recoveryEffects env (c.guard cfg env) c.rc := by
    intro block
    unfold recoveryEffects
    split <;> simp
  have hevents := fun block => invoke_not_mem_eventEffects box block c.events env.persist.tail
  simp only [Invoked, Course.effects, Course.begun, List.mem_append, List.mem_cons, reduceCtorEq,
    false_or, hevents, hrecovery, or_false]
  cases c.invoked <;> simp

end Course

/-- No event of a run whose function is called says that it is refused. -/
theorem calledEvents_reason (cfg : BlockCfg P) (fn : FlatScript P) (duration : BitVec 32) :
    ∀ ev ∈ calledEvents cfg fn duration, ev.reason ≠ some (.lit "QUARANTINED") := by
  intro ev hev
  rcases List.mem_append.mp hev with hev | hev
  · obtain ⟨incident, -, rfl⟩ := List.mem_map.mp hev
    simp only [boundsEvent]
    decide
  · unfold verdictEvents at hev
    split at hev
    · rw [List.mem_singleton.mp hev]
      dsimp only
      decide
    split at hev
    · rw [List.mem_singleton.mp hev]
      dsimp only
      decide
    split at hev
    · rw [List.mem_singleton.mp hev]
      dsimp only
      decide
    · cases hev

/-- A run is refused for too many failures when its course says so. -/
theorem quarantined_course_iff (c : Course P) (cfg : BlockCfg P) (env : Env) (box : ℕ) :
    Quarantined (c.effects cfg env box) ↔
      ∃ ev ∈ c.events, ev.kind = .blockError ∧ ev.reason = some (.lit "QUARANTINED") := by
  rw [Quarantined, storedEvents_effects]
  simp [enteredEvent, completedEvent]

theorem quarantined_refusal_iff (cfg : BlockCfg P) (reason : CStr) (index limit : P.Size)
    (aux : BitVec 32) (env : Env) (box : ℕ) :
    Quarantined ((Course.refusal cfg reason index limit aux).effects cfg env box) ↔
      reason = .lit "QUARANTINED" := by
  rw [quarantined_course_iff]
  simp [Course.refusal]

/-- **A run is refused for too many failures** when it finds the streak at the
limit. -/
theorem quarantined_effects_iff (cfg : BlockCfg P) (fn : FlatScript P) (streak : BitVec 32)
    (refusal : Option (BitVec 32)) (duration : BitVec 32) (env : Env) (box : ℕ) :
    Quarantined ((courseOf cfg fn streak refusal duration).effects cfg env box) ↔
      cfg.QuarantinedAt streak := by
  by_cases hq : cfg.QuarantinedAt streak
  · rw [show courseOf cfg fn streak refusal duration = _ from if_pos hq, quarantined_refusal_iff]
    exact iff_of_true rfl hq
  rw [show courseOf cfg fn streak refusal duration = _ from if_neg hq]
  refine iff_of_false ?_ hq
  cases refusal with
  | some aux =>
    rw [quarantined_refusal_iff]
    decide
  | none =>
    rw [quarantined_course_iff]
    rintro ⟨ev, hev, -, hreason⟩
    exact calledEvents_reason cfg fn duration ev hev hreason

end Loxguard
