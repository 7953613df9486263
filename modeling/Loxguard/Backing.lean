/-
# What a report rests on

A report tells of one event: the last incident or verdict the guard context
has tracked. Whatever the guarded function does, runs of other blocks nested in
it included, that event was stored by the run itself, for its own block: the
report has the result for its kind, says whether the event was persisted, and
has its reason unless the run is `OK` (`runAll_backed`). Nested runs never leak
into it, since a context tracks only what was stored for it.

Key definitions: `Backing`, `Backed`, `BackedReport`, `BackedCall`.
Key theorems: `Backed.note`, `backed_fn`, `backed_run`, `runAll_backed`.
-/
import Loxguard.Calls
import Loxguard.Footprint

namespace Loxguard

open Lib

variable {P : Platform}

/-! ### The tracked event -/

/-- The event an effect asks to persist, with the answer it got. -/
def Effect.asked : Effect P → Option (ExtEvent P × ℤ)
  | .event _ ev persistRc => some (ev, persistRc)
  | _ => none

/-- The events of effects, with the outcomes of their persistence. -/
def persistLog (effs : List (Effect P)) : List (ExtEvent P × ℤ) := effs.filterMap Effect.asked

@[simp] theorem persistLog_append (effs effs' : List (Effect P)) :
    persistLog (effs ++ effs') = persistLog effs ++ persistLog effs' :=
  List.filterMap_append

/-- An event of the block that was stored, with the outcome of its
persistence. -/
structure Backing (block : Option CStr) (effs : List (Effect P)) (ev : ExtEvent P) (persisted : ℤ) : Prop where
  blockName : ev.blockName = block
  reason : ev.reason ≠ none
  stored : ∃ rc, (ev, rc) ∈ persistLog effs ∧ persisted = if rc = ok then 1 else 0

theorem Backing.append {block : Option CStr} {effs : List (Effect P)} {ev : ExtEvent P} {persisted : ℤ}
    (h : Backing block effs ev persisted) (effs' : List (Effect P)) :
    Backing block (effs ++ effs') ev persisted := by
  obtain ⟨rc, hmem, hpersisted⟩ := h.stored
  refine ⟨h.blockName, h.reason, rc, ?_, hpersisted⟩
  rw [persistLog_append]
  exact List.mem_append_left _ hmem

/-- The guard context of a run that began at the trace `pre`: the event it has
tracked, if any, was stored since. -/
structure Backed (pre : List (Effect P)) (block : Option CStr) (box : ℕ) (ctx : GuardCtx P) (w : World P) :
    Prop where
  blackbox : ctx.blackbox = some box
  blockName : ctx.blockName = block
  trace : ∃ effs, w.trace = pre ++ effs ∧
    (ctx.lastEvent.kind ≠ .none → Backing block effs ctx.lastEvent ctx.lastEventPersisted)

section Backed

variable {pre : List (Effect P)} {block : Option CStr} {box : ℕ} {ctx : GuardCtx P} {w w' : World P}
  (h : Backed pre block box ctx w)
include h

theorem Backed.grow {effs : List (Effect P)} (htrace : w'.trace = w.trace ++ effs) :
    Backed pre block box ctx w' := by
  obtain ⟨effs', hw, hlast⟩ := h.trace
  refine ⟨h.blackbox, h.blockName, effs' ++ effs, ?_, fun hkind => (hlast hkind).append effs⟩
  rw [htrace, hw, List.append_assoc]

/-- **An event** is stored and tracked. -/
theorem Backed.note {ev : ExtEvent P} (hblock : ev.blockName = block) (hreason : ev.reason ≠ none) :
    Backed pre block box (ctx.note ev w.env.persist.head) (w.emit box ev) := by
  obtain ⟨effs, hw, -⟩ := h.trace
  refine ⟨h.blackbox, h.blockName, effs ++ [.event box ev w.env.persist.head], ?_, fun _ => ?_⟩
  · rw [emit_trace, hw, List.append_assoc]
  · refine ⟨hblock, hreason, w.env.persist.head, ?_, rfl⟩
    rw [persistLog_append]
    exact List.mem_append_right _ (List.mem_singleton_self _)

end Backed

theorem Backed.noteAll {pre : List (Effect P)} {block : Option CStr} {box : ℕ} :
    ∀ (evs : List (ExtEvent P)) {ctx : GuardCtx P} {w : World P}, Backed pre block box ctx w →
      (∀ ev ∈ evs, ev.blockName = block ∧ ev.reason ≠ none) →
      Backed pre block box (ctx.noteAll w.env.persist evs) (w.emitAll box evs)
  | [], _, _, h, _ => h
  | ev :: evs, _, _, h, hevs => by
    obtain ⟨hblock, hreason⟩ := hevs ev List.mem_cons_self
    exact (h.note hblock hreason).noteAll evs fun e he => hevs e (List.mem_cons_of_mem _ he)

/-! ### The report -/

/-- The report rests on an event the run stored for its block. The reason of an
`OK` run is `NONE`. -/
structure BackedReport (block : Option CStr) (report : Report) (effs : List (Effect P)) : Prop where
  backing : ∃ ev, Backing block effs ev report.eventPersisted ∧
    (report.result = .ok → ev.kind = .blockOk ∧ report.reason = some (.lit "NONE")) ∧
    (report.result ≠ .ok → resultOfKind ev.kind = report.result ∧ report.reason = ev.reason)

theorem resultOfKind_ne_ok (kind : EventKind) : resultOfKind kind ≠ .ok := by
  cases kind <;> simp [resultOfKind]

section Run

variable {pre : List (Effect P)} {cfg : BlockCfg P} {block : Option CStr} {box : ℕ}

/-- **The end of a run** whose last tracked event fits its return code. -/
theorem backed_completeRun {guard : GuardCtx P} {w : World P} (h : Backed pre block box guard w) {rc : ℤ}
    (hkind : guard.lastEvent.kind ≠ .none) (hok : rc = ok → guard.lastEvent.kind = .blockOk) :
    ∃ effs, (completeRun guard rc w).2.trace = pre ++ effs ∧
      BackedReport block (completeRun guard rc w).1 effs := by
  obtain ⟨effs, hw, hlast⟩ := h.trace
  have hbacking := hlast hkind
  rw [completeRun_eq h.blackbox]
  refine ⟨effs ++ (.event box (completedEvent guard.blockName guard.durationTicks) w.env.persist.head ::
    recoveryEffects w.env guard rc), ?_, guard.lastEvent, hbacking.append _, ?_, ?_⟩
  · simp [hw]
  · intro hresult
    have hrc : rc = ok := by
      by_contra hrc
      simp only [reportOf, if_pos hrc] at hresult
      exact resultOfKind_ne_ok _ hresult
    exact ⟨hok hrc, by simp [reportOf, hrc]⟩
  · intro hresult
    have hrc : rc ≠ ok := by
      intro hrc
      simp [reportOf, hrc] at hresult
    obtain ⟨reason, hreason⟩ := Option.ne_none_iff_exists'.mp hbacking.reason
    simp only [reportOf, if_pos hrc, hreason, Option.getD_some, and_self]

/-- **A refused run** rests on its refusal. -/
theorem backed_refuseRun {guard : GuardCtx P} {w : World P} (h : Backed pre block box guard w)
    (reason : CStr) (index limit : P.Size) (aux : BitVec 32) :
    ∃ effs, (refuseRun guard reason index limit aux w).2.trace = pre ++ effs ∧
      BackedReport block (refuseRun guard reason index limit aux w).1 effs := by
  rw [refuseRun_eq h.blackbox]
  have hnoted : Backed pre block box
      (guard.note ⟨.blockError, guard.blockName, some reason, index, limit, aux⟩ w.env.persist.head)
      (w.emit box ⟨.blockError, guard.blockName, some reason, index, limit, aux⟩) :=
    h.note h.blockName (Option.some_ne_none reason)
  have hstopped : Backed pre block box
      { guard.note ⟨.blockError, guard.blockName, some reason, index, limit, aux⟩ w.env.persist.head with
        durationTicks := w.env.reading 0 - guard.startTicks }
      { w.emit box ⟨.blockError, guard.blockName, some reason, index, limit, aux⟩ with
        env := (w.emit box ⟨.blockError, guard.blockName, some reason, index, limit, aux⟩).env.tick } :=
    ⟨hnoted.blackbox, hnoted.blockName, hnoted.trace⟩
  exact backed_completeRun hstopped nofun fun h => absurd h (by decide)

/-- What the verdict leaves as the last event. -/
theorem verdict_last (cfg : BlockCfg P) (rc : ℤ) (guard : GuardCtx P) (persist : Stream' ℤ)
    (duration : BitVec 32) :
    let guard' := guard.noteAll persist (verdictEvents cfg guard.blockName rc guard.lastEvent.kind duration)
    guard'.lastEvent.kind ≠ .none ∧ (verdictRc cfg rc duration = ok → guard'.lastEvent.kind = .blockOk) := by
  unfold verdictEvents verdictRc
  by_cases hto : cfg.TimedOut duration
  · rw [if_pos hto, if_pos hto]
    exact ⟨nofun, fun h => absurd h (by decide)⟩
  rw [if_neg hto, if_neg hto]
  by_cases hok : rc = ok
  · rw [if_pos hok]
    exact ⟨nofun, fun _ => rfl⟩
  rw [if_neg hok]
  by_cases hnone : guard.lastEvent.kind = .none
  · rw [if_pos hnone]
    exact ⟨nofun, fun h => absurd h hok⟩
  · rw [if_neg hnone]
    exact ⟨hnone, fun h => absurd h hok⟩

theorem verdictEvents_reason (cfg : BlockCfg P) (blockName : Option CStr) (rc : ℤ) (lastKind : EventKind)
    (duration : BitVec 32) :
    ∀ ev ∈ verdictEvents cfg blockName rc lastKind duration, ev.reason ≠ none := by
  unfold verdictEvents
  split_ifs <;> simp

/-- **A run whose function returned** rests on its verdict. -/
theorem backed_finishRun (cfg : BlockCfg P) {guard : GuardCtx P} {w : World P}
    (h : Backed pre block box guard w) (rc : ℤ) :
    ∃ effs, (finishRun cfg rc guard w).2.trace = pre ++ effs ∧
      BackedReport block (finishRun cfg rc guard w).1 effs := by
  let duration := w.env.reading 0 - guard.startTicks
  let evs := verdictEvents cfg guard.blockName rc guard.lastEvent.kind duration
  let stopped : GuardCtx P := { guard with durationTicks := duration }
  obtain ⟨scratch, adapters, breaker, hfinish⟩ := finishRun_eq cfg h.blackbox rc w
    (show _ = duration from rfl) (show _ = evs from rfl)
  have hstopped : Backed pre block box stopped { w with env := w.env.tick } :=
    ⟨h.blackbox, h.blockName, h.trace⟩
  have hnoted := hstopped.noteAll evs fun ev hev =>
    ⟨(verdictEvents_blockName cfg _ rc _ _ ev hev).trans h.blockName, verdictEvents_reason cfg _ rc _ _ ev hev⟩
  obtain ⟨hkind, hok⟩ := verdict_last cfg rc stopped w.env.persist duration
  let judged := World.emitAll { w with env := w.env.tick } box evs
  have htold : Backed pre block box { stopped.noteAll w.env.persist evs with scratch }
      { judged with adapters, env := { judged.env with breaker } } :=
    ⟨hnoted.blackbox, hnoted.blockName, hnoted.trace⟩
  rw [hfinish]
  exact backed_completeRun htold hkind hok

/-- A guarded function keeps its context backed. -/
def BackedFn (fn : GuardFn P) : Prop :=
  ∀ (pre : List (Effect P)) (block : Option CStr) (box : ℕ) (ctx : GuardCtx P) (w : World P),
    Backed pre block box ctx w → Backed pre block box (fn ctx w).2.1 (fn ctx w).2.2

/-- **A run** rests on an event of its own when its function keeps the context
backed. -/
theorem backed_run (hbox : cfg.blackbox = some box) {fn : GuardFn P} (hfn : BackedFn fn) (w : World P) :
    ∃ effs, (loxguardRun (some cfg) (some fn) w).2.trace = w.trace ++ effs ∧
      BackedReport (some cfg.blockName) (loxguardRun (some cfg) (some fn) w).1 effs := by
  have hentered : Backed w.trace (some cfg.blockName) box (guardOf cfg (w.env.reading 0)) (w.entered cfg box) :=
    ⟨hbox, rfl, _, rfl, fun h => absurd rfl h⟩
  rcases loxguardRun_cases hbox fn w with ⟨-, hrun⟩ | ⟨-, -, aux, adapters, breaker, hrun⟩ |
    ⟨-, -, adapters, breaker, hrun⟩
  · rw [hrun]
    exact backed_refuseRun hentered _ _ _ _
  · rw [hrun]
    have hasked : Backed w.trace (some cfg.blockName) box (guardOf cfg (w.env.reading 0))
        { w.entered cfg box with adapters, env := { (w.entered cfg box).env with breaker } } :=
      ⟨hentered.blackbox, hentered.blockName, hentered.trace⟩
    exact backed_refuseRun hasked _ _ _ _
  · rw [hrun]
    have hcalled : Backed w.trace (some cfg.blockName) box (guardOf cfg (w.env.reading 0))
        { w.entered cfg box with
          adapters
          env := { (w.entered cfg box).env with breaker }
          trace := (w.entered cfg box).trace ++ [.invoke (some cfg.blockName)] } :=
      hentered.grow rfl
    exact backed_finishRun cfg (hfn _ _ _ _ _ hcalled) _

theorem nested_grows (cfg : Option (BlockCfg P)) {fn : GuardFn P} (hfn : BackedFn fn) (w : World P) :
    ∃ effs, (loxguardRun cfg (some fn) w).2.trace = w.trace ++ effs := by
  cases cfg with
  | none => exact ⟨[], (List.append_nil _).symm⟩
  | some cfg =>
    cases hbox : cfg.blackbox with
    | none =>
      rw [loxguardRun_of_null hbox]
      exact ⟨[], (List.append_nil _).symm⟩
    | some box =>
      obtain ⟨effs, htrace, -⟩ := backed_run hbox hfn w
      exact ⟨effs, htrace⟩

/-- **A guarded function** keeps its context backed: by induction on the
script. -/
theorem backed_fn (s : Script P) : BackedFn s.exec := by
  induction s with
  | ret rc => exact fun pre block box ctx w h => h
  | write index value next ih =>
    intro pre block box ctx w h
    by_cases hr : ctx.output.Rejects index
    · simp only [Script.exec, checkedOutputWriteU8_rejected h.blackbox hr]
      exact ih _ pre block box _ _ (h.note h.blockName (Option.some_ne_none _))
    · obtain ⟨mem, hwrite⟩ := checkedOutputWriteU8_other hr value w
      simp only [Script.exec, hwrite]
      exact ih _ pre block box ctx { w with mem } (h.grow (List.append_nil _).symm)
  | emitBounds index limit next ih =>
    intro pre block box ctx w h
    simp only [Script.exec, guardEmitBounds_eq h.blackbox]
    exact ih pre block box _ _ (h.note h.blockName (Option.some_ne_none _))
  | run cfg fn next ihfn ihnext =>
    intro pre block box ctx w h
    obtain ⟨effs, hgrow⟩ := nested_grows cfg ihfn w
    exact ihnext _ pre block box ctx _ (h.grow hgrow)

end Run

/-! ### Calls -/

/-- With a blackbox the report of a call rests on an event of its own; without
one it is the null report, and the call stores nothing. -/
structure BackedCall (c : Call P) (o : Outcome P) : Prop where
  report : c.cfg.blackbox ≠ none → BackedReport (some c.block) o.report o.effects
  null : c.cfg.blackbox = none → o.report = nullReport ∧ o.effects = []

theorem Call.step_backed (w : World P) (c : Call P) : BackedCall c (c.step w).1 where
  report hbox := by
    obtain ⟨box, hbox⟩ := Option.ne_none_iff_exists'.mp hbox
    obtain ⟨effs, htrace, hbacked⟩ := backed_run hbox (backed_fn c.fn) { w with env := c.env }
    show BackedReport (some c.block) (c.exec w).1 (c.effects w)
    rw [effects_eq htrace]
    exact hbacked
  null hbox := ⟨congrArg Prod.fst (exec_of_null hbox w), effects_of_null hbox w⟩

/-- **Every report rests on an event of its own.** In any calls, of any blocks
and with runs nested to any depth, the report of each call with a blackbox
tells of an event that the call stored for its block, and of whether it was
persisted. A call without a blackbox reports nothing and stores nothing. -/
theorem runAll_backed (w : World P) (cs : List (Call P)) :
    List.Forall₂ BackedCall cs (runAll w cs).1 :=
  Runs.forall₂_run Call.step_backed w cs

end Loxguard
