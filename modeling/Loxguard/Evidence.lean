/-
# The report and the evidence

The report of a run is made from the branch the run took, from the last event
the guard context tracked, and from the clock; the evidence is what the run
stored. `report_agrees` says that they agree for every run without nested
runs: the result with the kinds of the stored events, the reason and the
outcome of persistence with the last incident or verdict, the duration with
`COMPLETED`, the action and the recovery callback with the result.

The reason of a run that is `OK` is `NONE`, not that of its last event.

Key definitions: `evidence`, `recoveries`, `Course.Ends`, `Agrees`.
Key theorems: `courseOf_ends`, `Course.Ends.last`, `report_agrees`.
-/
import Loxguard.FlatRun

namespace Loxguard

open Lib

variable {P : Platform}

/-! ### How a course ends -/

/-- The ways a course ends, with the result of the run. -/
inductive Course.Ends (cfg : BlockCfg P) (fn : FlatScript P) (duration : BitVec 32) :
    Course P → Result → Prop
  | refused (reason : CStr) (index limit : P.Size) (aux : BitVec 32) :
      Course.Ends cfg fn duration (.refusal cfg reason index limit aux) .error
  | timeout (h : cfg.TimedOut duration) :
      Course.Ends cfg fn duration
        ⟨true, fn.incidentEvents (some cfg.blockName) cfg.output ++
          [⟨.blockTimeout, some cfg.blockName, some (.lit "TIMEOUT"), duration.setWidth P.sizeBits,
            cfg.timeoutMs.setWidth P.sizeBits, 0⟩], errTimeout⟩ .timeout
  | ok (h : ¬ cfg.TimedOut duration) (hrc : fn.returned cfg.output = Loxguard.ok) :
      Course.Ends cfg fn duration
        ⟨true, fn.incidentEvents (some cfg.blockName) cfg.output ++
          [⟨.blockOk, some cfg.blockName, some (.lit "OK"), 0, 0, 0⟩], fn.returned cfg.output⟩ .ok
  | error (h : ¬ cfg.TimedOut duration) (hrc : fn.returned cfg.output ≠ Loxguard.ok)
      (hnone : fn.incidentEvents (some cfg.blockName) cfg.output = []) :
      Course.Ends cfg fn duration
        ⟨true, [⟨.blockError, some cfg.blockName, some (.lit "ERROR"), 0, 0, 0⟩],
          fn.returned cfg.output⟩ .error
  | bounds (h : ¬ cfg.TimedOut duration) (hrc : fn.returned cfg.output ≠ Loxguard.ok)
      (hsome : fn.incidentEvents (some cfg.blockName) cfg.output ≠ []) :
      Course.Ends cfg fn duration
        ⟨true, fn.incidentEvents (some cfg.blockName) cfg.output, fn.returned cfg.output⟩ .bounds

theorem courseOf_ends (cfg : BlockCfg P) (fn : FlatScript P) (streak : BitVec 32)
    (refusal : Option (BitVec 32)) (duration : BitVec 32) :
    ∃ result, (courseOf cfg fn streak refusal duration).Ends cfg fn duration result := by
  by_cases hq : cfg.QuarantinedAt streak
  · rw [show courseOf cfg fn streak refusal duration = _ from if_pos hq]
    exact ⟨_, .refused ..⟩
  rw [show courseOf cfg fn streak refusal duration = _ from if_neg hq]
  cases refusal with
  | some aux => exact ⟨_, .refused ..⟩
  | none =>
    dsimp only [calledEvents, verdictEvents, verdictRc]
    by_cases hto : cfg.TimedOut duration
    · rw [if_pos hto, if_pos hto]
      exact ⟨_, .timeout hto⟩
    rw [if_neg hto, if_neg hto]
    by_cases hrc : fn.returned cfg.output = ok
    · rw [if_pos hrc]
      exact ⟨_, .ok hto hrc⟩
    rw [if_neg hrc]
    by_cases hnil : fn.incidentEvents (some cfg.blockName) cfg.output = []
    · rw [lastKindOf, if_pos hnil, if_pos rfl, hnil]
      exact ⟨_, .error hto hrc hnil⟩
    · rw [lastKindOf, if_neg hnil, if_neg (by decide), List.append_nil]
      exact ⟨_, .bounds hto hrc hnil⟩

theorem incidentEvents_kind (s : FlatScript P) (block : Option CStr) (output : Span P) :
    ∀ ev ∈ s.incidentEvents block output, ev.kind = .blockWriteOutOfBounds := by
  intro ev hev
  obtain ⟨incident, -, rfl⟩ := List.mem_map.mp hev
  rfl

namespace Course.Ends

variable {cfg : BlockCfg P} {fn : FlatScript P} {duration : BitVec 32} {c : Course P} {result : Result}

theorem rc_iff (h : c.Ends cfg fn duration result) : c.rc = Loxguard.ok ↔ result = .ok := by
  cases h with
  | refused reason index limit aux => exact iff_of_false (show errUnsupported ≠ Loxguard.ok by decide) nofun
  | timeout h => exact iff_of_false (show errTimeout ≠ Loxguard.ok by decide) nofun
  | ok h hrc => exact iff_of_true hrc rfl
  | error h hrc hnone => exact iff_of_false hrc nofun
  | bounds h hrc hsome => exact iff_of_false hrc nofun

/-- **The last event of a course** goes with its result. -/
theorem last (h : c.Ends cfg fn duration result) : ∃ evs ev, c.events = evs ++ [ev] ∧
    ev.reason ≠ none ∧ (result ≠ .ok → resultOfKind ev.kind = result ∧ ev.kind.isFailure = true) := by
  cases h with
  | refused reason index limit aux => exact ⟨[], _, rfl, nofun, fun _ => ⟨rfl, rfl⟩⟩
  | timeout h => exact ⟨_, _, rfl, nofun, fun _ => ⟨rfl, rfl⟩⟩
  | ok h hrc => exact ⟨_, _, rfl, nofun, fun h => absurd rfl h⟩
  | error h hrc hnone => exact ⟨[], _, rfl, nofun, fun _ => ⟨rfl, rfl⟩⟩
  | bounds h hrc hsome =>
    obtain ⟨evs, ev, hevs⟩ := (List.eq_nil_or_concat _).resolve_left hsome
    have hmem : ev ∈ fn.incidentEvents (some cfg.blockName) cfg.output := by simp [hevs]
    obtain ⟨incident, -, rfl⟩ := List.mem_map.mp hmem
    exact ⟨evs, _, hevs.trans List.concat_eq_append, nofun, fun _ => ⟨rfl, rfl⟩⟩

theorem ok_iff (h : c.Ends cfg fn duration result) :
    result = .ok ↔ ∃ ev ∈ c.events, ev.kind = .blockOk := by
  have hincident := incidentEvents_kind fn (some cfg.blockName) cfg.output
  cases h with
  | refused reason index limit aux => simp [refusal]
  | timeout h =>
    apply iff_of_false (by simp)
    rintro ⟨ev, hev, hkind⟩
    rcases List.mem_append.mp hev with hev | hev
    · rw [hincident ev hev] at hkind
      cases hkind
    · rw [List.mem_singleton.mp hev] at hkind
      cases hkind
  | ok h hrc => exact iff_of_true rfl ⟨_, List.mem_append_right _ (List.mem_singleton_self _), rfl⟩
  | error h hrc hnone => simp
  | bounds h hrc hsome =>
    apply iff_of_false (by simp)
    rintro ⟨ev, hev, hkind⟩
    rw [hincident ev hev] at hkind
    cases hkind

/-- The run is `TIMEOUT` when its function was called and took too long. -/
theorem timeout_iff (h : c.Ends cfg fn duration result) :
    result = .timeout ↔ c.invoked ∧ cfg.TimedOut duration := by
  cases h with
  | refused reason index limit aux => simp [refusal]
  | timeout h => simpa using h
  | ok h hrc => simpa using h
  | error h hrc hnone => simpa using h
  | bounds h hrc hsome => simpa using h

/-- The run is `BOUNDS` when its function was called in time, did not return
`OK` and had an incident. -/
theorem bounds_iff (h : c.Ends cfg fn duration result) :
    result = .bounds ↔ c.invoked ∧ ¬ cfg.TimedOut duration ∧ fn.returned cfg.output ≠ Loxguard.ok ∧
      ∃ ev ∈ c.events, ev.kind = .blockWriteOutOfBounds := by
  cases h with
  | refused reason index limit aux => simp [refusal]
  | timeout h => simp [h]
  | ok h hrc => simp [hrc]
  | error h hrc hnone => simp
  | bounds h hrc hsome =>
    obtain ⟨ev, hev⟩ := List.exists_mem_of_ne_nil _ hsome
    exact iff_of_true rfl ⟨rfl, h, hrc, ev, hev, incidentEvents_kind fn _ _ ev hev⟩

theorem result_mem (h : c.Ends cfg fn duration result) :
    result = .ok ∨ result = .timeout ∨ result = .bounds ∨ result = .error := by
  cases h <;> simp

theorem kind_ne (h : c.Ends cfg fn duration result) :
    ∀ ev ∈ c.events, ev.kind ≠ .blockEntered ∧ ev.kind ≠ .blockCompleted := by
  have hincident := incidentEvents_kind fn (some cfg.blockName) cfg.output
  intro ev hev
  cases h with
  | refused reason index limit aux => simp_all [refusal]
  | timeout h =>
    rcases List.mem_append.mp hev with hev | hev
    · simp [hincident ev hev]
    · simp [List.mem_singleton.mp hev]
  | ok h hrc =>
    rcases List.mem_append.mp hev with hev | hev
    · simp [hincident ev hev]
    · simp [List.mem_singleton.mp hev]
  | error h hrc hnone => simp_all
  | bounds h hrc hsome => simp [hincident ev hev]

end Course.Ends

/-! ### The evidence -/

/-- The incidents and verdicts that were stored, all but `ENTERED` and
`COMPLETED`, with the outcomes of their persistence. -/
def evidence (effs : List (Effect P)) : List (ExtEvent P × ℤ) :=
  effs.filterMap fun
    | .event _ ev persistRc =>
      if ev.kind = .blockEntered ∨ ev.kind = .blockCompleted then none else some (ev, persistRc)
    | _ => none

/-- The calls of the recovery callback. -/
def recoveries (effs : List (Effect P)) : List (ExtEvent P × Action) :=
  effs.filterMap fun
    | .recovery ev action => some (ev, action)
    | _ => none

theorem evidence_append (effs effs' : List (Effect P)) :
    evidence (effs ++ effs') = evidence effs ++ evidence effs' :=
  List.filterMap_append

theorem recoveries_append (effs effs' : List (Effect P)) :
    recoveries (effs ++ effs') = recoveries effs ++ recoveries effs' :=
  List.filterMap_append

theorem evidence_recoveryEffects (env : Env) (ctx : GuardCtx P) (rc : ℤ) :
    evidence (recoveryEffects env ctx rc) = [] := by
  unfold recoveryEffects
  split <;> rfl

theorem recoveries_eventEffects (box : ℕ) : ∀ (evs : List (ExtEvent P)) (persist : Stream' ℤ),
    recoveries (eventEffects box evs persist) = []
  | [], _ => rfl
  | _ :: evs, persist => recoveries_eventEffects box evs persist.tail

/-- The last of several events is the one the context has tracked. -/
theorem evidence_noteAll (box : ℕ) : ∀ (evs : List (ExtEvent P)) (ev : ExtEvent P) (ctx : GuardCtx P)
    (persist : Stream' ℤ),
    (∀ e ∈ evs ++ [ev], e.kind ≠ .blockEntered ∧ e.kind ≠ .blockCompleted) →
    ∃ before persistRc, evidence (eventEffects box (evs ++ [ev]) persist) = before ++ [(ev, persistRc)] ∧
      (ctx.noteAll persist (evs ++ [ev])).lastEvent = ev ∧
      (ctx.noteAll persist (evs ++ [ev])).lastEventPersisted = if persistRc = ok then 1 else 0
  | [], ev, ctx, persist, h => by
    have hkind := h ev (List.mem_singleton_self _)
    refine ⟨[], persist.head, ?_, rfl, rfl⟩
    simp [evidence, eventEffects, hkind]
  | e :: evs, ev, ctx, persist, h => by
    have hkind := h e List.mem_cons_self
    obtain ⟨before, persistRc, hevidence, hlast⟩ := evidence_noteAll box evs ev (ctx.note e persist.head)
      persist.tail fun e he => h e (List.mem_cons_of_mem _ he)
    refine ⟨(e, persist.head) :: before, persistRc, ?_, hlast⟩
    rw [List.cons_append, List.cons_append, ← hevidence]
    simp [evidence, eventEffects, hkind]

/-- **The report agrees with the evidence.** -/
structure Agrees (cfg : BlockCfg P) (fn : FlatScript P) (env : Env) (report : Report)
    (effs : List (Effect P)) : Prop where
  /-- `OK` when the run stored an `OK`. -/
  ok : report.result = .ok ↔ ∃ ev ∈ storedEvents effs, ev.kind = .blockOk
  /-- `TIMEOUT` when the function was called and took too long. -/
  timeout : report.result = .timeout ↔
    Invoked effs ∧ 0 < cfg.timeoutMs ∧ cfg.timeoutMs < env.elapsed
  /-- `BOUNDS` when there was no timeout, the function did not return `OK` and
  there was an incident. -/
  bounds : report.result = .bounds ↔
    Invoked effs ∧ ¬ (0 < cfg.timeoutMs ∧ cfg.timeoutMs < env.elapsed) ∧
      fn.returned cfg.output ≠ Loxguard.ok ∧
      ∃ ev ∈ storedEvents effs, ev.kind = .blockWriteOutOfBounds
  /-- `ERROR` otherwise. -/
  error : report.result ≠ .ok → report.result ≠ .timeout → report.result ≠ .bounds →
    report.result = .error
  /-- There is a last incident or verdict. Its persistence is in the report,
  and its reason unless the run is `OK`; the recovery callback, if there is
  one, is called once with it and the action of the report unless the run is
  `OK`. -/
  last : ∃ before ev persistRc, evidence effs = before ++ [(ev, persistRc)] ∧
    report.eventPersisted = (if persistRc = Loxguard.ok then 1 else 0) ∧
    report.reason = (if report.result = .ok then some (.lit "NONE") else ev.reason) ∧
    recoveries effs =
      if report.result ≠ .ok ∧ env.recoveryCb then [(ev, report.action)] else []
  /-- The duration is the elapsed time and the index of `COMPLETED`. -/
  duration : ∃ ev, (storedEvents effs).filter (·.kind = .blockCompleted) = [ev] ∧
    ev.index.toNat = report.durationTicks.toNat ∧ report.durationTicks = env.elapsed
  /-- The input is dropped unless the run is `OK`. -/
  action : report.action = .dropInput ↔ report.result ≠ .ok

section Course

variable {cfg : BlockCfg P} {fn : FlatScript P} {env : Env} {c : Course P} {result : Result}

theorem evidence_effects (box : ℕ) :
    evidence (c.effects cfg env box) = evidence (eventEffects box c.events env.persist.tail) := by
  have hbegun : evidence (c.begun cfg env box) =
      evidence (eventEffects box c.events env.persist.tail) := by
    unfold Course.begun
    cases c.invoked <;> rfl
  rw [Course.effects, evidence_append, hbegun]
  refine (congrArg (evidence (eventEffects box c.events env.persist.tail) ++ ·) ?_).trans
    (List.append_nil _)
  exact evidence_recoveryEffects env (c.guard cfg env) c.rc

theorem recoveries_effects (box : ℕ) : recoveries (c.effects cfg env box) =
    if c.rc ≠ ok ∧ env.recoveryCb then
      [((c.guard cfg env).lastEvent, policyDecide (some (c.guard cfg env).lastEvent))] else [] := by
  have hbegun : recoveries (c.begun cfg env box) = [] := by
    unfold Course.begun
    cases c.invoked
    · exact recoveries_eventEffects box c.events env.persist.tail
    · exact recoveries_eventEffects box c.events env.persist.tail
  rw [Course.effects, recoveries_append, hbegun, List.nil_append]
  show recoveries (recoveryEffects env (c.guard cfg env) c.rc) = _
  unfold recoveryEffects
  split <;> rfl

/-- **The last event of a course** is the one its guard context has tracked. -/
theorem Course.Ends.tracked (h : c.Ends cfg fn env.elapsed result) (box : ℕ) :
    ∃ before ev persistRc, evidence (c.effects cfg env box) = before ++ [(ev, persistRc)] ∧
      (c.guard cfg env).lastEvent = ev ∧
      (c.guard cfg env).lastEventPersisted = (if persistRc = Loxguard.ok then 1 else 0) ∧
      ev.reason ≠ none ∧
      (result ≠ .ok → resultOfKind ev.kind = result ∧ ev.kind.isFailure = true) := by
  obtain ⟨evs, ev, hevs, hreason, hkind⟩ := h.last
  obtain ⟨before, persistRc, hevidence, hlast, hpersisted⟩ := evidence_noteAll box evs ev
    (guardOf cfg (env.reading 0)) env.persist.tail (hevs ▸ h.kind_ne)
  rw [← hevs] at hevidence hlast hpersisted
  exact ⟨before, ev, persistRc, (evidence_effects box).trans hevidence, hlast, hpersisted, hreason, hkind⟩

theorem Course.Ends.report_eq (h : c.Ends cfg fn env.elapsed result) :
    (c.report cfg env).result = result ∧
    (c.report cfg env).action = if result = .ok then .none else .dropInput := by
  obtain ⟨before, ev, persistRc, -, hlast, -, -, hkind⟩ := h.tracked 0
  by_cases hok : result = .ok
  · have hrc : ¬ c.rc ≠ Loxguard.ok := not_not.mpr (h.rc_iff.mpr hok)
    simp only [Course.report, reportOf, if_neg hrc, hok, if_true, and_self]
  · have hrc : c.rc ≠ Loxguard.ok := fun he => hok (h.rc_iff.mp he)
    obtain ⟨hresult, hfailure⟩ := hkind hok
    simp only [Course.report, reportOf, if_pos hrc, hlast, if_neg hok, policyDecide, hfailure, if_true]
    exact ⟨hresult, trivial⟩

theorem Course.Ends.report_last (h : c.Ends cfg fn env.elapsed result) (box : ℕ) :
    ∃ before ev persistRc, evidence (c.effects cfg env box) = before ++ [(ev, persistRc)] ∧
      (c.report cfg env).eventPersisted = (if persistRc = Loxguard.ok then 1 else 0) ∧
      (c.report cfg env).reason = (if result = .ok then some (.lit "NONE") else ev.reason) ∧
      recoveries (c.effects cfg env box) =
        if result ≠ .ok ∧ env.recoveryCb then [(ev, (c.report cfg env).action)] else [] := by
  obtain ⟨before, ev, persistRc, hevidence, hlast, hpersisted, hreason, -⟩ := h.tracked box
  refine ⟨before, ev, persistRc, hevidence, hpersisted, ?_, ?_⟩
  · obtain ⟨reason, hreason⟩ := Option.ne_none_iff_exists'.mp hreason
    by_cases hok : result = .ok
    · have hrc : ¬ c.rc ≠ Loxguard.ok := not_not.mpr (h.rc_iff.mpr hok)
      simp only [Course.report, reportOf, if_neg hrc, if_pos hok]
    · have hrc : c.rc ≠ Loxguard.ok := fun he => hok (h.rc_iff.mp he)
      simp only [Course.report, reportOf, if_pos hrc, if_neg hok, hlast, hreason, Option.getD_some]
  · rw [recoveries_effects, hlast]
    by_cases hok : result = .ok
    · simp [h.rc_iff, hok]
    · have hrc : c.rc ≠ Loxguard.ok := fun he => hok (h.rc_iff.mp he)
      simp only [Course.report, reportOf, hrc, hok, ne_eq, not_false_eq_true, true_and, hlast, if_true]

end Course

/-- An event of some kind is stored in the course of a run when the run stores
one, for kinds other than `ENTERED` and `COMPLETED`. -/
theorem exists_storedEvents_effects (c : Course P) (cfg : BlockCfg P) (env : Env) (box : ℕ)
    (kind : EventKind) (he : kind ≠ .blockEntered) (hc : kind ≠ .blockCompleted) :
    (∃ ev ∈ storedEvents (c.effects cfg env box), ev.kind = kind) ↔ ∃ ev ∈ c.events, ev.kind = kind := by
  have hentered : (enteredEvent (P := P) (some cfg.blockName)).kind ≠ kind := he.symm
  have hcompleted : (completedEvent (P := P) (some cfg.blockName) env.elapsed).kind ≠ kind := hc.symm
  rw [storedEvents_effects]
  simp [hentered, hcompleted]

/-- **The report of a run agrees with its evidence.** -/
theorem report_agrees (cfg : BlockCfg P) (box : ℕ) (hbox : cfg.blackbox = some box) (fn : FlatScript P)
    (w : World P) : ∃ effs,
      (loxguardRun (some cfg) (some fn.toScript.exec) w).2.trace = w.trace ++ effs ∧
      Agrees cfg fn w.env (loxguardRun (some cfg) (some fn.toScript.exec) w).1 effs := by
  obtain ⟨refusal, -, hruns⟩ := flat_run hbox fn w
  obtain ⟨result, hends⟩ := courseOf_ends cfg fn (entryStreak w.streaks (some cfg.blockName)) refusal
    w.env.elapsed
  generalize courseOf cfg fn (entryStreak w.streaks (some cfg.blockName)) refusal w.env.elapsed = c
    at hruns hends
  obtain ⟨hresult, haction⟩ := hends.report_eq
  refine ⟨c.effects cfg w.env box, hruns.trace, ?_⟩
  rw [hruns.report]
  exact {
    ok := by
      rw [hresult, exists_storedEvents_effects c cfg w.env box .blockOk nofun nofun]
      exact hends.ok_iff
    timeout := by
      rw [hresult, invoked_effects_iff]
      exact hends.timeout_iff
    bounds := by
      rw [hresult, invoked_effects_iff,
        exists_storedEvents_effects c cfg w.env box .blockWriteOutOfBounds nofun nofun]
      exact hends.bounds_iff
    error := by
      rw [hresult]
      rcases hends.result_mem with h | h | h | h <;> simp [h]
    last := by
      rw [hresult]
      exact hends.report_last box
    duration := by
      refine ⟨completedEvent (some cfg.blockName) w.env.elapsed, ?_, ?_, rfl⟩
      · have hinner : c.events.filter (·.kind = .blockCompleted) = [] :=
          List.filter_eq_nil_iff.mpr fun ev hev => by simpa using (hends.kind_ne ev hev).2
        rw [storedEvents_effects, List.filter_cons_of_neg (by simp [enteredEvent]),
          List.filter_append, hinner]
        rfl
      · have hlt : w.env.elapsed.toNat < 2 ^ P.sizeBits :=
          w.env.elapsed.isLt.trans_le (Nat.pow_le_pow_right (by decide) P.le_sizeBits)
        simp only [completedEvent, BitVec.toNat_setWidth, Nat.mod_eq_of_lt hlt]
        rfl
    action := by
      rw [hresult, haction]
      split <;> simp [*] }

theorem report_agrees_outOfRange :
    let fn : FlatScript .host := .write 17 0xAB fun rc => .ret rc
    ∃ effs, (loxguardRun (some (.plain (.lit "b") 0)) (some fn.toScript.exec)
        (World.start .quiet)).2.trace = [] ++ effs ∧
      Agrees (.plain (.lit "b") 0) fn .quiet
        (loxguardRun (some (.plain (.lit "b") 0)) (some fn.toScript.exec) (World.start .quiet)).1 effs :=
  report_agrees (.plain (.lit "b") 0) 1 rfl (.write 17 0xAB fun rc => .ret rc) (World.start .quiet)

/-- The reason of a run that is `OK` is not that of its last event, and no
callback is called. -/
theorem report_okRun :
    let r := loxguardRun (P := .host) (some (.plain (.lit "b") 0)) (some (FlatScript.ret 0).toScript.exec)
      (World.start { Env.quiet with recoveryCb := true })
    (evidence r.2.trace).map (fun e => (e.1.kind, e.1.reason)) = [(.blockOk, some (.lit "OK"))] ∧
      r.1.reason = some (.lit "NONE") ∧ recoveries r.2.trace = [] := by
  decide +kernel

end Loxguard
