/-
# Reports from tasks and from the memory protection unit

`lox_rtos_report_timeout`, `lox_rtos_check_task_budget` and
`lox_mpu_report_fault` store an event of their own into a blackbox that guarded
runs may use as well. They go straight to `lox_blackbox_store`: every such
event is recorded, in order with those of the runs (`probes_recorded`), but
none of them is a failure of its block. No run is refused, decided or reported
otherwise for it, and no health changes (`runs_ignore_probes`).

Key definitions: `storeEvent`, `rtosReportTimeout`, `mpuReportFault`,
`rtosCheckTaskBudget`, `Probe`, `Input.step`.
Key theorems: `Probe.exec_eq`, `runs_ignore_probes`, `probes_recorded`.
-/
import Loxguard.Footprint
import Loxguard.Unseen

namespace Loxguard

open Lib

variable {P : Platform}

/-! ### The reports -/

/-- `lox_mpu_fault_ctx_t`. -/
structure MpuFaultCtx where
  faultAddr : BitVec 32
  cfsr : BitVec 32
  hfsr : BitVec 32
deriving DecidableEq

/-- `lox_rtos_task_probe_t`. -/
structure RtosTaskProbe where
  taskName : Option CStr
  tickBudget : BitVec 32
  elapsedTicks : BitVec 32
deriving DecidableEq

/-- `store_event`. -/
def storeEvent (blackbox : Blackbox P) (kind : EventKind) (blockName reason : Option CStr)
    (index limit : P.Size) (auxCode : BitVec 32) : Blackbox P :=
  blackboxStore blackbox (.ofExt ⟨kind, blockName, reason, index, limit, auxCode⟩)

/-- `lox_rtos_report_timeout`. -/
def rtosReportTimeout (blackbox : Option (Blackbox P)) (blockName : Option CStr) (tickBudget : BitVec 32) :
    ℤ × Option (Blackbox P) :=
  match blackbox, blockName with
  | some bb, some name =>
    (ok, some (storeEvent bb .blockTimeout (some name) (some (.lit "RTOS_TIMEOUT"))
      (tickBudget.setWidth P.sizeBits) 0 0))
  | _, _ => (errNull, blackbox)

/-- `lox_mpu_report_fault`. -/
def mpuReportFault (blackbox : Option (Blackbox P)) (blockName : Option CStr) (fault : Option MpuFaultCtx) :
    ℤ × Option (Blackbox P) :=
  match blackbox, blockName, fault with
  | some bb, some name, some fault =>
    (ok, some (storeEvent bb .blockMemoryFault (some name) (some (.lit "MPU_FAULT"))
      (fault.faultAddr.setWidth P.sizeBits) (fault.cfsr.setWidth P.sizeBits) fault.hfsr))
  | _, _, _ => (errNull, blackbox)

/-- `lox_rtos_check_task_budget`. -/
def rtosCheckTaskBudget (blackbox : Option (Blackbox P)) (probe : Option RtosTaskProbe) :
    ℤ × Option (Blackbox P) :=
  match blackbox, probe with
  | some bb, some probe =>
    if probe.taskName = none then (errNull, blackbox)
    else if probe.tickBudget < probe.elapsedTicks then
      rtosReportTimeout (some bb) probe.taskName probe.tickBudget
    else (ok, blackbox)
  | _, _ => (errNull, blackbox)

/-- One of the three calls, without its blackbox. -/
inductive Probe
  | timeout (blockName : Option CStr) (tickBudget : BitVec 32)
  | fault (blockName : Option CStr) (fault : Option MpuFaultCtx)
  | check (probe : Option RtosTaskProbe)

namespace Probe

/-- Make the call. -/
def exec (bb : Option (Blackbox P)) : Probe → ℤ × Option (Blackbox P)
  | timeout name budget => rtosReportTimeout bb name budget
  | fault name ctx => mpuReportFault bb name ctx
  | check probe => rtosCheckTaskBudget bb probe

/-- The call names a block, and brings what it reports on. -/
def complete : Probe → Bool
  | timeout name _ => name.isSome
  | fault name ctx => name.isSome && ctx.isSome
  | check none => false
  | check (some probe) => probe.taskName.isSome

/-- The event of a task over its budget. -/
def overBudget (name : Option CStr) (budget : BitVec 32) : ExtEvent P :=
  ⟨.blockTimeout, name, some (.lit "RTOS_TIMEOUT"), budget.setWidth P.sizeBits, 0, 0⟩

/-- The event a complete call has to report: a task over its budget, or a
fault with its registers. -/
def event : Probe → Option (ExtEvent P)
  | timeout name budget => some (overBudget name budget)
  | fault name (some ctx) => some ⟨.blockMemoryFault, name, some (.lit "MPU_FAULT"),
      ctx.faultAddr.setWidth P.sizeBits, ctx.cfsr.setWidth P.sizeBits, ctx.hfsr⟩
  | fault _ none => none
  | check (some probe) =>
    if probe.tickBudget < probe.elapsedTicks then some (overBudget probe.taskName probe.tickBudget) else none
  | check none => none

/-- **A call** stores its event if it is complete, and is an error otherwise. -/
theorem exec_eq (p : Probe) (bb : Blackbox P) : p.exec (some bb) =
    if p.complete then (ok, some (stores bb p.event.toList)) else (errNull, some bb) := by
  cases p with
  | timeout name budget => cases name <;> rfl
  | fault name ctx => cases name <;> cases ctx <;> rfl
  | check probe =>
    cases probe with
    | none => rfl
    | some probe =>
      obtain ⟨name, budget, elapsed⟩ := probe
      cases name with
      | none => rfl
      | some name =>
        rw [if_pos (show complete (check (some ⟨some name, budget, elapsed⟩)) = true from rfl)]
        by_cases hover : budget < elapsed
        · simp only [exec, rtosCheckTaskBudget, event, if_pos hover]
          rfl
        · simp only [exec, rtosCheckTaskBudget, event, if_neg hover]
          rfl

end Probe

/-! ### Reports among runs -/

/-- A call of `loxguard_run`, or a report into a blackbox, `none` for `NULL`. -/
inductive Input (P : Platform)
  | call (c : Call P)
  | probe (box : Option ℕ) (p : Probe)

/-- What is seen of it: the outcome of the call, or the status returned and the
event that was to be stored. -/
inductive Seen (P : Platform)
  | outcome (o : Outcome P)
  | status (rc : ℤ) (stored : Option (ℕ × ExtEvent P))

/-- The process takes it. -/
def Input.step (w : World P) : Input P → Seen P × World P
  | call c => (.outcome (c.step w).1, (c.step w).2)
  | probe none p => (.status (p.exec (none : Option (Blackbox P))).1 none, w)
  | probe (some box) p =>
    let r := p.exec (some (w.blackboxes box))
    (.status r.1 (if p.complete then p.event.map (Prod.mk box) else none),
      { w with blackboxes := Function.update w.blackboxes box (r.2.getD (w.blackboxes box)) })

/-- The calls among inputs. -/
def callsIn (is : List (Input P)) : List (Call P) :=
  is.filterMap fun
    | .call c => some c
    | .probe _ _ => none

/-- The outcomes of the calls. -/
def outcomesIn (os : List (Seen P)) : List (Outcome P) :=
  os.filterMap fun
    | .outcome o => some o
    | .status _ _ => none

theorem Input.step_probe (w : World P) (box : Option ℕ) (p : Probe) :
    (∃ rc stored, (Input.step w (.probe box p)).1 = .status rc stored) ∧
      ∃ blackboxes, (Input.step w (.probe box p)).2 = { w with blackboxes } := by
  cases box with
  | none => exact ⟨⟨_, _, rfl⟩, w.blackboxes, rfl⟩
  | some box => exact ⟨⟨_, _, rfl⟩, _, rfl⟩

/-- Processes that go on alike, one with reports and one without. -/
theorem run_seenAlike (is : List (Input P)) {w w' : World P}
    (h : SeenAlike true w.trace w'.trace w w') :
    outcomesIn (Runs.run Input.step w is).1 = (runAll w' (callsIn is)).1 ∧
      (Runs.run Input.step w is).2.streaks = (runAll w' (callsIn is)).2.streaks ∧
      (Runs.run Input.step w is).2.adapters = (runAll w' (callsIn is)).2.adapters := by
  induction is generalizing w w' with
  | nil => exact ⟨rfl, h.streaks, h.blocks⟩
  | cons i is ih =>
    cases i with
    | call c =>
      obtain ⟨hout, hnext⟩ := c.step_seenAlike (by simp) h
      obtain ⟨hrest, hlast⟩ := ih hnext
      refine ⟨?_, hlast⟩
      show (c.step w).1 :: outcomesIn (Runs.run Input.step (c.step w).2 is).1 =
        (c.step w').1 :: (runAll (c.step w').2 (callsIn is)).1
      rw [hout, hrest]
    | probe box p =>
      obtain ⟨⟨rc, stored, hseen⟩, blackboxes, hnext⟩ := Input.step_probe w box p
      have hafter : SeenAlike true { w with blackboxes }.trace w'.trace { w with blackboxes } w' :=
        ⟨h.streaks, h.env, h.blocks, h.trace⟩
      rw [Runs.run, hseen, hnext]
      exact ih hafter

/-- **Reports are no failures.** In a process with any reports from tasks and
from the memory protection unit between the calls, into any blackboxes, every
call has the outcome, and the streaks and block states are those, of the
process without the reports. -/
theorem runs_ignore_probes (w : World P) (is : List (Input P)) :
    outcomesIn (Runs.run Input.step w is).1 = (runAll w (callsIn is)).1 ∧
      (Runs.run Input.step w is).2.streaks = (runAll w (callsIn is)).2.streaks ∧
      (Runs.run Input.step w is).2.adapters = (runAll w (callsIn is)).2.adapters :=
  run_seenAlike is ⟨rfl, rfl, rfl, [], (List.append_nil _).symm, (List.append_nil _).symm⟩

/-! ### What is recorded -/

/-- The events for the blackbox at `box`. -/
def Seen.eventsAt (box : ℕ) : Seen P → List (ExtEvent P)
  | outcome o => storedIn box o.effects
  | status _ (some (b, ev)) => if b = box then [ev] else []
  | status _ none => []

theorem Call.follows (c : Call P) (w : World P) : Follows w (c.effects w) (c.exec w).2 := by
  have hcall : c.Calls Set.univ := ⟨trivial, c.fn.calls_univ⟩
  obtain ⟨effs, hfollows, -⟩ := follows_runAll [c] (fun _ h => List.mem_singleton.mp h ▸ hcall) w
  have heffs : c.effects w = effs := effects_eq hfollows.trace
  rw [heffs]
  exact hfollows

/-- **One input** leaves each blackbox as by the stores of its events. -/
theorem Input.step_blackboxes (w : World P) (i : Input P) (box : ℕ) :
    (i.step w).2.blackboxes box = stores (w.blackboxes box) ((i.step w).1.eventsAt box) := by
  cases i with
  | call c => exact (c.follows w).blackboxes box
  | probe b p =>
    cases b with
    | none => rfl
    | some b =>
      simp only [Input.step, p.exec_eq]
      by_cases hb : b = box
      · subst hb
        rw [Function.update_self]
        by_cases hcomplete : p.complete
        · simp only [if_pos hcomplete]
          cases p.event <;> simp [Seen.eventsAt]
        · simp only [if_neg hcomplete]
          rfl
      · rw [Function.update_of_ne (Ne.symm hb)]
        by_cases hcomplete : p.complete
        · simp only [if_pos hcomplete]
          cases p.event <;> simp [Seen.eventsAt, hb, stores]
        · simp only [if_neg hcomplete]
          rfl

theorem run_blackboxes (is : List (Input P)) (w : World P) (box : ℕ) :
    (Runs.run Input.step w is).2.blackboxes box =
      stores (w.blackboxes box) ((Runs.run Input.step w is).1.flatMap (Seen.eventsAt box)) := by
  have hview : (Runs.run Input.step w is).2.blackboxes box =
      (Runs.run Input.step w is).1.foldl (fun bb seen => stores bb (seen.eventsAt box)) (w.blackboxes box) :=
    Runs.view_run (fun w : World P => w.blackboxes box) _ is w fun i _ w => i.step_blackboxes w box
  rw [hview]
  unfold stores
  rw [List.foldl_flatMap]

/-- **Every report is recorded.** After any calls and reports, in any order,
each blackbox holds what it held before, then the events of the calls and of
the complete reports into it, in order, of all these the last 16. -/
theorem probes_recorded (w : World P) (is : List (Input P)) {box : ℕ} (hwf : (w.blackboxes box).Wf) :
    ((Runs.run Input.step w is).2.blackboxes box).Wf ∧
      ((Runs.run Input.step w is).2.blackboxes box).contents = ((w.blackboxes box).contents ++
        ((Runs.run Input.step w is).1.flatMap (Seen.eventsAt box)).map recorded).rtake 16 := by
  rw [run_blackboxes]
  exact ⟨stores_wf _ hwf, contents_stores_window hwf _⟩

/-- A call that writes past its output, between a task over its budget and a
fault without registers. -/
theorem probes_recorded_between :
    let is : List (Input .host) :=
      [.probe (some 1) (.check (some ⟨some (.lit "task"), 5, 6⟩)), .call writingCall,
        .probe (some 1) (.fault (some (.lit "mpu")) none)]
    let r := Runs.run Input.step (World.start .quiet) is
    (r.2.blackboxes 1).Wf ∧ (r.2.blackboxes 1).contents =
      (((World.start .quiet : World .host).blackboxes 1).contents ++
        (r.1.flatMap (Seen.eventsAt 1)).map recorded).rtake 16 :=
  probes_recorded (World.start .quiet) _ (wf_of_count_zero rfl)

end Loxguard
