/-
# The tables of blocks

The failure streaks and the block states are changed by events only: in the
default build a run, with the runs nested in it, leaves both tables as the
events it stores leave them, one after the other (`run_leads`). This needs
block names that fit a slot; a longer one is claimed again at every lookup,
also where a run only reads its streak.

For blocks of which there are at most eight the block states stand for a map
(`Simulates`), and an event of a block changes its codes by the kind of the
event and the streak it leaves (`Simulates.observed`).

Key definitions: `Tables.observe`, `Leads`, `Script.Within`,
`EventKind.codesAfter`.
Key theorems: `exec_leads`, `run_leads`, `Call.exec_leads`,
`Simulates.observed`.
-/
import Loxguard.BlockTable
import Loxguard.Calls

namespace Loxguard

open Lib

variable {P : Platform}

/-- The failure streaks and the block states. -/
structure Tables where
  streaks : StreakTable
  adapters : BlockStates

/-- The tables of a world. -/
def World.tables (w : World P) : Tables := ⟨w.streaks, w.adapters⟩

/-- What an event does to the tables. -/
def Tables.observe (s : Tables) (ev : ExtEvent P) : Tables :=
  let streaks := Loxguard.observe ev.blockName s.streaks ev.kind
  ⟨streaks, healthAfter (watchdogObserveEvent s.adapters ev) ev.blockName ev.kind
    (streaks.read (failureStreakForBlock s.streaks ev.blockName).2)⟩

theorem tables_emit (w : World P) (box : ℕ) (ev : ExtEvent P) :
    (w.emit box ev).tables = w.tables.observe ev := rfl

/-! ### Worlds that follow by events -/

/-- In the default build `w'` follows `w` by the events `evs`, all of blocks
among `names`: they are what was stored, and the tables are as they leave
them. -/
structure Leads (names : Finset CStr) (w w' : World P) (evs : List (ExtEvent P)) : Prop where
  breaker : w'.env.breaker = none
  trace : ∃ effs, w'.trace = w.trace ++ effs ∧ storedEvents effs = evs
  tables : w'.tables = evs.foldl Tables.observe w.tables
  within : ∀ ev ∈ evs, blockKey ev.blockName ∈ names

section Leads

variable {names : Finset CStr} {w w' w'' : World P} {evs evs' : List (ExtEvent P)}

theorem Leads.refl (h : w.env.breaker = none) : Leads names w w [] where
  breaker := h
  trace := ⟨[], (List.append_nil _).symm, rfl⟩
  tables := rfl
  within := nofun

theorem Leads.trans (h : Leads names w w' evs) (h' : Leads names w' w'' evs') :
    Leads names w w'' (evs ++ evs') where
  breaker := h'.breaker
  trace := by
    obtain ⟨effs, htrace, rfl⟩ := h.trace
    obtain ⟨effs', htrace', rfl⟩ := h'.trace
    refine ⟨effs ++ effs', ?_, storedEvents_append ..⟩
    rw [htrace', htrace, List.append_assoc]
  tables := by rw [h'.tables, h.tables, List.foldl_append]
  within ev hev := by
    rcases List.mem_append.mp hev with hev | hev
    · exact h.within ev hev
    · exact h'.within ev hev

/-- What stores no event and leaves the tables as they are does not count. -/
theorem Leads.quiet (h : Leads names w w' evs) (hbreaker : w''.env.breaker = w'.env.breaker)
    {effs : List (Effect P)} (htrace : w''.trace = w'.trace ++ effs) (heffs : storedEvents effs = [])
    (htables : w''.tables = w'.tables) : Leads names w w'' evs := by
  have hnext : Leads names w' w'' [] :=
    ⟨hbreaker.trans h.breaker, ⟨effs, htrace, heffs⟩, htables, nofun⟩
  have htrans := h.trans hnext
  rwa [List.append_nil] at htrans

theorem Leads.emit (h : Leads names w w' evs) (box : ℕ) {ev : ExtEvent P}
    (hev : blockKey ev.blockName ∈ names) : Leads names w (w'.emit box ev) (evs ++ [ev]) := by
  refine h.trans ⟨h.breaker, ⟨_, emit_trace .., rfl⟩, tables_emit .., ?_⟩
  intro ev' hev'
  rw [List.mem_singleton.mp hev']
  exact hev

theorem Leads.emitAll (h : Leads names w w' evs) (box : ℕ)
    (hevs : ∀ ev ∈ evs', blockKey ev.blockName ∈ names) :
    Leads names w (w'.emitAll box evs') (evs ++ evs') := by
  induction evs' generalizing w' evs with
  | nil => rwa [List.append_nil]
  | cons ev evs' ih =>
    have hnext := ih (h.emit box (hevs ev List.mem_cons_self)) fun e he =>
      hevs e (List.mem_cons_of_mem _ he)
    rwa [List.append_assoc] at hnext

theorem Leads.tick (h : Leads names w w' evs) :
    Leads names w { w' with env := w'.env.tick } evs :=
  h.quiet rfl (List.append_nil _).symm rfl rfl

theorem Leads.write (h : Leads names w w' evs) (mem : Mem) : Leads names w { w' with mem } evs :=
  h.quiet rfl (List.append_nil _).symm rfl rfl

end Leads

/-! ### Runs -/

/-- A guarded function called for one of the blocks leads to a world by
events. -/
def LeadsBy (names : Finset CStr) (fn : GuardFn P) : Prop :=
  ∀ (ctx : GuardCtx P) (w : World P) (box : ℕ), ctx.blackbox = some box →
    blockKey ctx.blockName ∈ names → w.env.breaker = none → ∃ evs, Leads names w (fn ctx w).2.2 evs

section Run

variable {names : Finset CStr} {w w' : World P} {evs : List (ExtEvent P)} {box : ℕ}

theorem Leads.complete (h : Leads names w w' evs) {guard : GuardCtx P} (hbox : guard.blackbox = some box)
    (hb : blockKey guard.blockName ∈ names) (rc : ℤ) : Leads names w (completeRun guard rc w').2
      (evs ++ [completedEvent guard.blockName guard.durationTicks]) := by
  rw [completeRun_eq hbox]
  exact (h.emit box hb).quiet rfl rfl (storedEvents_recoveryEffects ..) rfl

theorem Leads.refuse (h : Leads names w w' evs) {guard : GuardCtx P} (hbox : guard.blackbox = some box)
    (hb : blockKey guard.blockName ∈ names) (reason : CStr) (index limit : P.Size) (aux : BitVec 32) :
    ∃ evs' duration, Leads names w (refuseRun guard reason index limit aux w').2
      (evs' ++ [completedEvent guard.blockName duration]) := by
  let ev : ExtEvent P := ⟨.blockError, guard.blockName, some reason, index, limit, aux⟩
  let refused : GuardCtx P :=
    { guard.note ev w'.env.persist.head with
      durationTicks := w'.env.reading 0 - guard.startTicks }
  have hrefused := (h.emit box (show blockKey ev.blockName ∈ names from hb)).tick.complete
    (show refused.blackbox = some box from hbox) hb errUnsupported
  rw [refuseRun_eq hbox]
  exact ⟨_, _, hrefused⟩

theorem Leads.finish (h : Leads names w w' evs) (cfg : BlockCfg P) {guard : GuardCtx P}
    (hbox : guard.blackbox = some box) (hb : blockKey guard.blockName ∈ names) (rc : ℤ) :
    ∃ evs' duration, Leads names w (finishRun cfg rc guard w').2
      (evs' ++ [completedEvent guard.blockName duration]) := by
  let duration := w'.env.reading 0 - guard.startTicks
  let verdict := verdictEvents cfg guard.blockName rc guard.lastEvent.kind duration
  obtain ⟨scratch, hfinish⟩ := finishRun_default cfg hbox rc h.breaker
    (show _ = duration from rfl) (show _ = verdict from rfl)
  let judged : GuardCtx P :=
    { GuardCtx.noteAll { guard with durationTicks := duration } w'.env.persist verdict with scratch }
  have hverdict : ∀ ev ∈ verdict, blockKey ev.blockName ∈ names := fun ev hev => by
    rw [verdictEvents_blockName cfg guard.blockName rc guard.lastEvent.kind duration ev hev]
    exact hb
  have hname : judged.blockName = guard.blockName := noteAll_blockName ..
  have hended := (h.tick.emitAll box hverdict).complete
    (show judged.blackbox = some box from (noteAll_blackbox ..).trans hbox) (by rwa [hname])
    (verdictRc cfg rc duration)
  rw [hname] at hended
  rw [hfinish]
  exact ⟨_, _, hended⟩

/-- `ENTERED`. Looking the streak up once more changes nothing for a name that
fits. -/
theorem leads_entered (box : ℕ) {cfg : BlockCfg P} (hb : blockKey (some cfg.blockName) ∈ names)
    (hlen : (blockKey (some cfg.blockName)).length ≤ 63) (hbreaker : w.env.breaker = none) :
    Leads names w (w.entered cfg box) [enteredEvent (some cfg.blockName)] := by
  let ev : ExtEvent P := enteredEvent (some cfg.blockName)
  have hentered := (Leads.refl hbreaker).tick.emit box (show blockKey ev.blockName ∈ names from hb)
  have hlookup : (failureStreakForBlock (observe ev.blockName w.streaks ev.kind) ev.blockName).1 =
      observe ev.blockName w.streaks ev.kind := congrArg Prod.fst (lookup_observe _ hlen _)
  refine hentered.quiet rfl (List.append_nil _).symm rfl ?_
  exact congrArg (fun streaks => (⟨streaks, _⟩ : Tables)) hlookup

/-- **A run** of one of the blocks leads to a world by events, the last one
`COMPLETED`, when its function does. -/
theorem run_leads {cfg : BlockCfg P} (hbox : cfg.blackbox = some box) (hb : cfg.blockName ∈ names)
    (hlen : cfg.blockName.length ≤ 63) {fn : GuardFn P} (hfn : LeadsBy names fn)
    {body : Option CStr → ℕ → Span P → List (Mark P) → Bool → ℤ → Prop} (hstream : Streams fn body)
    (hbreaker : w.env.breaker = none) : ∃ evs duration,
      Leads names w (loxguardRun (some cfg) (some fn) w).2
        (evs ++ [completedEvent (some cfg.blockName) duration]) := by
  rw [← blockKey_blockName cfg] at hb hlen
  have hguard : (guardOf cfg (w.env.reading 0)).blackbox = some box := hbox
  have hentered := leads_entered box hb hlen hbreaker
  rw [loxguardRun_eq hbox]
  split
  · exact hentered.refuse hguard hb _ _ _ _
  · rw [attemptRun_default _ _ _ hentered.breaker]
    let called : World P :=
      { w.entered cfg box with
        trace := (w.entered cfg box).trace ++ [.invoke (some cfg.blockName)] }
    have hcalled : Leads names w called _ := hentered.quiet rfl rfl rfl rfl
    obtain ⟨evs, hevs⟩ := hfn _ called box hguard hb hcalled.breaker
    obtain ⟨effs, own, -, -, hafter⟩ := hstream (guardOf cfg (w.env.reading 0)) called box hguard
    have hname : ((fn (guardOf cfg (w.env.reading 0)) called).2.1).blockName = some cfg.blockName :=
      hafter.blockName
    obtain ⟨evs', duration, hended⟩ := (hcalled.trans hevs).finish cfg (hafter.blackbox.trans hguard)
      (by rwa [hname]) (fn (guardOf cfg (w.env.reading 0)) called).1
    rw [hname] at hended
    exact ⟨evs', duration, hended⟩

end Run

/-! ### Guarded functions and calls -/

/-- The runs a function starts are of blocks among `names`. -/
def Script.Within (names : Finset CStr) : Script P → Prop
  | .ret _ => True
  | .write _ _ next => ∀ rc, (next rc).Within names
  | .emitBounds _ _ next => next.Within names
  | .run cfg fn next =>
    (∀ c, cfg = some c → c.blockName ∈ names) ∧ fn.Within names ∧ ∀ report, (next report).Within names

/-- The call, and the runs its function starts, are of blocks among
`names`. -/
def Call.Within (names : Finset CStr) (c : Call P) : Prop := c.block ∈ names ∧ c.fn.Within names

/-- The call meets the default build, which has no breaker. -/
def Call.Default (c : Call P) : Prop := c.env.breaker = none

section Exec

variable {names : Finset CStr} (hlen : ∀ b ∈ names, b.length ≤ 63)
include hlen

/-- **A guarded function** leads to a world by events: by induction on the
script, with runs nested to any depth. -/
theorem exec_leads (s : Script P) (hs : s.Within names) : LeadsBy names s.exec := by
  induction s with
  | ret rc => exact fun ctx w box _ _ hbreaker => ⟨[], Leads.refl hbreaker⟩
  | write index value next ih =>
    intro ctx w box hbox hb hbreaker
    by_cases hr : ctx.output.Rejects index
    · let ev := boundsEvent ctx.blockName index ctx.output.len
      have hemit := (Leads.refl hbreaker).emit box (show blockKey ev.blockName ∈ names from hb)
      obtain ⟨evs, hevs⟩ := ih (ctx.output.writeRc index) (hs _) (ctx.note ev w.env.persist.head)
        (w.emit box ev) box hbox hb hemit.breaker
      refine ⟨[ev] ++ evs, ?_⟩
      simp only [Script.exec, checkedOutputWriteU8_rejected hbox hr]
      exact hemit.trans hevs
    · obtain ⟨mem, hwrite⟩ := checkedOutputWriteU8_other hr value w
      obtain ⟨evs, hevs⟩ := ih (ctx.output.writeRc index) (hs _) ctx { w with mem } box hbox hb hbreaker
      refine ⟨evs, ?_⟩
      simp only [Script.exec, hwrite]
      exact ((Leads.refl hbreaker).write mem).trans hevs
  | emitBounds index limit next ih =>
    intro ctx w box hbox hb hbreaker
    let ev := boundsEvent ctx.blockName index limit
    have hemit := (Leads.refl hbreaker).emit box (show blockKey ev.blockName ∈ names from hb)
    obtain ⟨evs, hevs⟩ := ih hs (ctx.note ev w.env.persist.head) (w.emit box ev) box hbox hb hemit.breaker
    refine ⟨[ev] ++ evs, ?_⟩
    simp only [Script.exec, guardEmitBounds_eq hbox]
    exact hemit.trans hevs
  | run cfg fn next ihfn ihnext =>
    intro ctx w box hbox hb hbreaker
    obtain ⟨hcfg, hfn, hnext⟩ := hs
    have hnested : ∃ evs, Leads names w (loxguardRun cfg (some fn.exec) w).2 evs := by
      cases cfg with
      | none => exact ⟨[], Leads.refl hbreaker⟩
      | some c =>
        cases hcbox : c.blackbox with
        | none =>
          rw [loxguardRun_of_null hcbox]
          exact ⟨[], Leads.refl hbreaker⟩
        | some cbox =>
          have hc := hcfg c rfl
          obtain ⟨evs, duration, hrun⟩ :=
            run_leads hcbox hc (hlen _ hc) (ihfn hfn) (exec_stream fn) hbreaker
          exact ⟨_, hrun⟩
    obtain ⟨evs, hrun⟩ := hnested
    obtain ⟨evs', hrest⟩ := ihnext _ (hnext _) ctx _ box hbox hb hrun.breaker
    exact ⟨_, hrun.trans hrest⟩

/-- **A call** leads to a world by events, the last one `COMPLETED`. -/
theorem Call.exec_leads {c : Call P} (hc : c.Within names) (hdefault : c.Default) {box : ℕ}
    (hbox : c.cfg.blackbox = some box) (w : World P) : ∃ evs duration,
      Leads names { w with env := c.env } (c.exec w).2
        (evs ++ [completedEvent (some c.block) duration]) :=
  run_leads hbox hc.1 (hlen _ hc.1) (Loxguard.exec_leads hlen c.fn hc.2) (exec_stream c.fn) hdefault

end Exec

/-! ### What an event does to the map -/

/-- The codes of a block after an event that left its streak at `streak`. -/
def EventKind.codesAfter (kind : EventKind) (streak : BitVec 32) (codes : BlockCodes) : BlockCodes :=
  { kind.watched codes with
    healthCode :=
      if 5 ≤ streak then 5 else if 3 ≤ streak then 4 else kind.health.getD codes.healthCode }

section Simulates

variable {names : Finset CStr} {t : BlockStates} {m : CStr → BlockCodes} {last : Option CStr}

/-- A health code for the block whose codes were changed last. -/
theorem Simulates.healthSet (hcard : names.card ≤ 8) {blockName : Option CStr}
    (hmem : blockKey blockName ∈ names) (hlen : (blockKey blockName).length ≤ 63) {codes : BlockCodes}
    (h : Simulates names t (Function.update m (blockKey blockName) codes) (some (blockKey blockName)))
    (code : ℤ) : Simulates names (healthSetForBlock t blockName code)
      (Function.update m (blockKey blockName) { codes with healthCode := code })
      (some (blockKey blockName)) := by
  have hset := h.modify hcard hmem hlen fun codes => { codes with healthCode := code }
  rw [Function.update_self, Function.update_idem] at hset
  exact hset

theorem healthAfter_eq (t : BlockStates) (blockName : Option CStr) (kind : EventKind)
    (streak : BitVec 32) : healthAfter t blockName kind streak =
      let t := kind.health.elim t (healthSetForBlock t blockName)
      if 5 ≤ streak then healthSetForBlock t blockName 5
      else if 3 ≤ streak then healthSetForBlock t blockName 4
      else t := by
  unfold healthAfter
  cases kind.health <;> rfl

theorem watched_healthCode (kind : EventKind) (codes : BlockCodes) :
    (kind.watched codes).healthCode = codes.healthCode := by
  cases kind <;> rfl

/-- **An event of a block** changes its codes in the map. -/
theorem Simulates.observed (h : Simulates names t m last) (hcard : names.card ≤ 8) (ev : ExtEvent P)
    (hmem : blockKey ev.blockName ∈ names) (hlen : (blockKey ev.blockName).length ≤ 63)
    (streak : BitVec 32) :
    Simulates names (healthAfter (watchdogObserveEvent t ev) ev.blockName ev.kind streak)
      (Function.update m (blockKey ev.blockName) (ev.kind.codesAfter streak (m (blockKey ev.blockName))))
      (some (blockKey ev.blockName)) := by
  let key := blockKey ev.blockName
  let codes := ev.kind.watched (m key)
  have hwatched : Simulates names (watchdogObserveEvent t ev) (Function.update m key codes) (some key) := by
    rw [watchdogObserveEvent_eq]
    exact h.modify hcard hmem hlen ev.kind.watched
  have hhealth : Simulates names
      (ev.kind.health.elim (watchdogObserveEvent t ev)
        (healthSetForBlock (watchdogObserveEvent t ev) ev.blockName))
      (Function.update m key { codes with healthCode := ev.kind.health.getD (m key).healthCode })
      (some key) := by
    cases ev.kind.health with
    | none =>
      have hkeep : codes.healthCode = (m key).healthCode := watched_healthCode ev.kind (m key)
      rw [Option.getD_none, ← hkeep]
      exact hwatched
    | some code => exact Simulates.healthSet hcard hmem hlen hwatched code
  rw [healthAfter_eq]
  unfold EventKind.codesAfter
  split_ifs
  · exact Simulates.healthSet hcard hmem hlen hhealth 5
  · exact Simulates.healthSet hcard hmem hlen hhealth 4
  · exact hhealth

end Simulates

end Loxguard
