/-
# Calls one after the other

What a call leaves, whatever its guarded function: nothing without a
blackbox (`exec_of_null`), the course of a refusal when the streak is at the
limit (`exec_quarantined`). A call without nested runs has its course
(`FlatCall.exec_runsAs`), so it moves the streak of its block by the events it
stores (`FlatCall.streakOf_exec`), and a sequence of calls of one block by all
of them (`streakOf_runAll`).

Key definitions: `FlatCall.step`, `Outcome.kinds`, `storedKinds`.
Key theorems: `exec_quarantined`, `invoked_or_not_quarantined`,
`FlatCall.exec_runsAs`, `FlatCall.streakOf_exec`, `streakOf_runAll`,
`FlatCall.firstOnly_exec`.
-/
import Loxguard.Evidence
import Loxguard.Lifecycle

namespace Loxguard

open Lib

variable {P : Platform}

/-! ### Block names -/

theorem blockName_ne_nil (cfg : BlockCfg P) : cfg.blockName.bytes ≠ [] := by
  unfold BlockCfg.blockName
  split
  · decide
  · split
    · decide
    · assumption

@[simp] theorem blockKey_blockName (cfg : BlockCfg P) :
    blockKey (some cfg.blockName) = cfg.blockName := by
  have hne := blockName_ne_nil cfg
  simp [blockKey, hne]

/-! ### Any call -/

theorem effects_eq {c : Call P} {w : World P} {effs : List (Effect P)}
    (h : (c.exec w).2.trace = w.trace ++ effs) : c.effects w = effs := by
  rw [Call.effects, h, List.drop_left]

theorem exec_of_null {c : Call P} (h : c.cfg.blackbox = none) (w : World P) :
    c.exec w = (nullReport, { w with env := c.env }) := by
  rw [Call.exec, loxguardRun_of_null h]

theorem effects_of_null {c : Call P} (h : c.cfg.blackbox = none) (w : World P) : c.effects w = [] :=
  effects_eq (by rw [exec_of_null h, List.append_nil])

/-- **A call that finds the streak at the limit** is refused, whatever its
function. -/
theorem exec_quarantined {c : Call P} {box : ℕ} (hbox : c.cfg.blackbox = some box) {w : World P}
    (hq : c.cfg.QuarantinedAt (entryStreak w.streaks (some c.block))) :
    RunsAs c.cfg box { w with env := c.env }
      (.refusal c.cfg (.lit "QUARANTINED") ((entryStreak w.streaks (some c.block)).setWidth P.sizeBits)
        (c.cfg.maxFailures.setWidth P.sizeBits) 0) (c.exec w) := by
  rcases loxguardRun_cases hbox c.fn.exec { w with env := c.env } with ⟨-, hrun⟩ | ⟨h, -⟩ | ⟨h, -⟩
  · rw [show c.exec w = _ from hrun]
    exact refused_runsAs hbox _ _ _ _ 0 (World.entered { w with env := c.env } c.cfg box).adapters
      (World.entered { w with env := c.env } c.cfg box).env.breaker
  · exact absurd hq h
  · exact absurd hq h

theorem invoked_of_allowed {c : Call P} {box : ℕ} (hbox : c.cfg.blackbox = some box) {w : World P}
    (hq : ¬ c.cfg.QuarantinedAt (entryStreak w.streaks (some c.block)))
    (hclosed : ¬ c.env.BreakerOpen) : Invoked (c.effects w) := by
  obtain ⟨effs, htrace⟩ := run_invokes hbox (exec_stream c.fn) { w with env := c.env } hq hclosed
  rw [effects_eq htrace]
  exact ⟨_, List.mem_cons_of_mem _ List.mem_cons_self⟩

/-- A call that does not find the streak at the limit calls its function or is
refused by the breaker. -/
theorem invoked_or_not_quarantined {c : Call P} {box : ℕ} (hbox : c.cfg.blackbox = some box)
    {w : World P} (hq : ¬ c.cfg.QuarantinedAt (entryStreak w.streaks (some c.block))) :
    Invoked (c.effects w) ∨ ¬ Quarantined (c.effects w) := by
  by_cases hopen : c.env.BreakerOpen
  · right
    rcases loxguardRun_cases hbox c.fn.exec { w with env := c.env } with ⟨h, -⟩ |
      ⟨-, -, aux, adapters, breaker, hrun⟩ | ⟨-, h, -⟩
    · exact absurd h hq
    · have hruns := refused_runsAs hbox { w with env := c.env } (.lit "BREAKER_OPEN") 0 0 aux
        adapters breaker
      rw [← show c.exec w = _ from hrun] at hruns
      rw [effects_eq hruns.trace, quarantined_refusal_iff]
      decide
    · exact absurd hopen h
  · exact Or.inl (invoked_of_allowed hbox hq hopen)

/-- **A call is refused** when it finds the streak at the limit. -/
theorem refused_iff {c : Call P} {box : ℕ} (hbox : c.cfg.blackbox = some box) (w : World P) :
    (¬ Invoked (c.effects w) ∧ Quarantined (c.effects w)) ↔
      c.cfg.QuarantinedAt (entryStreak w.streaks (some c.block)) := by
  constructor
  · rintro ⟨hinvoked, hquarantined⟩
    by_contra hq
    exact (invoked_or_not_quarantined hbox hq).elim hinvoked (absurd hquarantined)
  · intro hq
    rw [effects_eq (exec_quarantined hbox hq).trace, invoked_effects_iff, quarantined_refusal_iff]
    exact ⟨nofun, rfl⟩

/-! ### The streak table after a run -/

section Streaks

variable {cfg : BlockCfg P} {box : ℕ} {w : World P} {c : Course P} {r : Report × World P}

/-- A run finds the streak of its block. -/
theorem entryStreak_eq (hname : cfg.blockName.length ≤ 63) (t : StreakTable) :
    entryStreak t (some cfg.blockName) = streakOf t (some cfg.blockName) := by
  have hkey : (blockKey (some cfg.blockName)).length ≤ 63 := by rwa [blockKey_blockName]
  exact streakOf_observe t hkey .blockEntered

/-- **A run moves the streak of its block** by the events of its course. -/
theorem RunsAs.streakOf_eq (h : RunsAs cfg box w c r) (hname : cfg.blockName.length ≤ 63) :
    streakOf r.2.streaks (some cfg.blockName) =
      streakAfter (streakOf w.streaks (some cfg.blockName)) (c.events.map Event.kind) := by
  have hkey : (blockKey (some cfg.blockName)).length ≤ 63 := by rwa [blockKey_blockName]
  rw [h.streaks, streakOf_observe _ hkey, Course.streaks, streakOf_foldl_observe hkey,
    streakOf_lookup _ hkey, streakOf_observe _ hkey]
  rfl

theorem StreakTable.FirstOnly.foldl_observe (block : Option CStr) (kinds : List EventKind)
    {t : StreakTable} (ht : t.FirstOnly) : (kinds.foldl (Loxguard.observe block) t).FirstOnly := by
  induction kinds generalizing t with
  | nil => exact ht
  | cons kind kinds ih => exact ih (ht.observe block kind)

theorem RunsAs.firstOnly (h : RunsAs cfg box w c r) (hw : w.streaks.FirstOnly) :
    r.2.streaks.FirstOnly := by
  rw [h.streaks]
  exact ((((hw.observe _ _).lookup _).foldl_observe _ _).observe _ _)

/-- **A run of one block** leaves every other block with streak 0. -/
theorem RunsAs.streakOf_ne (h : RunsAs cfg box w c r) (hw : w.streaks.FirstOnly)
    (hname : cfg.blockName.length ≤ 63) {other : CStr} (hne : cfg.blockName ≠ blockKey (some other)) :
    streakOf r.2.streaks (some other) = 0 := by
  rw [h.streaks]
  refine StreakTable.FirstOnly.streakOf_observe_ne ?_ ?_ ?_ _
  · exact ((hw.observe _ _).lookup _).foldl_observe _ _
  · rwa [blockKey_blockName]
  · rwa [blockKey_blockName]

end Streaks

/-! ### Calls without nested runs -/

/-- The kinds of the events a call stored. -/
def Outcome.kinds (o : Outcome P) : List EventKind := (storedEvents o.effects).map Event.kind

/-- The kinds of the events calls stored. -/
def storedKinds (os : List (Outcome P)) : List EventKind := os.flatMap Outcome.kinds

namespace FlatCall

variable (c : FlatCall P) (w : World P)

/-- The name of the block. -/
def block : CStr := c.cfg.blockName

/-- A call of a block whose function only returns. -/
def returning (name : CStr) (maxFailures : BitVec 32) (rc : ℤ) : FlatCall P :=
  ⟨.plain name maxFailures, .ret rc, .quiet⟩

/-- **A call without nested runs** has its course. -/
theorem exec_runsAs {box : ℕ} (hbox : c.cfg.blackbox = some box) :
    ∃ refusal : Option (BitVec 32), (refusal.isSome ↔ c.env.BreakerOpen) ∧
      RunsAs c.cfg box { w with env := c.env }
        (courseOf c.cfg c.fn (entryStreak w.streaks (some c.block)) refusal c.env.elapsed)
        (c.toCall.exec w) :=
  flat_run hbox c.fn { w with env := c.env }

/-- What the events of a run do to a streak, those of its course do. -/
theorem streakAfter_effects (course : Course P) (cfg : BlockCfg P) (env : Env) (box : ℕ)
    (streak : BitVec 32) :
    streakAfter streak ((storedEvents (course.effects cfg env box)).map Event.kind) =
      streakAfter streak (course.events.map Event.kind) := by
  unfold streakAfter
  rw [storedEvents_effects, List.map_cons, List.foldl_cons, List.map_append, List.foldl_append]
  rfl

/-- **A call moves the streak of its block** by the events it stores. -/
theorem streakOf_exec (hname : c.block.length ≤ 63) :
    streakOf (c.toCall.exec w).2.streaks (some c.block) =
      streakAfter (streakOf w.streaks (some c.block)) (c.toCall.step w).1.kinds := by
  unfold Outcome.kinds Call.step
  cases hbox : c.cfg.blackbox with
  | none =>
    rw [exec_of_null (c := c.toCall) hbox, effects_of_null (c := c.toCall) hbox]
    rfl
  | some box =>
    obtain ⟨refusal, -, hruns⟩ := c.exec_runsAs w hbox
    rw [effects_eq hruns.trace, streakAfter_effects]
    exact hruns.streakOf_eq hname

theorem streakOf_called {box : ℕ} (hbox : c.cfg.blackbox = some box) (hname : c.block.length ≤ 63)
    (hq : ¬ c.cfg.QuarantinedAt (streakOf w.streaks (some c.block))) (hclosed : ¬ c.env.BreakerOpen) :
    streakOf (c.toCall.exec w).2.streaks (some c.block) =
      streakAfter (streakOf w.streaks (some c.block))
        ((calledEvents c.cfg c.fn c.env.elapsed).map Event.kind) := by
  obtain ⟨refusal, hrefusal, hruns⟩ := c.exec_runsAs w hbox
  obtain rfl : refusal = none := by simpa [hclosed] using hrefusal
  have hentry : entryStreak w.streaks (some c.block) = streakOf w.streaks (some c.block) :=
    entryStreak_eq hname _
  have hcourse : courseOf c.cfg c.fn (streakOf w.streaks (some c.block)) none c.env.elapsed = _ :=
    if_neg hq
  rw [hentry, hcourse] at hruns
  exact hruns.streakOf_eq hname

theorem quarantined_iff {box : ℕ} (hbox : c.cfg.blackbox = some box) :
    Quarantined (c.toCall.effects w) ↔ c.cfg.QuarantinedAt (entryStreak w.streaks (some c.block)) := by
  obtain ⟨refusal, -, hruns⟩ := c.exec_runsAs w hbox
  rw [effects_eq hruns.trace, quarantined_effects_iff]

theorem quarantinedAt_of_quarantined (h : Quarantined (c.toCall.effects w)) :
    c.cfg.QuarantinedAt (entryStreak w.streaks (some c.block)) := by
  cases hbox : c.cfg.blackbox with
  | none =>
    rw [effects_of_null (c := c.toCall) hbox] at h
    obtain ⟨ev, hev, -⟩ := h
    cases hev
  | some box => exact (c.quarantined_iff w hbox).mp h

theorem firstOnly_exec (hw : w.streaks.FirstOnly) : (c.toCall.exec w).2.streaks.FirstOnly := by
  cases hbox : c.cfg.blackbox with
  | none =>
    rw [exec_of_null (c := c.toCall) hbox w]
    exact hw
  | some box =>
    obtain ⟨refusal, -, hruns⟩ := c.exec_runsAs w hbox
    exact hruns.firstOnly hw

end FlatCall

theorem World.Fresh.firstOnly {w : World P} (hw : w.Fresh) : w.streaks.FirstOnly := by
  rw [hw.streaks]
  exact StreakTable.fresh_firstOnly

/-- The world after calls of a fresh process has only ever claimed the first
slot. -/
theorem firstOnly_runAll {w : World P} (hw : w.Fresh) (cs : List (FlatCall P)) :
    (runAll w (cs.map FlatCall.toCall)).2.streaks.FirstOnly := by
  have hstep : ∀ c ∈ cs, ∀ w : World P, w.streaks.FirstOnly →
      (Call.step w c.toCall).2.streaks.FirstOnly := fun c _ w hw => c.firstOnly_exec w hw
  rw [runAll, Runs.run_map]
  exact Runs.run_invariant cs w hstep hw.firstOnly

/-- **Calls of one block** move its streak by the events they store. -/
theorem streakOf_runAll {block : CStr} (hname : block.length ≤ 63) (w : World P)
    (cs : List (FlatCall P)) (hcs : ∀ c ∈ cs, c.block = block) :
    streakOf (runAll w (cs.map FlatCall.toCall)).2.streaks (some block) =
      streakAfter (streakOf w.streaks (some block))
        (storedKinds (runAll w (cs.map FlatCall.toCall)).1) := by
  have hstep : ∀ c ∈ cs, ∀ w : World P, streakOf (Call.step w c.toCall).2.streaks (some block) =
      streakAfter (streakOf w.streaks (some block)) (Call.step w c.toCall).1.kinds := by
    intro c hc w
    obtain rfl := hcs c hc
    exact c.streakOf_exec w hname
  unfold runAll storedKinds streakAfter
  rw [Runs.run_map, List.foldl_flatMap]
  exact Runs.view_run (fun w : World P => streakOf w.streaks (some block)) _ cs w hstep

theorem streakOf_runAll_fresh {block : CStr} (hname : block.length ≤ 63) {w : World P} (hw : w.Fresh)
    (cs : List (FlatCall P)) (hcs : ∀ c ∈ cs, c.block = block) :
    streakOf (runAll w (cs.map FlatCall.toCall)).2.streaks (some block) =
      BitVec.ofNat 32 (failuresSinceOk (storedKinds (runAll w (cs.map FlatCall.toCall)).1)) := by
  have hzero : streakOf w.streaks (some block) = BitVec.ofNat 32 0 := by
    rw [hw.streaks]
    exact StreakTable.fresh_firstOnly.streakOf_of_not_matches rfl
  rw [streakOf_runAll hname w cs hcs, hzero, streakAfter_ofNat]
  rfl

end Loxguard
