/-
# Health and watchdog codes after runs

Every event of a run rewrites the codes of its block: the watchdog state and
the health code by the kind of the event, and the health code once more by the
streak the event leaves. What is left at the end is decided by the verdict, or
by the last incident where there is none, and by the streak after it;
`COMPLETED` confirms both (`codesAfter_completed`). The runs of other blocks
leave the codes alone, so they tell of the last run of the block
(`codes_of_last_run`).

Key definitions: `Result.healthAfterRun`, `Result.watchdogAfterRun`,
`StandsFor`.
Key theorems: `StandsFor.exec`, `StandsFor.runAll`, `codes_of_last_run`.
-/
import Loxguard.Tables

namespace Loxguard

open Lib

variable {P : Platform}

/-! ### What a run leaves -/

/-- The health code a run leaves, by its result and the streak of its block at
its last event. -/
def Result.healthAfterRun (result : Result) (streak : BitVec 32) : ℤ :=
  if result = .ok then 0
  else if 5 ≤ streak then 5
  else if 3 ≤ streak then 4
  else if result = .timeout then 2
  else 3

/-- The watchdog state a run leaves, by its result. -/
def Result.watchdogAfterRun (result : Result) : ℤ :=
  if result = .ok then 0 else if result = .timeout then 1 else 2

/-- The call runs its block. One without a blackbox runs none, and its report
names none. -/
def FlatCall.Runs (c : FlatCall P) : Prop := c.cfg.blackbox ≠ none

theorem runs_iff_lastBlock (c : FlatCall P) (w : World P) :
    c.Runs ↔ (c.toCall.exec w).1.lastBlock = some c.block := by
  unfold FlatCall.Runs
  cases hbox : c.cfg.blackbox with
  | none =>
    rw [exec_of_null (show c.toCall.cfg.blackbox = none from hbox)]
    exact iff_of_false (fun h => h rfl) nofun
  | some box =>
    obtain ⟨refusal, -, hruns⟩ := c.exec_runsAs w hbox
    apply iff_of_true (Option.some_ne_none box)
    rw [hruns.report]
    exact noteAll_blockName ..

/-- The kind of the last event before `COMPLETED`, by the result of the run. -/
def Result.verdictKind : Result → EventKind
  | .ok => .blockOk
  | .timeout => .blockTimeout
  | .bounds => .blockWriteOutOfBounds
  | _ => .blockError

theorem Course.Ends.last_kind {cfg : BlockCfg P} {fn : FlatScript P} {duration : BitVec 32}
    {c : Course P} {result : Result} (h : c.Ends cfg fn duration result) :
    ∃ evs ev, c.events = evs ++ [ev] ∧ ev.kind = result.verdictKind := by
  cases h with
  | refused reason index limit aux => exact ⟨[], _, rfl, rfl⟩
  | timeout h => exact ⟨_, _, rfl, rfl⟩
  | ok h hrc => exact ⟨_, _, rfl, rfl⟩
  | error h hrc hnone => exact ⟨[], _, rfl, rfl⟩
  | bounds h hrc hsome =>
    obtain ⟨evs, ev, hevs⟩ := (List.eq_nil_or_concat _).resolve_left hsome
    have hmem : ev ∈ fn.incidentEvents (some cfg.blockName) cfg.output := by simp [hevs]
    exact ⟨evs, ev, hevs.trans List.concat_eq_append, incidentEvents_kind _ _ _ ev hmem⟩

theorem Course.Ends.blockName {cfg : BlockCfg P} {fn : FlatScript P} {duration : BitVec 32}
    {c : Course P} {result : Result} (h : c.Ends cfg fn duration result) :
    ∀ ev ∈ c.events, ev.blockName = some cfg.blockName := by
  have hincident := incidentEvents_blockName fn (some cfg.blockName) cfg.output
  cases h with
  | refused reason index limit aux => simp [Course.refusal]
  | timeout h => simpa [or_imp, forall_and] using hincident
  | ok h hrc => simpa [or_imp, forall_and] using hincident
  | error h hrc hnone => simp
  | bounds h hrc hsome => exact hincident

/-- `COMPLETED` leaves the codes as the event before it left them. -/
theorem codesAfter_completed (kind : EventKind) (streak : BitVec 32) (codes : BlockCodes) :
    EventKind.blockCompleted.codesAfter streak (kind.codesAfter streak codes) =
      kind.codesAfter streak codes := by
  unfold EventKind.codesAfter
  simp only [EventKind.watched, EventKind.health, Option.getD_none]
  split_ifs <;> rfl

/-- **The codes after the last event** of a run. -/
theorem codesAfter_verdict (result : Result) {streak : BitVec 32} (hok : result = .ok → streak = 0)
    (codes : BlockCodes) :
    (result.verdictKind.codesAfter streak codes).healthCode = result.healthAfterRun streak ∧
      (result.verdictKind.codesAfter streak codes).watchdogState = result.watchdogAfterRun := by
  cases result with
  | ok =>
    rw [hok rfl]
    exact ⟨rfl, rfl⟩
  | _ => exact ⟨rfl, rfl⟩

/-! ### The map along events -/

/-- The block states stand for the map `m`. -/
def StandsFor (names : Finset CStr) (s : Tables) (m : CStr → BlockCodes) : Prop :=
  ∃ last, Simulates names s.adapters m last

section StandsFor

variable {names : Finset CStr} (hcard : names.card ≤ 8) (hlen : ∀ b ∈ names, b.length ≤ 63)
include hcard hlen

/-- **An event** changes the codes of its block by the streak it leaves. -/
theorem StandsFor.observe {s : Tables} {m : CStr → BlockCodes} (h : StandsFor names s m) (ev : ExtEvent P)
    (hev : blockKey ev.blockName ∈ names) :
    StandsFor names (s.observe ev) (Function.update m (blockKey ev.blockName)
      (ev.kind.codesAfter (streakOf (s.observe ev).streaks ev.blockName) (m (blockKey ev.blockName)))) := by
  obtain ⟨last, hsim⟩ := h
  have hstreak : streakOf (s.observe ev).streaks ev.blockName =
      (s.observe ev).streaks.read (failureStreakForBlock s.streaks ev.blockName).2 := by
    show streakOf (Loxguard.observe ev.blockName s.streaks ev.kind) ev.blockName = _
    rw [streakOf, lookup_observe _ (hlen _ hev)]
    rfl
  rw [hstreak]
  exact ⟨_, hsim.observed hcard ev hev (hlen _ hev) _⟩

/-- Events of one block leave the other blocks alone. -/
theorem StandsFor.observeAll {block : Option CStr} (hblock : blockKey block ∈ names)
    (evs : List (ExtEvent P)) (hevs : ∀ ev ∈ evs, ev.blockName = block) {s : Tables}
    {m : CStr → BlockCodes} (h : StandsFor names s m) :
    ∃ m', StandsFor names (evs.foldl Tables.observe s) m' ∧ ∀ key, key ≠ blockKey block → m' key = m key := by
  induction evs generalizing s m with
  | nil => exact ⟨m, h, fun _ _ => rfl⟩
  | cons ev evs ih =>
    have hev : ev.blockName = block := hevs ev List.mem_cons_self
    have hnext := h.observe hcard hlen ev (by rwa [hev])
    obtain ⟨m', hstands, hother⟩ := ih (fun e he => hevs e (List.mem_cons_of_mem _ he)) hnext
    refine ⟨m', hstands, fun key hkey => ?_⟩
    rw [hother key hkey, hev, Function.update_of_ne hkey]

/-- **The last event of a run and `COMPLETED`**: the codes are those after the
first of the two. -/
theorem StandsFor.ended {s : Tables} {m : CStr → BlockCodes} (h : StandsFor names s m)
    (ev : ExtEvent P) (hev : blockKey ev.blockName ∈ names) (duration : BitVec 32) :
    let s' := (s.observe ev).observe (completedEvent (P := P) ev.blockName duration)
    streakOf s'.streaks ev.blockName = ev.kind.nextStreak (streakOf s.streaks ev.blockName) ∧
      StandsFor names s' (Function.update m (blockKey ev.blockName)
        (ev.kind.codesAfter (streakOf s'.streaks ev.blockName) (m (blockKey ev.blockName)))) := by
  intro s'
  have hlast := h.observe hcard hlen ev hev
  have hend := hlast.observe hcard hlen (completedEvent (P := P) ev.blockName duration) hev
  have hkeep : streakOf s'.streaks ev.blockName = streakOf (s.observe ev).streaks ev.blockName :=
    streakOf_observe _ (hlen _ hev) .blockCompleted
  refine ⟨hkeep.trans (streakOf_observe _ (hlen _ hev) ev.kind), ?_⟩
  rw [hkeep]
  have hcodes := codesAfter_completed ev.kind (streakOf (s.observe ev).streaks ev.blockName)
    (m (blockKey ev.blockName))
  rw [show (completedEvent (P := P) ev.blockName duration).blockName = ev.blockName from rfl,
    Function.update_idem, Function.update_self,
    show streakOf ((s.observe ev).observe (completedEvent (P := P) ev.blockName duration)).streaks
      ev.blockName = _ from hkeep,
    show (completedEvent (P := P) ev.blockName duration).kind = .blockCompleted from rfl, hcodes] at hend
  exact hend

/-! ### The map along runs -/

omit hcard in
/-- The tables after a run: `ENTERED`, the events of its course, and
`COMPLETED`. -/
theorem tables_of_runsAs {w : World P} (c : FlatCall P) (hc : c.toCall.Within names)
    (hdefault : c.toCall.Default) {box : ℕ} (hbox : c.cfg.blackbox = some box) {course : Course P}
    (hruns : RunsAs c.cfg box { w with env := c.env } course (c.toCall.exec w)) :
    (c.toCall.exec w).2.tables = (enteredEvent (some c.block) ::
      (course.events ++ [completedEvent (some c.block) c.env.elapsed])).foldl Tables.observe w.tables := by
  obtain ⟨evs, duration, hleads⟩ := c.toCall.exec_leads hlen hc hdefault hbox w
  obtain ⟨effs, htrace, hstored⟩ := hleads.trace
  have heffs : effs = course.effects c.cfg c.env box :=
    List.append_cancel_left (htrace.symm.trans hruns.trace)
  rw [heffs, storedEvents_effects] at hstored
  rw [hleads.tables, ← hstored]
  rfl

/-- **A run of a block** leaves the codes of its result and streak, and the
other blocks alone. -/
theorem StandsFor.exec {w : World P} {m : CStr → BlockCodes} (h : StandsFor names w.tables m)
    (c : FlatCall P) (hc : c.toCall.Within names) (hdefault : c.toCall.Default) {box : ℕ}
    (hbox : c.cfg.blackbox = some box) :
    let r := c.toCall.exec w
    ∃ m', StandsFor names r.2.tables m' ∧ (∀ key, key ≠ c.block → m' key = m key) ∧
      (m' c.block).healthCode =
        r.1.result.healthAfterRun (streakOf r.2.streaks (some c.block)) ∧
      (m' c.block).watchdogState = r.1.result.watchdogAfterRun := by
  intro r
  have hkey : blockKey (some c.block) = c.block := blockKey_blockName c.cfg
  have hmem : blockKey (some c.block) ∈ names := by rw [hkey]; exact hc.1
  obtain ⟨refusal, -, hruns⟩ := c.exec_runsAs w hbox
  obtain ⟨result, hends⟩ := courseOf_ends c.cfg c.fn (entryStreak w.streaks (some c.block)) refusal
    c.env.elapsed
  generalize courseOf c.cfg c.fn (entryStreak w.streaks (some c.block)) refusal c.env.elapsed = course
    at hruns hends
  have hresult : r.1.result = result := by rw [hruns.report, hends.report_eq.1]
  obtain ⟨evs, ev, hevents, hkind⟩ := hends.last_kind
  have hblock := hends.blockName
  rw [hevents] at hblock
  have hev : ev.blockName = some c.block := hblock ev (List.mem_append_right _ List.mem_cons_self)
  -- the events before the last one of the course leave the other blocks alone
  let before : Tables := (enteredEvent (some c.block) :: evs).foldl Tables.observe w.tables
  obtain ⟨m', hbefore, hother⟩ : ∃ m', StandsFor names before m' ∧
      ∀ key, key ≠ blockKey (some c.block) → m' key = m key := by
    refine StandsFor.observeAll hcard hlen hmem _ (fun e he => ?_) h
    rcases List.mem_cons.mp he with rfl | he
    · rfl
    · exact hblock e (List.mem_append_left _ he)
  -- the last one decides the codes, and `COMPLETED` confirms them
  obtain ⟨hstreak, hended⟩ := hbefore.ended hcard hlen ev (by rwa [hev]) c.env.elapsed
  have htables : r.2.tables =
      (before.observe ev).observe (completedEvent (P := P) (some c.block) c.env.elapsed) := by
    rw [tables_of_runsAs hlen c hc hdefault hbox hruns, hevents, List.append_assoc, ← List.cons_append,
      List.foldl_append]
    rfl
  rw [hev, ← htables, hkey, hkind] at hended
  rw [hev, ← htables, hkind] at hstreak
  have hok : result = .ok → streakOf r.2.streaks (some c.block) = 0 := by
    rintro rfl
    exact hstreak
  refine ⟨_, hended, fun key hne => ?_, ?_⟩
  · rw [Function.update_of_ne hne]
    exact hother key (by rwa [hkey])
  · rw [Function.update_self, hresult]
    exact codesAfter_verdict result hok _

theorem StandsFor.runAll (cs : List (FlatCall P)) (hcs : ∀ c ∈ cs, c.toCall.Within names)
    (hdefault : ∀ c ∈ cs, c.toCall.Default) {w : World P} {m : CStr → BlockCodes}
    (h : StandsFor names w.tables m) :
    ∃ m', StandsFor names (runAll w (cs.map FlatCall.toCall)).2.tables m' ∧
      ∀ key, (∀ c ∈ cs, c.Runs → c.block ≠ key) → m' key = m key := by
  induction cs generalizing w m with
  | nil => exact ⟨m, h, fun _ _ => rfl⟩
  | cons c cs ih =>
    obtain ⟨m₁, h₁, hfirst⟩ : ∃ m', StandsFor names (c.toCall.exec w).2.tables m' ∧
        ∀ key, (c.Runs → c.block ≠ key) → m' key = m key := by
      cases hbox : c.cfg.blackbox with
      | none =>
        rw [exec_of_null (show c.toCall.cfg.blackbox = none from hbox)]
        exact ⟨m, h, fun _ _ => rfl⟩
      | some box =>
        have hruns : c.Runs := by
          rw [FlatCall.Runs, hbox]
          exact Option.some_ne_none box
        obtain ⟨m', hstands, hother, -⟩ := h.exec hcard hlen c (hcs c List.mem_cons_self)
          (hdefault c List.mem_cons_self) hbox
        exact ⟨m', hstands, fun key hkey => hother key (hkey hruns).symm⟩
    obtain ⟨m', hstands, hrest⟩ := ih (fun c' hc' => hcs c' (List.mem_cons_of_mem _ hc'))
      (fun c' hc' => hdefault c' (List.mem_cons_of_mem _ hc')) h₁
    refine ⟨m', hstands, fun key hkey => ?_⟩
    calc m' key = m₁ key := hrest key fun c' hc' => hkey c' (List.mem_cons_of_mem _ hc')
      _ = m key := hfirst key (hkey c List.mem_cons_self)

end StandsFor

theorem toScript_within (names : Finset CStr) (fn : FlatScript P) : fn.toScript.Within names := by
  induction fn with
  | ret rc => trivial
  | write index value next ih => exact fun rc => ih rc
  | emitBounds index limit next ih => exact ih

/-- **The codes of a block tell of its last run.** After any sequence of runs
that are not nested, over at most eight block names of at most 63 bytes, the
health and watchdog codes of a block are those of the report of its last run
`c` and of the streak at its last event, whatever ran since. -/
theorem codes_of_last_run (names : Finset CStr) (hcard : names.card ≤ 8)
    (hlen : ∀ b ∈ names, b.length ≤ 63) {w : World P} (hw : w.Fresh) (cs : List (FlatCall P))
    (c : FlatCall P) (later : List (FlatCall P)) (hnames : ∀ c' ∈ cs ++ c :: later, c'.block ∈ names)
    (hdefault : ∀ c' ∈ cs ++ c :: later, c'.toCall.Default) (hc : c.Runs)
    (hlast : ∀ c' ∈ later, c'.Runs → c'.block ≠ c.block) :
    let r := c.toCall.exec (runAll w (cs.map FlatCall.toCall)).2
    let t := (runAll w ((cs ++ c :: later).map FlatCall.toCall)).2.adapters
    (healthGetForBlock t (some c.block)).1 =
        r.1.result.healthAfterRun (streakOf r.2.streaks (some c.block)) ∧
      (watchdogStateGetForBlock t (some c.block)).1 = r.1.result.watchdogAfterRun := by
  intro r t
  have hkey : blockKey (some c.block) = c.block := blockKey_blockName c.cfg
  have hmem : blockKey (some c.block) ∈ names := by
    rw [hkey]
    exact hnames c (List.mem_append_right _ List.mem_cons_self)
  have hwithin : ∀ c' ∈ cs ++ c :: later, c'.toCall.Within names := fun c' hc' =>
    ⟨hnames c' hc', toScript_within names c'.fn⟩
  obtain ⟨box, hbox⟩ := Option.ne_none_iff_exists'.mp hc
  have hfresh : StandsFor names w.tables fun _ => .zero := by
    unfold World.tables
    rw [hw.adapters]
    exact ⟨none, simulates_fresh names⟩
  obtain ⟨m, hbefore, -⟩ := hfresh.runAll hcard hlen cs
    (fun c' hc' => hwithin c' (List.mem_append_left _ hc'))
    (fun c' hc' => hdefault c' (List.mem_append_left _ hc'))
  have hin : c ∈ cs ++ c :: later := List.mem_append_right _ List.mem_cons_self
  obtain ⟨m₁, hrun, -, hhealth, hwatchdog⟩ :=
    hbefore.exec hcard hlen c (hwithin c hin) (hdefault c hin) hbox
  have htail : ∀ c' ∈ later, c' ∈ cs ++ c :: later := fun c' hc' =>
    List.mem_append_right _ (List.mem_cons_of_mem _ hc')
  obtain ⟨m', ⟨last, hsim⟩, hkeep⟩ := hrun.runAll hcard hlen later
    (fun c' hc' => hwithin c' (htail c' hc')) (fun c' hc' => hdefault c' (htail c' hc'))
  have hend : (runAll w ((cs ++ c :: later).map FlatCall.toCall)).2 =
      (runAll r.2 (later.map FlatCall.toCall)).2 := by
    unfold Loxguard.runAll
    rw [List.map_append, Runs.run_append]
    rfl
  have hcodes : (queryBlock t (some c.block)).1 = m₁ c.block := by
    have ht : t = (runAll r.2 (later.map FlatCall.toCall)).2.adapters := congrArg World.adapters hend
    calc (queryBlock t (some c.block)).1 = m' (blockKey (some c.block)) := by
          rw [ht]
          exact (hsim.query hcard hmem (hlen _ hmem)).1
      _ = m' c.block := by rw [hkey]
      _ = m₁ c.block := hkeep c.block hlast
  constructor
  · rw [healthGetForBlock_eq, Prod.map_fst, hcodes]
    exact hhealth
  · rw [watchdogStateGetForBlock_eq, Prod.map_fst, hcodes]
    exact hwatchdog

/-- A call of `"a"` that fails. -/
def callA : FlatCall .host := .returning (.lit "a") 0 (-1)

/-- A call of `"b"` that is `OK`. -/
def callB : FlatCall .host := .returning (.lit "b") 0 0

/-- After two failures of `"a"` and a third one, a run of `"b"` leaves `"a"`
degraded. -/
theorem codes_of_last_run_degraded :
    let t := (runAll (World.start .quiet) ([callA, callA, callA, callB].map FlatCall.toCall)).2.adapters
    (healthGetForBlock t (some (.lit "a"))).1 = 4 ∧ (watchdogStateGetForBlock t (some (.lit "a"))).1 = 2 := by
  have hall : ∀ {p : FlatCall .host → Prop}, p callA → p callB →
      ∀ c ∈ [callA, callA] ++ callA :: [callB], p c := by
    intro p h1 h2 c hc
    simp only [List.cons_append, List.nil_append, List.mem_cons, List.not_mem_nil, or_false] at hc
    rcases hc with rfl | rfl | rfl | rfl
    · exact h1
    · exact h1
    · exact h1
    · exact h2
  have h := codes_of_last_run {.lit "a", .lit "b"} (by decide) (by decide) (World.start_fresh .quiet)
    [callA, callA] callA [callB] (hall (by decide) (by decide)) (hall rfl rfl) nofun ?_
  · exact ⟨h.1.trans (by decide +kernel), h.2.trans (by decide +kernel)⟩
  · intro c hc _
    rw [List.mem_singleton.mp hc]
    decide

end Loxguard
