/-
# Quarantine

How the streak decides that a block is refused. The streak counts failure
events, not runs: a refused run adds one, a run that took too long its
incidents and one more, any other failed run its incidents, but at least one
(`failuresIn`), and a run that is `OK` sets it to zero
(`streak_counts_events`). So a block whose
name fits is refused once `max_failures` runs in a row have failed, unless the
32-bit counter has wrapped, and one whose name has more than 63 bytes never is
(`quarantine_triggers_iff`). Each refusal is itself a failure: the streak of a
quarantined block goes up to 2^32 and starts again at zero (`quarantine_latches_iff`).

Key definitions: `failures`, `failuresIn`.
Key theorems: `failed_kinds`, `streak_counts_events`,
`quarantine_triggers_iff`, `quarantine_latches_iff`.
-/
import Loxguard.Calls

namespace Loxguard

open Lib

variable {P : Platform}

/-! ### Counting -/

/-- The number of failures among kinds of events. -/
def failures (kinds : List EventKind) : ℕ := kinds.countP EventKind.isFailure

/-- Without an `OK` the failures add up. -/
theorem countAfter_of_failed (kinds : List EventKind) (n : ℕ) (h : .blockOk ∉ kinds) :
    countAfter n kinds = n + failures kinds := by
  induction kinds generalizing n with
  | nil => rfl
  | cons kind kinds ih =>
    have hkind : kind ≠ .blockOk := fun he => h (he ▸ List.mem_cons_self)
    have hrest := ih (if kind.isFailure then n + 1 else n) fun hmem => h (List.mem_cons_of_mem _ hmem)
    unfold countAfter at hrest ⊢
    rw [List.foldl_cons, if_neg hkind, hrest]
    unfold failures
    rw [List.countP_cons]
    split <;> omega

theorem failuresSinceOk_append (kinds kinds' : List EventKind) (h : .blockOk ∉ kinds') :
    failuresSinceOk (kinds ++ kinds') = failuresSinceOk kinds + failures kinds' := by
  rw [← countAfter_of_failed kinds' _ h]
  unfold failuresSinceOk countAfter
  exact List.foldl_append

theorem streakAfter_of_failed (kinds : List EventKind) (s : BitVec 32) (h : .blockOk ∉ kinds) :
    streakAfter s kinds = s + BitVec.ofNat 32 (failures kinds) := by
  have hs : s = BitVec.ofNat 32 s.toNat := by simp
  calc streakAfter s kinds
      = streakAfter (BitVec.ofNat 32 s.toNat) kinds := by rw [← hs]
    _ = BitVec.ofNat 32 (countAfter s.toNat kinds) := streakAfter_ofNat kinds s.toNat
    _ = BitVec.ofNat 32 s.toNat + BitVec.ofNat 32 (failures kinds) := by
        rw [countAfter_of_failed kinds _ h, BitVec.ofNat_add]
    _ = s + BitVec.ofNat 32 (failures kinds) := by rw [← hs]

/-! ### Failed runs and runs that are `OK` -/

/-- How many failures a failed run of a call is: none without a blackbox, one
if it is refused; otherwise its incidents and one more if it took too long,
and its incidents but at least one if it did not. -/
def FlatCall.failuresIn (c : FlatCall P) (o : Outcome P) : ℕ :=
  let incidents := (c.fn.incidents c.cfg.output).length
  if c.cfg.blackbox = none then 0
  else if ¬ Invoked o.effects then 1
  else if o.report.result = .timeout then incidents + 1
  else max 1 incidents

theorem failures_incidentEvents (fn : FlatScript P) (block : Option CStr) (output : Span P) :
    failures ((fn.incidentEvents block output).map Event.kind) = (fn.incidents output).length := by
  have hall : ∀ kind ∈ (fn.incidentEvents block output).map Event.kind, kind.isFailure = true := by
    intro kind hkind
    obtain ⟨ev, hev, rfl⟩ := List.mem_map.mp hkind
    rw [incidentEvents_kind fn block output ev hev]
    rfl
  rw [failures, List.countP_eq_length.mpr hall, List.length_map, FlatScript.incidentEvents,
    List.length_map]

/-- The failures of a run are those between `ENTERED` and `COMPLETED`. -/
theorem failures_bracketed (kinds : List EventKind) :
    failures (.blockEntered :: (kinds ++ [.blockCompleted])) = failures kinds := by
  simp [failures, EventKind.isFailure]

theorem Course.Ends.failures {cfg : BlockCfg P} {fn : FlatScript P} {duration : BitVec 32}
    {c : Course P} {result : Result} (h : c.Ends cfg fn duration result) (hresult : result ≠ .ok) :
    Loxguard.failures (c.events.map Event.kind) =
      if ¬ c.invoked then 1
      else if result = .timeout then (fn.incidents cfg.output).length + 1
      else max 1 (fn.incidents cfg.output).length := by
  have hincidents := failures_incidentEvents fn (some cfg.blockName) cfg.output
  cases h with
  | refused reason index limit aux => rfl
  | timeout h =>
    rw [List.map_append, Loxguard.failures, List.countP_append]
    exact congrArg (· + 1) hincidents
  | ok h hrc => exact absurd rfl hresult
  | error h hrc hnone =>
    rw [hnone] at hincidents
    rw [← hincidents]
    rfl
  | bounds h hrc hsome =>
    have hpos : 1 ≤ (fn.incidents cfg.output).length := by
      rw [FlatScript.incidentEvents, ne_eq, List.map_eq_nil_iff] at hsome
      exact List.length_pos_iff.mpr hsome
    exact hincidents.trans (max_eq_right hpos).symm

section Kinds

variable (c : FlatCall P) (w : World P)

theorem kinds_of_null (hbox : c.cfg.blackbox = none) : (c.toCall.step w).1.kinds = [] := by
  rw [Outcome.kinds, Call.step, effects_of_null (c := c.toCall) hbox]
  rfl

theorem kinds_eq {box : ℕ} (hbox : c.cfg.blackbox = some box) : ∃ course : Course P,
    course.Ends c.cfg c.fn c.env.elapsed (c.toCall.exec w).1.result ∧
    (Invoked (c.toCall.step w).1.effects ↔ course.invoked) ∧
    (c.toCall.step w).1.kinds =
      .blockEntered :: (course.events.map Event.kind ++ [.blockCompleted]) := by
  obtain ⟨refusal, -, hruns⟩ := c.exec_runsAs w hbox
  obtain ⟨result, hends⟩ := courseOf_ends c.cfg c.fn (entryStreak w.streaks (some c.block)) refusal
    c.env.elapsed
  generalize courseOf c.cfg c.fn (entryStreak w.streaks (some c.block)) refusal c.env.elapsed = course
    at hruns hends
  refine ⟨course, ?_, ?_, ?_⟩
  · rw [hruns.report, show Report.result _ = result from hends.report_eq.1]
    exact hends
  · rw [Call.step, effects_eq hruns.trace]
    exact invoked_effects_iff course c.cfg c.env box
  · rw [Outcome.kinds, Call.step, effects_eq hruns.trace, storedEvents_effects, List.map_cons,
      List.map_append]
    rfl

/-- **A failed run** stores no `OK`, and as many failures as its incidents and
its verdict. -/
theorem failed_kinds (h : (c.toCall.exec w).1.result ≠ .ok) :
    .blockOk ∉ (c.toCall.step w).1.kinds ∧
      failures (c.toCall.step w).1.kinds = c.failuresIn (c.toCall.step w).1 := by
  cases hbox : c.cfg.blackbox with
  | none =>
    rw [kinds_of_null c w hbox, FlatCall.failuresIn, if_pos hbox]
    exact ⟨List.not_mem_nil, rfl⟩
  | some box =>
    obtain ⟨course, hends, hinvoked, hkinds⟩ := kinds_eq c w hbox
    constructor
    · have hok : ¬ ∃ e ∈ course.events, e.kind = .blockOk := fun he => h (hends.ok_iff.mpr he)
      rw [hkinds]
      simpa using hok
    · have hnull : c.cfg.blackbox ≠ none := hbox ▸ Option.some_ne_none box
      rw [hkinds, failures_bracketed, hends.failures h]
      simp only [FlatCall.failuresIn, if_neg hnull, hinvoked]
      rfl

theorem failuresIn_pos (hbox : c.cfg.blackbox ≠ none) (o : Outcome P) : 1 ≤ c.failuresIn o := by
  unfold FlatCall.failuresIn
  rw [if_neg hbox]
  split
  · exact le_refl 1
  split
  · exact Nat.le_add_left ..
  · exact le_max_left ..

/-- **A run that is `OK`** sets the streak to zero. -/
theorem ok_kinds (h : (c.toCall.exec w).1.result = .ok) (s : BitVec 32) :
    streakAfter s (c.toCall.step w).1.kinds = 0 := by
  cases hbox : c.cfg.blackbox with
  | none =>
    rw [exec_of_null (c := c.toCall) hbox w] at h
    cases h
  | some box =>
    obtain ⟨course, hends, -, hkinds⟩ := kinds_eq c w hbox
    rw [h] at hends
    cases hends with
    | ok _ _ =>
      rw [hkinds]
      simp [streakAfter, EventKind.nextStreak, EventKind.isFailure]

end Kinds

/-! ### One failed run -/

/-- **The streak counts failure events.** In a process that only called one
block, a run of the block that is `OK` sets its streak to zero, and a failed
one raises it by the number of failures it stored: one if it was refused, its
incidents and one more after a timeout, otherwise its incidents but at least
one. The block is refused only if `max_failures` failures were stored since
the last `OK`. -/
theorem streak_counts_events {w : World P} (hw : w.Fresh) {block : CStr} (hname : block.length ≤ 63)
    (cs : List (FlatCall P)) (hcs : ∀ c ∈ cs, c.block = block) (c : FlatCall P) (hc : c.block = block) :
    let before := runAll w (cs.map FlatCall.toCall)
    let streak := streakOf before.2.streaks (some block)
    let o := c.toCall.step before.2
    let streak' := streakOf o.2.streaks (some block)
    (o.1.report.result = .ok → streak' = 0) ∧
    (o.1.report.result ≠ .ok → streak' = streak + BitVec.ofNat 32 (failures o.1.kinds) ∧
      failures o.1.kinds = c.failuresIn o.1) ∧
    (Quarantined o.1.effects → c.cfg.maxFailures.toNat ≤ failuresSinceOk (storedKinds before.1)) := by
  intro before streak o streak'
  obtain rfl := hc
  have hstreak : streak' = streakAfter streak o.1.kinds :=
    c.streakOf_exec before.2 hname
  refine ⟨fun h => ?_, fun h => ?_, fun h => ?_⟩
  · rw [hstreak]
    exact ok_kinds c before.2 h streak
  · obtain ⟨hok, hfailures⟩ := failed_kinds c before.2 h
    refine ⟨?_, hfailures⟩
    rw [hstreak, streakAfter_of_failed _ _ hok]
  · obtain ⟨-, hle⟩ := c.quarantinedAt_of_quarantined before.2 h
    have hentry : entryStreak before.2.streaks (some c.block) = streak := entryStreak_eq hname _
    rw [hentry, show streak = _ from streakOf_runAll_fresh hname hw cs hcs, BitVec.le_def,
      BitVec.toNat_ofNat] at hle
    exact hle.trans (Nat.mod_le _ _)

/-- A call of a block with a name of one byte that fails and may fail once. -/
def failingCall : FlatCall .host := .returning (.lit "b") 1 (-1)

theorem streak_counts_events_failingCall :
    let before := runAll (World.start .quiet) [failingCall.toCall]
    let streak := streakOf before.2.streaks (some (.lit "b"))
    let o := failingCall.toCall.step before.2
    let streak' := streakOf o.2.streaks (some (.lit "b"))
    (o.1.report.result = .ok → streak' = 0) ∧
    (o.1.report.result ≠ .ok → streak' = streak + BitVec.ofNat 32 (failures o.1.kinds) ∧
      failures o.1.kinds = failingCall.failuresIn o.1) ∧
    (Quarantined o.1.effects → 1 ≤ failuresSinceOk (storedKinds before.1)) :=
  streak_counts_events (World.start_fresh .quiet) (by decide) [failingCall] (by decide) failingCall rfl

/-- One failed run with two incidents is two failures, and is enough for a
limit of two. -/
theorem streak_twoIncidents :
    let c : FlatCall .host :=
      ⟨.plain (.lit "b") 2, .emitBounds 0 0 (.emitBounds 0 0 (.ret (-1))), .quiet⟩
    let before := runAll (World.start .quiet) [c.toCall]
    before.1.map (·.report.result) = [.bounds] ∧
      streakOf before.2.streaks (some c.block) = 2 ∧
      Quarantined (c.toCall.step before.2).1.effects := by
  decide +kernel

/-! ### Many failed runs -/

theorem storedKinds_append (os os' : List (Outcome P)) :
    storedKinds (os ++ os') = storedKinds os ++ storedKinds os' :=
  List.flatMap_append

/-- **Failed runs** in a row store no `OK`, and at least as many failures as
there are runs. -/
theorem failed_storedKinds : ∀ (cs : List (FlatCall P)) (w : World P),
    (∀ c ∈ cs, c.cfg.blackbox ≠ none) →
    (∀ o ∈ (runAll w (cs.map FlatCall.toCall)).1, o.report.result ≠ .ok) →
    .blockOk ∉ storedKinds (runAll w (cs.map FlatCall.toCall)).1 ∧
      cs.length ≤ failures (storedKinds (runAll w (cs.map FlatCall.toCall)).1)
  | [], _, _, _ => ⟨List.not_mem_nil, le_refl 0⟩
  | c :: cs, w, hbox, h => by
    obtain ⟨hok, hfailures⟩ := failed_kinds c w (h _ List.mem_cons_self)
    obtain ⟨hoks, hall⟩ := failed_storedKinds cs (c.toCall.step w).2
      (fun c hc => hbox c (List.mem_cons_of_mem _ hc)) fun o ho => h o (List.mem_cons_of_mem _ ho)
    have hkinds : storedKinds (runAll w ((c :: cs).map FlatCall.toCall)).1 = (c.toCall.step w).1.kinds ++
        storedKinds (runAll (c.toCall.step w).2 (cs.map FlatCall.toCall)).1 := rfl
    have hone : 1 ≤ failures (c.toCall.step w).1.kinds :=
      hfailures ▸ failuresIn_pos c (hbox c List.mem_cons_self) _
    rw [hkinds, failures, List.countP_append]
    refine ⟨fun hmem => (List.mem_append.mp hmem).elim hok hoks, ?_⟩
    simp only [List.length_cons, failures] at hall hone ⊢
    omega

/-- **Quarantine triggers** when the name fits and the counter has not
wrapped. A fresh process only calls one block; its last calls, at least
`max_failures` of them, failed. Then at least `max_failures` failures are on
record since the last `OK`, and the next call is refused exactly if the name
has at most 63 bytes and the record reduced modulo 2^32 is no smaller than
`max_failures`. -/
theorem quarantine_triggers_iff {w : World P} (hw : w.Fresh) (earlier failed : List (FlatCall P))
    (next : FlatCall P) (hblock : ∀ c ∈ earlier ++ failed, c.block = next.block)
    (hbox : ∀ c ∈ next :: failed, c.cfg.blackbox ≠ none) (hmax : 0 < next.cfg.maxFailures)
    (hcount : next.cfg.maxFailures.toNat ≤ failed.length)
    (hfailed : ∀ o ∈ (runAll (runAll w (earlier.map FlatCall.toCall)).2 (failed.map FlatCall.toCall)).1,
      o.report.result ≠ .ok) :
    let before := runAll w ((earlier ++ failed).map FlatCall.toCall)
    let recorded := failuresSinceOk (storedKinds before.1)
    let o := next.toCall.step before.2
    next.cfg.maxFailures.toNat ≤ recorded ∧
      ((¬ Invoked o.1.effects ∧ Quarantined o.1.effects) ↔
        next.block.length ≤ 63 ∧ (recorded < 2 ^ 32 ∨ next.cfg.maxFailures.toNat ≤ recorded % 2 ^ 32)) := by
  intro before recorded o
  have hbefore : storedKinds before.1 = storedKinds (runAll w (earlier.map FlatCall.toCall)).1 ++
      storedKinds (runAll (runAll w (earlier.map FlatCall.toCall)).2 (failed.map FlatCall.toCall)).1 := by
    rw [← storedKinds_append, show before = runAll w _ from rfl, List.map_append, runAll,
      Runs.run_append]
    rfl
  obtain ⟨hok, hall⟩ := failed_storedKinds failed _
    (fun c hc => hbox c (List.mem_cons_of_mem _ hc)) hfailed
  have hrecorded : next.cfg.maxFailures.toNat ≤ recorded := by
    rw [show recorded = failuresSinceOk (storedKinds before.1) from rfl, hbefore,
      failuresSinceOk_append _ _ hok]
    omega
  obtain ⟨box, hnext⟩ := Option.ne_none_iff_exists'.mp (hbox next List.mem_cons_self)
  refine ⟨hrecorded, (refused_iff (c := next.toCall) hnext before.2).trans ?_⟩
  by_cases hname : next.block.length ≤ 63
  · have hentry : entryStreak before.2.streaks (some next.block) = BitVec.ofNat 32 recorded :=
      (entryStreak_eq hname _).trans (streakOf_runAll_fresh hname hw _ hblock)
    have hle : next.cfg.maxFailures ≤ BitVec.ofNat 32 recorded ↔
        next.cfg.maxFailures.toNat ≤ recorded % 2 ^ 32 := by
      rw [BitVec.le_def, BitVec.toNat_ofNat]
    show next.cfg.QuarantinedAt (entryStreak before.2.streaks (some next.block)) ↔ _
    rw [hentry, BlockCfg.QuarantinedAt, hle]
    constructor
    · exact fun h => ⟨hname, Or.inr h.2⟩
    · rintro ⟨-, hlt | hmod⟩
      · exact ⟨hmax, by rwa [Nat.mod_eq_of_lt hlt]⟩
      · exact ⟨hmax, hmod⟩
  · -- a name that does not fit finds streak 0 at every lookup
    have hentry : entryStreak before.2.streaks (some next.block) = 0 := by
      refine (((firstOnly_runAll hw _).observe _ _).streakOf_of_long ?_)
      rw [FlatCall.block, blockKey_blockName]
      exact not_le.mp hname
    show next.cfg.QuarantinedAt (entryStreak before.2.streaks (some next.block)) ↔ _
    rw [hentry]
    refine iff_of_false (fun h => ?_) fun h => hname h.1
    have hzero := h.2
    rw [BitVec.le_def] at hzero
    rw [BitVec.lt_def] at hmax
    exact absurd hmax (not_lt.mpr hzero)

theorem quarantine_triggers_failingCall :
    let before := runAll (World.start .quiet) [failingCall.toCall]
    let recorded := failuresSinceOk (storedKinds before.1)
    let o := failingCall.toCall.step before.2
    1 ≤ recorded ∧
      ((¬ Invoked o.1.effects ∧ Quarantined o.1.effects) ↔
        failingCall.block.length ≤ 63 ∧ (recorded < 2 ^ 32 ∨ 1 ≤ recorded % 2 ^ 32)) :=
  quarantine_triggers_iff (World.start_fresh .quiet) [] [failingCall] failingCall (by decide) (by decide)
    (by decide) (by decide) (by decide +kernel)

/-- A block whose name has 64 bytes is not refused after a failed run. -/
theorem quarantine_longName :
    let c : FlatCall .host :=
      .returning (.lit "bbbbbbbbbbbbbbbbbbbbbbbbbbbbbbbbbbbbbbbbbbbbbbbbbbbbbbbbbbbbbbbb") 1 (-1)
    let before := runAll (World.start .quiet) [c.toCall]
    let o := c.toCall.step before.2
    c.block.length = 64 ∧ before.1.map (·.report.result) = [.error] ∧
      Invoked o.1.effects ∧ ¬ Quarantined o.1.effects := by
  decide +kernel

/-! ### A quarantined block -/

theorem streakOf_refused {c : Call P} (hname : c.block.length ≤ 63) (hbox : c.cfg.blackbox ≠ none)
    {w : World P} (hq : c.cfg.QuarantinedAt (streakOf w.streaks (some c.block))) :
    streakOf (c.step w).2.streaks (some c.block) = streakOf w.streaks (some c.block) + 1 := by
  obtain ⟨box, hbox⟩ := Option.ne_none_iff_exists'.mp hbox
  have hentry : entryStreak w.streaks (some c.block) = streakOf w.streaks (some c.block) :=
    entryStreak_eq hname _
  exact (exec_quarantined hbox (hentry ▸ hq)).streakOf_eq hname

/-- **Quarantine latches** until the counter wraps: a block at or over its
limit is refused for as many calls as its streak can still be raised. -/
theorem quarantine_latches_iff {block : CStr} (hname : block.length ≤ 63) {max : BitVec 32}
    (hmax : 0 < max) : ∀ (cs : List (Call P)) (w : World P),
    (∀ c ∈ cs, c.block = block ∧ c.cfg.maxFailures = max ∧ c.cfg.blackbox ≠ none) →
    max ≤ streakOf w.streaks (some block) →
    ((∀ o ∈ (runAll w cs).1, ¬ Invoked o.effects ∧ Quarantined o.effects) ↔
      cs.length ≤ 2 ^ 32 - (streakOf w.streaks (some block)).toNat)
  | [], _, _, _ => iff_of_true (fun _ ho => absurd ho List.not_mem_nil) (Nat.zero_le _)
  | c :: cs, w, hcs, hstreak => by
    obtain ⟨rfl, rfl, hbox⟩ := hcs c List.mem_cons_self
    obtain ⟨box, hbox'⟩ := Option.ne_none_iff_exists'.mp hbox
    have hcs' := fun d hd => hcs d (List.mem_cons_of_mem _ hd)
    -- the first call is refused and raises the streak
    have hentry : entryStreak w.streaks (some c.block) = streakOf w.streaks (some c.block) :=
      entryStreak_eq hname _
    have hfirst := (refused_iff hbox' w).mpr (hentry ▸ ⟨hmax, hstreak⟩)
    have hnext := streakOf_refused hname hbox ⟨hmax, hstreak⟩
    have hsplit : (∀ o ∈ (runAll w (c :: cs)).1, ¬ Invoked o.effects ∧ Quarantined o.effects) ↔
        ∀ o ∈ (runAll (c.step w).2 cs).1, ¬ Invoked o.effects ∧ Quarantined o.effects :=
      ⟨fun h o ho => h o (List.mem_cons_of_mem _ ho),
        fun h o ho => (List.mem_cons.mp ho).elim (fun he => he ▸ hfirst) (h o)⟩
    have hlt := (streakOf w.streaks (some c.block)).isLt
    rw [hsplit, List.length_cons]
    have hsucc : (streakOf (c.step w).2.streaks (some c.block)).toNat =
        ((streakOf w.streaks (some c.block)).toNat + 1) % 2 ^ 32 := by
      rw [hnext, BitVec.toNat_add]
      rfl
    by_cases hwrap : (streakOf w.streaks (some c.block)).toNat + 1 = 2 ^ 32
    · cases cs with
      | nil =>
        apply iff_of_true (fun _ ho => absurd ho List.not_mem_nil)
        rw [List.length_nil]
        omega
      | cons d ds =>
        -- the second call finds streak zero
        obtain ⟨hblock, hlimit, hdbox⟩ := hcs' d List.mem_cons_self
        obtain ⟨dbox, hdbox⟩ := Option.ne_none_iff_exists'.mp hdbox
        refine iff_of_false (fun h => ?_) (by rw [List.length_cons]; omega)
        have hsecond := (refused_iff hdbox (c.step w).2).mp (h _ List.mem_cons_self)
        rw [hblock, show entryStreak _ (some c.block) = _ from entryStreak_eq hname _] at hsecond
        have hpos := BitVec.lt_def.mp hsecond.1
        have hle : d.cfg.maxFailures.toNat ≤ (streakOf (c.step w).2.streaks (some c.block)).toNat :=
          BitVec.le_def.mp hsecond.2
        rw [hsucc, hwrap, Nat.mod_self] at hle
        exact absurd hpos (not_lt.mpr hle)
    · have htoNat : (streakOf (c.step w).2.streaks (some c.block)).toNat =
          (streakOf w.streaks (some c.block)).toNat + 1 := by
        rw [hsucc, Nat.mod_eq_of_lt (by omega)]
      have hstreak' : c.cfg.maxFailures ≤ streakOf (c.step w).2.streaks (some c.block) := by
        rw [BitVec.le_def] at hstreak ⊢
        omega
      rw [quarantine_latches_iff hname hmax cs (c.step w).2 hcs' hstreak', htoNat]
      omega

theorem quarantine_latches_failingCall :
    let w := (failingCall.toCall.step (World.start .quiet)).2
    (∀ o ∈ (runAll w [failingCall.toCall, failingCall.toCall]).1,
      ¬ Invoked o.effects ∧ Quarantined o.effects) ↔
        2 ≤ 2 ^ 32 - (streakOf w.streaks (some failingCall.block)).toNat :=
  quarantine_latches_iff (by decide) (show (0 : BitVec 32) < 1 by decide)
    [failingCall.toCall, failingCall.toCall] (failingCall.toCall.step (World.start .quiet)).2
    (by decide) (by decide +kernel)

/-- A function with `n` incidents that fails. -/
def FlatScript.burst : ℕ → FlatScript P
  | 0 => .ret (-1)
  | n + 1 => .emitBounds 0 0 (burst n)

theorem incidents_burst (output : Span P) : ∀ n : ℕ,
    (FlatScript.burst n).incidents output = List.replicate n (0, 0)
  | 0 => rfl
  | n + 1 => congrArg ((0, 0) :: ·) (incidents_burst output n)

theorem returned_burst (output : Span P) : ∀ n : ℕ,
    (FlatScript.burst (P := P) n).returned output = -1
  | 0 => rfl
  | n + 1 => returned_burst output n

theorem quiet_not_breakerOpen : ¬ Env.quiet.BreakerOpen := by
  rintro ⟨answers, h, -⟩
  cases h

/-- A call of a block whose function has `n` incidents. -/
def burstCall (n : ℕ) : FlatCall .host := ⟨.plain (.lit "b") 1, .burst n, .quiet⟩

/-- One run takes the streak of a fresh process anywhere. -/
theorem streakOf_burstCall {n : ℕ} (hn : n ≠ 0) :
    streakOf ((burstCall n).toCall.step (World.start .quiet)).2.streaks (some (burstCall n).block) =
      BitVec.ofNat 32 n := by
  let cfg : BlockCfg .host := .plain (.lit "b") 1
  have hname : cfg.blockName.length ≤ 63 := by decide
  have hfresh : streakOf (World.start (P := .host) .quiet).streaks (some cfg.blockName) = 0 :=
    StreakTable.fresh_firstOnly.streakOf_of_not_matches rfl
  have hq : ¬ cfg.QuarantinedAt (streakOf (World.start (P := .host) .quiet).streaks (some cfg.blockName)) := by
    rw [hfresh]
    decide
  have hincidents : (FlatScript.burst n).incidentEvents (some cfg.blockName) cfg.output =
      List.replicate n (boundsEvent (some cfg.blockName) 0 0) := by
    rw [FlatScript.incidentEvents, incidents_burst, List.map_replicate]
  have hkinds : (calledEvents cfg (.burst n) Env.quiet.elapsed).map Event.kind =
      List.replicate n .blockWriteOutOfBounds := by
    have hto : ¬ cfg.TimedOut Env.quiet.elapsed := fun h => absurd h.1 (by decide)
    rw [calledEvents, verdictEvents, if_neg hto, returned_burst, if_neg (by decide), hincidents,
      lastKindOf, if_neg (by simpa using hn), List.map_append, List.map_replicate]
    exact List.append_nil _
  calc streakOf ((burstCall n).toCall.step (World.start .quiet)).2.streaks (some (burstCall n).block)
      = streakAfter (streakOf (World.start (P := .host) .quiet).streaks (some cfg.blockName))
          ((calledEvents cfg (.burst n) Env.quiet.elapsed).map Event.kind) :=
        (burstCall n).streakOf_called (World.start .quiet) rfl hname hq quiet_not_breakerOpen
    _ = streakAfter 0 (List.replicate n .blockWriteOutOfBounds) := by rw [hfresh, hkinds]
    _ = BitVec.ofNat 32 n := by
        rw [streakAfter_of_failed _ _ (by simp)]
        simp [failures, List.countP_replicate, EventKind.isFailure]

theorem block_burstCall (n : ℕ) : failingCall.block = (burstCall n).block := rfl

/-- At streak 2^32 - 1 the next call is refused and the one after it is not. -/
theorem invoked_of_wrap {w : World .host}
    (h : streakOf w.streaks (some failingCall.block) = BitVec.ofNat 32 (2 ^ 32 - 1)) :
    ∃ o ∈ (runAll w [failingCall.toCall, failingCall.toCall]).1, Invoked o.effects := by
  have hname : failingCall.toCall.block.length ≤ 63 := by decide
  have hq : failingCall.toCall.cfg.QuarantinedAt (streakOf w.streaks (some failingCall.toCall.block)) := by
    rw [show streakOf w.streaks (some failingCall.toCall.block) = _ from h]
    decide
  -- the refusal takes the streak to zero
  have hzero : streakOf (failingCall.toCall.step w).2.streaks (some failingCall.toCall.block) = 0 := by
    calc streakOf (failingCall.toCall.step w).2.streaks (some failingCall.toCall.block)
        = streakOf w.streaks (some failingCall.toCall.block) + 1 := streakOf_refused hname (by decide) hq
      _ = BitVec.ofNat 32 (2 ^ 32 - 1) + 1 := congrArg (· + 1) h
      _ = 0 := rfl
  have hentry : entryStreak (failingCall.toCall.step w).2.streaks (some failingCall.toCall.block) = 0 :=
    (entryStreak_eq hname _).trans hzero
  refine ⟨_, List.mem_cons_of_mem _ List.mem_cons_self, ?_⟩
  apply invoked_of_allowed (show _ = some 1 from rfl) _ quiet_not_breakerOpen
  rw [hentry]
  decide

/-- **A quarantined block is called again**: its streak is at 2^32 - 1 after one
run, and of two further calls not both are refused. -/
theorem quarantine_wraps :
    1 ≤ streakOf ((burstCall (2 ^ 32 - 1)).toCall.step (World.start .quiet)).2.streaks
        (some failingCall.block) ∧
      ∃ o ∈ (runAll ((burstCall (2 ^ 32 - 1)).toCall.step (World.start .quiet)).2
        [failingCall.toCall, failingCall.toCall]).1, Invoked o.effects := by
  have hstreak : streakOf ((burstCall (2 ^ 32 - 1)).toCall.step (World.start .quiet)).2.streaks
      (some failingCall.block) = BitVec.ofNat 32 (2 ^ 32 - 1) := by
    rw [block_burstCall (2 ^ 32 - 1)]
    exact streakOf_burstCall (by decide)
  refine ⟨?_, invoked_of_wrap hstreak⟩
  rw [hstreak]
  decide

end Loxguard
