/-
# What nested runs add up to

The streaks and the recovery callback, whatever runs are nested in a call.

A process whose block names fit a slot keeps one streak at a time: that of the
block of the last event, and it counts the failures of that block since its
last `OK` or since another block's event (`tallied_runAll`). So a call is refused
for too many failures exactly when that count, taken modulo 2^32, has reached
its limit (`refused_runAll_iff`), and a nested run of another block sets the
count of the outer one back to 0.

A run ends with its `COMPLETED`, directly after its `OK` if it is `OK`; if it is
not, an installed recovery callback is called directly after the `COMPLETED`,
with a failure of the run's block, and nowhere else (`Ended`). So the callback
is called once for every run that is not `OK` (`recovery_exec`).

Key definitions: `ownEvents`, `Tallied`, `Counts`, `Ended`, `storedOf`,
`Answered`.
Key theorems: `Step.counts`, `tallied_runAll`, `refused_runAll_iff`,
`Ended.answered`, `Ended.count`, `Phase.ended`, `recovery_exec`.
-/
import Loxguard.Calls
import Loxguard.Steps

namespace Loxguard

open Lib

variable {P : Platform}

/-! ### The streaks -/

/-- The events since the last one of another block. -/
def ownEvents (block : Option CStr) (evs : List (ExtEvent P)) : List (ExtEvent P) :=
  evs.rtakeWhile fun ev => blockKey ev.blockName = blockKey block

/-- The streak of a block by the events stored. -/
def tally (block : Option CStr) (evs : List (ExtEvent P)) : BitVec 32 :=
  BitVec.ofNat 32 (failuresSinceOk ((ownEvents block evs).map Event.kind))

/-- The table holds the streaks by the events stored. -/
structure Tallied (t : StreakTable) (evs : List (ExtEvent P)) : Prop where
  firstOnly : t.FirstOnly
  streakOf : ∀ block, (blockKey block).length ≤ 63 → streakOf t block = tally block evs

theorem StreakTable.fresh_tallied : Tallied StreakTable.fresh ([] : List (ExtEvent P)) where
  firstOnly := fresh_firstOnly
  streakOf _ _ := fresh_firstOnly.streakOf_of_not_matches rfl

theorem tally_concat_own {block : Option CStr} {ev : ExtEvent P}
    (h : blockKey ev.blockName = blockKey block) (evs : List (ExtEvent P)) :
    tally block (evs ++ [ev]) = ev.kind.nextStreak (tally block evs) := by
  have hown : ownEvents block (evs ++ [ev]) = ownEvents block evs ++ [ev] :=
    List.rtakeWhile_concat_pos _ _ _ (decide_eq_true h)
  calc tally block (evs ++ [ev])
      = BitVec.ofNat 32 (failuresSinceOk ((ownEvents block evs).map Event.kind ++ [ev.kind])) := by
        rw [tally, hown, List.map_append]
        rfl
    _ = streakAfter (BitVec.ofNat 32 0) ((ownEvents block evs).map Event.kind ++ [ev.kind]) :=
        (streakAfter_ofNat _ 0).symm
    _ = ev.kind.nextStreak (streakAfter (BitVec.ofNat 32 0) ((ownEvents block evs).map Event.kind)) :=
        List.foldl_append ..
    _ = ev.kind.nextStreak (tally block evs) := by
        rw [streakAfter_ofNat]
        rfl

/-- An event of another block starts over. -/
theorem tally_concat_other {block : Option CStr} {ev : ExtEvent P}
    (h : blockKey ev.blockName ≠ blockKey block) (evs : List (ExtEvent P)) :
    tally block (evs ++ [ev]) = 0 := by
  have hown : ownEvents block (evs ++ [ev]) = [] :=
    List.rtakeWhile_concat_neg _ _ _ (by simpa using h)
  rw [tally, hown]
  rfl

/-- **An event of a block whose name fits** is counted. -/
theorem Tallied.observe {t : StreakTable} {evs : List (ExtEvent P)} (h : Tallied t evs)
    (ev : ExtEvent P) (hlen : (blockKey ev.blockName).length ≤ 63) :
    Tallied (Loxguard.observe ev.blockName t ev.kind) (evs ++ [ev]) where
  firstOnly := h.firstOnly.observe _ _
  streakOf block hblock := by
    by_cases hown : blockKey ev.blockName = blockKey block
    · have hsame : ∀ t, Loxguard.streakOf t block = Loxguard.streakOf t ev.blockName := by
        intro t
        rw [Loxguard.streakOf, Loxguard.streakOf, failureStreakForBlock_eq, failureStreakForBlock_eq, hown]
      rw [hsame, streakOf_observe t hlen, tally_concat_own hown, ← hsame, h.streakOf block hblock]
    · rw [tally_concat_other hown]
      exact h.firstOnly.streakOf_observe_ne hlen hown ev.kind

/-- The blocks whose names fit a slot. -/
def Fitting : Set (BlockCfg P) := {cfg | cfg.blockName.length ≤ 63}

/-- The events stored are counted. -/
def Counts (w : World P) (effs : List (Effect P)) (w' : World P) : Prop :=
  ∀ evs, Tallied w.streaks evs → Tallied w'.streaks (evs ++ storedEvents effs)

theorem composes_counts : Traces.Composes (Counts (P := P)) where
  refl w evs h := by rwa [show storedEvents ([] : List (Effect P)) = [] from rfl, List.append_nil]
  trans h h' evs hw := by
    rw [storedEvents_append, ← List.append_assoc]
    exact h' _ (h evs hw)

/-- **Every step counts what it stores.** -/
theorem Step.counts {past effs : List (Effect P)} {w w' : World P} (h : Step past Fitting w effs w') :
    Counts w effs w' := by
  intro evs hw
  have hquiet : ∀ {effs : List (Effect P)}, storedEvents effs = [] →
      Tallied w.streaks (evs ++ storedEvents effs) := fun heffs => by
    rwa [heffs, List.append_nil]
  have hfits : ∀ {cfg : BlockCfg P}, cfg ∈ Fitting → (blockKey (some cfg.blockName)).length ≤ 63 := by
    intro cfg hcfg
    rwa [blockKey_blockName]
  cases h with
  | enter hcfg hbox w =>
    rename_i cfg box
    have hentered : Tallied (Loxguard.observe (some cfg.blockName) w.streaks .blockEntered)
        (evs ++ [enteredEvent (some cfg.blockName)]) :=
      hw.observe (enteredEvent (some cfg.blockName)) (hfits hcfg)
    -- looking the streak up once more changes nothing
    have hlookup : (w.entered cfg box).streaks = Loxguard.observe (some cfg.blockName) w.streaks .blockEntered :=
      congrArg Prod.fst (lookup_observe w.streaks (hfits hcfg) .blockEntered)
    rw [hlookup]
    exact hentered
  | emit hcfg hbox w hev =>
    have hlen := hfits hcfg
    rw [← hev.blockName] at hlen
    exact hw.observe _ hlen
  | tick => exact hquiet rfl
  | ask => exact hquiet rfl
  | invoke => exact hquiet rfl
  | recovery => exact hquiet rfl
  | write => exact hquiet rfl

theorem counts_runAll (cs : List (Call P)) (hcs : ∀ c ∈ cs, c.Calls Fitting) (w : World P) :
    ∃ effs, (runAll w cs).2.trace = w.trace ++ effs ∧ Counts w effs (runAll w cs).2 := by
  let Q : World P → List (Effect P) → World P → Prop := fun w effs w' =>
    w'.trace = w.trace ++ effs ∧ Counts w effs w'
  have hQ : Traces.Composes Q :=
    ⟨fun w => ⟨composes_trace.refl w, composes_counts.refl w⟩, fun h h' =>
      ⟨composes_trace.trans h.1 h'.1, composes_counts.trans h.2 h'.2⟩⟩
  have henv : ∀ (w : World P) env, Q w [] { w with env } := fun w env =>
    ⟨composes_trace.refl w, composes_counts.refl w⟩
  exact runAll_steps hQ henv cs hcs w fun h => ⟨h.trace, h.counts⟩

theorem tallied_runAll {w : World P} (hw : w.Fresh) (cs : List (Call P))
    (hcs : ∀ c ∈ cs, c.Calls Fitting) :
    Tallied (runAll w cs).2.streaks (storedEvents (runAll w cs).2.trace) := by
  obtain ⟨effs, htrace, hcounts⟩ := counts_runAll cs hcs w
  rw [hw.trace, List.nil_append] at htrace
  rw [htrace]
  refine hcounts [] ?_
  rw [hw.streaks]
  exact StreakTable.fresh_tallied

/-- A call whose block's streak is counted is refused by the count. -/
theorem Tallied.refused_iff {w : World P} {evs : List (ExtEvent P)} (h : Tallied w.streaks evs)
    {c : Call P} (hc : c.block.length ≤ 63) (hbox : c.cfg.blackbox ≠ none) :
    (¬ Invoked (c.effects w) ∧ Quarantined (c.effects w)) ↔
      0 < c.cfg.maxFailures ∧ c.cfg.maxFailures ≤ BitVec.ofNat 32 (failuresSinceOk
        ((ownEvents (some c.block) evs).map Event.kind)) := by
  obtain ⟨box, hbox⟩ := Option.ne_none_iff_exists'.mp hbox
  have hlen : (blockKey (some c.cfg.blockName)).length ≤ 63 := by rwa [blockKey_blockName]
  have hstreak : entryStreak w.streaks (some c.block) = tally (some c.block) evs :=
    (entryStreak_eq hc _).trans (h.streakOf (some c.block) hlen)
  rw [Loxguard.refused_iff hbox, hstreak]
  rfl

/-- **A call is refused for too many failures** exactly when the failures of
its block since the last `OK`, counted in the trace since the last event of
another block, have reached its limit, whatever runs were nested before. -/
theorem refused_runAll_iff {w : World P} (hw : w.Fresh) (cs : List (Call P))
    (hcs : ∀ c ∈ cs, c.Calls Fitting) (c : Call P) (hc : c.block.length ≤ 63)
    (hbox : c.cfg.blackbox ≠ none) :
    (¬ Invoked (c.effects (runAll w cs).2) ∧ Quarantined (c.effects (runAll w cs).2)) ↔
      0 < c.cfg.maxFailures ∧ c.cfg.maxFailures ≤ BitVec.ofNat 32 (failuresSinceOk
        ((ownEvents (some c.block) (storedEvents (runAll w cs).2.trace)).map Event.kind)) :=
  (tallied_runAll hw cs hcs).refused_iff hc hbox

/-! ### The recovery callback -/

/-- The effect does not belong to the end of a run: it is no `OK`, no
`COMPLETED` and no call of the callback. -/
def Effect.Inner : Effect P → Prop
  | .event _ ev _ => ev.kind ≠ .blockOk ∧ ev.kind ≠ .blockCompleted
  | .invoke _ => True
  | .recovery _ _ => False

/-- **How runs end**, effect by effect. A run that is `OK` stores its `OK` and
directly after it its `COMPLETED`. Any other run stores its `COMPLETED` and
directly after it calls the callback, if there is one, with a failure of its
block. The rest is no part of an end. -/
inductive Ended (recoveryCb : Bool) : List (Effect P) → Prop
  | nil : Ended recoveryCb []
  | inner {eff : Effect P} {effs : List (Effect P)} (h : eff.Inner) (hrest : Ended recoveryCb effs) :
      Ended recoveryCb (eff :: effs)
  | ok {box : ℕ} {block : Option CStr} {duration : BitVec 32} {rc rc' : ℤ} {effs : List (Effect P)}
      (hrest : Ended recoveryCb effs) :
      Ended recoveryCb (.event box ⟨.blockOk, block, some (.lit "OK"), 0, 0, 0⟩ rc ::
        .event box (completedEvent block duration) rc' :: effs)
  | failed {box : ℕ} {ev : ExtEvent P} {duration : BitVec 32} {rc : ℤ} {effs : List (Effect P)}
      (hkind : ev.kind.isFailure = true) (hrest : Ended recoveryCb effs) :
      Ended recoveryCb (.event box (completedEvent ev.blockName duration) rc ::
        ((if recoveryCb then [.recovery ev .dropInput] else []) ++ effs))

theorem Ended.append {recoveryCb : Bool} {effs effs' : List (Effect P)} (h : Ended recoveryCb effs)
    (h' : Ended recoveryCb effs') : Ended recoveryCb (effs ++ effs') := by
  induction h with
  | nil => exact h'
  | inner heff _ ih => exact .inner heff ih
  | ok _ ih => exact .ok ih
  | failed hkind _ ih =>
    rw [List.cons_append, List.append_assoc]
    exact .failed hkind ih

/-- How many events of a kind were stored. -/
def storedOf (kind : EventKind) (effs : List (Effect P)) : ℕ :=
  (storedEvents effs).countP fun ev => ev.kind = kind

/-- Every call of the recovery callback directly follows the `COMPLETED` of the
block whose failure it is called with. -/
def Answered (effs : List (Effect P)) : Prop :=
  ∀ before ev action after, effs = before ++ .recovery ev action :: after →
    ev.kind.isFailure = true ∧ action = .dropInput ∧ ∃ earlier box duration rc,
      before = earlier ++ [.event box (completedEvent ev.blockName duration) rc]

theorem storedOf_append (kind : EventKind) (effs effs' : List (Effect P)) :
    storedOf kind (effs ++ effs') = storedOf kind effs + storedOf kind effs' := by
  rw [storedOf, storedEvents_append]
  exact List.countP_append

theorem answered_of_none {effs : List (Effect P)} (h : recoveries effs = []) : Answered effs := by
  intro before ev action after heq
  rw [heq, recoveries_append] at h
  exact absurd h (List.append_ne_nil_of_right_ne_nil _ (List.cons_ne_nil _ _))

theorem Answered.append {effs effs' : List (Effect P)} (h : Answered effs) (h' : Answered effs') :
    Answered (effs ++ effs') := by
  intro before ev action after heq
  rcases List.append_eq_append_iff.mp heq with ⟨as, hbefore, heffs'⟩ | ⟨cs, heffs, hafter⟩
  · obtain ⟨hkind, haction, earlier, box, duration, rc, has⟩ := h' as ev action after heffs'
    refine ⟨hkind, haction, effs ++ earlier, box, duration, rc, ?_⟩
    rw [hbefore, has, List.append_assoc]
  · rcases List.cons_eq_append_iff.mp hafter with ⟨rfl, heffs'⟩ | ⟨cs', rfl, -⟩
    · obtain ⟨-, -, earlier, box, duration, rc, hnil⟩ := h' [] ev action after heffs'
      exact absurd hnil (List.append_ne_nil_of_right_ne_nil _ (List.cons_ne_nil _ _)).symm
    · exact h before ev action cs' heffs

theorem answered_completed (box : ℕ) {ev : ExtEvent P} (hkind : ev.kind.isFailure = true)
    (duration : BitVec 32) (persistRc : ℤ) :
    Answered [.event box (completedEvent ev.blockName duration) persistRc, .recovery ev .dropInput] := by
  intro before ev' action after heq
  rcases List.cons_eq_append_iff.mp heq with ⟨rfl, hcons⟩ | ⟨before', rfl, hrest⟩
  · cases hcons
  rcases List.cons_eq_append_iff.mp hrest with ⟨rfl, hlast⟩ | ⟨as, -, hnil⟩
  · obtain ⟨hrec, -⟩ := List.cons.inj hlast
    obtain ⟨rfl, rfl⟩ := Effect.recovery.inj hrec
    exact ⟨hkind, rfl, [], box, duration, persistRc, rfl⟩
  · exact absurd hnil (List.append_ne_nil_of_right_ne_nil _ (List.cons_ne_nil _ _)).symm

theorem recoveries_inner {eff : Effect P} (h : eff.Inner) : recoveries [eff] = [] := by
  cases eff with
  | event box ev rc => rfl
  | invoke block => rfl
  | recovery ev action => exact h.elim

theorem storedOf_inner {eff : Effect P} (h : eff.Inner) {kind : EventKind}
    (hkind : kind = .blockOk ∨ kind = .blockCompleted) : storedOf kind [eff] = 0 := by
  cases eff with
  | event box ev rc =>
    apply List.countP_eq_zero.mpr
    intro e he
    obtain rfl := List.mem_singleton.mp he
    rcases hkind with rfl | rfl
    · simpa using h.1
    · simpa using h.2
  | invoke block => rfl
  | recovery ev action => exact h.elim

/-- The callback is called at the ends of runs and nowhere else. -/
theorem Ended.answered {recoveryCb : Bool} {effs : List (Effect P)} (h : Ended recoveryCb effs) :
    Answered effs := by
  induction h with
  | nil => exact answered_of_none rfl
  | inner heff _ ih => exact (answered_of_none (recoveries_inner heff)).append ih
  | @ok box block duration rc rc' effs _ ih =>
    have hend : Answered [.event box ⟨.blockOk, block, some (.lit "OK"), 0, 0, 0⟩ rc,
        .event box (completedEvent block duration : ExtEvent P) rc'] := answered_of_none rfl
    exact hend.append ih
  | @failed box ev duration rc effs hkind _ ih =>
    cases recoveryCb with
    | false =>
      have hend : Answered [.event box (completedEvent ev.blockName duration : ExtEvent P) rc] :=
        answered_of_none rfl
      exact hend.append ih
    | true => exact (answered_completed box hkind duration rc).append ih

/-- **The runs add up**: with a callback, its calls and the runs that are `OK`
are all the runs. -/
theorem Ended.count {recoveryCb : Bool} {effs : List (Effect P)} (h : Ended recoveryCb effs) :
    if recoveryCb then
      (recoveries effs).length + storedOf .blockOk effs = storedOf .blockCompleted effs
    else recoveries effs = [] := by
  induction h with
  | nil => cases recoveryCb <;> rfl
  | @inner eff effs heff _ ih =>
    have hrec : recoveries (eff :: effs) = recoveries effs := by
      rw [← List.singleton_append, recoveries_append, recoveries_inner heff, List.nil_append]
    have hstored : ∀ kind, kind = .blockOk ∨ kind = .blockCompleted →
        storedOf kind (eff :: effs) = storedOf kind effs := fun kind hkind => by
      rw [← List.singleton_append, storedOf_append, storedOf_inner heff hkind, Nat.zero_add]
    rw [hrec, hstored _ (Or.inl rfl), hstored _ (Or.inr rfl)]
    exact ih
  | @ok box block duration rc rc' effs _ ih =>
    have hstored : ∀ kind, storedOf kind (.event box ⟨.blockOk, block, some (.lit "OK"), 0, 0, 0⟩ rc ::
        .event box (completedEvent block duration) rc' :: effs) =
          storedOf kind [.event box ⟨.blockOk, block, some (.lit "OK"), 0, 0, 0⟩ rc,
            .event box (completedEvent block duration) rc'] + storedOf kind effs :=
      fun kind => storedOf_append kind [_, _] effs
    rw [hstored, hstored]
    cases recoveryCb with
    | false => exact ih
    | true =>
      simp only [if_true] at ih ⊢
      show (recoveries effs).length + (1 + storedOf .blockOk effs) = 1 + storedOf .blockCompleted effs
      omega
  | @failed box ev duration rc effs hkind _ ih =>
    have hstored : ∀ kind, storedOf kind (.event box (completedEvent ev.blockName duration) rc ::
        ((if recoveryCb then [.recovery ev .dropInput] else []) ++ effs)) =
          storedOf kind [.event box (completedEvent ev.blockName duration) rc] + storedOf kind effs :=
      fun kind => by
        have hcb : storedOf kind (if recoveryCb then [Effect.recovery ev .dropInput] else []) = 0 := by
          cases recoveryCb <;> rfl
        rw [← List.singleton_append, storedOf_append, storedOf_append, hcb, Nat.zero_add]
    rw [hstored, hstored]
    cases recoveryCb with
    | false => exact ih
    | true =>
      simp only [if_true] at ih ⊢
      show (recoveries effs).length + 1 + (0 + storedOf .blockOk effs) = 1 + storedOf .blockCompleted effs
      omega

/-- How a run is judged: `OK`, or by a failure of its block. -/
theorem Judged.last {guard : GuardCtx P} {evs : List (ExtEvent P)} {rc : ℤ}
    (h : Judged guard.blockName guard.lastEvent evs rc) (persist : Stream' ℤ) :
    (rc = Loxguard.ok ∧ evs = [⟨.blockOk, guard.blockName, some (.lit "OK"), 0, 0, 0⟩]) ∨
    (rc ≠ Loxguard.ok ∧ (∀ ev ∈ evs, ev.kind.isFailure = true) ∧
      (guard.noteAll persist evs).lastEvent.kind.isFailure = true ∧
      (guard.noteAll persist evs).lastEvent.blockName = guard.blockName) := by
  generalize hname : guard.blockName = block at h
  generalize hlast : guard.lastEvent = last at h
  cases h with
  | ok => exact Or.inl ⟨rfl, rfl⟩
  | failed hof hkind hrc =>
    refine Or.inr ⟨hrc, fun ev hev => ?_, hkind, hof.blockName⟩
    rw [List.mem_singleton.mp hev]
    exact hkind
  | incident index limit hbounds hrc =>
    rw [hbounds] at hlast
    refine Or.inr ⟨hrc, nofun, ?_, ?_⟩
    · exact congrArg (fun ev : ExtEvent P => ev.kind.isFailure) hlast
    · exact congrArg Event.blockName hlast

theorem ended_eventEffects (recoveryCb : Bool) (box : ℕ) (evs : List (ExtEvent P)) (persist : Stream' ℤ)
    (h : ∀ ev ∈ evs, ev.kind.isFailure = true) : Ended recoveryCb (eventEffects box evs persist) := by
  induction evs generalizing persist with
  | nil => exact .nil
  | cons ev evs ih =>
    have hkind := h ev List.mem_cons_self
    refine .inner ⟨?_, ?_⟩ (ih persist.tail fun e he => h e (List.mem_cons_of_mem _ he))
    · intro hok
      rw [hok] at hkind
      cases hkind
    · intro hcompleted
      rw [hcompleted] at hkind
      cases hkind

/-- **The end of a run.** -/
theorem ended_close (env : Env) (box : ℕ) {guard : GuardCtx P} {evs : List (ExtEvent P)} {rc : ℤ}
    (h : Judged guard.blockName guard.lastEvent evs rc) (persist : Stream' ℤ) :
    Ended env.recoveryCb
      (eventEffects box evs persist ++ closeEffects env box (guard.noteAll persist evs) rc) := by
  let judged := guard.noteAll persist evs
  have hname : judged.blockName = guard.blockName := noteAll_blockName ..
  rcases h.last persist with ⟨rfl, rfl⟩ | ⟨hrc, hevs, hkind, hblock⟩
  · have hrecovery : recoveryEffects env judged ok = [] := if_neg fun h => h.1 rfl
    have hclose : closeEffects env box judged ok = [.event box (completedEvent _ _) _] :=
      congrArg _ hrecovery
    rw [hclose, hname]
    exact .ok .nil
  · have hclose : closeEffects env box judged rc =
        .event box (completedEvent judged.lastEvent.blockName judged.durationTicks) env.persist.head ::
          ((if env.recoveryCb then [.recovery judged.lastEvent .dropInput] else []) ++ []) := by
      have haction : policyDecide (some judged.lastEvent) = .dropInput := if_pos hkind
      rw [List.append_nil, show judged.lastEvent.blockName = judged.blockName from hblock.trans hname.symm]
      apply congrArg (_ :: ·)
      simp only [recoveryEffects, haction, hrc, ne_eq, not_false_eq_true, true_and]
    rw [hclose]
    exact (ended_eventEffects env.recoveryCb box evs persist hevs).append (.failed hkind .nil)

/-- **Every phase** ends a run or is no part of an end. -/
theorem Phase.ended {past effs : List (Effect P)} {cfgs : Set (BlockCfg P)} {w w' : World P}
    (h : Phase past cfgs w effs w') :
    w'.env.recoveryCb = w.env.recoveryCb ∧ Ended w.env.recoveryCb effs := by
  cases h with
  | enter => exact ⟨rfl, .inner ⟨nofun, nofun⟩ .nil⟩
  | ask => exact ⟨rfl, .nil⟩
  | invoke => exact ⟨rfl, .inner trivial .nil⟩
  | bounds => exact ⟨rfl, .inner ⟨nofun, nofun⟩ .nil⟩
  | write => exact ⟨rfl, .nil⟩
  | close hcfg hbox w hguard hjudged adapters breaker =>
    rename_i cfg box guard evs rc
    have hcb : (w.judge box evs adapters breaker).env.recoveryCb = w.env.recoveryCb := by
      rw [World.judge, emitAll_env]
      rfl
    have hended := ended_close (w.judge box evs adapters breaker).env box hjudged w.env.persist
    rw [hcb] at hended
    exact ⟨hcb, hended⟩

theorem Call.calls_univ (c : Call P) : c.Calls Set.univ := ⟨trivial, c.fn.calls_univ⟩

/-- **The recovery callback**, whatever runs a call nests: every run of the call
that is `OK` stores its `OK` directly before its `COMPLETED`, and with a
callback installed it is called directly after the `COMPLETED` of every other
run, with a failure of its block. So it is called once for every run that is
not `OK`, and never if there is none. -/
theorem recovery_exec (c : Call P) (w : World P) :
    Ended c.env.recoveryCb (c.effects w) ∧ Answered (c.effects w) ∧
      if c.env.recoveryCb then
        (recoveries (c.effects w)).length + storedOf .blockOk (c.effects w) =
          storedOf .blockCompleted (c.effects w)
      else recoveries (c.effects w) = [] := by
  let Q : World P → List (Effect P) → World P → Prop := fun w effs w' =>
    w'.env.recoveryCb = w.env.recoveryCb ∧ Ended w.env.recoveryCb effs
  have hQ : Traces.Composes Q := by
    refine ⟨fun w => ⟨rfl, .nil⟩, fun h h' => ⟨h'.1.trans h.1, h.2.append ?_⟩⟩
    rw [← h.1]
    exact h'.2
  obtain ⟨effs, hphases⟩ := c.exec_phases c.calls_univ (List.prefix_refl w.trace)
  obtain ⟨-, hended⟩ := hphases.lift hQ Phase.ended
  rw [effects_eq hphases.trace]
  exact ⟨hended, hended.answered, hended.count⟩

end Loxguard
