/-
# Isolation between blocks

Two processes that make the same calls of a block, with different calls of
other blocks in between, should decide the same for it. They do as long as
its streak is zero whenever another block runs, and only as long
(`isolation_iff`): a run of another block takes over the one slot the table
ever uses, and the streak is lost.

Key definitions: `Decision`, `Outcome.decision`, `IdleAt`, `KeepsStreak`.
Key theorems: `courseOf_congr`, `step_same`, `streakOf_other`, `isolation_iff`.
-/
import Loxguard.Calls

namespace Loxguard

open Lib

variable {P : Platform}

/-! ### What is decided -/

/-- What is decided about a call: its report, whether the function is called,
and whether the call is refused for too many failures. -/
structure Decision where
  report : Report
  invoked : Bool
  quarantined : Bool
deriving DecidableEq

/-- The decision about a call. -/
def Outcome.decision (o : Outcome P) : Decision := ⟨o.report, Invoked o.effects, Quarantined o.effects⟩

/-- The decisions about the calls of a block. -/
def decisionsOf (block : CStr) (os : List (Outcome P)) : List Decision :=
  (os.filter (·.block = block)).map Outcome.decision

/-- The aux code of a refusal by the breaker is all that a course has from
it. -/
theorem courseOf_congr (cfg : BlockCfg P) (fn : FlatScript P) (streak : BitVec 32)
    {refusal refusal' : Option (BitVec 32)} (h : refusal.isSome ↔ refusal'.isSome)
    (duration : BitVec 32) (env : Env) :
    let c := courseOf cfg fn streak refusal duration
    let c' := courseOf cfg fn streak refusal' duration
    c.report cfg env = c'.report cfg env ∧ c.invoked = c'.invoked ∧
      c.events.map Event.kind = c'.events.map Event.kind := by
  intro c c'
  by_cases hq : cfg.QuarantinedAt streak
  · rw [show c = _ from if_pos hq, show c' = _ from if_pos hq]
    exact ⟨rfl, rfl, rfl⟩
  rw [show c = _ from if_neg hq, show c' = _ from if_neg hq]
  cases refusal with
  | none =>
    cases refusal' with
    | none => exact ⟨rfl, rfl, rfl⟩
    | some aux' => simp at h
  | some aux =>
    cases refusal' with
    | none => simp at h
    | some aux' => exact ⟨rfl, rfl, rfl⟩

/-! ### One call -/

section Step

variable (c : FlatCall P) {w w' : World P} {block : CStr}

/-- **A call decides by the streak of its block**, and so do the calls after
it. -/
theorem step_same (hname : c.block.length ≤ 63)
    (hstreak : streakOf w.streaks (some c.block) = streakOf w'.streaks (some c.block)) :
    (c.toCall.step w).1.decision = (c.toCall.step w').1.decision ∧
      streakOf (c.toCall.step w).2.streaks (some c.block) =
        streakOf (c.toCall.step w').2.streaks (some c.block) := by
  cases hbox : c.cfg.blackbox with
  | none =>
    simp only [Call.step, Outcome.decision, effects_of_null (c := c.toCall) hbox,
      exec_of_null (c := c.toCall) hbox]
    exact ⟨trivial, hstreak⟩
  | some box =>
    obtain ⟨refusal, hopen, hruns⟩ := c.exec_runsAs w hbox
    obtain ⟨refusal', hopen', hruns'⟩ := c.exec_runsAs w' hbox
    have hentry : entryStreak w.streaks (some c.block) = entryStreak w'.streaks (some c.block) :=
      (entryStreak_eq hname _).trans (hstreak.trans (entryStreak_eq hname _).symm)
    rw [hentry] at hruns
    obtain ⟨hreport, hinvoked, hkinds⟩ := courseOf_congr c.cfg c.fn
      (entryStreak w'.streaks (some c.block)) (hopen.trans hopen'.symm) c.env.elapsed c.env
    constructor
    · simp only [Call.step, Outcome.decision, effects_eq hruns.trace, effects_eq hruns'.trace,
        invoked_effects_iff, quarantined_effects_iff, hinvoked, Decision.mk.injEq, and_self, and_true]
      exact hruns.report.trans (hreport.trans hruns'.report.symm)
    · calc streakOf (c.toCall.exec w).2.streaks (some c.block)
          = streakAfter (streakOf w.streaks (some c.block)) _ := hruns.streakOf_eq hname
        _ = streakAfter (streakOf w'.streaks (some c.block)) _ := by rw [hkinds, hstreak]
        _ = streakOf (c.toCall.exec w').2.streaks (some c.block) := (hruns'.streakOf_eq hname).symm

/-- **A call of another block** leaves the streak at zero. -/
theorem streakOf_other (hw : w.streaks.FirstOnly) (hname : c.block.length ≤ 63) (hb : block.bytes ≠ [])
    (hne : c.block ≠ block) (hbox : c.cfg.blackbox ≠ none) :
    streakOf (c.toCall.step w).2.streaks (some block) = 0 := by
  obtain ⟨box, hbox⟩ := Option.ne_none_iff_exists'.mp hbox
  obtain ⟨refusal, -, hruns⟩ := c.exec_runsAs w hbox
  apply hruns.streakOf_ne hw hname
  rwa [show blockKey (some block) = block by simp [blockKey, hb]]

end Step

/-! ### Two processes -/

/-- No other block runs but while the streak of `block` is zero. -/
def IdleAt (block : CStr) (w : World P) (c : FlatCall P) : Prop :=
  c.block ≠ block → c.cfg.blackbox ≠ none → streakOf w.streaks (some block) = 0

/-- A run of another block does not change the streak of `block`. -/
def KeepsStreak (block : CStr) (w : World P) (c : FlatCall P) : Prop :=
  c.block ≠ block → streakOf (c.toCall.step w).2.streaks (some block) = streakOf w.streaks (some block)

/-- Every state and call of a process without nested runs. -/
def Throughout (p : World P → FlatCall P → Prop) (w : World P) (cs : List (FlatCall P)) : Prop :=
  Runs.Along (fun w c => Call.step w c.toCall) p w cs

section Process

variable {block : CStr} (hb : block.bytes ≠ []) {w : World P} (hw : w.Fresh)

include hb hw in
/-- **A run of another block keeps the streak** exactly when the streak is
zero. -/
theorem keepsStreak_iff_idle (cs : List (FlatCall P)) (hnames : ∀ c ∈ cs, c.block.length ≤ 63) :
    Throughout (KeepsStreak block) w cs ↔ Throughout (IdleAt block) w cs := by
  have hstep : ∀ c ∈ cs, ∀ w : World P, w.streaks.FirstOnly →
      (Call.step w c.toCall).2.streaks.FirstOnly := fun c _ w hw => c.firstOnly_exec w hw
  constructor
  · apply Runs.Along.imp (fun w => w.streaks.FirstOnly) cs hstep hw.firstOnly
    intro c hc w hw hkeeps hne hbox
    exact (hkeeps hne).symm.trans (streakOf_other c hw (hnames c hc) hb hne hbox)
  · apply Runs.Along.imp (fun w => w.streaks.FirstOnly) cs hstep hw.firstOnly
    intro c hc w hw hidle hne
    by_cases hbox : c.cfg.blackbox = none
    · simp only [Call.step, exec_of_null (c := c.toCall) hbox]
    · exact (streakOf_other c hw (hnames c hc) hb hne hbox).trans (hidle hne hbox).symm

include hw in
/-- **Leaving out the calls of other blocks** changes no decision. -/
theorem decisionsOf_purge (cs : List (FlatCall P)) (hnames : ∀ c ∈ cs, c.block.length ≤ 63)
    (hkeeps : Throughout (KeepsStreak block) w cs) {w' : World P} (hw' : w'.Fresh) :
    decisionsOf block (runAll w (cs.map FlatCall.toCall)).1 =
      (runAll w' ((cs.filter (·.block = block)).map FlatCall.toCall)).1.map Outcome.decision := by
  have hstart : streakOf w.streaks (some block) = streakOf w'.streaks (some block) := by
    rw [hw.streaks, hw'.streaks]
  have hmine : ∀ c ∈ cs, decide (c.block = block) = true → ∀ w w' : World P,
      streakOf w.streaks (some block) = streakOf w'.streaks (some block) →
        (Call.step w c.toCall).1.decision = (Call.step w' c.toCall).1.decision ∧
        streakOf (Call.step w c.toCall).2.streaks (some block) =
          streakOf (Call.step w' c.toCall).2.streaks (some block) := by
    intro c hc hblock w w' hstreak
    obtain rfl := of_decide_eq_true hblock
    exact step_same c (hnames c hc) hstreak
  have hother : Throughout (fun w c => decide (c.block = block) = false → ∀ w' : World P,
      streakOf w.streaks (some block) = streakOf w'.streaks (some block) →
        streakOf (Call.step w c.toCall).2.streaks (some block) =
          streakOf w'.streaks (some block)) w cs :=
    Runs.Along.imp (fun _ => True) cs (fun _ _ _ _ => trivial) trivial
      (fun c _ w _ hkeeps hblock w' hstreak => (hkeeps (of_decide_eq_false hblock)).trans hstreak) hkeeps
  simp only [decisionsOf, runAll, Runs.run_map]
  exact Runs.run_purge Outcome.decision cs w w' (fun _ _ _ => rfl) hmine hother hstart

end Process

/-- **Isolation between blocks** holds as long as, and only as long as, the
streak of the block is zero whenever another block runs. Two fresh processes
make the same calls of `block` and any calls of other blocks; they decide the
same for `block` and no call of another block changes its streak if and only
if, in both, its streak is zero whenever a call of another block starts. -/
theorem isolation_iff {block : CStr} (hb : block.bytes ≠ []) {w₁ w₂ : World P} (h₁ : w₁.Fresh)
    (h₂ : w₂.Fresh) (cs₁ cs₂ : List (FlatCall P)) (hnames₁ : ∀ c ∈ cs₁, c.block.length ≤ 63)
    (hnames₂ : ∀ c ∈ cs₂, c.block.length ≤ 63)
    (hsame : cs₁.filter (·.block = block) = cs₂.filter (·.block = block)) :
    (decisionsOf block (runAll w₁ (cs₁.map FlatCall.toCall)).1 =
        decisionsOf block (runAll w₂ (cs₂.map FlatCall.toCall)).1 ∧
      Throughout (KeepsStreak block) w₁ cs₁ ∧ Throughout (KeepsStreak block) w₂ cs₂) ↔
    Throughout (IdleAt block) w₁ cs₁ ∧ Throughout (IdleAt block) w₂ cs₂ := by
  have hidle₁ := keepsStreak_iff_idle hb h₁ cs₁ hnames₁
  have hidle₂ := keepsStreak_iff_idle hb h₂ cs₂ hnames₂
  constructor
  · rintro ⟨-, hkeeps₁, hkeeps₂⟩
    exact ⟨hidle₁.mp hkeeps₁, hidle₂.mp hkeeps₂⟩
  · rintro ⟨h, h'⟩
    refine ⟨?_, hidle₁.mpr h, hidle₂.mpr h'⟩
    rw [decisionsOf_purge h₁ cs₁ hnames₁ (hidle₁.mpr h) h₂, hsame]
    exact (decisionsOf_purge h₂ cs₂ hnames₂ (hidle₂.mpr h') h₂).symm

theorem isolation_allOk :
    let c : FlatCall .host := .returning (.lit "b") 1 0
    let other : FlatCall .host := .returning (.lit "c") 1 (-1)
    (decisionsOf (.lit "b") (runAll (World.start .quiet) [c.toCall, other.toCall, c.toCall]).1 =
        decisionsOf (.lit "b") (runAll (World.start .quiet) [c.toCall, c.toCall]).1 ∧
      Throughout (KeepsStreak (.lit "b")) (World.start .quiet) [c, other, c] ∧
      Throughout (KeepsStreak (.lit "b")) (World.start .quiet) [c, c]) ↔
    Throughout (IdleAt (.lit "b")) (World.start .quiet) [c, other, c] ∧
      Throughout (IdleAt (.lit "b")) (World.start .quiet) [c, c] :=
  isolation_iff (by decide) (World.start_fresh .quiet) (World.start_fresh .quiet)
    [.returning (.lit "b") 1 0, .returning (.lit "c") 1 (-1), .returning (.lit "b") 1 0]
    [.returning (.lit "b") 1 0, .returning (.lit "b") 1 0] (by decide) (by decide) rfl

/-- A block that failed at its limit is called again after a run of another
block, and is refused without it. -/
theorem isolation_lost :
    let c : FlatCall .host := .returning (.lit "b") 1 (-1)
    let other : FlatCall .host := .returning (.lit "c") 1 0
    [c, other, c].filter (·.block = .lit "b") = [c, c].filter (·.block = .lit "b") ∧
      decisionsOf (.lit "b") (runAll (World.start .quiet) [c.toCall, other.toCall, c.toCall]).1 ≠
        decisionsOf (.lit "b") (runAll (World.start .quiet) [c.toCall, c.toCall]).1 :=
  ⟨rfl, by decide +kernel⟩

end Loxguard
