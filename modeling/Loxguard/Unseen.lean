/-
# What runs do not look at

What a guarded run decides, reports and stores depends on the memory and on the
blackboxes only through its function, and without a breaker the same goes for
the block states. If the functions do not look there either, two processes that
differ in those only go on alike, call after call: same reports, same events,
same streaks (`runAll_unseen`). A function that only writes through its guard,
reports incidents and makes guarded calls does not look (`Script.unseeing`).

Every part of a run is blind to the difference, and blind parts compose.

Key definitions: `SeenAlike`, `GuardCall`, `Unseeing`.
Key theorems: `blind_askBreaker`, `ofParts_blind`, `GuardCall.step_seenAlike`,
`runAll_unseen`.
-/
import Loxguard.Calls
import Loxguard.Lib.Lockstep
import Loxguard.Parts

namespace Loxguard

open Lib Lockstep

variable {P : Platform}

/-- What a run looks at is the same: the streaks, the environment, and the
block states unless there is no breaker. The same effects were added to the
traces since `pre` and `pre'`. -/
structure SeenAlike (breaker : Bool) (pre pre' : List (Effect P)) (w w' : World P) : Prop where
  streaks : w.streaks = w'.streaks
  env : w.env = w'.env
  blocks : if breaker then w.adapters = w'.adapters else w.env.breaker = none
  trace : ∃ effs, w.trace = pre ++ effs ∧ w'.trace = pre' ++ effs

section Changes

variable {breaker : Bool} {pre pre' : List (Effect P)} {w w' : World P}
  (h : SeenAlike breaker pre pre' w w')
include h

theorem SeenAlike.mem (mem mem' : Mem) : SeenAlike breaker pre pre' { w with mem } { w' with mem := mem' } :=
  ⟨h.streaks, h.env, h.blocks, h.trace⟩

theorem SeenAlike.adapters (f : BlockStates → BlockStates) : SeenAlike breaker pre pre'
    { w with adapters := f w.adapters } { w' with adapters := f w'.adapters } where
  streaks := h.streaks
  env := h.env
  blocks := by
    cases breaker with
    | false => exact h.blocks
    | true => exact congrArg f h.blocks
  trace := h.trace

/-- The environment changes alike, and no breaker comes up. -/
theorem SeenAlike.setEnv {env : Env} (hbreaker : breaker = false → env.breaker = none) :
    SeenAlike breaker pre pre' { w with env } { w' with env } where
  streaks := h.streaks
  env := rfl
  blocks := by
    cases breaker with
    | false => exact hbreaker rfl
    | true => exact h.blocks
  trace := h.trace

theorem SeenAlike.append (effs : List (Effect P)) : SeenAlike breaker pre pre'
    { w with trace := w.trace ++ effs } { w' with trace := w'.trace ++ effs } where
  streaks := h.streaks
  env := h.env
  blocks := h.blocks
  trace := by
    obtain ⟨effs', htrace, htrace'⟩ := h.trace
    refine ⟨effs' ++ effs, ?_, ?_⟩
    · rw [htrace, List.append_assoc]
    · rw [htrace', List.append_assoc]

/-- **An event** is stored. -/
theorem SeenAlike.emit (box : ℕ) (ev : ExtEvent P) :
    SeenAlike breaker pre pre' (w.emit box ev) (w'.emit box ev) where
  streaks := by rw [emit_streaks, emit_streaks, h.streaks]
  env := by rw [emit_env, emit_env, h.env]
  blocks := by
    cases breaker with
    | false => exact h.blocks
    | true =>
      have hblocks : w.adapters = w'.adapters := h.blocks
      show (w.emit box ev).adapters = (w'.emit box ev).adapters
      simp only [World.emit, h.streaks, hblocks]
  trace := by
    obtain ⟨effs, htrace, htrace'⟩ := (h.append [.event box ev w.env.persist.head]).trace
    refine ⟨effs, htrace, ?_⟩
    rw [emit_trace, ← h.env]
    exact htrace'

theorem SeenAlike.recover (ev : ExtEvent P) (action : Action) :
    SeenAlike breaker pre pre' (invokeRecovery ev action w) (invokeRecovery ev action w') := by
  unfold invokeRecovery
  by_cases hcb : w.env.recoveryCb = true
  · rw [if_pos hcb, if_pos (h.env ▸ hcb)]
    exact h.append [.recovery ev action]
  · rw [if_neg hcb, if_neg (h.env ▸ hcb)]
    exact h

end Changes

/-! ### The parts of a run -/

section Run

variable {breaker : Bool} {pre pre' : List (Effect P)}

theorem blind_nowMs : Blind (SeenAlike breaker pre pre') (nowMs (P := P)) := by
  intro w w' h
  rw [nowMs_eq, nowMs_eq, ← h.env]
  refine ⟨rfl, h.setEnv fun hb => ?_⟩
  subst hb
  exact h.blocks

theorem blind_nextAnswer : Blind (SeenAlike breaker pre pre') (nextAnswer (P := P)) := by
  intro w w' h
  unfold nextAnswer
  rw [← h.env]
  cases hb : w.env.breaker with
  | none => exact ⟨rfl, h⟩
  | some answers =>
    refine ⟨rfl, h.setEnv fun hflag => ?_⟩
    subst hflag
    exact absurd (show w.env.breaker = none from h.blocks) (by rw [hb]; simp)

theorem blind_adapters {α : Type} (f : BlockStates → α × BlockStates) :
    Blind (SeenAlike true pre pre') fun w => ((f w.adapters).1, { w with adapters := (f w.adapters).2 }) := by
  intro w w' h
  have hblocks : w.adapters = w'.adapters := h.blocks
  exact ⟨congrArg (fun t => (f t).1) hblocks, h.adapters fun t => (f t).2⟩

/-- Without a breaker there is nothing to ask, and with one the block states
are the same. -/
theorem blind_askBreaker (block : Option CStr) :
    Blind (SeenAlike breaker pre pre') (askBreaker (P := P) block) := by
  cases breaker with
  | false =>
    intro w w' h
    have hnone : w.env.breaker = none := h.blocks
    have hallowed : ∀ w : World P, w.env.breaker = none → askBreaker block w = (none, w) := by
      intro w hw
      rw [askBreaker, nextAnswer_none hw]
      rfl
    rw [hallowed w hnone, hallowed w' (h.env ▸ hnone)]
    exact ⟨rfl, h⟩
  | true =>
    have hrefused : Blind (SeenAlike true pre pre') fun w : World P =>
        let state := recoveryStateGetForBlock w.adapters block
        (some (BitVec.ofInt 32 state.1), { w with adapters := state.2 }) :=
      (blind_adapters fun t => recoveryStateGetForBlock t block).bind fun state =>
        Blind.pure (some (BitVec.ofInt 32 state))
    exact blind_nextAnswer.bind fun answer =>
      (blind_adapters fun t => recoveryAllowAttemptForBlock t block answer).bind fun allowed =>
        Blind.ite (!allowed) hrefused (Blind.pure none)

/-- **The parts of a run** do not look at the difference. -/
theorem ofParts_blind : OfParts fun _ f => Blind (SeenAlike (P := P) breaker pre pre') f where
  pure b := Blind.pure b
  bind hf hg := hf.bind hg
  clock := blind_nowMs
  store box ev w w' h := ⟨congrArg (fun env => env.persist.head) h.env, h.emit box ev⟩
  write output index value w w' h :=
    ⟨(spanWriteU8_rc w.mem output index value).trans (spanWriteU8_rc w'.mem output index value).symm,
      h.mem _ _⟩
  look block w w' h :=
    ⟨congrArg (fun t => streakOf t block) h.streaks,
      congrArg (fun t => (failureStreakForBlock t block).1) h.streaks, h.env, h.blocks, h.trace⟩
  ask block := blind_askBreaker block
  tell block := by
    have htold : ∀ answer, Blind (SeenAlike breaker pre pre') fun w : World P =>
        ((), { w with adapters := recoveryReportResultForBlock w.adapters block answer }) :=
      fun answer _ _ h => ⟨rfl, h.adapters fun t => recoveryReportResultForBlock t block answer⟩
    exact blind_nextAnswer.bind htold
  invoke block w w' h := ⟨rfl, h.append [.invoke block]⟩
  recover ev action w w' h := ⟨rfl, h.recover ev action⟩

end Run

/-! ### Calls -/

/-- A call of `loxguard_run` with any guarded function. -/
structure GuardCall (P : Platform) where
  cfg : BlockCfg P
  fn : GuardFn P
  env : Env

namespace GuardCall

/-- Make the call. -/
def exec (c : GuardCall P) (w : World P) : Report × World P :=
  loxguardRun (some c.cfg) (some c.fn) { w with env := c.env }

/-- A call as a step of the process. -/
def step (w : World P) (c : GuardCall P) : Outcome P × World P :=
  (⟨c.cfg.blockName, (c.exec w).1, (c.exec w).2.trace.drop w.trace.length⟩, (c.exec w).2)

/-- Make the calls one after the other. -/
def runAll (w : World P) (cs : List (GuardCall P)) : List (Outcome P) × World P := Runs.run step w cs

end GuardCall

/-- The function does not look at memory or at blackboxes, nor at the block
states if it meets no breaker: from worlds that differ in those only it returns
the same and leaves worlds that differ in those only. -/
def Unseeing (breaker : Bool) (fn : GuardFn P) : Prop :=
  ∀ pre pre', OfParts.Fn (fun _ f => Blind (SeenAlike breaker pre pre') f) fn

/-- A function that is a script does not look. -/
theorem Script.unseeing (s : Script P) (breaker : Bool) : Unseeing breaker s.exec :=
  fun _ _ => ofParts_blind.exec s

/-- **A call** from worlds that look alike. -/
theorem GuardCall.step_seenAlike {breaker : Bool} {c : GuardCall P} (hfn : Unseeing breaker c.fn)
    (hc : breaker = false → c.env.breaker = none) {w w' : World P}
    (h : SeenAlike breaker w.trace w'.trace w w') :
    (c.step w).1 = (c.step w').1 ∧
      SeenAlike breaker (c.step w).2.trace (c.step w').2.trace (c.step w).2 (c.step w').2 := by
  obtain ⟨hreport, hafter⟩ := ofParts_blind.loxguardRun (some c.cfg) (hfn _ _) _ _ (h.setEnv hc)
  obtain ⟨effs, htrace, htrace'⟩ := hafter.trace
  have heffs : (c.exec w).2.trace.drop w.trace.length = effs := by
    rw [show (c.exec w).2.trace = w.trace ++ effs from htrace, List.drop_left]
  have heffs' : (c.exec w').2.trace.drop w'.trace.length = effs := by
    rw [show (c.exec w').2.trace = w'.trace ++ effs from htrace', List.drop_left]
  refine ⟨?_, hafter.streaks, hafter.env, hafter.blocks, [], (List.append_nil _).symm,
    (List.append_nil _).symm⟩
  simp only [step]
  rw [heffs, heffs', show (c.exec w).1 = (c.exec w').1 from hreport]

theorem Call.step_seenAlike {breaker : Bool} (c : Call P) (hc : breaker = false → c.env.breaker = none)
    {w w' : World P} (h : SeenAlike breaker w.trace w'.trace w w') :
    (c.step w).1 = (c.step w').1 ∧
      SeenAlike breaker (c.step w).2.trace (c.step w').2.trace (c.step w).2 (c.step w').2 :=
  GuardCall.step_seenAlike (c := ⟨c.cfg, c.fn.exec, c.env⟩) (c.fn.unseeing breaker) hc h

/-- **Calls** from worlds that look alike. -/
theorem runAll_seenAlike {breaker : Bool} (w w' : World P) (h : SeenAlike breaker w.trace w'.trace w w')
    {cs : List (GuardCall P)} (hfn : ∀ c ∈ cs, Unseeing breaker c.fn)
    (hcs : breaker = false → ∀ c ∈ cs, c.env.breaker = none) :
    (GuardCall.runAll w cs).1 = (GuardCall.runAll w' cs).1 ∧
      SeenAlike breaker (GuardCall.runAll w cs).2.trace (GuardCall.runAll w' cs).2.trace
        (GuardCall.runAll w cs).2 (GuardCall.runAll w' cs).2 := by
  refine Runs.run_simulates (R := fun w w' => SeenAlike breaker w.trace w'.trace w w') cs w w' ?_ h
  exact fun c hc w w' hw => GuardCall.step_seenAlike (hfn c hc) (fun hb => hcs hb c hc) hw

/-- **What runs do not look at.** Two processes with the same streaks make the
same calls, of functions that do not look at memory or at blackboxes, nor at
block states that differ. If the block states are the same (`breaker`), or if
no call meets a breaker, every call gives the same report and has the same
effects in both, and the streaks stay the same, whatever is in memory and in
the blackboxes. The block states stay the same if they are. -/
theorem runAll_unseen (breaker : Bool) (w w' : World P) (hstreaks : w.streaks = w'.streaks)
    (cs : List (GuardCall P)) (hfn : ∀ c ∈ cs, Unseeing breaker c.fn)
    (hblocks : if breaker then w.adapters = w'.adapters else ∀ c ∈ cs, c.env.breaker = none) :
    (GuardCall.runAll w cs).1 = (GuardCall.runAll w' cs).1 ∧
      (GuardCall.runAll w cs).2.streaks = (GuardCall.runAll w' cs).2.streaks ∧
      (breaker → (GuardCall.runAll w cs).2.adapters = (GuardCall.runAll w' cs).2.adapters) := by
  cases cs with
  | nil =>
    refine ⟨rfl, hstreaks, fun hb => ?_⟩
    rw [if_pos hb] at hblocks
    exact hblocks
  | cons c cs =>
    -- a call brings its environment, so the one at the start does not matter
    have hstart : ∀ w : World P,
        GuardCall.runAll { w with env := c.env } (c :: cs) = GuardCall.runAll w (c :: cs) := fun _ => rfl
    have halike : SeenAlike breaker w.trace w'.trace { w with env := c.env } { w' with env := c.env } := by
      refine ⟨hstreaks, rfl, ?_, [], (List.append_nil _).symm, (List.append_nil _).symm⟩
      cases breaker with
      | false => exact hblocks c List.mem_cons_self
      | true => exact hblocks
    have hnone : breaker = false → ∀ d ∈ c :: cs, d.env.breaker = none := by
      rintro rfl
      exact hblocks
    obtain ⟨hout, hafter⟩ := runAll_seenAlike { w with env := c.env } { w' with env := c.env } halike hfn hnone
    rw [hstart w, hstart w'] at hout hafter
    refine ⟨hout, hafter.streaks, ?_⟩
    rintro rfl
    exact hafter.blocks

/-- A process whose memory and blackboxes hold other things. -/
def littered : World .host :=
  { World.start .quiet with mem := fun _ => 7, blackboxes := fun _ => { blackboxInit with count := 99 } }

theorem runAll_unseen_littered :
    let calls : List (GuardCall .host) :=
      [⟨.plain (.lit "b") 3, (Script.write 9 0 .ret).exec, .quiet⟩]
    (GuardCall.runAll (.start .quiet) calls).1 = (GuardCall.runAll littered calls).1 :=
  (runAll_unseen true (World.start .quiet) littered rfl _
    (List.forall_mem_singleton.mpr ((Script.write 9 0 .ret).unseeing true)) rfl).1

end Loxguard
