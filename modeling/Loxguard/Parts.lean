/-
# The parts of a run

A run is put together from a few parts: the clock is read, an event is stored,
memory is written, a streak is looked up, the breaker is asked and told, the
guarded function and the recovery callback are called. What holds of these
parts and of one computation after another holds of every run and of every
guarded function, whatever it nests (`OfParts.loxguardRun`, `OfParts.exec`).

Where `Steps` says what a run did to one world, a property here is of the
computation, so it can compare what it does to several worlds.

Key definitions: `askBreaker`, `tellBreaker`, `OfParts`, `OfParts.Fn`.
Key theorems: `OfParts.finishRun`, `OfParts.attemptRun`,
`OfParts.loxguardRun`, `OfParts.exec`.
-/
import Loxguard.RunSteps

namespace Loxguard

open Lib

variable {P : Platform}

/-! ### The breaker -/

/-- Ask the breaker before a block is called: `none` if it allows the attempt,
else the state of the block it refuses with. -/
def askBreaker (block : Option CStr) (w : World P) : Option (BitVec 32) × World P :=
  let (answer, w) := nextAnswer w
  let (allowed, adapters) := recoveryAllowAttemptForBlock w.adapters block answer
  let w := { w with adapters }
  if !allowed then
    let (state, adapters) := recoveryStateGetForBlock w.adapters block
    (some (BitVec.ofInt 32 state), { w with adapters })
  else (none, w)

/-- Tell the breaker how a block went. -/
def tellBreaker (block : Option CStr) (w : World P) : World P :=
  let (answer, w) := nextAnswer w
  { w with adapters := recoveryReportResultForBlock w.adapters block answer }

theorem attemptRun_eq (cfg : BlockCfg P) (fn : GuardFn P) (guard : GuardCtx P) (w : World P) :
    attemptRun cfg fn guard w =
      match (askBreaker guard.blockName w).1 with
      | some aux =>
        refuseRun guard (.lit "BREAKER_OPEN") 0 0 aux (askBreaker guard.blockName w).2
      | none =>
        let w := (askBreaker guard.blockName w).2
        let r := fn guard { w with trace := w.trace ++ [.invoke guard.blockName] }
        finishRun cfg r.1 r.2.1 r.2.2 := by
  unfold attemptRun askBreaker
  cases hallowed : (recoveryAllowAttemptForBlock (nextAnswer w).2.adapters guard.blockName
      (nextAnswer w).1).1 with
  | true => simp [hallowed]
  | false => simp [hallowed]

/-! ### Properties of the parts -/

/-- A property of computations that the parts of a run have and that one
computation after another has. -/
structure OfParts (Φ : (β : Type) → (World P → β × World P) → Prop) : Prop where
  pure {β : Type} (b : β) : Φ β fun w => (b, w)
  bind {β γ : Type} {f : World P → β × World P} {g : β → World P → γ × World P} (hf : Φ β f)
    (hg : ∀ b, Φ γ (g b)) : Φ γ fun w => g (f w).1 (f w).2
  clock : Φ (BitVec 32) nowMs
  store (box : ℕ) (ev : ExtEvent P) : Φ ℤ fun w => (w.env.persist.head, w.emit box ev)
  write (output : Span P) (index : P.Size) (value : UInt8) : Φ ℤ fun w =>
    ((spanWriteU8 w.mem (some output) index value).1,
      { w with mem := (spanWriteU8 w.mem (some output) index value).2 })
  look (block : Option CStr) : Φ (BitVec 32) fun w =>
    (streakOf w.streaks block, { w with streaks := (failureStreakForBlock w.streaks block).1 })
  ask (block : Option CStr) : Φ (Option (BitVec 32)) (askBreaker block)
  tell (block : Option CStr) : Φ Unit fun w => ((), tellBreaker block w)
  invoke (block : Option CStr) : Φ Unit fun w => ((), { w with trace := w.trace ++ [.invoke block] })
  recover (ev : ExtEvent P) (action : Action) : Φ Unit fun w => ((), invokeRecovery ev action w)

/-- A result with the context, and the world. -/
def paired (r : ℤ × GuardCtx P × World P) : (ℤ × GuardCtx P) × World P := ((r.1, r.2.1), r.2.2)

namespace OfParts

variable {Φ : (β : Type) → (World P → β × World P) → Prop}

/-- A guarded function has the property. -/
def Fn (Φ : (β : Type) → (World P → β × World P) → Prop) (fn : GuardFn P) : Prop :=
  ∀ ctx, Φ (ℤ × GuardCtx P) fun w => paired (fn ctx w)

variable (h : OfParts Φ)
include h

/-- **An event.** -/
theorem emitEventEx (ctx : GuardCtx P) (kind : EventKind) (reason : CStr) (index limit : P.Size)
    (auxCode : BitVec 32) (trackAsLast : Bool) : Φ _ fun w =>
      paired (Loxguard.emitEventEx ctx kind reason index limit auxCode trackAsLast w) := by
  cases hbox : ctx.blackbox with
  | none =>
    have hnull : ∀ w : World P, Loxguard.emitEventEx ctx kind reason index limit auxCode trackAsLast w =
        (errNull, ctx, w) := fun w => by simp only [Loxguard.emitEventEx, hbox]
    simp only [hnull]
    exact h.pure (errNull, ctx)
  | some box =>
    cases trackAsLast with
    | false =>
      simp only [emitEventEx_untracked hbox]
      exact h.bind (h.store box _) fun _ => h.pure (ok, ctx)
    | true =>
      simp only [emitEventEx_eq hbox]
      exact h.bind (h.store box _) fun persistRc => h.pure (ok, ctx.note _ persistRc)

theorem emitted (ctx : GuardCtx P) (kind : EventKind) (reason : CStr) (index limit : P.Size)
    (auxCode : BitVec 32) (trackAsLast : Bool) : Φ _ fun w =>
      (Loxguard.emitEventEx ctx kind reason index limit auxCode trackAsLast w).2 :=
  h.bind (h.emitEventEx ctx kind reason index limit auxCode trackAsLast) fun a => h.pure a.2

/-- **A checked write.** -/
theorem checkedOutputWriteU8 (ctx : GuardCtx P) (index : P.Size) (value : UInt8) :
    Φ _ fun w => paired (Loxguard.checkedOutputWriteU8 ctx index value w) := by
  have hincident : ∀ rc, Φ (ℤ × GuardCtx P) fun w =>
      paired (if rc = errBounds then (rc, guardEmitBounds ctx index ctx.output.len w) else (rc, ctx, w)) := by
    intro rc
    by_cases hrc : rc = errBounds
    · simp only [if_pos hrc]
      exact h.bind (h.emitted ctx .blockWriteOutOfBounds (.lit "BOUNDS") index ctx.output.len 0 true)
        fun ctx => h.pure (rc, ctx)
    · simp only [if_neg hrc]
      exact h.pure (rc, ctx)
  exact h.bind (h.write ctx.output index value) hincident

theorem finalizeReport (ctx : GuardCtx P) (rc : ℤ) : Φ _ (Loxguard.finalizeReport ctx rc) := by
  by_cases hrc : rc ≠ ok
  · have hfailed : Loxguard.finalizeReport ctx rc = fun w =>
        (reportOf ctx rc, invokeRecovery ctx.lastEvent (policyDecide (some ctx.lastEvent)) w) := by
      funext w
      simp only [Loxguard.finalizeReport, reportOf, if_pos hrc]
    rw [hfailed]
    exact h.bind (h.recover ctx.lastEvent (policyDecide (some ctx.lastEvent))) fun _ => h.pure (reportOf ctx rc)
  · have hok : Loxguard.finalizeReport ctx rc = fun w => (reportOf ctx rc, w) := by
      funext w
      simp only [Loxguard.finalizeReport, reportOf, if_neg hrc]
    rw [hok]
    exact h.pure (reportOf ctx rc)

theorem completeRun (guard : GuardCtx P) (rc : ℤ) : Φ _ (Loxguard.completeRun guard rc) :=
  h.bind (h.emitEventEx guard .blockCompleted (.lit "COMPLETED") (guard.durationTicks.setWidth P.sizeBits)
    0 0 false) fun a => h.finalizeReport a.2 rc

theorem stopClock (guard : GuardCtx P) : Φ _ (Loxguard.stopClock guard) :=
  h.bind h.clock fun endTicks => h.pure { guard with durationTicks := endTicks - guard.startTicks }

/-- **A refused run.** -/
theorem refuseRun (guard : GuardCtx P) (reason : CStr) (index limit : P.Size) (auxCode : BitVec 32) :
    Φ _ (Loxguard.refuseRun guard reason index limit auxCode) :=
  h.bind (h.emitEventEx guard .blockError reason index limit auxCode true) fun a =>
    h.bind (h.stopClock a.2) fun guard => h.completeRun guard errUnsupported

theorem emitVerdict (cfg : BlockCfg P) (rc : ℤ) (guard : GuardCtx P) :
    Φ _ fun w => paired (Loxguard.emitVerdict cfg rc guard w) := by
  unfold Loxguard.emitVerdict
  split_ifs
  · exact h.bind (h.emitted guard .blockTimeout (.lit "TIMEOUT") (guard.durationTicks.setWidth P.sizeBits)
      (cfg.timeoutMs.setWidth P.sizeBits) 0 true) fun guard => h.pure (errTimeout, guard)
  · exact h.bind (h.emitted guard .blockOk (.lit "OK") 0 0 0 true) fun guard => h.pure (rc, guard)
  · exact h.bind (h.emitted guard .blockError (.lit "ERROR") 0 0 0 true) fun guard => h.pure (rc, guard)
  · exact h.pure (rc, guard)

/-- **The end of a run** that was not refused. -/
theorem finishRun (cfg : BlockCfg P) (rc : ℤ) (guard : GuardCtx P) :
    Φ _ (Loxguard.finishRun cfg rc guard) :=
  h.bind (h.stopClock guard) fun guard => h.bind (h.emitVerdict cfg rc guard) fun a =>
    h.bind (h.tell a.2.blockName) fun _ =>
      h.completeRun (if !cfg.haveArena then { a.2 with scratch := none } else a.2) a.1

/-- **A run that is not quarantined.** -/
theorem attemptRun (cfg : BlockCfg P) {fn : GuardFn P} (hfn : Fn Φ fn) (guard : GuardCtx P) :
    Φ _ (Loxguard.attemptRun cfg fn guard) := by
  have hcalled : Φ Report fun w =>
      let r := fn guard { w with trace := w.trace ++ [.invoke guard.blockName] }
      Loxguard.finishRun cfg r.1 r.2.1 r.2.2 :=
    h.bind (h.invoke guard.blockName) fun _ => h.bind (hfn guard) fun a => h.finishRun cfg a.1 a.2
  have hsaid : ∀ said : Option (BitVec 32), Φ Report fun w =>
      match said with
      | some aux => Loxguard.refuseRun guard (.lit "BREAKER_OPEN") 0 0 aux w
      | none =>
        let r := fn guard { w with trace := w.trace ++ [.invoke guard.blockName] }
        Loxguard.finishRun cfg r.1 r.2.1 r.2.2 := by
    intro said
    cases said with
    | none => exact hcalled
    | some aux => exact h.refuseRun guard (.lit "BREAKER_OPEN") 0 0 aux
  rw [funext (attemptRun_eq cfg fn guard)]
  exact h.bind (h.ask guard.blockName) hsaid

/-- **A run** has the property if its function does. -/
theorem loxguardRun (cfg : Option (BlockCfg P)) {fn : GuardFn P} (hfn : Fn Φ fn) :
    Φ _ (Loxguard.loxguardRun cfg (some fn)) := by
  cases cfg with
  | none => exact h.pure nullReport
  | some cfg =>
    by_cases hbox : cfg.blackbox = none
    · rw [funext (loxguardRun_of_null hbox fn)]
      exact h.pure nullReport
    · have hdecided : ∀ (guard : GuardCtx P) (streak : BitVec 32), Φ Report fun w =>
          if cfg.QuarantinedAt streak then
            Loxguard.refuseRun guard (.lit "QUARANTINED") (streak.setWidth P.sizeBits)
              (cfg.maxFailures.setWidth P.sizeBits) 0 w
          else Loxguard.attemptRun cfg fn guard w := by
        intro guard streak
        by_cases hq : cfg.QuarantinedAt streak
        · simp only [if_pos hq]
          exact h.refuseRun guard _ _ _ _
        · simp only [if_neg hq]
          exact h.attemptRun cfg hfn guard
      have hran := h.bind h.clock fun startTicks =>
        h.bind (h.emitEventEx (guardOf cfg startTicks) .blockEntered (.lit "ENTERED") 0 0 0 false) fun a =>
          h.bind (h.look a.2.blockName) fun streak => hdecided a.2 streak
      have hrun : Loxguard.loxguardRun (some cfg) (some fn) = _ := funext fun w => if_neg hbox
      rw [hrun]
      exact hran

/-- **A guarded function**: by induction on the script. -/
theorem exec (s : Script P) : Fn Φ s.exec := by
  induction s with
  | ret rc => exact fun ctx => h.pure (rc, ctx)
  | write index value next ih =>
    exact fun ctx => h.bind (h.checkedOutputWriteU8 ctx index value) fun a => ih a.1 a.2
  | emitBounds index limit next ih =>
    exact fun ctx => h.bind (h.emitEventEx ctx .blockWriteOutOfBounds (.lit "BOUNDS") index limit 0 true)
      fun a => ih a.2
  | run cfg fn next ihfn ihnext =>
    exact fun ctx => h.bind (h.loxguardRun cfg ihfn) fun report => ihnext report ctx

end OfParts
end Loxguard
