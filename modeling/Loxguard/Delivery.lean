/-
# The events that reach the backends

A run reads the outcomes of persistence off its environment; in a process they
come from the adapters, which are a state themselves. The two views agree: for
any server of requests, any calls, with all they nest, have outcomes that are
those the server gives when it is asked for the events of the calls, in order
(`runAll_served`).

Where the server is `lox_adapter_persist_event`, a report of a persisted event
can be relied on. After calls that store at most 2^32 events the backends have
gained the records of the events that were said to be persisted, each once and
in order in the log or under a key of its own in the database, and nothing
else; and the event behind each report of a persisted event is one of them
(`runAll_delivers`, and for the outcomes the adapters give any calls
`runAll_delivers_answered`).

The counter the keys are made of comes round after 2^32 events, and then a key
is used again: the calls are as many as the keys last for.

Key definitions: `persistReader`, `outcomesLog`, `persistServe`,
`Backends.GainedAll`, `Backends.Holds`, `Delivered`.
Key theorems: `ofParts_answered`, `runAll_served`, `Backends.GainedAll.trans`,
`gainedAll_served`, `delivered_of_served`, `runAll_delivers`,
`runAll_delivers_answered`.
-/
import Loxguard.Backing
import Loxguard.Footprint
import Loxguard.Lib.Oracle
import Loxguard.Parts
import Loxguard.Persist

namespace Loxguard

open Lib Oracle Reader

variable {P : Platform}

/-! ### Runs that are served -/

/-- The world with other outcomes of persistence to come. -/
def World.given (outcomes : Stream' ℤ) (w : World P) : World P :=
  { w with env := { w.env with persist := outcomes } }

/-- Runs read the outcomes of persistence off their environment. -/
def persistReader : Reader (World P) (ExtEvent P) ℤ (Effect P) := ⟨World.given, World.trace, Effect.asked⟩

section Parts

variable {τ : Type} {serve : τ → ExtEvent P → ℤ × τ}

theorem answered_nextAnswer : persistReader.Answered serve (nextAnswer (P := P)) := by
  apply Answered.of_silent
  · intro w
    obtain ⟨breaker, hanswer⟩ := nextAnswer_eq w
    exact ⟨[], rfl, by rw [hanswer]; exact (List.append_nil _).symm⟩
  · intro w rest
    unfold nextAnswer
    cases hb : w.env.breaker <;> simp [persistReader, World.given, hb]

theorem answered_adapters {β : Type} (f : BlockStates → β × BlockStates) :
    persistReader.Answered serve fun w : World P =>
      ((f w.adapters).1, { w with adapters := (f w.adapters).2 }) :=
  Answered.of_silent (fun _ => ⟨[], rfl, (List.append_nil _).symm⟩) fun _ _ => rfl

/-- **The parts of a run** can be served. -/
theorem ofParts_answered : OfParts fun _ f => (persistReader (P := P)).Answered serve f where
  pure b := Answered.pure b
  bind hf hg := hf.bind hg
  clock := by
    apply Answered.of_silent
    · exact fun w => ⟨[], rfl, by rw [nowMs_eq]; exact (List.append_nil _).symm⟩
    · intro w rest
      rw [nowMs_eq, nowMs_eq]
      rfl
  store box ev := by
    apply Answered.of_asks
    intro w
    refine ⟨ev, fun rc => ⟨.event box ev rc, rc, World.emit (w.given (Stream'.const rc)) box ev, rfl, rfl, ?_⟩⟩
    exact fun rest => rfl
  write output index value := Answered.of_silent (fun _ => ⟨[], rfl, (List.append_nil _).symm⟩) fun _ _ => rfl
  look block := Answered.of_silent (fun _ => ⟨[], rfl, (List.append_nil _).symm⟩) fun _ _ => rfl
  ask block := by
    have hrefused : persistReader.Answered serve fun w : World P =>
        let state := recoveryStateGetForBlock w.adapters block
        (some (BitVec.ofInt 32 state.1), { w with adapters := state.2 }) :=
      (answered_adapters fun t => recoveryStateGetForBlock t block).bind fun state =>
        Answered.pure (some (BitVec.ofInt 32 state))
    exact answered_nextAnswer.bind fun answer =>
      (answered_adapters fun t => recoveryAllowAttemptForBlock t block answer).bind fun allowed =>
        Answered.ite (!allowed) hrefused (Answered.pure none)
  tell block := by
    have htold : ∀ answer, persistReader.Answered serve fun w : World P =>
        ((), { w with adapters := recoveryReportResultForBlock w.adapters block answer }) :=
      fun answer => answered_adapters fun t => ((), recoveryReportResultForBlock t block answer)
    exact answered_nextAnswer.bind htold
  invoke block := Answered.of_silent (fun _ => ⟨[.invoke block], rfl, rfl⟩) fun _ _ => rfl
  recover ev action := by
    apply Answered.of_silent
    · intro w
      unfold invokeRecovery
      cases w.env.recoveryCb
      · exact ⟨[], rfl, (List.append_nil _).symm⟩
      · exact ⟨[.recovery ev action], rfl, rfl⟩
    · intro w rest
      unfold invokeRecovery
      cases hcb : w.env.recoveryCb <;> simp [persistReader, World.given, hcb]

/-- **A run** can be served, whatever it nests. -/
theorem answered_loxguardRun (cfg : BlockCfg P) (fn : Script P) :
    persistReader.Answered serve (loxguardRun (some cfg) (some fn.exec)) :=
  ofParts_answered.loxguardRun (some cfg) (ofParts_answered.exec fn)

end Parts

/-! ### Calls that are served -/

/-- The call, with other outcomes of persistence to come. -/
def Call.given (outcomes : Stream' ℤ) (c : Call P) : Call P :=
  { c with env := { c.env with persist := outcomes } }

/-- The events calls stored, with the outcomes of their persistence. -/
def outcomesLog (os : List (Outcome P)) : List (ExtEvent P × ℤ) := persistLog (os.flatMap Outcome.effects)

section Calls

variable {τ : Type} (serve : τ → ExtEvent P → ℤ × τ)

theorem Call.step_served (w : World P) (t : τ) (c : Call P) :
    ∃ outcomes, Served serve t (persistLog ((c.given outcomes).step w).1.effects) := by
  obtain ⟨effs, report, w', hserved, htrace, hrun⟩ := answered_loxguardRun c.cfg c.fn { w with env := c.env } t
  have hexec := hrun (Stream'.const ok)
  refine ⟨(persistLog effs).map Prod.snd ++ₛ Stream'.const ok, ?_⟩
  have heffs : Call.effects (c.given ((persistLog effs).map Prod.snd ++ₛ Stream'.const ok)) w = effs := by
    apply effects_eq
    exact (congrArg (fun r => r.2.trace) hexec).trans htrace
  show Served serve t (persistLog (Call.effects _ w))
  rw [heffs]
  exact hserved

/-- **Any calls can be served**, one after the other, by one server. -/
theorem runAll_served (w : World P) (t : τ) (cs : List (Call P)) :
    ∃ outcomes : List (Stream' ℤ), outcomes.length = cs.length ∧
      Served serve t (outcomesLog (runAll w (List.zipWith Call.given outcomes cs)).1) := by
  induction cs generalizing w t with
  | nil => exact ⟨[], rfl, served_nil serve t⟩
  | cons c cs ih =>
    obtain ⟨outcomes, hfirst⟩ := Call.step_served serve w t c
    obtain ⟨rest, hlen, hrest⟩ := ih ((c.given outcomes).step w).2
      (after serve t (persistLog ((c.given outcomes).step w).1.effects))
    refine ⟨outcomes :: rest, by rw [List.length_cons, List.length_cons, hlen], ?_⟩
    show Served serve t (persistLog (List.flatMap Outcome.effects (_ :: _)))
    rw [List.flatMap_cons, persistLog_append]
    exact hfirst.append hrest

end Calls

/-! ### What the backends gain -/

section Backends

variable {N L : Type} (nv : Nvlog N) (db : Loxdb L)

/-- The adapters take an event. -/
def persistServe (s : Backends N L) (e : ExtEvent P) : ℤ × Backends N L := persistEvent nv db (some e) s

/-- **The backends gained these records**, each once: some in the log, in their
order, the others in the database under keys of their own that were new, and
nothing else changed. -/
structure Backends.GainedAll (s s' : Backends N L) (recs : List EventRecord) : Prop where
  gained : ∃ (logged : List EventRecord) (bound : List (CStr × EventRecord)),
    (logged ++ bound.map Prod.snd).Perm recs ∧ logged.Sublist recs ∧
    s'.log nv = s.log nv ++ logged ∧ (bound.map Prod.fst).Nodup ∧
    (∀ p ∈ bound, s.bindings db p.1 = none ∧ s'.bindings db p.1 = some p.2) ∧
    ∀ key ∉ bound.map Prod.fst, s'.bindings db key = s.bindings db key

/-- One of the backends holds the record. -/
def Backends.Holds (s : Backends N L) (rec : EventRecord) : Prop :=
  rec ∈ s.log nv ∨ ∃ key, s.bindings db key = some rec

/-- The records of the events of a log that were persisted. -/
def persistedRecords (log : List (ExtEvent P × ℤ)) : List EventRecord :=
  (log.filter fun e => e.2 = ok).map fun e => eventRecord e.1

variable {nv db} {s s' s'' : Backends N L} {recs recs' : List EventRecord}

namespace Backends.GainedAll

theorem of_kept (h : s.Kept nv db s') : GainedAll nv db s s' [] :=
  ⟨[], [], .nil, .slnil, by rw [h.1, List.append_nil], List.nodup_nil, nofun,
    fun key _ => congrFun h.2 key⟩

/-- **Gains add up**: keys that were new later are not the keys of before. -/
theorem trans (h : GainedAll nv db s s' recs) (h' : GainedAll nv db s' s'' recs') :
    GainedAll nv db s s'' (recs ++ recs') := by
  obtain ⟨logged, bound, hperm, hsub, hlog, hnodup, hbound, hother⟩ := h.gained
  obtain ⟨logged', bound', hperm', hsub', hlog', hnodup', hbound', hother'⟩ := h'.gained
  have hapart : ∀ p ∈ bound, p.1 ∉ bound'.map Prod.fst := by
    intro p hp hmem
    obtain ⟨q, hq, hkey⟩ := List.mem_map.mp hmem
    have hnone := (hbound' q hq).1
    rw [hkey, (hbound p hp).2] at hnone
    cases hnone
  refine ⟨logged ++ logged', bound ++ bound', ?_, hsub.append hsub', ?_, ?_, ?_, ?_⟩
  · have hswap : (logged ++ logged' ++ (bound ++ bound').map Prod.snd).Perm
        (logged ++ bound.map Prod.snd ++ (logged' ++ bound'.map Prod.snd)) := by
      rw [List.map_append, List.append_assoc, List.append_assoc]
      exact (List.perm_append_comm_assoc ..).append_left logged
    exact hswap.trans (hperm.append hperm')
  · rw [hlog', hlog, List.append_assoc]
  · rw [List.map_append]
    refine hnodup.append hnodup' fun key hkey hkey' => ?_
    obtain ⟨p, hp, rfl⟩ := List.mem_map.mp hkey
    exact hapart p hp hkey'
  · intro p hp
    rcases List.mem_append.mp hp with hp | hp
    · exact ⟨(hbound p hp).1, (hother' p.1 (hapart p hp)).trans (hbound p hp).2⟩
    · have hnew : p.1 ∉ bound.map Prod.fst := by
        intro hmem
        obtain ⟨q, hq, hkey⟩ := List.mem_map.mp hmem
        exact hapart q hq (hkey ▸ List.mem_map_of_mem hp)
      exact ⟨(hother p.1 hnew).symm.trans (hbound' p hp).1, (hbound' p hp).2⟩
  · intro key hkey
    rw [List.map_append, List.mem_append, not_or] at hkey
    exact (hother' key hkey.2).trans (hother key hkey.1)

theorem holds (h : GainedAll nv db s s' recs) {rec : EventRecord} (hrec : rec ∈ recs) :
    s'.Holds nv db rec := by
  obtain ⟨logged, bound, hperm, -, hlog, -, hbound, -⟩ := h.gained
  rcases List.mem_append.mp (hperm.mem_iff.mpr hrec) with hmem | hmem
  · left
    rw [hlog]
    exact List.mem_append_right _ hmem
  · obtain ⟨p, hp, rfl⟩ := List.mem_map.mp hmem
    exact Or.inr ⟨p.1, (hbound p hp).2⟩

end Backends.GainedAll

/-- **One event**: its record is gained if the adapters say so, and nothing
else. -/
theorem persistEvent_gainedAll (hnv : nv.Whole) (hdb : db.Whole) (hnew : s.NewKey db) (e : ExtEvent P) :
    s.GainedAll nv db (persistEvent nv db (some e) s).2
      (if (persistEvent nv db (some e) s).1 = ok then [eventRecord e] else []) := by
  have hstep := persistEvent_step hnv hdb s e
  cases hroute : s.route nv db (eventRecord e) with
  | none =>
    obtain ⟨hrc, -, hkept⟩ := hstep.refused hroute
    rw [if_neg hrc]
    exact .of_kept hkept
  | some target =>
    cases target with
    | nvlog =>
      obtain ⟨hrc, -, hlog, hbindings⟩ := hstep.nvlog hroute
      rw [if_pos hrc]
      exact ⟨[eventRecord e], [], .rfl, .refl _, hlog, List.nodup_nil, nofun, fun key _ => congrFun hbindings key⟩
    | loxdb =>
      obtain ⟨hrc, -, hlog, hbindings⟩ := hstep.loxdb hroute
      rw [if_pos hrc]
      refine ⟨[], [(eventKey s.seq, eventRecord e)], .rfl, List.nil_sublist _, ?_, List.nodup_singleton _, ?_, ?_⟩
      · rw [hlog, List.append_nil]
      · intro p hp
        rw [List.mem_singleton.mp hp, hbindings]
        exact ⟨hnew, Function.update_self ..⟩
      · intro key hkey
        rw [hbindings]
        exact Function.update_of_ne (fun h => hkey (List.mem_singleton.mpr h)) ..

/-- **Every event of a log**: the backends gained the records of the events
that were said to be persisted, each once, and nothing else. -/
theorem gainedAll_served (hnv : nv.Whole) (hdb : db.Whole) (log : List (ExtEvent P × ℤ)) {n : ℕ}
    (h : Numbered db s n) (hcount : n + log.length ≤ 2 ^ 32) (hserved : Served (persistServe nv db) s log) :
    s.GainedAll nv db (after (persistServe nv db) s log) (persistedRecords log) := by
  induction log generalizing s n with
  | nil => exact .of_kept ⟨rfl, rfl⟩
  | cons e log ih =>
    obtain ⟨hrc, hrest⟩ := served_cons.mp hserved
    rw [List.length_cons] at hcount
    have hfirst := persistEvent_gainedAll hnv hdb (h.newKey (by omega)) e.1
    have hlater : ∃ m ≤ n + 1, Numbered db (persistServe nv db s e.1).2 m := by
      rcases h.step hnv hdb ⟨e.1, s.nvlogReady, s.nvlog, s.forceFail⟩ with hnext | hnext
      · exact ⟨n, by omega, hnext⟩
      · exact ⟨n + 1, le_rfl, hnext⟩
    obtain ⟨m, hm, hnumbered⟩ := hlater
    have hall := hfirst.trans (ih hnumbered (by omega) hrest)
    have hrecs : persistedRecords (e :: log) =
        (if (persistEvent nv db (some e.1) s).1 = ok then [eventRecord e.1] else []) ++ persistedRecords log := by
      rw [show (persistEvent nv db (some e.1) s).1 = e.2 from hrc]
      by_cases hok : e.2 = ok <;> simp [persistedRecords, hok]
    rw [hrecs]
    exact hall

variable (nv db) in
/-- What calls leave in the backends, which were `s` before them: the record of
every event that was said to be persisted, each once, and nothing else; and the
event behind every report of a persisted event. -/
structure Delivered (s : Backends N L) (os : List (Outcome P)) : Prop where
  gained : s.GainedAll nv db (after (persistServe nv db) s (outcomesLog os)) (persistedRecords (outcomesLog os))
  reported : ∀ o ∈ os, o.report.eventPersisted ≠ 0 →
    ∃ ev, Backing (some o.block) o.effects ev o.report.eventPersisted ∧
      (after (persistServe nv db) s (outcomesLog os)).Holds nv db (eventRecord ev)

/-- **Calls whose events go to the adapters** are delivered, while the keys
last. -/
theorem delivered_of_served (hnv : nv.Whole) (hdb : db.Whole) (hseq : s.seq = 0) (hready : s.loxdbReady = false)
    (w : World P) (cs : List (Call P)) (hcount : (outcomesLog (runAll w cs).1).length ≤ 2 ^ 32)
    (hserved : Served (persistServe nv db) s (outcomesLog (runAll w cs).1)) :
    Delivered nv db s (runAll w cs).1 := by
  have hgained := gainedAll_served hnv hdb _ (numbered_fresh hseq hready) (by omega) hserved
  refine ⟨hgained, ?_⟩
  intro o ho hpersisted
  obtain ⟨c, -, w', rfl⟩ := Runs.mem_run ho
  have hcall := Call.step_backed w' c
  by_cases hbox : c.cfg.blackbox = none
  · rw [(hcall.null hbox).1] at hpersisted
    exact absurd rfl hpersisted
  · obtain ⟨ev, hbacking, -⟩ := (hcall.report hbox).backing
    obtain ⟨rc, hmem, hrc⟩ := hbacking.stored
    have hok : rc = ok := by
      by_contra hne
      exact hpersisted (hrc.trans (if_neg hne))
    have hrecord : eventRecord ev ∈ persistedRecords (outcomesLog (runAll w cs).1) := by
      obtain ⟨eff, heff, hasked⟩ := List.mem_filterMap.mp hmem
      have hlog : (ev, rc) ∈ outcomesLog (runAll w cs).1 :=
        List.mem_filterMap.mpr ⟨eff, List.mem_flatMap.mpr ⟨_, ho, heff⟩, hasked⟩
      exact List.mem_map.mpr ⟨(ev, rc), List.mem_filter.mpr ⟨hlog, decide_eq_true hok⟩, rfl⟩
    exact ⟨ev, hbacking, hgained.holds hrecord⟩

/-- **What is reported persisted is there.** In a process whose events go to
the adapters, from a counter of 0 and no database, and while the keys last:
after all calls the backends have gained the record of every event that was
said to be persisted, each once, and nothing else, so the event behind every
report of a persisted event is in one of them. -/
theorem runAll_delivers (hnv : nv.Whole) (hdb : db.Whole) (hseq : s.seq = 0) (hready : s.loxdbReady = false)
    (w : World P) (cs : List (Call P)) (hcount : (outcomesLog (runAll w cs).1).length ≤ 2 ^ 32)
    (hserved : Served (persistServe nv db) s (outcomesLog (runAll w cs).1)) :
    let s' := after (persistServe nv db) s (outcomesLog (runAll w cs).1)
    s.GainedAll nv db s' (persistedRecords (outcomesLog (runAll w cs).1)) ∧
      ∀ o ∈ (runAll w cs).1, o.report.eventPersisted ≠ 0 →
        ∃ ev, Backing (some o.block) o.effects ev o.report.eventPersisted ∧ s'.Holds nv db (eventRecord ev) :=
  let hall := delivered_of_served hnv hdb hseq hready w cs hcount hserved
  ⟨hall.gained, hall.reported⟩

/-- **Any calls** have outcomes that the adapters give them, and with those
they are delivered while the keys last. -/
theorem runAll_delivers_answered (hnv : nv.Whole) (hdb : db.Whole) (hseq : s.seq = 0)
    (hready : s.loxdbReady = false) (w : World P) (cs : List (Call P)) :
    ∃ outcomes : List (Stream' ℤ), outcomes.length = cs.length ∧
      let os := (runAll w (List.zipWith Call.given outcomes cs)).1
      Served (persistServe nv db) s (outcomesLog os) ∧
        ((outcomesLog os).length ≤ 2 ^ 32 → Delivered nv db s os) := by
  obtain ⟨outcomes, hlen, hserved⟩ := runAll_served (persistServe nv db) w s cs
  exact ⟨outcomes, hlen, hserved, fun hcount => delivered_of_served hnv hdb hseq hready w _ hcount hserved⟩

end Backends

/-- A log with room for three of the six events of a call. -/
theorem runAll_delivers_nested :
    let os := (runAll (World.start .quiet) [writingCall]).1
    let s' := after (persistServe (listLog 3) mapDb) freshBackends (outcomesLog os)
    freshBackends.GainedAll (listLog 3) mapDb s' (persistedRecords (outcomesLog os)) ∧
      ∀ o ∈ os, o.report.eventPersisted ≠ 0 → ∃ ev,
        Backing (some o.block) o.effects ev o.report.eventPersisted ∧
          s'.Holds (listLog 3) mapDb (eventRecord ev) :=
  runAll_delivers (listLog_whole 3) mapDb_whole rfl rfl (World.start .quiet) [writingCall]
    (by decide +kernel) (show _ = _ by decide +kernel)

end Loxguard
