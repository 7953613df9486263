/-
# Times of nested runs

The clock is read at the start and at the end of a run, also of each run nested
in it, and shows a time that only grows modulo 2^32. A run whose last reading
is less than 2^32 after its first takes exactly the time between the two
(`nested_times`), although the difference is formed modulo 2^32 and the clock
may pass 0 in between, and every run nested in it takes at most that. So a
timeout goes outwards: a run that nests one that timed out, under a limit that
is not below its own, times out itself.

Key definitions: `Env.Shows`, `later`, `Times`, `TimedBy`.
Key theorems: `timed_run`, `exec_timed`, `nested_times`, `timeout_outwards`.
-/
import Loxguard.Calls
import Loxguard.Lifecycle

namespace Loxguard

open Lib

variable {P : Platform}

/-! ### The clock -/

/-- The clock shows the times `t`, modulo 2^32. -/
def Env.Shows (env : Env) (t : ℕ → ℕ) : Prop := ∀ n, env.reading n = BitVec.ofNat 32 (t n)

/-- The times after `k` readings. -/
def later (t : ℕ → ℕ) (k : ℕ) : ℕ → ℕ := fun n => t (n + k)

theorem later_later (t : ℕ → ℕ) (k l : ℕ) : later (later t k) l = later t (l + k) :=
  funext fun n => congrArg t (Nat.add_assoc n l k)

theorem later_mono {t : ℕ → ℕ} (h : Monotone t) (k : ℕ) : Monotone (later t k) :=
  fun _ _ hle => h (Nat.add_le_add_right hle k)

theorem Env.Shows.tick {env : Env} {t : ℕ → ℕ} (h : env.Shows t) : env.tick.Shows (later t 1) :=
  fun n => (reading_tick env n).trans (h (n + 1))

/-- The clock is read through the time function only. -/
theorem Env.Shows.of_timeNow {env env' : Env} {t : ℕ → ℕ} (h : env.Shows t)
    (heq : env'.timeNow = env.timeNow) : env'.Shows t := by
  intro n
  rw [← h n, Env.reading, Env.reading, heq]

/-- The difference of two readings is the time between them, modulo 2^32. -/
theorem sub_readings {a b : ℕ} (h : a ≤ b) :
    BitVec.ofNat 32 b - BitVec.ofNat 32 a = BitVec.ofNat 32 (b - a) := by
  conv_lhs => rw [← Nat.sub_add_cancel h, BitVec.ofNat_add]
  exact BitVec.add_sub_cancel _ _

theorem toNat_time {d : ℕ} (h : d < 2 ^ 32) :
    ((BitVec.ofNat 32 d).setWidth P.sizeBits).toNat = d := by
  have hwide : 2 ^ 32 ≤ 2 ^ P.sizeBits := Nat.pow_le_pow_right (by decide) P.le_sizeBits
  rw [BitVec.toNat_setWidth, BitVec.toNat_ofNat, Nat.mod_eq_of_lt h]
  exact Nat.mod_eq_of_lt (h.trans_le hwide)

/-! ### Times of events -/

/-- What an event says of a time: a run took at most `d`, and longer than its
limit if it timed out. -/
structure TimesBy (d : ℕ) (ev : ExtEvent P) : Prop where
  took : ev.kind = .blockCompleted ∨ ev.kind = .blockTimeout → ev.index.toNat ≤ d
  limit : ev.kind = .blockTimeout → ev.limit.toNat < ev.index.toNat

/-- All events do. -/
def Times (d : ℕ) (evs : List (ExtEvent P)) : Prop := ∀ ev ∈ evs, TimesBy d ev

theorem timesBy_of_kind {ev : ExtEvent P} (hc : ev.kind ≠ .blockCompleted) (ht : ev.kind ≠ .blockTimeout)
    (d : ℕ) : TimesBy d ev :=
  ⟨fun h => h.elim (absurd · hc) (absurd · ht), (absurd · ht)⟩

theorem Times.mono {d d' : ℕ} {evs : List (ExtEvent P)} (h : Times d evs) (hle : d ≤ d') : Times d' evs :=
  fun ev hev => ⟨fun hk => ((h ev hev).took hk).trans hle, (h ev hev).limit⟩

theorem Times.append {d : ℕ} {evs evs' : List (ExtEvent P)} (h : Times d evs) (h' : Times d evs') :
    Times d (evs ++ evs') := by
  intro ev hev
  rcases List.mem_append.mp hev with hev | hev
  · exact h ev hev
  · exact h' ev hev

theorem times_single {d : ℕ} {ev : ExtEvent P} (h : TimesBy d ev) : Times d [ev] := by
  intro ev' hev
  rwa [List.mem_singleton.mp hev]

theorem times_completed {d : ℕ} (h : d < 2 ^ 32) (block : Option CStr) :
    TimesBy d (completedEvent block (BitVec.ofNat 32 d) : ExtEvent P) :=
  ⟨fun _ => (toNat_time h).le, nofun⟩

theorem times_verdict (cfg : BlockCfg P) (block : Option CStr) (rc : ℤ) (lastKind : EventKind) {d : ℕ}
    (h : d < 2 ^ 32) :
    Times d (verdictEvents cfg block rc lastKind (BitVec.ofNat 32 d)) := by
  unfold verdictEvents
  split
  · rename_i hto
    refine times_single ⟨fun _ => (toNat_time h).le, fun _ => ?_⟩
    have hlimit : cfg.timeoutMs = BitVec.ofNat 32 cfg.timeoutMs.toNat := by simp
    have hlt := hto.2
    rw [BitVec.lt_def, BitVec.toNat_ofNat, Nat.mod_eq_of_lt h] at hlt
    show (cfg.timeoutMs.setWidth P.sizeBits).toNat < ((BitVec.ofNat 32 d).setWidth P.sizeBits).toNat
    rw [hlimit, toNat_time cfg.timeoutMs.isLt, toNat_time h]
    exact hlt
  · split
    · exact times_single (timesBy_of_kind (by simp) (by simp) d)
    · split
      · exact times_single (timesBy_of_kind (by simp) (by simp) d)
      · exact fun _ hev => absurd hev List.not_mem_nil

/-! ### Runs -/

/-- `w'` comes after `w` by `k` readings of a clock that shows `t`, and the
events in between have times as they should if those readings are less than
2^32 apart. -/
structure Elapses (t : ℕ → ℕ) (k : ℕ) (w w' : World P) (effs : List (Effect P)) : Prop where
  trace : w'.trace = w.trace ++ effs
  shows : w'.env.Shows (later t k)
  times : t k - t 0 < 2 ^ 32 → Times (t k - t 0) (storedEvents effs)

/-- A guarded function reads the clock in the runs it starts only. -/
def TimedBy (fn : GuardFn P) : Prop :=
  ∀ (ctx : GuardCtx P) (w : World P) (box : ℕ) (t : ℕ → ℕ), ctx.blackbox = some box → Monotone t →
    w.env.Shows t → ∃ k effs, Elapses t k w (fn ctx w).2.2 effs

section Run

variable {t : ℕ → ℕ} {w w' w'' : World P} {effs effs' : List (Effect P)} {k l : ℕ}

theorem Elapses.trans (hmono : Monotone t) (h : Elapses t k w w' effs)
    (h' : Elapses (later t k) l w' w'' effs') : Elapses t (l + k) w w'' (effs ++ effs') where
  trace := by rw [h'.trace, h.trace, List.append_assoc]
  shows := by
    rw [← later_later]
    exact h'.shows
  times hspan := by
    have hstart : t 0 ≤ t k := hmono (Nat.zero_le k)
    have hend : t k ≤ t (l + k) := hmono (Nat.le_add_left k l)
    have hrest : later t k l - later t k 0 ≤ t (l + k) - t 0 := by
      show t (l + k) - t (0 + k) ≤ _
      rw [Nat.zero_add]
      omega
    rw [storedEvents_append]
    refine Times.append ?_ ?_
    · exact (h.times (by omega)).mono (by omega)
    · exact (h'.times (hrest.trans_lt hspan)).mono hrest

theorem elapses_quiet (h : w.env.Shows t) (htrace : w'.trace = w.trace ++ effs)
    (htime : w'.env.timeNow = w.env.timeNow) (hevs : Times 0 (storedEvents effs)) :
    Elapses t 0 w w' effs where
  trace := htrace
  shows := h.of_timeNow htime
  times _ := by
    rw [Nat.sub_self]
    exact hevs

/-- What a run did when it is known how long it took: its report and what it
stored. -/
structure Took (cfg : BlockCfg P) (t : ℕ → ℕ) (n : ℕ) (w : World P) (r : Report × World P)
    (effs : List (Effect P)) : Prop where
  elapses : Elapses t (n + 1) w r.2 effs
  duration : r.1.durationTicks = BitVec.ofNat 32 (t n - t 0)
  within : t n - t 0 < 2 ^ 32 → Times (t n - t 0) (storedEvents effs)
  timeout : t n - t 0 < 2 ^ 32 → ∀ ev ∈ storedEvents effs, ev.kind = .blockTimeout →
    0 < cfg.timeoutMs → cfg.timeoutMs.toNat ≤ ev.limit.toNat → r.1.result = .timeout

theorem times_entered (block : Option CStr) (d : ℕ) : TimesBy d (enteredEvent block : ExtEvent P) :=
  timesBy_of_kind (by simp [enteredEvent]) (by simp [enteredEvent]) d

theorem elapses_entered (h : w.env.Shows t) (cfg : BlockCfg P) (box : ℕ) :
    Elapses t 1 w (w.entered cfg box)
      [.event box (enteredEvent (some cfg.blockName)) w.env.persist.head] where
  trace := rfl
  shows := h.tick.of_timeNow rfl
  times _ := times_single (times_entered _ _)

theorem elapses_complete {d : ℕ} (h : w.env.Shows t) {guard : GuardCtx P} {box : ℕ}
    (hbox : guard.blackbox = some box) (rc : ℤ) (hd : guard.durationTicks = BitVec.ofNat 32 d) :
    (completeRun guard rc w).1 = reportOf guard rc ∧ ∃ effs,
      (completeRun guard rc w).2.trace = w.trace ++ effs ∧
      (completeRun guard rc w).2.env.Shows t ∧
      (d < 2 ^ 32 → Times d (storedEvents effs)) ∧
      ∀ ev ∈ storedEvents effs, ev.kind ≠ .blockTimeout := by
  have hevs : storedEvents (P := P) (.event box (completedEvent guard.blockName guard.durationTicks)
      w.env.persist.head :: recoveryEffects w.env guard rc) =
        [completedEvent guard.blockName guard.durationTicks] :=
    congrArg (_ :: ·) (storedEvents_recoveryEffects ..)
  rw [completeRun_eq hbox]
  refine ⟨rfl, _, List.append_assoc .., h.of_timeNow rfl, fun hlt => ?_, fun ev hev => ?_⟩
  · rw [List.singleton_append, hevs, hd]
    exact times_single (times_completed hlt _)
  · rw [List.singleton_append, hevs, List.mem_singleton] at hev
    rw [hev]
    exact show EventKind.blockCompleted ≠ .blockTimeout from nofun

/-- **The end of a run**: the clock is read a last time and the verdict is
stored. -/
theorem took_complete {cfg : BlockCfg P} {box n : ℕ} (h : Elapses t n w w' effs) (hmono : Monotone t)
    (evs : List (ExtEvent P)) {persist : Stream' ℤ}
    (htrace : w''.trace = w'.trace ++ eventEffects box evs persist)
    (htime : w''.env.timeNow = w'.env.tick.timeNow) {guard : GuardCtx P}
    (hbox : guard.blackbox = some box) (rc : ℤ)
    (hd : guard.durationTicks = BitVec.ofNat 32 (t n - t 0))
    (hevs : t n - t 0 < 2 ^ 32 → Times (t n - t 0) evs)
    (htimeout : t n - t 0 < 2 ^ 32 → ∀ ev ∈ storedEvents effs ++ evs, ev.kind = .blockTimeout →
      0 < cfg.timeoutMs → cfg.timeoutMs.toNat ≤ ev.limit.toNat →
      (reportOf guard rc).result = .timeout) :
    ∃ effs', Took cfg t n w (completeRun guard rc w'') effs' := by
  have hshows : w''.env.Shows (later t (n + 1)) := by
    have hticked := h.shows.tick
    rw [later_later, Nat.add_comm 1 n] at hticked
    exact hticked.of_timeNow htime
  obtain ⟨hreport, effs', htrace', hshows', htimes, hkinds⟩ := elapses_complete hshows hbox rc hd
  have hstored : storedEvents (effs ++ (eventEffects box evs persist ++ effs')) =
      (storedEvents effs ++ evs) ++ storedEvents effs' := by
    rw [storedEvents_append, storedEvents_append, storedEvents_eventEffects, List.append_assoc]
  have hwithin : t n - t 0 < 2 ^ 32 →
      Times (t n - t 0) (storedEvents (effs ++ (eventEffects box evs persist ++ effs'))) := by
    intro hlt
    rw [hstored]
    exact ((h.times hlt).append (hevs hlt)).append (htimes hlt)
  have hle : t n - t 0 ≤ t (n + 1) - t 0 := Nat.sub_le_sub_right (hmono (Nat.le_succ n)) _
  refine ⟨effs ++ (eventEffects box evs persist ++ effs'), ⟨?_, hshows', ?_⟩, ?_, hwithin, ?_⟩
  · rw [htrace', htrace, h.trace, List.append_assoc, List.append_assoc]
  · exact fun hlt => (hwithin (hle.trans_lt hlt)).mono hle
  · rw [hreport]
    exact hd
  · intro hlt ev hev hkind hpos hlimit
    rw [hreport]
    rw [hstored] at hev
    rcases List.mem_append.mp hev with hev | hev
    · exact htimeout hlt ev hev hkind hpos hlimit
    · exact absurd hkind (hkinds ev hev)

theorem took_refuse (h : w.env.Shows t) (hmono : Monotone t) {cfg : BlockCfg P} {box : ℕ}
    (hbox : cfg.blackbox = some box) (reason : CStr) (index limit : P.Size) (aux : BitVec 32)
    (adapters : BlockStates) (breaker : Option (Stream' BreakerAnswer)) :
    ∃ effs, Took cfg t 1 w (refuseRun (guardOf cfg (w.env.reading 0)) reason index limit aux
      { w.entered cfg box with adapters, env := { (w.entered cfg box).env with breaker } }) effs := by
  let entered : World P :=
    { w.entered cfg box with adapters, env := { (w.entered cfg box).env with breaker } }
  let ev : ExtEvent P := ⟨.blockError, some cfg.blockName, some reason, index, limit, aux⟩
  have helapses : Elapses t 1 w entered _ :=
    ⟨(elapses_entered h cfg box).trace, (elapses_entered h cfg box).shows.of_timeNow rfl,
      (elapses_entered h cfg box).times⟩
  have hguard : (guardOf cfg (w.env.reading 0)).blackbox = some box := hbox
  have hd : entered.env.reading 0 - w.env.reading 0 = BitVec.ofNat 32 (t 1 - t 0) := by
    rw [helapses.shows 0, h 0]
    exact sub_readings (hmono (Nat.zero_le 1))
  rw [refuseRun_eq hguard]
  refine took_complete helapses hmono [ev] rfl rfl hbox _ hd ?_ ?_
  · exact fun _ => times_single (timesBy_of_kind (by simp [ev]) (by simp [ev]) _)
  · intro _ ev' hev' hkind
    rcases List.mem_cons.mp hev' with rfl | hev'
    · cases hkind
    · rw [List.mem_singleton.mp hev'] at hkind
      cases hkind

theorem emitAll_timeNow (box : ℕ) (evs : List (ExtEvent P)) (w : World P) :
    (w.emitAll box evs).env.timeNow = w.env.timeNow := by
  rw [emitAll_env]

/-- An event that timed out under a limit that is not below the block's says
that the block times out. -/
theorem timedOut_of_times {cfg : BlockCfg P} {d : ℕ} (hd : d < 2 ^ 32) {ev : ExtEvent P}
    (h : TimesBy d ev) (hkind : ev.kind = .blockTimeout) (hpos : 0 < cfg.timeoutMs)
    (hlimit : cfg.timeoutMs.toNat ≤ ev.limit.toNat) : cfg.TimedOut (BitVec.ofNat 32 d) := by
  refine ⟨hpos, ?_⟩
  have hlt : cfg.timeoutMs.toNat < d :=
    calc cfg.timeoutMs.toNat ≤ ev.limit.toNat := hlimit
      _ < ev.index.toNat := h.limit hkind
      _ ≤ d := h.took (Or.inr hkind)
  rwa [BitVec.lt_def, BitVec.toNat_ofNat, Nat.mod_eq_of_lt hd]

theorem result_of_timedOut {cfg : BlockCfg P} {duration : BitVec 32} (h : cfg.TimedOut duration)
    (guard : GuardCtx P) (rc : ℤ) (lastKind : EventKind) (persist : Stream' ℤ) (scratch : Option (Arena P)) :
    (reportOf { guard.noteAll persist (verdictEvents cfg guard.blockName rc lastKind duration) with scratch }
      (verdictRc cfg rc duration)).result = .timeout := by
  rw [verdictEvents, if_pos h, verdictRc, if_pos h]
  rfl

/-- **A run** reads the clock at its start and at its end, and in between as
its function does. -/
theorem timed_run {cfg : BlockCfg P} {box : ℕ} (hbox : cfg.blackbox = some box) {fn : GuardFn P}
    (hfn : TimedBy fn) {body : Option CStr → ℕ → Span P → List (Mark P) → Bool → ℤ → Prop}
    (hstream : Streams fn body) (hmono : Monotone t) (h : w.env.Shows t) :
    ∃ n effs, Took cfg t n w (loxguardRun (some cfg) (some fn) w) effs := by
  rcases loxguardRun_cases hbox fn w with ⟨-, hrun⟩ | ⟨-, -, aux, adapters, breaker, hrun⟩ |
    ⟨-, -, adapters, breaker, hrun⟩
  · rw [hrun]
    exact ⟨1, took_refuse h hmono hbox _ _ _ 0 (w.entered cfg box).adapters
      (w.entered cfg box).env.breaker⟩
  · rw [hrun]
    exact ⟨1, took_refuse h hmono hbox _ _ _ aux adapters breaker⟩
  let guard := guardOf cfg (w.env.reading 0)
  let called : World P :=
    { w.entered cfg box with
      adapters
      env := { (w.entered cfg box).env with breaker }
      trace := (w.entered cfg box).trace ++ [.invoke (some cfg.blockName)] }
  have hguard : guard.blackbox = some box := hbox
  have hentered : Elapses t 1 w called
      [.event box (enteredEvent (some cfg.blockName)) w.env.persist.head, .invoke (some cfg.blockName)] :=
    ⟨List.append_assoc .., (elapses_entered h cfg box).shows.of_timeNow rfl,
      fun _ => times_single (times_entered _ _)⟩
  obtain ⟨k, effs, hbody⟩ := hfn guard called box (later t 1) hguard (later_mono hmono 1) hentered.shows
  obtain ⟨-, own, -, -, hafter⟩ := hstream guard called box hguard
  have hran := hentered.trans hmono hbody
  let d := t (k + 1) - t 0
  have hd : (fn guard called).2.2.env.reading 0 - (fn guard called).2.1.startTicks = BitVec.ofNat 32 d := by
    have hend := hran.shows 0
    rw [later, Nat.zero_add] at hend
    rw [hafter.startTicks, hend, show guard.startTicks = _ from h 0]
    exact sub_readings (hmono (Nat.zero_le _))
  let evs := verdictEvents cfg (fn guard called).2.1.blockName (fn guard called).1
    (fn guard called).2.1.lastEvent.kind (BitVec.ofNat 32 d)
  obtain ⟨scratch, adapters', breaker', hfinish⟩ := finishRun_eq cfg (hafter.blackbox.trans hguard)
    (fn guard called).1 (fn guard called).2.2 hd (show _ = evs from rfl)
  have hverdict : d < 2 ^ 32 → Times d evs := times_verdict cfg _ _ _
  let stopped : GuardCtx P := { (fn guard called).2.1 with durationTicks := BitVec.ofNat 32 d }
  let judged : GuardCtx P := { stopped.noteAll (fn guard called).2.2.env.persist evs with scratch }
  let closed : World P :=
    let w' := World.emitAll { (fn guard called).2.2 with env := (fn guard called).2.2.env.tick } box evs
    { w' with adapters := adapters', env := { w'.env with breaker := breaker' } }
  have hbox' : judged.blackbox = some box :=
    (noteAll_blackbox evs stopped _).trans (hafter.blackbox.trans hguard)
  have hd' : judged.durationTicks = BitVec.ofNat 32 d := noteAll_durationTicks evs stopped _
  have htrace : closed.trace = (fn guard called).2.2.trace ++ eventEffects box evs _ :=
    emitAll_trace box evs _
  have htime : closed.env.timeNow = (fn guard called).2.2.env.tick.timeNow :=
    emitAll_timeNow box evs _
  rw [hrun, show finishRun cfg _ _ _ = _ from hfinish]
  refine ⟨k + 1, took_complete hran hmono evs htrace htime hbox' _ hd' hverdict ?_⟩
  intro hlt ev hev hkind hpos hlimit
  have htimes : TimesBy d ev := ((hran.times hlt).append (hverdict hlt)) ev hev
  exact result_of_timedOut (timedOut_of_times hlt htimes hkind hpos hlimit) stopped _ _ _ scratch

end Run

/-! ### Guarded functions and calls -/

theorem elapses_refl {w : World P} {t : ℕ → ℕ} (h : w.env.Shows t) : Elapses t 0 w w [] :=
  elapses_quiet h (List.append_nil _).symm rfl fun _ hev => absurd hev List.not_mem_nil

theorem nested_timed (cfg : Option (BlockCfg P)) {fn : GuardFn P} (hfn : TimedBy fn)
    {body : Option CStr → ℕ → Span P → List (Mark P) → Bool → ℤ → Prop} (hstream : Streams fn body)
    {w : World P} {t : ℕ → ℕ} (hmono : Monotone t) (h : w.env.Shows t) :
    ∃ k effs, Elapses t k w (loxguardRun cfg (some fn) w).2 effs := by
  cases cfg with
  | none => exact ⟨0, [], elapses_refl h⟩
  | some c =>
    cases hbox : c.blackbox with
    | none =>
      rw [loxguardRun_of_null hbox]
      exact ⟨0, [], elapses_refl h⟩
    | some box =>
      obtain ⟨n, effs, htook⟩ := timed_run hbox hfn hstream hmono h
      exact ⟨n + 1, effs, htook.elapses⟩

theorem elapses_bounds {w : World P} {t : ℕ → ℕ} (h : w.env.Shows t) (box : ℕ) (block : Option CStr)
    (index limit : P.Size) : Elapses t 0 w (w.emit box (boundsEvent block index limit))
      [.event box (boundsEvent block index limit) w.env.persist.head] :=
  elapses_quiet h (emit_trace ..) rfl
    (times_single (timesBy_of_kind (by simp [boundsEvent]) (by simp [boundsEvent]) 0))

/-- **A guarded function** reads the clock in the runs it starts: by induction
on the script. -/
theorem exec_timed (s : Script P) : TimedBy s.exec := by
  induction s with
  | ret rc => exact fun ctx w box t _ _ h => ⟨0, [], elapses_refl h⟩
  | write index value next ih =>
    intro ctx w box t hbox hmono h
    by_cases hr : ctx.output.Rejects index
    · have hbounds := elapses_bounds h box ctx.blockName index ctx.output.len
      obtain ⟨k, effs, hrest⟩ := ih (ctx.output.writeRc index) (ctx.note _ w.env.persist.head) _ box
        (later t 0) hbox (later_mono hmono 0) hbounds.shows
      simp only [Script.exec, checkedOutputWriteU8_rejected hbox hr]
      exact ⟨k + 0, _, hbounds.trans hmono hrest⟩
    · obtain ⟨mem, hwrite⟩ := checkedOutputWriteU8_other hr value w
      obtain ⟨k, effs, hrest⟩ := ih (ctx.output.writeRc index) ctx { w with mem } box t hbox hmono h
      simp only [Script.exec, hwrite]
      exact ⟨k, effs, ⟨hrest.trace, hrest.shows, hrest.times⟩⟩
  | emitBounds index limit next ih =>
    intro ctx w box t hbox hmono h
    have hbounds := elapses_bounds h box ctx.blockName index limit
    obtain ⟨k, effs, hrest⟩ := ih (ctx.note _ w.env.persist.head) _ box (later t 0) hbox
      (later_mono hmono 0) hbounds.shows
    simp only [Script.exec, guardEmitBounds_eq hbox]
    exact ⟨k + 0, _, hbounds.trans hmono hrest⟩
  | run cfg fn next ihfn ihnext =>
    intro ctx w box t hbox hmono h
    obtain ⟨k, effs, hran⟩ := nested_timed cfg ihfn (exec_stream fn) hmono h
    obtain ⟨l, effs', hrest⟩ := ihnext (loxguardRun cfg (some fn.exec) w).1 ctx
      (loxguardRun cfg (some fn.exec) w).2 box (later t k) hbox (later_mono hmono k) hran.shows
    exact ⟨l + k, _, hran.trans hmono hrest⟩

section Calls

variable {c : Call P} {box : ℕ} (hbox : c.cfg.blackbox = some box) (w : World P) {t : ℕ → ℕ}
  (hmono : Monotone t) (hclock : c.env.Shows t)
include hbox hmono hclock

/-- A call reads the clock at its start and at its end. -/
theorem took_exec : ∃ n, Took c.cfg t n { w with env := c.env } (c.exec w) (c.effects w) := by
  obtain ⟨n, effs, htook⟩ := timed_run hbox (exec_timed c.fn) (exec_stream c.fn) hmono
    (show ({ w with env := c.env } : World P).env.Shows t from hclock)
  rw [effects_eq (w := w) htook.elapses.trace]
  exact ⟨n, htook⟩

/-- **Times of nested runs.** A call whose last clock reading is the `n`-th
after its first reports the time between the two modulo 2^32. When that is
less than 2^32 no run nested in the call took longer, and a nested run that
timed out took longer than its limit. -/
theorem nested_times : ∃ n, (c.exec w).2.env.Shows (later t (n + 1)) ∧
    (c.exec w).1.durationTicks = BitVec.ofNat 32 (t n - t 0) ∧
    (t n - t 0 < 2 ^ 32 → ∀ ev ∈ storedEvents (c.effects w),
      (ev.kind = .blockCompleted ∨ ev.kind = .blockTimeout →
        ev.index.toNat ≤ (c.exec w).1.durationTicks.toNat) ∧
      (ev.kind = .blockTimeout → ev.limit.toNat < ev.index.toNat)) := by
  obtain ⟨n, htook⟩ := took_exec hbox w hmono hclock
  refine ⟨n, htook.elapses.shows, htook.duration, fun hlt ev hev => ?_⟩
  rw [htook.duration, BitVec.toNat_ofNat, Nat.mod_eq_of_lt hlt]
  exact ⟨(htook.within hlt ev hev).took, (htook.within hlt ev hev).limit⟩

/-- **A timeout goes outwards.** On a clock whose readings are less than 2^32
apart, a call that nests a run that timed out under a limit not below its own
times out. -/
theorem timeout_outwards (hspan : ∀ n, t n - t 0 < 2 ^ 32) (hpos : 0 < c.cfg.timeoutMs)
    {ev : ExtEvent P} (hev : ev ∈ storedEvents (c.effects w)) (hkind : ev.kind = .blockTimeout)
    (hlimit : c.cfg.timeoutMs.toNat ≤ ev.limit.toNat) : (c.exec w).1.result = .timeout := by
  obtain ⟨n, htook⟩ := took_exec hbox w hmono hclock
  exact htook.timeout (hspan n) ev hev hkind hpos hlimit

end Calls

/-- A clock that passes 0 modulo 2^32 at its first readings. -/
def passingZero (n : ℕ) : ℕ := 2 ^ 32 - 3 + 5 * min n 10

theorem passingZero_mono : Monotone passingZero := by
  intro m n h
  exact Nat.add_le_add_left (Nat.mul_le_mul_left 5 (min_le_min_right 10 h)) _

/-- A call of `"a"` that nests a run of `"b"`, both with a time limit, on that
clock. -/
def slowCall : Call .host where
  cfg := { BlockCfg.plain (.lit "a") 0 with timeoutMs := 3 }
  fn := .run (some { BlockCfg.plain (.lit "b") 0 with timeoutMs := 4 }) (.ret 0) fun _ => .ret 0
  env := { Env.quiet with timeNow := some fun n => BitVec.ofNat 32 (passingZero n) }

theorem slowCall_shows : slowCall.env.Shows passingZero := fun _ => rfl

theorem nested_times_passing : ∃ n,
    (slowCall.exec (World.start .quiet)).2.env.Shows (later passingZero (n + 1)) ∧
    (slowCall.exec (World.start .quiet)).1.durationTicks =
      BitVec.ofNat 32 (passingZero n - passingZero 0) ∧
    (passingZero n - passingZero 0 < 2 ^ 32 →
      ∀ ev ∈ storedEvents (slowCall.effects (World.start .quiet)),
        (ev.kind = .blockCompleted ∨ ev.kind = .blockTimeout →
          ev.index.toNat ≤ (slowCall.exec (World.start .quiet)).1.durationTicks.toNat) ∧
        (ev.kind = .blockTimeout → ev.limit.toNat < ev.index.toNat)) :=
  nested_times rfl (World.start .quiet) passingZero_mono slowCall_shows

theorem timeout_outwards_passing :
    (slowCall.exec (World.start .quiet)).1.result = .timeout :=
  timeout_outwards rfl (World.start .quiet) passingZero_mono slowCall_shows
    (fun n => by unfold passingZero; omega) (by decide)
    (show ⟨.blockTimeout, some (.lit "b"), some (.lit "TIMEOUT"), 5, 4, 0⟩ ∈ _ by decide) rfl
    (by decide)

end Loxguard
