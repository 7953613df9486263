/-
# The life of the event log

The log of the nvlog adapter is made and taken away while events are persisted:
`lox_adapter_nvlog_init_ram` and `lox_adapter_nvlog_init_file` take down the log
there is and format a new one, `lox_adapter_nvlog_shutdown` takes it down.
Events go on to the database while there is none.

After any of these calls the log, if it is there, holds the events it took
since it was formatted and nothing of before, in order, and the database every
event it ever took, each under a key of its own (`ledger_run`). An
initialisation that fails leaves no log, also where there was one before.

The library behind the adapter is not part of the repository: it is given, and
a log that was formatted and mounted is empty (`NvlogLib.Formats`).

Key definitions: `NvlogLib`, `nvlogInitRam`, `nvlogInitFile`, `nvlogShutdown`,
`NvlogOp.step`, `Ledger`, `Ledger.Tells`.
Key theorems: `nvlogInitRam_seen`, `nvlogInitFile_seen`, `Ledger.Tells.step`,
`ledger_run`.
-/
import Loxguard.Persist

namespace Loxguard

open Lib

variable {P : Platform} {N L : Type}

/-! ### The adapter -/

/-- What the library behind the nvlog adapter does, with states `N` that hold
the log, its storage and what joins them: `nvlog_posix_open_ram` and
`nvlog_posix_open_file`, true for 0, `nvlog_format` and `nvlog_mount`, true for
`NVLOG_OK`, `nvlog_posix_inject_fail_after`, and the clearing of the three,
with `nvlog_posix_close`. -/
structure NvlogLib (N : Type) extends Nvlog N where
  openRam : N → BitVec 32 → Bool × N
  openFile : N → CStr → BitVec 32 → Bool × N
  format : N → BitVec 32 → Bool × N
  mount : N → BitVec 32 → Bool × N
  injectFailAfter : N → BitVec 32 → N
  close : N → N

/-- A log that was formatted and mounted is empty, and asking for a failure
later takes nothing out of it. -/
structure NvlogLib.Formats (lib : NvlogLib N) : Prop where
  empty : ∀ n size, (lib.format n size).1 = true → (lib.mount (lib.format n size).2 size).1 = true →
    lib.records (lib.mount (lib.format n size).2 size).2 = []
  injected : ∀ n k, lib.records (lib.injectFailAfter n k) = lib.records n

section Adapter

variable (lib : NvlogLib N)

/-- `lox_adapter_nvlog_shutdown`. -/
def nvlogShutdown (s : Backends N L) : Backends N L :=
  { s with nvlogReady := false, nvlog := lib.close s.nvlog }

/-- `lox_nvlog_init_common`. -/
def nvlogInitCommon (sizeBytes : BitVec 32) (s : Backends N L) : ℤ × Backends N L :=
  if sizeBytes < 256 then (errOverflow, s)
  else
    let (formatted, nvlog) := lib.format s.nvlog sizeBytes
    if !formatted then (errUnsupported, { s with nvlog, nvlogReady := false })
    else
      let (mounted, nvlog) := lib.mount nvlog sizeBytes
      if !mounted then (errUnsupported, { s with nvlog, nvlogReady := false })
      else (ok, { s with nvlog, nvlogReady := true })

/-- `lox_adapter_nvlog_init_ram`. -/
def nvlogInitRam (sizeBytes : BitVec 32) (s : Backends N L) : ℤ × Backends N L :=
  let s := nvlogShutdown lib s
  let (opened, nvlog) := lib.openRam s.nvlog sizeBytes
  let s := { s with nvlog }
  if !opened then (errUnsupported, s) else nvlogInitCommon lib sizeBytes s

/-- `lox_adapter_nvlog_init_file`. -/
def nvlogInitFile (path : Option CStr) (sizeBytes : BitVec 32) (s : Backends N L) : ℤ × Backends N L :=
  let s := nvlogShutdown lib s
  match path with
  | none => (errNull, s)
  | some path =>
    let (opened, nvlog) := lib.openFile s.nvlog path sizeBytes
    let s := { s with nvlog }
    if !opened then (errUnsupported, s) else nvlogInitCommon lib sizeBytes s

/-- A call of the adapters. -/
inductive NvlogOp (P : Platform)
  | initRam (sizeBytes : BitVec 32)
  | initFile (path : Option CStr) (sizeBytes : BitVec 32)
  | shutdown
  | injectFailAfter (n : BitVec 32)
  | persist (event : Option (ExtEvent P))

/-- What is seen of a call: its status, 0 where it has none, and the backend
that took the event. -/
structure NvlogSeen (P : Platform) where
  op : NvlogOp P
  rc : ℤ
  target : Option Target

/-- Make the call. -/
def NvlogOp.step (db : Loxdb L) (s : Backends N L) (op : NvlogOp P) : NvlogSeen P × Backends N L :=
  match op with
  | initRam sizeBytes =>
    let r := nvlogInitRam lib sizeBytes s
    (⟨op, r.1, none⟩, r.2)
  | initFile path sizeBytes =>
    let r := nvlogInitFile lib path sizeBytes s
    (⟨op, r.1, none⟩, r.2)
  | shutdown => (⟨op, ok, none⟩, nvlogShutdown lib s)
  | injectFailAfter n => (⟨op, ok, none⟩, { s with nvlog := lib.injectFailAfter s.nvlog n })
  | persist event =>
    let r := persistEvent lib.toNvlog db event s
    (⟨op, r.1, event.bind fun e => s.route lib.toNvlog db (eventRecord e)⟩, r.2)

end Adapter

/-! ### The ledger -/

/-- What the backends ought to hold: the records of the log, if there is one,
and those of the database in the order they came. -/
structure Ledger where
  log : Option (List EventRecord)
  db : List EventRecord

/-- The ledger after a call: a new log is empty, an event goes to the backend
that took it, and what is taken down is gone. -/
def Ledger.next (l : Ledger) (seen : NvlogSeen P) : Ledger :=
  match seen.op with
  | .initRam _ | .initFile _ _ => { l with log := if seen.rc = ok then some [] else none }
  | .shutdown => { l with log := none }
  | .injectFailAfter _ | .persist none => l
  | .persist (some e) =>
    match seen.target with
    | some .nvlog => { l with log := l.log.map (· ++ [eventRecord e]) }
    | some .loxdb => { l with db := l.db ++ [eventRecord e] }
    | none => l

/-- The database holds exactly these records, each under a key of its own. -/
def Backends.Keeps (db : Loxdb L) (s : Backends N L) (recs : List EventRecord) : Prop :=
  ∃ bound : List (CStr × EventRecord), bound.map Prod.snd = recs ∧ (bound.map Prod.fst).Nodup ∧
    ∀ key rec, s.bindings db key = some rec ↔ (key, rec) ∈ bound

/-- **The ledger tells what the backends hold.** -/
structure Ledger.Tells (nv : Nvlog N) (db : Loxdb L) (l : Ledger) (s : Backends N L) : Prop where
  log : l.log = if s.nvlogReady then some (s.log nv) else none
  db : s.Keeps db l.db

section Keeps

variable {db : Loxdb L} {s s' : Backends N L} {recs : List EventRecord}

theorem Backends.Keeps.of_eq (h : s.Keeps db recs) (hsame : s'.bindings db = s.bindings db) :
    s'.Keeps db recs := by
  obtain ⟨bound, hrecs, hnodup, hbound⟩ := h
  exact ⟨bound, hrecs, hnodup, fun key rec => by rw [hsame, hbound]⟩

theorem Backends.Keeps.update (h : s.Keeps db recs) {key : CStr} (hnew : s.bindings db key = none)
    {rec : EventRecord} (hset : s'.bindings db = Function.update (s.bindings db) key (some rec)) :
    s'.Keeps db (recs ++ [rec]) := by
  obtain ⟨bound, hrecs, hnodup, hbound⟩ := h
  have hfresh : key ∉ bound.map Prod.fst := by
    intro hmem
    obtain ⟨p, hp, rfl⟩ := List.mem_map.mp hmem
    have hsome := (hbound p.1 p.2).mpr hp
    rw [hnew] at hsome
    cases hsome
  refine ⟨bound ++ [(key, rec)], by rw [List.map_append, hrecs]; rfl, ?_, fun k r => ?_⟩
  · rw [List.map_append]
    refine hnodup.append (List.nodup_singleton _) fun k hk hk' => ?_
    rw [List.mem_singleton.mp hk'] at hk
    exact hfresh hk
  · rw [hset, List.mem_append, List.mem_singleton]
    by_cases hk : k = key
    · subst hk
      have hout : (k, r) ∉ bound := fun hmem => hfresh (List.mem_map_of_mem hmem)
      rw [Function.update_self, Option.some_inj, Prod.mk.injEq]
      simp [hout, eq_comm]
    · rw [Function.update_of_ne hk, hbound]
      simp [hk]

end Keeps

/-! ### Steps -/

section Steps

variable {lib : NvlogLib N} {db : Loxdb L} {s : Backends N L} {l : Ledger}

/-- **An initialisation** leaves an empty log if it is `OK` and none
otherwise. The database is left alone. -/
structure Initialised (lib : NvlogLib N) (s : Backends N L) (r : ℤ × Backends N L) : Prop where
  ready : r.2.nvlogReady = true ↔ r.1 = ok
  empty : r.1 = ok → lib.records r.2.nvlog = []
  database : r.2 = { s with nvlogReady := r.2.nvlogReady, nvlog := r.2.nvlog }

theorem initialised_of_failed {r : ℤ × Backends N L} (hrc : r.1 ≠ ok) (hready : r.2.nvlogReady = false)
    (hdatabase : r.2 = { s with nvlogReady := r.2.nvlogReady, nvlog := r.2.nvlog }) :
    Initialised lib s r :=
  ⟨by rw [hready]; exact iff_of_false Bool.false_ne_true hrc, fun h => absurd h hrc, hdatabase⟩

theorem nvlogInitCommon_seen (hlib : lib.Formats) (sizeBytes : BitVec 32) (hready : s.nvlogReady = false) :
    Initialised lib s (nvlogInitCommon lib sizeBytes s) := by
  unfold nvlogInitCommon
  by_cases hsmall : sizeBytes < 256
  · rw [if_pos hsmall]
    exact initialised_of_failed (show errOverflow ≠ ok by decide) hready rfl
  rw [if_neg hsmall]
  cases hformat : (lib.format s.nvlog sizeBytes).1 with
  | false =>
    simp only [hformat]
    exact initialised_of_failed errUnsupported_ne_ok rfl rfl
  | true =>
    cases hmount : (lib.mount (lib.format s.nvlog sizeBytes).2 sizeBytes).1 with
    | false =>
      simp only [hformat, hmount]
      exact initialised_of_failed errUnsupported_ne_ok rfl rfl
    | true =>
      simp only [hformat, hmount]
      exact ⟨iff_of_true rfl rfl, fun _ => hlib.empty _ _ hformat hmount, rfl⟩

/-- What an initialisation does after the log was taken down. -/
theorem Initialised.of_shutdown {n : N} {r : ℤ × Backends N L}
    (h : Initialised lib { s with nvlogReady := false, nvlog := n } r) : Initialised lib s r :=
  ⟨h.ready, h.empty, h.database⟩

theorem nvlogInitRam_seen (hlib : lib.Formats) (sizeBytes : BitVec 32) (s : Backends N L) :
    Initialised lib s (nvlogInitRam lib sizeBytes s) := by
  unfold nvlogInitRam nvlogShutdown
  cases hopen : (lib.openRam (lib.close s.nvlog) sizeBytes).1 with
  | false =>
    simp only [hopen]
    exact initialised_of_failed errUnsupported_ne_ok rfl rfl
  | true =>
    simp only [hopen]
    exact (nvlogInitCommon_seen hlib sizeBytes rfl).of_shutdown

theorem nvlogInitFile_seen (hlib : lib.Formats) (path : Option CStr) (sizeBytes : BitVec 32)
    (s : Backends N L) : Initialised lib s (nvlogInitFile lib path sizeBytes s) := by
  unfold nvlogInitFile nvlogShutdown
  cases path with
  | none => exact initialised_of_failed (show errNull ≠ ok by decide) rfl rfl
  | some path =>
    cases hopen : (lib.openFile (lib.close s.nvlog) path sizeBytes).1 with
    | false =>
      simp only [hopen]
      exact initialised_of_failed errUnsupported_ne_ok rfl rfl
    | true =>
      simp only [hopen]
      exact (nvlogInitCommon_seen hlib sizeBytes rfl).of_shutdown

theorem Ledger.Tells.initialised (h : l.Tells lib.toNvlog db s) {r : ℤ × Backends N L}
    (hr : Initialised lib s r) :
    Ledger.Tells lib.toNvlog db { l with log := if r.1 = ok then some [] else none } r.2 := by
  refine ⟨?_, h.db.of_eq (by rw [hr.database]; rfl)⟩
  by_cases hrc : r.1 = ok
  · have hempty : r.2.log lib.toNvlog = [] := hr.empty hrc
    rw [if_pos (hr.ready.mpr hrc), hempty]
    exact if_pos hrc
  · rw [if_neg fun hready => hrc (hr.ready.mp hready)]
    exact if_neg hrc

theorem persistEvent_nvlogReady (nv : Nvlog N) (event : Option (ExtEvent P)) (s : Backends N L) :
    (persistEvent nv db event s).2.nvlogReady = s.nvlogReady := by
  have hensure : ∀ s : Backends N L, (loxdbEnsureInit db s).2.nvlogReady = s.nvlogReady := by
    intro s
    simp only [loxdbEnsureInit]
    split_ifs <;> rfl
  have hloxdb : ∀ s : Backends N L, (loxdbPersistEvent db event s).2.nvlogReady = s.nvlogReady := by
    intro s
    cases event with
    | none => rfl
    | some e =>
      simp only [loxdbPersistEvent]
      split_ifs
      · rfl
      · exact hensure s
      · exact hensure s
      · exact hensure s
  cases event with
  | none => rfl
  | some e =>
    simp only [persistEvent]
    split_ifs
    · exact hloxdb s
    · exact hloxdb _
    · rfl

theorem Ledger.Tells.persist (hnv : lib.Whole) (hdb : db.Whole) (h : l.Tells lib.toNvlog db s)
    (hnew : s.NewKey db) (e : ExtEvent P) :
    (l.next (NvlogOp.step lib db s (.persist (some e))).1).Tells lib.toNvlog db
      (NvlogOp.step lib db s (.persist (some e))).2 := by
  have hstep := persistEvent_step hnv hdb s e
  have hready : (persistEvent lib.toNvlog db (some e) s).2.nvlogReady = s.nvlogReady :=
    persistEvent_nvlogReady ..
  show Ledger.Tells lib.toNvlog db (match s.route lib.toNvlog db (eventRecord e) with
    | some .nvlog => { l with log := l.log.map (· ++ [eventRecord e]) }
    | some .loxdb => { l with db := l.db ++ [eventRecord e] }
    | none => l) (persistEvent lib.toNvlog db (some e) s).2
  cases hroute : s.route lib.toNvlog db (eventRecord e) with
  | none =>
    obtain ⟨-, -, hlog, hbindings⟩ := hstep.refused hroute
    exact ⟨by rw [hready, hlog]; exact h.log, h.db.of_eq hbindings⟩
  | some target =>
    cases target with
    | nvlog =>
      obtain ⟨-, -, hlog, hbindings⟩ := hstep.nvlog hroute
      refine ⟨?_, h.db.of_eq hbindings⟩
      rw [hready, hlog]
      show l.log.map _ = _
      rw [h.log]
      split_ifs <;> rfl
    | loxdb =>
      obtain ⟨-, -, hlog, hbindings⟩ := hstep.loxdb hroute
      exact ⟨by rw [hready, hlog]; exact h.log, h.db.update hnew hbindings⟩

/-- **One call** keeps the ledger, while the next key is new. -/
theorem Ledger.Tells.step (hnv : lib.Whole) (hlib : lib.Formats) (hdb : db.Whole)
    (h : l.Tells lib.toNvlog db s) (hnew : s.NewKey db) (op : NvlogOp P) :
    (l.next (op.step lib db s).1).Tells lib.toNvlog db (op.step lib db s).2 := by
  cases op with
  | initRam sizeBytes => exact h.initialised (nvlogInitRam_seen hlib sizeBytes s)
  | initFile path sizeBytes => exact h.initialised (nvlogInitFile_seen hlib path sizeBytes s)
  | shutdown => exact ⟨rfl, h.db⟩
  | injectFailAfter n =>
    refine ⟨?_, h.db⟩
    show l.log = if s.nvlogReady then some (lib.records (lib.injectFailAfter s.nvlog n)) else none
    rw [hlib.injected]
    exact h.log
  | persist event =>
    cases event with
    | none => exact h
    | some e => exact h.persist hnv hdb hnew e

/-- A call moves the counter by one at most. -/
theorem NvlogOp.step_numbered (hnv : lib.Whole) (hlib : lib.Formats) (hdb : db.Whole) {n : ℕ}
    (h : Numbered db s n) (op : NvlogOp P) :
    ∃ m ≤ n + 1, Numbered db (op.step lib db s).2 m := by
  have hinitialised : ∀ r : ℤ × Backends N L, Initialised lib s r → Numbered db r.2 n := by
    intro r hr
    rw [hr.database]
    exact ⟨h.seq, h.keys⟩
  cases op with
  | initRam sizeBytes => exact ⟨n, by omega, hinitialised _ (nvlogInitRam_seen hlib sizeBytes s)⟩
  | initFile path sizeBytes => exact ⟨n, by omega, hinitialised _ (nvlogInitFile_seen hlib path sizeBytes s)⟩
  | shutdown => exact ⟨n, by omega, h.seq, h.keys⟩
  | injectFailAfter k => exact ⟨n, by omega, h.seq, h.keys⟩
  | persist event =>
    cases event with
    | none => exact ⟨n, by omega, h⟩
    | some e =>
      rcases h.step hnv hdb ⟨e, s.nvlogReady, s.nvlog, s.forceFail⟩ with hnext | hnext
      · exact ⟨n, by omega, hnext⟩
      · exact ⟨n + 1, le_rfl, hnext⟩

/-- Calls while the counter has not come round. -/
theorem Ledger.Tells.run (hnv : lib.Whole) (hlib : lib.Formats) (hdb : db.Whole) (ops : List (NvlogOp P))
    {n : ℕ} (h : l.Tells lib.toNvlog db s) (hn : Numbered db s n) (hcount : n + ops.length ≤ 2 ^ 32) :
    ((Runs.run (NvlogOp.step lib db) s ops).1.foldl Ledger.next l).Tells lib.toNvlog db
      (Runs.run (NvlogOp.step lib db) s ops).2 := by
  induction ops generalizing s l n with
  | nil => exact h
  | cons op ops ih =>
    rw [List.length_cons] at hcount
    obtain ⟨m, hm, hnext⟩ := op.step_numbered hnv hlib hdb hn
    exact ih (h.step hnv hlib hdb (hn.newKey (by omega)) op) hnext (by omega)

/-- **The life of the event log.** From no log, no database and a counter of 0,
after any calls while the keys last: the log is there if the last call that
made one or took it down made it, and holds the events it took since then, in
order; the database holds every event it ever took, each under a key of its
own, and nothing else. -/
theorem ledger_run (hnv : lib.Whole) (hlib : lib.Formats) (hdb : db.Whole) (hlog : s.nvlogReady = false)
    (hready : s.loxdbReady = false) (hseq : s.seq = 0) (ops : List (NvlogOp P))
    (hcount : ops.length ≤ 2 ^ 32) :
    ((Runs.run (NvlogOp.step lib db) s ops).1.foldl Ledger.next ⟨none, []⟩).Tells lib.toNvlog db
      (Runs.run (NvlogOp.step lib db) s ops).2 := by
  have hkeeps : s.Keeps db [] := by
    refine ⟨[], rfl, List.nodup_nil, fun key rec => iff_of_false ?_ List.not_mem_nil⟩
    unfold Backends.bindings
    simp [hready]
  have hstart : Ledger.Tells lib.toNvlog db ⟨none, []⟩ s := ⟨by rw [hlog]; rfl, hkeeps⟩
  exact hstart.run hnv hlib hdb ops (numbered_fresh hseq hready) (by omega)

end Steps

/-- A log of at most `capacity` records that can be made in memory, and not in
a file. -/
def ramLog (capacity : ℕ) : NvlogLib (List EventRecord) where
  toNvlog := listLog capacity
  openRam n _ := (true, n)
  openFile n _ _ := (false, n)
  format _ _ := (true, [])
  mount n _ := (true, n)
  injectFailAfter n _ := n
  close n := n

theorem ramLog_formats (capacity : ℕ) : (ramLog capacity).Formats where
  empty _ _ _ _ := rfl
  injected _ _ := rfl

/-- No log and no database yet. -/
def noBackends : Backends (List EventRecord) (CStr → Option EventRecord) :=
  ⟨false, [], false, fun _ => none, false, 0, 0⟩

/-- A log with room for one record, three events, and then a file that cannot
be opened. -/
theorem ledger_run_ram :
    let ops : List (NvlogOp .host) := [.persist (some forgedEvent), .initRam 256, .persist (some forgedEvent),
      .persist (some wideEvent), .initFile (some (.lit "log")) 256]
    let r := Runs.run (NvlogOp.step (ramLog 1) mapDb) noBackends ops
    (r.1.foldl Ledger.next ⟨none, []⟩).Tells (ramLog 1).toNvlog mapDb r.2 :=
  ledger_run (listLog_whole 1) (ramLog_formats 1) mapDb_whole rfl rfl rfl _ (by decide)

end Loxguard
