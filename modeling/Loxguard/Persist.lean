/-
# Persistence of events

`lox_adapter_persist_event` with both adapters built in. An event goes to the
log, or, when the log is not ready or refuses it, to the database, under a key
made from a counter (`Backends.route`). The log and the database are not part
of the repository: what they do is given, and each stores a record whole or
fails and stores nothing (`Nvlog.Whole`, `Loxdb.Whole`).

A record has 32 bits for the index and the limit of an event, and a key is
used again after `2 ^ 32` of them. So an event is stored exactly once and
faithfully when its index and limit have 32 bits and its key is new
(`persist_exactly_once_iff`), which the key is in the first `2 ^ 32` attempts
(`attempts_exactlyOnce`).

Key definitions: `EventRecord`, `Nvlog`, `Loxdb`, `Backends`, `persistEvent`,
`Backends.route`, `ExactlyOnce`.
Key theorems: `persistEvent_step`, `persist_exactly_once_iff`,
`attempts_exactlyOnce`.
-/
import Loxguard.Format.Event
import Loxguard.Lib.Runs

namespace Loxguard

open Lib Lib.Decimal

variable {P : Platform}

/-! ### Records -/

/-- `lox_nvlog_event_record_t` and `lox_loxdb_event_record_t`, which have the
same fields. -/
structure EventRecord where
  kind : BitVec 32
  index : BitVec 32
  limit : BitVec 32
  auxCode : BitVec 32
  blockName : CharBuf 64
  reason : CharBuf 64
deriving DecidableEq

/-- A text of a zeroed record, which `NULL` leaves zero. -/
def recordText : Option CStr → CharBuf 64
  | none => .zero 64
  | some s => copyCstr (.zero 64) (some s)

/-- The record both adapters make of an event. -/
def eventRecord (e : ExtEvent P) : EventRecord where
  kind := BitVec.ofNat 32 e.kind.code
  index := e.index.setWidth 32
  limit := e.limit.setWidth 32
  auxCode := e.auxCode
  blockName := recordText e.blockName
  reason := recordText e.reason

/-- The record says what the event says, of its texts the first 63 bytes, and
nothing for `NULL`. -/
structure EventRecord.Faithful (rec : EventRecord) (e : ExtEvent P) : Prop where
  kind : rec.kind.toNat = e.kind.code
  index : rec.index.toNat = e.index.toNat
  limit : rec.limit.toNat = e.limit.toNat
  auxCode : rec.auxCode = e.auxCode
  blockName : rec.blockName.text.bytes = ((e.blockName.map CStr.bytes).getD []).take 63
  reason : rec.reason.text.bytes = ((e.reason.map CStr.bytes).getD []).take 63

/-- The index and the limit of the event have 32 bits. -/
def Event.Narrow (e : ExtEvent P) : Prop := e.index.toNat < 2 ^ 32 ∧ e.limit.toNat < 2 ^ 32

theorem text_recordText (t : Option CStr) :
    (recordText t).text.bytes = ((t.map CStr.bytes).getD []).take 63 := by
  cases t with
  | none => rw [recordText, CharBuf.text_zero]; rfl
  | some s => rw [recordText, copyCstr, CharBuf.text_copy]; rfl

/-- **A record is faithful** exactly when nothing is cut off the index and the
limit. -/
theorem faithful_iff (e : ExtEvent P) : (eventRecord e).Faithful e ↔ e.Narrow := by
  have hcut : ∀ x : P.Size, (x.setWidth 32).toNat = x.toNat ↔ x.toNat < 2 ^ 32 := by
    intro x
    rw [BitVec.toNat_setWidth]
    exact ⟨fun h => h ▸ Nat.mod_lt _ (by decide), Nat.mod_eq_of_lt⟩
  have hkind : (BitVec.ofNat 32 e.kind.code).toNat = e.kind.code := by
    have hle := e.kind.code_le
    rw [BitVec.toNat_ofNat]
    exact Nat.mod_eq_of_lt (by omega)
  constructor
  · intro h
    exact ⟨(hcut e.index).mp h.index, (hcut e.limit).mp h.limit⟩
  · intro h
    exact ⟨hkind, (hcut e.index).mpr h.1, (hcut e.limit).mpr h.2, rfl, text_recordText _, text_recordText _⟩

/-! ### The backends -/

/-- What the log does, with states `N`: `nvlog_append`, true for `NVLOG_OK`,
and the records the log holds. -/
structure Nvlog (N : Type) where
  append : N → EventRecord → Bool × N
  records : N → List EventRecord

/-- The log stores a record whole, or fails and stores nothing. -/
structure Nvlog.Whole {N : Type} (nv : Nvlog N) : Prop where
  stored : ∀ n rec, (nv.append n rec).1 = true → nv.records (nv.append n rec).2 = nv.records n ++ [rec]
  failed : ∀ n rec, (nv.append n rec).1 = false → nv.records (nv.append n rec).2 = nv.records n

/-- What the database does, with states `L`, its storage among them:
`lox_port_ram_init`, `lox_init` and `lox_kv_set`, true for `LOX_OK`,
`lox_port_ram_deinit`, and the records it holds by their keys. -/
structure Loxdb (L : Type) where
  portRamInit : L → Bool × L
  portRamDeinit : L → L
  init : L → Bool × L
  kvSet : L → CStr → EventRecord → Bool × L
  lookup : L → CStr → Option EventRecord

/-- A database on a new storage is empty, and it stores a record whole, or
fails and stores nothing. -/
structure Loxdb.Whole {L : Type} (db : Loxdb L) : Prop where
  fresh : ∀ l, (db.portRamInit l).1 = true → (db.init (db.portRamInit l).2).1 = true →
    db.lookup (db.init (db.portRamInit l).2).2 = fun _ => none
  stored : ∀ l key rec, (db.kvSet l key rec).1 = true →
    db.lookup (db.kvSet l key rec).2 = Function.update (db.lookup l) key (some rec)
  failed : ∀ l key rec, (db.kvSet l key rec).1 = false → db.lookup (db.kvSet l key rec).2 = db.lookup l

/-- The state of the two adapters. -/
structure Backends (N L : Type) where
  nvlogReady : Bool
  nvlog : N
  loxdbReady : Bool
  loxdb : L
  forceFail : Bool
  seq : BitVec 32
  persistCount : BitVec 32

section Adapters

variable {N L : Type} (nv : Nvlog N) (db : Loxdb L)

/-- `lox_loxdb_ensure_init`. -/
def loxdbEnsureInit (s : Backends N L) : ℤ × Backends N L :=
  if s.loxdbReady then (ok, s)
  else
    let (opened, loxdb) := db.portRamInit s.loxdb
    if !opened then (errUnsupported, { s with loxdb })
    else
      let (started, loxdb) := db.init loxdb
      if !started then (errUnsupported, { s with loxdb := db.portRamDeinit loxdb })
      else (ok, { s with loxdb, loxdbReady := true })

/-- The key `lox_adapter_loxdb_persist_event` writes into 32 bytes. -/
def eventKey (seq : BitVec 32) : CStr :=
  bufText (snprintf (ascii "loxguard_ev_" ++ decimal seq.toNat) 32).text

/-- `lox_adapter_loxdb_persist_event`. -/
def loxdbPersistEvent (event : Option (ExtEvent P)) (s : Backends N L) : ℤ × Backends N L :=
  match event with
  | none => (errNull, s)
  | some e =>
    if s.forceFail then (errUnsupported, s)
    else
      let (rc, s) := loxdbEnsureInit db s
      if rc ≠ ok then (errUnsupported, s)
      else
        let key := eventKey s.seq
        let s := { s with seq := s.seq + 1 }
        let (stored, loxdb) := db.kvSet s.loxdb key (eventRecord e)
        let s := { s with loxdb }
        if !stored then (errUnsupported, s)
        else (ok, { s with persistCount := s.persistCount + 1 })

/-- `lox_adapter_persist_event`. -/
def persistEvent (event : Option (ExtEvent P)) (s : Backends N L) : ℤ × Backends N L :=
  match event with
  | none => (errNull, s)
  | some e =>
    if !s.nvlogReady then loxdbPersistEvent db event s
    else
      let (stored, nvlog) := nv.append s.nvlog (eventRecord e)
      let s := { s with nvlog }
      if !stored then loxdbPersistEvent db event s else (ok, s)

end Adapters

/-! ### What the backends hold -/

namespace Backends

variable {N L : Type} (nv : Nvlog N) (db : Loxdb L) (s s' : Backends N L)

/-- The records of the log. -/
def log : List EventRecord := nv.records s.nvlog

/-- The records of the database by their keys, none before it is ready. -/
def bindings (key : CStr) : Option EventRecord := if s.loxdbReady then db.lookup s.loxdb key else none

/-- Neither backend gained or lost anything. -/
def Kept : Prop := s'.log nv = s.log nv ∧ s'.bindings db = s.bindings db

/-- Exactly one backend gained exactly this record. -/
def Gained (rec : EventRecord) : Prop :=
  (s'.log nv = s.log nv ++ [rec] ∧ s'.bindings db = s.bindings db) ∨
    (s'.log nv = s.log nv ∧ ∃ key, s.bindings db key = none ∧
      s'.bindings db = Function.update (s.bindings db) key (some rec))

/-- The database that would take a record: the one that is ready, or a new one. -/
def database : L := if s.loxdbReady then s.loxdb else (db.init (db.portRamInit s.loxdb).2).2

/-- There is a database, or a new one can be made. -/
def opens : Bool :=
  s.loxdbReady || (db.portRamInit s.loxdb).1 && (db.init (db.portRamInit s.loxdb).2).1

/-- The database would take the record under the next key. -/
def loxdbTakes (rec : EventRecord) : Bool :=
  !s.forceFail && s.opens db && (db.kvSet (s.database db) (eventKey s.seq) rec).1

end Backends

/-- The backend a record goes to. -/
inductive Target
  | nvlog
  | loxdb
deriving DecidableEq

/-- The backend that would take a record: the log if it is ready and does not
fail, else the database if it does not fail. -/
def Backends.route {N L : Type} (nv : Nvlog N) (db : Loxdb L) (s : Backends N L) (rec : EventRecord) :
    Option Target :=
  if s.nvlogReady && (nv.append s.nvlog rec).1 then some .nvlog
  else if s.loxdbTakes db rec then some .loxdb
  else none

/-! ### What a call does -/

section Steps

variable {N L : Type} {nv : Nvlog N} {db : Loxdb L} {s s' : Backends N L}

theorem ensureInit_of_opens (h : s.opens db = true) :
    loxdbEnsureInit db s = (ok, { s with loxdb := s.database db, loxdbReady := true }) := by
  unfold loxdbEnsureInit Backends.database
  unfold Backends.opens at h
  cases hready : s.loxdbReady with
  | true => simp [← hready]
  | false =>
    rw [hready, Bool.false_or, Bool.and_eq_true] at h
    simp [h.1, h.2]

theorem ensureInit_of_not_opens (h : s.opens db = false) :
    s.loxdbReady = false ∧ ∃ loxdb, loxdbEnsureInit db s = (errUnsupported, { s with loxdb }) := by
  unfold Backends.opens at h
  rw [Bool.or_eq_false_iff] at h
  obtain ⟨hready, hinit⟩ := h
  refine ⟨hready, ?_⟩
  unfold loxdbEnsureInit
  simp only [hready]
  cases hport : (db.portRamInit s.loxdb).1 with
  | false => exact ⟨(db.portRamInit s.loxdb).2, rfl⟩
  | true =>
    rw [hport, Bool.true_and] at hinit
    exact ⟨db.portRamDeinit (db.init (db.portRamInit s.loxdb).2).2, by simp [hinit]⟩

/-- The database that would take a record holds what the backends hold. -/
theorem lookup_database (hdb : db.Whole) (h : s.opens db = true) :
    db.lookup (s.database db) = s.bindings db := by
  funext key
  unfold Backends.database Backends.bindings
  unfold Backends.opens at h
  cases hready : s.loxdbReady with
  | true => rfl
  | false =>
    rw [hready, Bool.false_or, Bool.and_eq_true] at h
    simp [hdb.fresh s.loxdb h.1 h.2]

/-- What `lox_adapter_loxdb_persist_event` does to the adapters. -/
structure LoxdbStep (db : Loxdb L) (s : Backends N L) (rec : EventRecord) (r : ℤ × Backends N L) : Prop where
  nvlog : r.2.nvlog = s.nvlog
  taken : s.loxdbTakes db rec = true → r.1 = ok ∧ r.2.seq = s.seq + 1 ∧
    r.2.bindings db = Function.update (s.bindings db) (eventKey s.seq) (some rec)
  refused : s.loxdbTakes db rec = false → r.1 ≠ ok ∧ (r.2.seq = s.seq ∨ r.2.seq = s.seq + 1) ∧
    r.2.bindings db = s.bindings db

theorem errUnsupported_ne_ok : errUnsupported ≠ ok := by decide

theorem loxdbPersistEvent_closed (h : (!s.forceFail && s.opens db) = false) (e : ExtEvent P) :
    (loxdbPersistEvent db (some e) s).1 = errUnsupported ∧
      (loxdbPersistEvent db (some e) s).2.nvlog = s.nvlog ∧
      (loxdbPersistEvent db (some e) s).2.seq = s.seq ∧
      (loxdbPersistEvent db (some e) s).2.bindings db = s.bindings db := by
  cases hforce : s.forceFail with
  | true =>
    have hcall : loxdbPersistEvent db (some e) s = (errUnsupported, s) := by simp [loxdbPersistEvent, hforce]
    rw [hcall]
    exact ⟨rfl, rfl, rfl, rfl⟩
  | false =>
    rw [hforce, Bool.not_false, Bool.true_and] at h
    obtain ⟨hready, loxdb, hinit⟩ := ensureInit_of_not_opens h
    have hcall : loxdbPersistEvent db (some e) s = (errUnsupported, { s with loxdb }) := by
      simp [loxdbPersistEvent, hforce, hinit, errUnsupported_ne_ok]
    rw [hcall]
    refine ⟨rfl, rfl, rfl, ?_⟩
    unfold Backends.bindings
    simp [hready]

theorem loxdbPersistEvent_opened (hforce : s.forceFail = false) (hopens : s.opens db = true)
    (e : ExtEvent P) :
    let answer := db.kvSet (s.database db) (eventKey s.seq) (eventRecord e)
    let s' : Backends N L := { s with loxdbReady := true, loxdb := answer.2, seq := s.seq + 1 }
    loxdbPersistEvent db (some e) s =
      if answer.1 then (ok, { s' with persistCount := s.persistCount + 1 }) else (errUnsupported, s') := by
  intro answer s'
  have hinit := ensureInit_of_opens hopens
  unfold loxdbPersistEvent
  dsimp only
  rw [if_neg (by rw [hforce]; exact Bool.false_ne_true), hinit]
  dsimp only
  rw [if_neg (fun h => h rfl)]
  cases answer.1 with
  | true => rfl
  | false => rfl

theorem loxdbPersistEvent_step (hdb : db.Whole) (s : Backends N L) (e : ExtEvent P) :
    LoxdbStep db s (eventRecord e) (loxdbPersistEvent db (some e) s) := by
  cases hgets : !s.forceFail && s.opens db with
  | false =>
    obtain ⟨hrc, hnvlog, hseq, hbindings⟩ := loxdbPersistEvent_closed hgets e
    have hrefuses : s.loxdbTakes db (eventRecord e) = false := by
      rw [Backends.loxdbTakes, hgets, Bool.false_and]
    refine ⟨hnvlog, fun h => absurd (hrefuses.symm.trans h) Bool.false_ne_true, fun _ => ?_⟩
    exact ⟨hrc ▸ errUnsupported_ne_ok, Or.inl hseq, hbindings⟩
  | true =>
    have htakes : s.loxdbTakes db (eventRecord e) =
        (db.kvSet (s.database db) (eventKey s.seq) (eventRecord e)).1 := by
      rw [Backends.loxdbTakes, hgets, Bool.true_and]
    rw [Bool.and_eq_true, Bool.not_eq_true'] at hgets
    obtain ⟨hforce, hopens⟩ := hgets
    rw [loxdbPersistEvent_opened hforce hopens]
    cases hset : (db.kvSet (s.database db) (eventKey s.seq) (eventRecord e)).1 with
    | true =>
      rw [hset] at htakes
      refine ⟨rfl, fun _ => ⟨rfl, rfl, ?_⟩, fun h => absurd (h.symm.trans htakes) Bool.false_ne_true⟩
      rw [← lookup_database hdb hopens]
      exact hdb.stored _ _ _ hset
    | false =>
      rw [hset] at htakes
      refine ⟨rfl, fun h => absurd (htakes.symm.trans h) Bool.false_ne_true,
        fun _ => ⟨errUnsupported_ne_ok, Or.inr rfl, ?_⟩⟩
      rw [← lookup_database hdb hopens]
      exact hdb.failed _ _ _ hset

/-- What `lox_adapter_persist_event` does to the adapters, by the backend the
record goes to. -/
structure PersistStep (nv : Nvlog N) (db : Loxdb L) (s : Backends N L) (rec : EventRecord)
    (r : ℤ × Backends N L) : Prop where
  nvlog : s.route nv db rec = some .nvlog → r.1 = ok ∧ r.2.seq = s.seq ∧
    r.2.log nv = s.log nv ++ [rec] ∧ r.2.bindings db = s.bindings db
  loxdb : s.route nv db rec = some .loxdb → r.1 = ok ∧ r.2.seq = s.seq + 1 ∧ r.2.log nv = s.log nv ∧
    r.2.bindings db = Function.update (s.bindings db) (eventKey s.seq) (some rec)
  refused : s.route nv db rec = none → r.1 ≠ ok ∧ (r.2.seq = s.seq ∨ r.2.seq = s.seq + 1) ∧ s.Kept nv db r.2

/-- **What a call does**: the log, else the database, else nothing. -/
theorem persistEvent_step (hnv : nv.Whole) (hdb : db.Whole) (s : Backends N L) (e : ExtEvent P) :
    PersistStep nv db s (eventRecord e) (persistEvent nv db (some e) s) := by
  by_cases hlog : (s.nvlogReady && (nv.append s.nvlog (eventRecord e)).1) = true
  · have hroute : s.route nv db (eventRecord e) = some .nvlog := if_pos hlog
    rw [Bool.and_eq_true] at hlog
    have hcall : persistEvent nv db (some e) s =
        (ok, { s with nvlog := (nv.append s.nvlog (eventRecord e)).2 }) := by
      simp [persistEvent, hlog.1, hlog.2]
    rw [hcall]
    exact ⟨fun _ => ⟨rfl, rfl, hnv.stored _ _ hlog.2, rfl⟩, fun h => absurd (hroute.symm.trans h) (by decide),
      fun h => absurd (hroute.symm.trans h) (by decide)⟩
  · have hroute : s.route nv db (eventRecord e) =
        if s.loxdbTakes db (eventRecord e) then some .loxdb else none := if_neg hlog
    -- the log is as it was, and the database is asked
    obtain ⟨nvlog, hrecords, hcall⟩ : ∃ nvlog, nv.records nvlog = nv.records s.nvlog ∧
        persistEvent nv db (some e) s = loxdbPersistEvent db (some e) { s with nvlog } := by
      by_cases hready : s.nvlogReady = true
      · rw [hready, Bool.true_and, Bool.not_eq_true] at hlog
        exact ⟨(nv.append s.nvlog (eventRecord e)).2, hnv.failed _ _ hlog, by simp [persistEvent, hready, hlog]⟩
      · have hcall : persistEvent nv db (some e) s = loxdbPersistEvent db (some e) s := by
          simp [persistEvent, hready]
        exact ⟨s.nvlog, rfl, hcall⟩
    have hstep := loxdbPersistEvent_step hdb { s with nvlog } e
    have hkept : (loxdbPersistEvent db (some e) { s with nvlog }).2.log nv = s.log nv := by
      rw [Backends.log, hstep.nvlog]
      exact hrecords
    rw [hcall]
    cases htakes : s.loxdbTakes db (eventRecord e) with
    | true =>
      obtain ⟨hrc, hseq, hbindings⟩ := hstep.taken htakes
      rw [htakes, if_pos rfl] at hroute
      exact ⟨fun h => absurd (hroute.symm.trans h) (by decide), fun _ => ⟨hrc, hseq, hkept, hbindings⟩,
        fun h => absurd (hroute.symm.trans h) (by decide)⟩
    | false =>
      obtain ⟨hrc, hseq, hbindings⟩ := hstep.refused htakes
      rw [htakes, if_neg Bool.false_ne_true] at hroute
      exact ⟨fun h => absurd (hroute.symm.trans h) (by decide), fun h => absurd (hroute.symm.trans h) (by decide),
        fun _ => ⟨hrc, hseq, hkept, hbindings⟩⟩

end Steps

/-! ### Exactly once -/

/-- The call persisted the event exactly once: it returns `OK` if and only if
exactly one backend gained exactly one record, an error if and only if neither
backend changed, and what was gained is faithful. -/
structure ExactlyOnce {N L : Type} (nv : Nvlog N) (db : Loxdb L) (s : Backends N L) (e : ExtEvent P)
    (r : ℤ × Backends N L) : Prop where
  gained : r.1 = ok ↔ ∃ rec, s.Gained nv db r.2 rec
  kept : r.1 ≠ ok ↔ s.Kept nv db r.2
  faithful : ∀ rec, s.Gained nv db r.2 rec → rec.Faithful e

section Gained

variable {N L : Type} {nv : Nvlog N} {db : Loxdb L} {s s' : Backends N L}

theorem not_pushed {records records' : List EventRecord} (hkept : records' = records) (rec : EventRecord) :
    records' ≠ records ++ [rec] := by
  rw [hkept]
  intro h
  exact List.cons_ne_nil _ _ (List.self_eq_append_right.mp h)

theorem not_gained_of_kept (h : s.Kept nv db s') (rec : EventRecord) : ¬ s.Gained nv db s' rec := by
  obtain ⟨hlog, hbindings⟩ := h
  rintro (⟨hlog', -⟩ | ⟨-, key, hfree, hbindings'⟩)
  · exact not_pushed hlog _ hlog'
  · have hkey := congrFun (hbindings.symm.trans hbindings') key
    rw [Function.update_self, hfree] at hkey
    cases hkey

/-- What is gained is one record. -/
theorem gained_unique {rec rec' : EventRecord} (h : s.Gained nv db s' rec) (h' : s.Gained nv db s' rec') :
    rec = rec' := by
  rcases h with ⟨hlog, hbindings⟩ | ⟨hlog, key, hfree, hbindings⟩
  · rcases h' with ⟨hlog', -⟩ | ⟨hlog', -⟩
    · rw [hlog, List.append_cancel_left_eq] at hlog'
      exact (List.cons.inj hlog').1
    · exact absurd hlog (not_pushed hlog' _)
  · rcases h' with ⟨hlog', -⟩ | ⟨-, key', hfree', hbindings'⟩
    · exact absurd hlog' (not_pushed hlog _)
    · have hkey := congrFun (hbindings.symm.trans hbindings') key'
      rw [Function.update_self] at hkey
      by_cases hk : key' = key
      · subst hk
        rw [Function.update_self, Option.some_inj] at hkey
        exact hkey
      · rw [Function.update_of_ne hk, hfree'] at hkey
        cases hkey

/-- A call that gained a record persisted the event exactly once if the record
is faithful. -/
theorem exactlyOnce_of_gained {e : ExtEvent P} {r : ℤ × Backends N L} {rec : EventRecord}
    (hrc : r.1 = ok) (h : s.Gained nv db r.2 rec) : ExactlyOnce nv db s e r ↔ rec.Faithful e := by
  constructor
  · exact fun honce => honce.faithful rec h
  · intro hfaithful
    refine ⟨⟨fun _ => ⟨rec, h⟩, fun _ => hrc⟩, ⟨fun hne => absurd hrc hne, fun hkept => ?_⟩, ?_⟩
    · exact absurd h (not_gained_of_kept hkept rec)
    · intro rec' h'
      rw [← gained_unique h h']
      exact hfaithful

/-- The next key is new. -/
def Backends.NewKey (db : Loxdb L) (s : Backends N L) : Prop := s.bindings db (eventKey s.seq) = none

/-- What was stored under the next key was gained only if the key is new. -/
theorem newKey_of_gained {rec rec' : EventRecord} (hlog : s'.log nv = s.log nv)
    (hbindings : s'.bindings db = Function.update (s.bindings db) (eventKey s.seq) (some rec))
    (h : s.Gained nv db s' rec') : s.NewKey db := by
  rcases h with ⟨hlog', -⟩ | ⟨-, key, hfree, hbindings'⟩
  · exact absurd hlog' (not_pushed hlog _)
  · by_cases hk : key = eventKey s.seq
    · rwa [hk] at hfree
    · have hkey := congrFun (hbindings.symm.trans hbindings') key
      rw [Function.update_self, Function.update_of_ne hk, hfree] at hkey
      cases hkey

/-- **Exactly once.** A call persists the event exactly once and faithfully if
and only if no backend takes the record, or the index and the limit of the
event have 32 bits and, where it is the database that takes it, its key is
new. -/
theorem persist_exactly_once_iff (hnv : nv.Whole) (hdb : db.Whole) (s : Backends N L) (e : ExtEvent P) :
    ExactlyOnce nv db s e (persistEvent nv db (some e) s) ↔
      ∀ target, s.route nv db (eventRecord e) = some target →
        e.Narrow ∧ (target = .loxdb → s.NewKey db) := by
  have hstep := persistEvent_step hnv hdb s e
  cases hroute : s.route nv db (eventRecord e) with
  | none =>
    obtain ⟨hrc, -, hkept⟩ := hstep.refused hroute
    refine ⟨fun _ target h => absurd h (Option.some_ne_none target).symm, fun _ => ⟨?_, ?_, ?_⟩⟩
    · exact ⟨fun h => absurd h hrc, fun h => h.elim fun rec hrec => absurd hrec (not_gained_of_kept hkept rec)⟩
    · exact ⟨fun _ => hkept, fun _ => hrc⟩
    · exact fun rec h => absurd h (not_gained_of_kept hkept rec)
  | some target =>
    cases target with
    | nvlog =>
      obtain ⟨hrc, -, hlog, hbindings⟩ := hstep.nvlog hroute
      rw [exactlyOnce_of_gained hrc (Or.inl ⟨hlog, hbindings⟩), faithful_iff]
      refine ⟨fun hnarrow target h => ⟨hnarrow, fun htarget => ?_⟩, fun h => (h .nvlog rfl).1⟩
      rw [htarget] at h
      cases h
    | loxdb =>
      obtain ⟨hrc, -, hlog, hbindings⟩ := hstep.loxdb hroute
      constructor
      · intro honce target h
        obtain ⟨rec, hgained⟩ := honce.gained.mp hrc
        have hnew := newKey_of_gained hlog hbindings hgained
        rw [exactlyOnce_of_gained hrc (Or.inr ⟨hlog, _, hnew, hbindings⟩), faithful_iff] at honce
        exact ⟨honce, fun _ => hnew⟩
      · intro h
        obtain ⟨hnarrow, hnew⟩ := h .loxdb rfl
        rw [exactlyOnce_of_gained hrc (Or.inr ⟨hlog, _, hnew rfl, hbindings⟩), faithful_iff]
        exact hnarrow

end Gained

/-- A log of records that is full after `capacity` of them. -/
def listLog (capacity : ℕ) : Nvlog (List EventRecord) where
  append n rec := if n.length < capacity then (true, n ++ [rec]) else (false, n)
  records n := n

/-- A database that never fails. -/
def mapDb : Loxdb (CStr → Option EventRecord) where
  portRamInit l := (true, l)
  portRamDeinit l := l
  init _ := (true, fun _ => none)
  kvSet l key rec := (true, Function.update l key (some rec))
  lookup l := l

theorem listLog_whole (capacity : ℕ) : (listLog capacity).Whole where
  stored n rec h := by
    by_cases hroom : n.length < capacity
    · simp [listLog, hroom]
    · simp [listLog, hroom] at h
  failed n rec h := by
    by_cases hroom : n.length < capacity
    · simp [listLog, hroom] at h
    · simp [listLog, hroom]

theorem mapDb_whole : mapDb.Whole where
  fresh _ _ _ := rfl
  stored _ _ _ _ := rfl
  failed _ _ _ h := by cases h

/-- Adapters with an empty log and no database yet. -/
def freshBackends : Backends (List EventRecord) (CStr → Option EventRecord) :=
  ⟨true, [], false, fun _ => none, false, 0, 0⟩

/-- An event whose index has 33 bits. -/
def wideEvent : ExtEvent .host :=
  ⟨.blockWriteOutOfBounds, some (.lit "b"), some (.lit "BOUNDS"), 4294967296, 4294967296, 0⟩

/-- A full log, and an event that the database takes. -/
theorem persist_exactly_once_fallback :
    ExactlyOnce (listLog 0) mapDb freshBackends forgedEvent
      (persistEvent (listLog 0) mapDb (some forgedEvent) freshBackends) := by
  apply (persist_exactly_once_iff (listLog_whole 0) mapDb_whole freshBackends forgedEvent).mpr
  intro target _
  exact ⟨by unfold Event.Narrow; decide, fun _ => rfl⟩

/-- An index of 33 bits is recorded as 0. -/
theorem persist_cuts_index :
    (persistEvent (listLog 8) mapDb (some wideEvent) freshBackends).1 = ok ∧
      (persistEvent (listLog 8) mapDb (some wideEvent) freshBackends).2.nvlog.map EventRecord.index = [0] ∧
      wideEvent.index.toNat = 4294967296 := by
  decide +kernel

/-! ### The first keys -/

theorem bytes_eventKey (seq : BitVec 32) :
    (eventKey seq).bytes = ascii "loxguard_ev_" ++ decimal seq.toNat := by
  have hlen := length_decimal_u32_le seq
  have hprefix : (ascii "loxguard_ev_").length = 12 := by decide
  have hnul : 0 ∉ ascii "loxguard_ev_" ++ decimal seq.toNat := by
    rw [List.mem_append, not_or]
    exact ⟨by decide, not_mem_decimal (by decide) _⟩
  have hwhole : (snprintf (ascii "loxguard_ev_" ++ decimal seq.toNat) 32).text =
      ascii "loxguard_ev_" ++ decimal seq.toNat :=
    List.take_of_length_le (by rw [List.length_append]; omega)
  rw [eventKey, hwhole, bufText_bytes hnul]

theorem eventKey_inj {a b : BitVec 32} (h : eventKey a = eventKey b) : a = b := by
  have hbytes := congrArg CStr.bytes h
  rw [bytes_eventKey, bytes_eventKey, List.append_cancel_left_eq] at hbytes
  have hvalue := congrArg value hbytes
  rw [value_decimal, value_decimal] at hvalue
  exact BitVec.eq_of_toNat_eq hvalue

/-- A call, with the log and the failures it meets. -/
structure Attempt (P : Platform) (N : Type) where
  event : ExtEvent P
  nvlogReady : Bool
  nvlog : N
  forceFail : Bool

section Attempts

variable {N L : Type} {nv : Nvlog N} {db : Loxdb L}

/-- The state a call meets. -/
def Attempt.before (a : Attempt P N) (s : Backends N L) : Backends N L :=
  { s with nvlogReady := a.nvlogReady, nvlog := a.nvlog, forceFail := a.forceFail }

/-- Make the call. -/
def Attempt.step (nv : Nvlog N) (db : Loxdb L) (s : Backends N L) (a : Attempt P N) : ℤ × Backends N L :=
  persistEvent nv db (some a.event) (a.before s)

/-- The counter is at `n`, and the keys in use come from smaller numbers. -/
structure Numbered (db : Loxdb L) (s : Backends N L) (n : ℕ) : Prop where
  seq : s.seq = BitVec.ofNat 32 n
  keys : ∀ key, s.bindings db key ≠ none → ∃ m < n, key = eventKey (BitVec.ofNat 32 m)

theorem numbered_fresh {s : Backends N L} (hseq : s.seq = 0) (hready : s.loxdbReady = false) :
    Numbered db s 0 where
  seq := hseq
  keys key h := by
    unfold Backends.bindings at h
    simp [hready] at h

theorem Numbered.newKey {s : Backends N L} {n : ℕ} (h : Numbered db s n) (hn : n < 2 ^ 32) : s.NewKey db := by
  by_contra hbound
  obtain ⟨m, hm, hkey⟩ := h.keys _ hbound
  have hnum := congrArg BitVec.toNat (eventKey_inj hkey)
  rw [h.seq, BitVec.toNat_ofNat, BitVec.toNat_ofNat, Nat.mod_eq_of_lt hn, Nat.mod_eq_of_lt (by omega)] at hnum
  omega

/-- A call moves the counter by one at most, and binds no other key than the
next. -/
theorem Numbered.step (hnv : nv.Whole) (hdb : db.Whole) {s : Backends N L} {n : ℕ} (h : Numbered db s n)
    (a : Attempt P N) : Numbered db (a.step nv db s).2 n ∨ Numbered db (a.step nv db s).2 (n + 1) := by
  have hbefore : Numbered db (a.before s) n := ⟨h.seq, h.keys⟩
  have hstep := persistEvent_step hnv hdb (a.before s) a.event
  have hnext : (a.before s).seq + 1 = BitVec.ofNat 32 (n + 1) := by
    rw [hbefore.seq]
    exact (BitVec.ofNat_add n 1).symm
  have hlater : ∀ key, (a.before s).bindings db key ≠ none →
      ∃ m < n + 1, key = eventKey (BitVec.ofNat 32 m) := by
    intro key hkey
    obtain ⟨m, hm, rfl⟩ := hbefore.keys key hkey
    exact ⟨m, by omega, rfl⟩
  cases hroute : (a.before s).route nv db (eventRecord a.event) with
  | none =>
    obtain ⟨-, hseq, -, hbindings⟩ := hstep.refused hroute
    rcases hseq with hseq | hseq
    · exact Or.inl ⟨hseq.trans hbefore.seq, by rw [Attempt.step, hbindings]; exact hbefore.keys⟩
    · exact Or.inr ⟨hseq.trans hnext, by rw [Attempt.step, hbindings]; exact hlater⟩
  | some target =>
    cases target with
    | nvlog =>
      obtain ⟨-, hseq, -, hbindings⟩ := hstep.nvlog hroute
      exact Or.inl ⟨hseq.trans hbefore.seq, by rw [Attempt.step, hbindings]; exact hbefore.keys⟩
    | loxdb =>
      obtain ⟨-, hseq, -, hbindings⟩ := hstep.loxdb hroute
      refine Or.inr ⟨hseq.trans hnext, ?_⟩
      intro key hkey
      rw [Attempt.step, hbindings] at hkey
      by_cases hk : key = eventKey (a.before s).seq
      · exact ⟨n, by omega, by rw [hk, hbefore.seq]⟩
      · rw [Function.update_of_ne hk] at hkey
        exact hlater key hkey

theorem Numbered.attempts (hnv : nv.Whole) (hdb : db.Whole) (as : List (Attempt P N)) {s : Backends N L}
    {n : ℕ} (h : Numbered db s n) (hcount : n + as.length ≤ 2 ^ 32) (hnarrow : ∀ a ∈ as, a.event.Narrow) :
    Runs.Along (Attempt.step nv db)
      (fun s a => ExactlyOnce nv db (a.before s) a.event (a.step nv db s)) s as := by
  induction as generalizing s n with
  | nil => trivial
  | cons a as ih =>
    rw [List.length_cons] at hcount
    have hbefore : Numbered db (a.before s) n := ⟨h.seq, h.keys⟩
    constructor
    · apply (persist_exactly_once_iff hnv hdb (a.before s) a.event).mpr
      intro target _
      exact ⟨hnarrow a List.mem_cons_self, fun _ => hbefore.newKey (by omega)⟩
    · have hrest : ∀ b ∈ as, b.event.Narrow := fun b hb => hnarrow b (List.mem_cons_of_mem _ hb)
      rcases h.step hnv hdb a with hnext | hnext
      · exact ih hnext (by omega) hrest
      · exact ih hnext (by omega) hrest

/-- **The first `2 ^ 32` attempts.** From a counter of 0 and no database,
whatever the log and the failures at each call, every call with an event of 32
bits persists it exactly once. -/
theorem attempts_exactlyOnce (hnv : nv.Whole) (hdb : db.Whole) {s : Backends N L} (hseq : s.seq = 0)
    (hready : s.loxdbReady = false) (as : List (Attempt P N)) (hcount : as.length ≤ 2 ^ 32)
    (hnarrow : ∀ a ∈ as, a.event.Narrow) :
    Runs.Along (Attempt.step nv db)
      (fun s a => ExactlyOnce nv db (a.before s) a.event (a.step nv db s)) s as :=
  Numbered.attempts hnv hdb as (numbered_fresh hseq hready) (by omega) hnarrow

end Attempts

end Loxguard
