/-
# Queries and resets

A query of one block's codes looks the block up like an update does: it makes
the slot the active one, and claims a slot for a name that has none. Two
states with the same slots and the same active codes give the same results
ever after (`Alike.step`), so a query goes unnoticed when it changes neither
(`Settled.alike`). Any other query is noticed: by the aggregates if it moves
the active codes, and if it takes a free slot, by filling the table until the
slot is missing (`exists_noticing`). So inserted queries leave all later
results as they were exactly when each of them is settled
(`queries_unnoticed_iff`).

A reset changes its own code of every block, and makes no slot the active one:
the aggregates of the other codes are lost unless they were 0
(`watchdogCleared_iff`, `recoveryCleared_iff`, both at once `resets_frame_iff`).

Key definitions: `BlockStates.codesAt`, `Alike`, `BlockStates.Settled`,
`Query`, `Item`.
Key theorems: `Alike.step`, `exists_noticing`, `queries_unnoticed_iff`,
`watchdogCleared_iff`, `recoveryCleared_iff`, `resets_frame_iff`.
-/
import Loxguard.BlockTable
import Mathlib.Order.Interval.Finset.Nat

namespace Loxguard

open Lib

variable {P : Platform}

/-! ### What a lookup leaves -/

/-- The codes of the slot found by the name, zero if there is none. -/
def BlockStates.codesAt (t : BlockStates) (blockName : Option CStr) : BlockCodes :=
  match (List.finRange 8).find? (t.Matches (blockKey blockName)) with
  | some i => (t.slots i).data
  | none => .zero

theorem BlockStates.Found.codesAt {t : BlockStates} {blockName : Option CStr} {i : Fin 8}
    (h : t.Found blockName i) : t.codesAt blockName = (t.slots i).data := by
  unfold BlockStates.codesAt
  rw [show (List.finRange 8).find? (t.Matches (blockKey blockName)) = some i from h]

theorem BlockStates.Unknown.codesAt {t : BlockStates} {blockName : Option CStr} (h : t.Unknown blockName) :
    t.codesAt blockName = .zero := by
  unfold BlockStates.codesAt
  rw [(unknown_iff t blockName).mp h]

theorem found_or_unknown (t : BlockStates) (blockName : Option CStr) :
    (∃ i, t.Found blockName i) ∨ t.Unknown blockName := by
  rw [unknown_iff]
  cases h : (List.finRange 8).find? (t.Matches (blockKey blockName)) with
  | none => exact Or.inr rfl
  | some i => exact Or.inl ⟨i, h⟩

theorem query_codes (t : BlockStates) (blockName : Option CStr) :
    (queryBlock t blockName).1 = t.codesAt blockName := by
  rcases found_or_unknown t blockName with ⟨i, h⟩ | h
  · rw [h.codesAt]
    unfold queryBlock
    rw [h.get]
    rfl
  · rw [h.codesAt, query_of_unknown h]

theorem healthGetForBlock_fst (t : BlockStates) (blockName : Option CStr) :
    (healthGetForBlock t blockName).1 = (t.codesAt blockName).healthCode := by
  rw [healthGetForBlock_eq, ← query_codes]
  rfl

theorem watchdogStateGetForBlock_fst (t : BlockStates) (blockName : Option CStr) :
    (watchdogStateGetForBlock t blockName).1 = (t.codesAt blockName).watchdogState := by
  rw [watchdogStateGetForBlock_eq, ← query_codes]
  rfl

theorem recoveryStateGetForBlock_fst (t : BlockStates) (blockName : Option CStr) :
    (recoveryStateGetForBlock t blockName).1 = (t.codesAt blockName).recoveryState := by
  rw [recoveryStateGetForBlock_eq, ← query_codes]
  rfl

/-- The active slot is the one a pointer refers to. -/
def BlockStates.ActiveAt (t : BlockStates) (p : BlockPtr) : Prop :=
  (t.slot p).inUse = true ∧ t.active = match p with
    | some i => (i : ℕ)
    | none => 8

theorem BlockStates.ActiveAt.activeCodes {t : BlockStates} {p : BlockPtr} (h : t.ActiveAt p) :
    t.activeCodes = t.read p := by
  obtain ⟨huse, hactive⟩ := h
  unfold BlockStates.activeCodes
  cases p with
  | none =>
    simp only at hactive
    rw [dif_neg (by omega), if_pos ⟨hactive, huse⟩]
    rfl
  | some i =>
    simp only at hactive
    have hslot : (⟨t.active, by omega⟩ : Fin 8) = i := Fin.ext hactive
    rw [dif_pos (by omega), hslot]
    exact if_pos huse

theorem activeAt_get (t : BlockStates) (blockName : Option CStr) :
    (blockStateGet t blockName).1.ActiveAt (blockStateGet t blockName).2 := by
  rcases found_or_unknown t blockName with ⟨i, h⟩ | h
  · rw [h.get]
    exact ⟨((matches_iff ..).mp (List.find?_some h)).1, rfl⟩
  · rw [blockStateGet_eq, (unknown_iff t blockName).mp h]
    cases (List.finRange 8).find? t.IsFree with
    | none => exact ⟨rfl, rfl⟩
    | some i => exact ⟨by simp [BlockStates.slot, BlockStates.setSlot, Slot.claimFor, Slot.claim], rfl⟩

theorem activeCodes_get (t : BlockStates) (blockName : Option CStr) :
    (blockStateGet t blockName).1.activeCodes = t.codesAt blockName := by
  rw [(activeAt_get t blockName).activeCodes, ← query_codes]
  rfl

theorem BlockStates.ActiveAt.write {t : BlockStates} {p : BlockPtr} (h : t.ActiveAt p) (codes : BlockCodes) :
    (t.write p codes).ActiveAt p := by
  cases p with
  | none => exact h
  | some i => exact ⟨by simpa [BlockStates.slot, BlockStates.write, BlockStates.setSlot] using h.1, h.2⟩

theorem activeCodes_modifyBlock (t : BlockStates) (blockName : Option CStr) (f : BlockCodes → BlockCodes) :
    (modifyBlock t blockName f).activeCodes = f (t.codesAt blockName) := by
  unfold modifyBlock
  dsimp only
  rw [activeCodes_refresh, ((activeAt_get t blockName).write _).activeCodes, read_write, ← query_codes]
  rfl

/-! ### States that look alike -/

/-- The same slots, and the same codes for the aggregates. -/
structure Alike (t t' : BlockStates) : Prop where
  slots : t.slots = t'.slots
  activeCodes : t.activeCodes = t'.activeCodes

section Slots

variable {t t' : BlockStates} (h : t.slots = t'.slots)
include h

theorem matches_of_slots : t.Matches = t'.Matches := by
  unfold BlockStates.Matches
  rw [h]

theorem isFree_of_slots : t.IsFree = t'.IsFree := by
  unfold BlockStates.IsFree
  rw [h]

theorem codesAt_of_slots (blockName : Option CStr) : t.codesAt blockName = t'.codesAt blockName := by
  unfold BlockStates.codesAt
  rw [matches_of_slots h, h]

/-- Where a name is looked up, and what the lookup makes of the slots, depends
on the slots alone. -/
theorem get_of_slots (blockName : Option CStr) :
    (blockStateGet t blockName).2 = (blockStateGet t' blockName).2 ∧
      (blockStateGet t blockName).1.slots = (blockStateGet t' blockName).1.slots := by
  rw [blockStateGet_eq, blockStateGet_eq, matches_of_slots h, isFree_of_slots h]
  cases (List.finRange 8).find? (t'.Matches (blockKey blockName)) with
  | some i => exact ⟨rfl, h⟩
  | none =>
    cases (List.finRange 8).find? t'.IsFree with
    | none => exact ⟨rfl, h⟩
    | some i => exact ⟨rfl, by simp only [BlockStates.setSlot, h]⟩

theorem write_of_slots (p : BlockPtr) (codes : BlockCodes) :
    (t.write p codes).slots = (t'.write p codes).slots := by
  cases p with
  | none => exact h
  | some i => simp only [BlockStates.write, BlockStates.setSlot, BlockStates.slot, h]

theorem modifyBlock_of_slots (blockName : Option CStr) (f : BlockCodes → BlockCodes) :
    (modifyBlock t blockName f).slots = (modifyBlock t' blockName f).slots := by
  obtain ⟨hptr, hslots⟩ := get_of_slots h blockName
  have hread : (blockStateGet t blockName).1.read (blockStateGet t blockName).2 =
      (blockStateGet t' blockName).1.read (blockStateGet t' blockName).2 :=
    calc (blockStateGet t blockName).1.read (blockStateGet t blockName).2
        = t.codesAt blockName := query_codes t blockName
      _ = t'.codesAt blockName := codesAt_of_slots h blockName
      _ = (blockStateGet t' blockName).1.read (blockStateGet t' blockName).2 :=
          (query_codes t' blockName).symm
  unfold modifyBlock
  simp only [refresh_slots]
  rw [hread, hptr]
  exact write_of_slots hslots _ _

end Slots

section Alike

variable {t t' : BlockStates} (h : Alike t t')
include h

theorem Alike.modify (blockName : Option CStr) (f : BlockCodes → BlockCodes) :
    Alike (modifyBlock t blockName f) (modifyBlock t' blockName f) where
  slots := modifyBlock_of_slots h.slots blockName f
  activeCodes := by rw [activeCodes_modifyBlock, activeCodes_modifyBlock, codesAt_of_slots h.slots]

theorem Alike.query (blockName : Option CStr) : (queryBlock t blockName).1 = (queryBlock t' blockName).1 ∧
    Alike (queryBlock t blockName).2 (queryBlock t' blockName).2 := by
  refine ⟨?_, (get_of_slots h.slots blockName).2, ?_⟩
  · rw [query_codes, query_codes, codesAt_of_slots h.slots]
  · rw [queryBlock_snd, queryBlock_snd, activeCodes_get, activeCodes_get, codesAt_of_slots h.slots]

theorem Alike.reset (f : BlockCodes → BlockCodes) : Alike (resetBlockStates t f) (resetBlockStates t' f) where
  slots := by
    unfold resetBlockStates
    simp only [refresh_slots, h.slots]
  activeCodes := by
    unfold resetBlockStates
    rw [activeCodes_refresh, activeCodes_refresh]
    rfl

theorem Alike.refresh : Alike (refreshAggregateStates t) (refreshAggregateStates t') where
  slots := by rw [refresh_slots, refresh_slots, h.slots]
  activeCodes := by rw [activeCodes_refresh, activeCodes_refresh, h.activeCodes]

/-- **States that look alike** give the same results, and still look alike
afterwards. -/
theorem Alike.step (op : AdapterOp P) :
    (op.step t).1 = (op.step t').1 ∧ Alike (op.step t).2 (op.step t').2 := by
  have hquery := h.query
  cases op with
  | block op =>
    cases op with
    | healthSetForBlock blockName degraded =>
      simp only [AdapterOp.step, BlockOp.step, healthSetForBlock_eq]
      exact ⟨trivial, h.modify blockName _⟩
    | watchdogObserveEvent event =>
      cases event with
      | none => exact ⟨rfl, h⟩
      | some event =>
        simp only [AdapterOp.step, BlockOp.step, watchdogObserveEvent_eq]
        exact ⟨trivial, h.modify event.blockName _⟩
    | watchdogReset => exact ⟨rfl, h.reset fun codes => { codes with watchdogState := 0 }⟩
    | recoveryReset => exact ⟨rfl, h.reset fun codes => { codes with recoveryState := 0 }⟩
    | healthGetForBlock blockName =>
      exact ⟨congrArg (fun codes : BlockCodes => some codes.healthCode) (hquery blockName).1,
        (hquery blockName).2⟩
    | watchdogStateGetForBlock blockName =>
      exact ⟨congrArg (fun codes : BlockCodes => some codes.watchdogState) (hquery blockName).1,
        (hquery blockName).2⟩
    | recoveryStateGetForBlock blockName =>
      exact ⟨congrArg (fun codes : BlockCodes => some codes.recoveryState) (hquery blockName).1,
        (hquery blockName).2⟩
  | healthGet =>
    refine ⟨?_, h.refresh⟩
    simp only [AdapterOp.step, Loxguard.healthGet, Prod.map, refresh_codes, h.activeCodes]
  | watchdogStateGet =>
    refine ⟨?_, h.refresh⟩
    simp only [AdapterOp.step, Loxguard.watchdogStateGet, Prod.map, refresh_codes, h.activeCodes]
  | recoveryStateGet =>
    refine ⟨?_, h.refresh⟩
    simp only [AdapterOp.step, Loxguard.recoveryStateGet, Prod.map, refresh_codes, h.activeCodes]
  | recoveryAllowAttemptForBlock blockName => exact ⟨rfl, h⟩
  | recoveryReportResultForBlock blockName success => exact ⟨rfl, h⟩
  | watchdogKick => exact ⟨rfl, h⟩
  | logEvent event => exact ⟨rfl, h⟩

end Alike

/-! ### Queries that change nothing -/

/-- A query of the block changes nothing: the name has a slot or there is no
slot to claim, and its codes are those of the slot looked up last. -/
structure BlockStates.Settled (t : BlockStates) (blockName : Option CStr) : Prop where
  claims : t.Unknown blockName → ∀ i, (t.slots i).inUse = true
  codes : t.codesAt blockName = t.activeCodes

theorem get_slots {t : BlockStates} {blockName : Option CStr}
    (h : t.Unknown blockName → ∀ i, (t.slots i).inUse = true) :
    (blockStateGet t blockName).1.slots = t.slots := by
  rcases found_or_unknown t blockName with ⟨i, hi⟩ | hnot
  · rw [hi.get]
  · have hroom : (List.finRange 8).find? t.IsFree = none := by
      rw [List.find?_eq_none]
      intro i _
      simp [BlockStates.IsFree, h hnot i]
    rw [blockStateGet_eq, (unknown_iff t blockName).mp hnot, hroom]
    rfl

theorem BlockStates.Settled.alike {t : BlockStates} {blockName : Option CStr} (h : t.Settled blockName) :
    Alike (blockStateGet t blockName).1 t where
  slots := get_slots h.claims
  activeCodes := by rw [activeCodes_get, h.codes]

/-! ### Queries that are noticed -/

/-- The number of slots that are not in use. -/
def BlockStates.freeCount (t : BlockStates) : ℕ :=
  (Finset.univ.filter fun i => (t.slots i).inUse = false).card

/-- A lookup that claims a slot leaves one free slot less. -/
theorem freeCount_get {t : BlockStates} {blockName : Option CStr} (hnot : t.Unknown blockName) {i : Fin 8}
    (hi : (t.slots i).inUse = false) : (blockStateGet t blockName).1.freeCount + 1 = t.freeCount := by
  have hfree : t.IsFree i = true := by simp [BlockStates.IsFree, hi]
  cases hfind : (List.finRange 8).find? t.IsFree with
  | none => exact absurd hfree (List.find?_eq_none.mp hfind i (List.mem_finRange i))
  | some j =>
    have hj : (t.slots j).inUse = false := by simpa [BlockStates.IsFree] using List.find?_some hfind
    have hslots : Finset.univ.filter (fun k => ((blockStateGet t blockName).1.slots k).inUse = false) =
        (Finset.univ.filter fun k => (t.slots k).inUse = false).erase j := by
      rw [blockStateGet_eq, (unknown_iff t blockName).mp hnot, hfind]
      ext k
      simp only [BlockStates.setSlot, Function.update_apply, Finset.mem_filter, Finset.mem_univ,
        true_and, Finset.mem_erase]
      split
      · rename_i hk
        simp [hk, Slot.claimFor, Slot.claim]
      · rename_i hk
        simp [hk]
    unfold BlockStates.freeCount
    rw [hslots]
    exact Finset.card_erase_add_one (Finset.mem_filter.mpr ⟨Finset.mem_univ j, hj⟩)

theorem exists_free_of_freeCount {t : BlockStates} (h : 0 < t.freeCount) :
    ∃ i, (t.slots i).inUse = false := by
  obtain ⟨i, hi⟩ := Finset.card_pos.mp h
  exact ⟨i, (Finset.mem_filter.mp hi).2⟩

/-- A name that fits a slot and is in no slot of two tables: one as long as no
name in them. -/
theorem exists_fresh (t t' : BlockStates) : ∃ x : CStr, (blockKey (some x)).length ≤ 63 ∧
    t.Unknown (some x) ∧ t'.Unknown (some x) := by
  let lengths (t : BlockStates) : Finset ℕ := Finset.univ.image fun i => (t.slots i).blockName.text.length
  have hcard : (lengths t ∪ lengths t').card < (Finset.Icc 1 63).card := by
    have hle : ∀ t : BlockStates, (lengths t).card ≤ 8 := fun t => Finset.card_image_le
    have hunion := Finset.card_union_le (lengths t) (lengths t')
    have h := hle t
    have h' := hle t'
    rw [Nat.card_Icc]
    omega
  obtain ⟨n, hn, hnew⟩ := Finset.exists_mem_notMem_of_card_lt_card hcard
  rw [Finset.mem_Icc] at hn
  rw [Finset.mem_union, not_or] at hnew
  let x : CStr := ⟨List.replicate n 98, by simp [List.mem_replicate]⟩
  have hx : blockKey (some x) = x := if_neg (by simp [x]; omega)
  have hlen : x.length = n := List.length_replicate ..
  have hunknown : ∀ t : BlockStates, n ∉ lengths t → t.Unknown (some x) := by
    intro t hnot i hi
    rw [hx, matches_iff] at hi
    refine hnot (Finset.mem_image.mpr ⟨i, Finset.mem_univ i, ?_⟩)
    rw [hi.2.2, hlen]
  refine ⟨x, ?_, hunknown t hnew.1, hunknown t' hnew.2⟩
  rw [hx, hlen]
  exact hn.2

/-- **Two tables with different room** can be told apart: fill them with fresh
names until one is full, and set a code of one more. -/
theorem exists_noticing_of_freeCount {t t' : BlockStates} (ht : t.WellNamed) (ht' : t'.WellNamed)
    (h : t'.freeCount < t.freeCount) : ∃ ops : List (AdapterOp P),
      (Runs.run AdapterOp.step t' ops).1 ≠ (Runs.run AdapterOp.step t ops).1 := by
  obtain ⟨x, hlen, hx, hx'⟩ := exists_fresh t t'
  obtain ⟨i, hi⟩ := exists_free_of_freeCount (t := t) (by omega)
  induction hk : t'.freeCount generalizing t t' x i with
  | zero =>
    refine ⟨[.block (.healthSetForBlock (some x) 1), .block (.healthGetForBlock (some x))], ?_⟩
    have hroom : t.HasRoom (some x) := ⟨hlen, i, Or.inr hi⟩
    have hfull : ¬ t'.HasRoom (some x) := by
      rintro ⟨-, j, hj | hj⟩
      · exact hx' j hj
      · have hpos : 0 < t'.freeCount := Finset.card_pos.mpr ⟨j, Finset.mem_filter.mpr ⟨Finset.mem_univ j, hj⟩⟩
        omega
    have hget := query_modify hroom fun codes => { codes with healthCode := 1 }
    have hget' := query_modify_of_not_hasRoom ht' hfull fun codes => { codes with healthCode := 1 }
    simp only [Runs.run, AdapterOp.step, BlockOp.step, healthSetForBlock_eq, healthGetForBlock_eq,
      Prod.map, hget, hget']
    decide
  | succ k ih =>
    obtain ⟨j, hj⟩ := exists_free_of_freeCount (t := t') (by omega)
    have hcount := freeCount_get hx hi
    have hcount' := freeCount_get hx' hj
    have hless : (blockStateGet t' (some x)).1.freeCount < (blockStateGet t (some x)).1.freeCount := by omega
    obtain ⟨y, hylen, hy, hy'⟩ := exists_fresh (blockStateGet t (some x)).1 (blockStateGet t' (some x)).1
    obtain ⟨l, hl⟩ := exists_free_of_freeCount (t := (blockStateGet t (some x)).1) (by omega)
    obtain ⟨ops, hops⟩ := ih (ht.get _) (ht'.get _) hless y hylen hy hy' l hl (by omega)
    refine ⟨.block (.healthGetForBlock (some x)) :: ops, fun heq => hops ?_⟩
    exact (List.cons.inj heq).2

/-- The three aggregates. -/
def readAggregates : List (AdapterOp P) := [.healthGet, .watchdogStateGet, .recoveryStateGet]

theorem readAggregates_run (t : BlockStates) : (Runs.run AdapterOp.step t (readAggregates (P := P))).1 =
    [some t.activeCodes.healthCode, some t.activeCodes.watchdogState, some t.activeCodes.recoveryState] := by
  simp [readAggregates, Runs.run, AdapterOp.step, healthGet, watchdogStateGet, recoveryStateGet]

/-- **A query that changes something is noticed** by some later operations. -/
theorem exists_noticing {t : BlockStates} (ht : t.WellNamed) {blockName : Option CStr}
    (h : ¬ t.Settled blockName) : ∃ ops : List (AdapterOp P),
      (Runs.run AdapterOp.step (blockStateGet t blockName).1 ops).1 ≠ (Runs.run AdapterOp.step t ops).1 := by
  by_cases hcodes : t.codesAt blockName = t.activeCodes
  · have hclaims : ¬ (t.Unknown blockName → ∀ i, (t.slots i).inUse = true) := fun hc => h ⟨hc, hcodes⟩
    push Not at hclaims
    obtain ⟨hnot, i, hi⟩ := hclaims
    apply exists_noticing_of_freeCount ht (ht.get blockName)
    have hcount := freeCount_get hnot (Bool.eq_false_iff.mpr hi)
    omega
  · refine ⟨readAggregates, fun heq => hcodes ?_⟩
    rw [readAggregates_run, readAggregates_run, activeCodes_get] at heq
    simp only [List.cons.injEq, Option.some_inj, and_true] at heq
    obtain ⟨hhealth, hwatchdog, hrecovery⟩ := heq
    calc t.codesAt blockName
        = ⟨(t.codesAt blockName).healthCode, (t.codesAt blockName).watchdogState,
            (t.codesAt blockName).recoveryState⟩ := rfl
      _ = t.activeCodes := by rw [hhealth, hwatchdog, hrecovery]

/-! ### Inserted queries -/

/-- A query of one block. -/
inductive Query
  | healthGetForBlock (blockName : Option CStr)
  | watchdogStateGetForBlock (blockName : Option CStr)
  | recoveryStateGetForBlock (blockName : Option CStr)

/-- The block it is about. -/
def Query.blockName : Query → Option CStr
  | .healthGetForBlock blockName | .watchdogStateGetForBlock blockName
  | .recoveryStateGetForBlock blockName => blockName

/-- The operation it is. -/
def Query.op : Query → BlockOp P
  | .healthGetForBlock blockName => .healthGetForBlock blockName
  | .watchdogStateGetForBlock blockName => .watchdogStateGetForBlock blockName
  | .recoveryStateGetForBlock blockName => .recoveryStateGetForBlock blockName

/-- An operation of a sequence, or a query inserted into it. -/
inductive Item (P : Platform)
  | call (op : AdapterOp P)
  | inserted (q : Query)

namespace Item

/-- Take an item: what a call returns, nothing for an inserted query, and the
state after it. -/
def step (t : BlockStates) : Item P → Option Returned × BlockStates
  | .call op => (some (op.step t).1, (op.step t).2)
  | .inserted q => (none, ((q.op : BlockOp P).step t).2)

/-- The item belongs to the sequence. -/
def isCall : Item P → Bool
  | .call _ => true
  | .inserted _ => false

/-- The item is a call, or a query that changes nothing. -/
def Settled (t : BlockStates) : Item P → Prop
  | .call _ => True
  | .inserted q => t.Settled q.blockName

end Item

/-- The calls return what they return without the inserted queries. -/
def Unnoticed (t : BlockStates) (items : List (Item P)) : Prop :=
  (Runs.run Item.step t items).1.filter Option.isSome =
    (Runs.run Item.step t (items.filter Item.isCall)).1

theorem query_step_snd (q : Query) (t : BlockStates) :
    ((q.op : BlockOp P).step t).2 = (blockStateGet t q.blockName).1 := by
  cases q <;> rfl

theorem Alike.symm {t t' : BlockStates} (h : Alike t t') : Alike t' t := ⟨h.slots.symm, h.activeCodes.symm⟩

theorem Alike.trans {t t' t'' : BlockStates} (h : Alike t t') (h' : Alike t' t'') : Alike t t'' :=
  ⟨h.slots.trans h'.slots, h.activeCodes.trans h'.activeCodes⟩

theorem Alike.run {t t' : BlockStates} (h : Alike t t') (ops : List (AdapterOp P)) :
    (Runs.run AdapterOp.step t ops).1 = (Runs.run AdapterOp.step t' ops).1 :=
  (Runs.run_simulates (R := Alike) ops t t' (fun op _ _ _ hs => hs.step op) h).1

/-- **Queries that change nothing go unnoticed.** -/
theorem unnoticed_of_settled {t : BlockStates} {items : List (Item P)}
    (h : Runs.Along Item.step Item.Settled t items) : Unnoticed t items := by
  have hout : ∀ i ∈ items, ∀ s, (Item.step s i).1.isSome = i.isCall := by
    intro i _ s
    cases i <;> rfl
  have hcall : ∀ i ∈ items, i.isCall → ∀ s s', Alike s s' →
      id (Item.step s i).1 = id (Item.step s' i).1 ∧ Alike (Item.step s i).2 (Item.step s' i).2 := by
    intro i _ hi s s' hs
    cases i with
    | call op => exact ⟨congrArg some (hs.step op).1, (hs.step op).2⟩
    | inserted q => cases hi
  have hinserted : Runs.Along Item.step
      (fun s i => i.isCall = false → ∀ s', Alike s s' → Alike (Item.step s i).2 s') t items := by
    refine Runs.Along.imp (fun _ => True) items (fun _ _ _ _ => trivial) trivial ?_ h
    intro i _ s _ hsettled hi s' hs
    cases i with
    | call op => cases hi
    | inserted q =>
      rw [Item.step, query_step_snd]
      exact hsettled.alike.trans hs
  have hpurge := Runs.run_purge id items t t hout hcall hinserted ⟨rfl, rfl⟩
  rwa [List.map_id, List.map_id] at hpurge

theorem calls_isCall (ops : List (AdapterOp P)) : (ops.map Item.call).filter Item.isCall = ops.map Item.call :=
  List.filter_eq_self.mpr fun i hi => by
    obtain ⟨op, -, rfl⟩ := List.mem_map.mp hi
    rfl

theorem calls_run (t : BlockStates) (ops : List (AdapterOp P)) :
    (Runs.run Item.step t (ops.map Item.call)).1 = (Runs.run AdapterOp.step t ops).1.map some := by
  induction ops generalizing t with
  | nil => rfl
  | cons op ops ih => exact congrArg _ (ih (op.step t).2)

theorem calls_run_isSome (t : BlockStates) (ops : List (AdapterOp P)) :
    (Runs.run Item.step t (ops.map .call)).1.filter Option.isSome =
      (Runs.run AdapterOp.step t ops).1.map some := by
  rw [calls_run, List.filter_eq_self]
  intro out hout
  obtain ⟨r, -, rfl⟩ := List.mem_map.mp hout
  rfl

theorem calls_settled (t : BlockStates) (ops : List (AdapterOp P)) :
    Runs.Along Item.step Item.Settled t (ops.map .call) := by
  induction ops generalizing t with
  | nil => trivial
  | cons op ops ih => exact ⟨trivial, ih _⟩

/-- **Queries that go unnoticed change nothing.** Of two states that look
alike one takes the items, the other those that are calls. -/
theorem settled_of_unnoticed {t t' : BlockStates} (ht : t.WellNamed) (h : Alike t t') (items : List (Item P))
    (hall : ∀ done, done <+: items → ∀ later : List (AdapterOp P),
      (Runs.run Item.step t (done ++ later.map .call)).1.filter Option.isSome =
        (Runs.run Item.step t' ((done ++ later.map Item.call).filter Item.isCall)).1) :
    Runs.Along Item.step Item.Settled t items := by
  induction items generalizing t t' with
  | nil => trivial
  | cons i is ih =>
    cases i with
    | call op =>
      obtain ⟨-, hnext⟩ := h.step op
      refine ⟨trivial, ih (BlockStates.WellNamed.step ht op) hnext ?_⟩
      intro done hdone later
      have hlist := hall (.call op :: done) (List.cons_prefix_cons.mpr ⟨rfl, hdone⟩) later
      exact (List.cons.inj hlist).2
    | inserted q =>
      have hstep : (Item.step t (.inserted q : Item P)).2 = (blockStateGet t q.blockName).1 :=
        query_step_snd q t
      have hsettled : t.Settled q.blockName := by
        by_contra hnot
        obtain ⟨later, hlater⟩ := exists_noticing (P := P) ht hnot
        have hlist := hall [.inserted q] (List.prefix_append [_] is) later
        have hafter : (Runs.run AdapterOp.step (blockStateGet t q.blockName).1 later).1.map some =
            (Runs.run AdapterOp.step t' later).1.map some :=
          calc (Runs.run AdapterOp.step (blockStateGet t q.blockName).1 later).1.map some
              = (Runs.run Item.step t ([Item.inserted q] ++ later.map Item.call)).1.filter Option.isSome := by
                rw [← calls_run_isSome, ← hstep]
                rfl
            _ = (Runs.run Item.step t' (([Item.inserted q] ++ later.map Item.call).filter Item.isCall)).1 :=
                hlist
            _ = (Runs.run AdapterOp.step t' later).1.map some := by
                rw [List.filter_append, calls_isCall, ← calls_run]
                rfl
        apply hlater
        rw [h.run later]
        exact List.map_injective_iff.mpr (Option.some_injective _) hafter
      refine ⟨hsettled, ?_⟩
      rw [hstep]
      refine ih (ht.get _) (hsettled.alike.trans h) ?_
      intro done hdone later
      have hlist := hall (.inserted q :: done) (List.cons_prefix_cons.mpr ⟨rfl, hdone⟩) later
      rw [← hstep]
      exact hlist

/-- **Inserted queries.** In every state the adapters reach, for every
sequence of operations with queries inserted: whatever is called after any
part of it, the calls return what they return without the queries, if and only
if each query changes nothing in the state it meets. -/
theorem queries_unnoticed_iff (ops : List (AdapterOp P)) (items : List (Item P)) :
    let t := (Runs.run AdapterOp.step .fresh ops).2
    (∀ done, done <+: items → ∀ later : List (AdapterOp P), Unnoticed t (done ++ later.map .call)) ↔
      Runs.Along Item.step Item.Settled t items := by
  intro t
  have ht : t.WellNamed :=
    Runs.run_invariant ops BlockStates.fresh (fun op _ _ hs => BlockStates.WellNamed.step hs op)
      wellNamed_fresh
  constructor
  · exact settled_of_unnoticed ht ⟨rfl, rfl⟩ items
  · rintro h done ⟨rest, rfl⟩ later
    apply unnoticed_of_settled
    rw [Runs.along_append] at h ⊢
    exact ⟨h.1, calls_settled _ later⟩

/-- A health code, and the aggregate with and without a query in between. -/
theorem queries_noticed :
    (Runs.run AdapterOp.step .fresh
      ([.block (.healthSetForBlock (some (.lit "a")) 5), .block (.healthGetForBlock (some (.lit "b"))),
        .healthGet] : List (AdapterOp .host))).1 = [none, some 0, some 0] ∧
    (Runs.run AdapterOp.step .fresh
      ([.block (.healthSetForBlock (some (.lit "a")) 5), .healthGet] : List (AdapterOp .host))).1 =
        [none, some 5] := by
  decide +kernel

/-! ### Resets -/

section Reset

variable (t : BlockStates) (f : BlockCodes → BlockCodes)

theorem matches_reset : (resetBlockStates t f).Matches = t.Matches := by
  unfold resetBlockStates
  rw [matches_refresh]
  funext key i
  unfold BlockStates.Matches
  dsimp only
  split
  · exact Slot.nameMatches_data ..
  · rfl

/-- **A reset** changes the codes of every block alike. -/
theorem codesAt_reset (hf : f .zero = .zero) (blockName : Option CStr) :
    (resetBlockStates t f).codesAt blockName = f (t.codesAt blockName) := by
  have hmatches := matches_reset t f
  rcases found_or_unknown t blockName with ⟨i, h⟩ | h
  · have hafter : (resetBlockStates t f).Found blockName i := by
      unfold BlockStates.Found
      rw [hmatches]
      exact h
    have huse : (t.slots i).inUse = true := ((matches_iff ..).mp (List.find?_some h)).1
    rw [h.codesAt, hafter.codesAt, resetBlockStates, refresh_slots]
    simp only [huse, if_true]
  · have hafter : (resetBlockStates t f).Unknown blockName := by
      unfold BlockStates.Unknown
      rw [hmatches]
      exact h
    rw [h.codesAt, hafter.codesAt, hf]

/-- A reset leaves no slot active. -/
theorem activeCodes_reset : (resetBlockStates t f).activeCodes = .zero := by
  unfold resetBlockStates
  rw [activeCodes_refresh]
  rfl

end Reset

/-- A reset of the watchdog cleared the watchdog states, and left the health
codes and the recovery states of the blocks. -/
structure WatchdogCleared (t t' : BlockStates) : Prop where
  watchdogStateGet : (watchdogStateGet t').1 = 0
  watchdogStateGetForBlock : ∀ name, (watchdogStateGetForBlock t' name).1 = 0
  healthGet : (healthGet t').1 = (healthGet t).1
  healthGetForBlock : ∀ name, (healthGetForBlock t' name).1 = (healthGetForBlock t name).1
  recoveryStateGetForBlock : ∀ name,
    (recoveryStateGetForBlock t' name).1 = (recoveryStateGetForBlock t name).1

/-- A reset of the recovery cleared the recovery states, and left the health
codes and the watchdog states. -/
structure RecoveryCleared (t t' : BlockStates) : Prop where
  recoveryStateGet : (recoveryStateGet t').1 = 0
  recoveryStateGetForBlock : ∀ name, (recoveryStateGetForBlock t' name).1 = 0
  healthGet : (healthGet t').1 = (healthGet t).1
  healthGetForBlock : ∀ name, (healthGetForBlock t' name).1 = (healthGetForBlock t name).1
  watchdogStateGet : (watchdogStateGet t').1 = (watchdogStateGet t).1
  watchdogStateGetForBlock : ∀ name,
    (watchdogStateGetForBlock t' name).1 = (watchdogStateGetForBlock t name).1

/-- The reset of the watchdog clears the watchdog states and no other result,
if and only if the slot looked up last since the last reset has health
code 0. -/
theorem watchdogCleared_iff (t : BlockStates) :
    WatchdogCleared t (watchdogReset t) ↔ t.activeCodes.healthCode = 0 := by
  have hcodes : ∀ name, (watchdogReset t).codesAt name = { t.codesAt name with watchdogState := 0 } :=
    codesAt_reset t (fun codes => { codes with watchdogState := 0 }) rfl
  have hactive : (watchdogReset t).activeCodes = .zero := activeCodes_reset t _
  constructor
  · intro hcleared
    have hhealth := hcleared.healthGet
    rw [healthGet_fst, healthGet_fst, hactive] at hhealth
    exact hhealth.symm
  · intro hhealth
    constructor
    · rw [watchdogStateGet_fst, hactive]
      rfl
    · intro name
      rw [watchdogStateGetForBlock_fst, hcodes]
    · rw [healthGet_fst, healthGet_fst, hactive, hhealth]
      rfl
    · intro name
      rw [healthGetForBlock_fst, healthGetForBlock_fst, hcodes]
    · intro name
      rw [recoveryStateGetForBlock_fst, recoveryStateGetForBlock_fst, hcodes]

/-- The reset of the recovery clears the recovery states and no health or
watchdog result, if and only if the slot looked up last since the last reset
has health code 0 and watchdog state 0. -/
theorem recoveryCleared_iff (t : BlockStates) :
    RecoveryCleared t (recoveryReset t) ↔
      t.activeCodes.healthCode = 0 ∧ t.activeCodes.watchdogState = 0 := by
  have hcodes : ∀ name, (recoveryReset t).codesAt name = { t.codesAt name with recoveryState := 0 } :=
    codesAt_reset t (fun codes => { codes with recoveryState := 0 }) rfl
  have hactive : (recoveryReset t).activeCodes = .zero := activeCodes_reset t _
  constructor
  · intro hcleared
    have hhealth := hcleared.healthGet
    have hstate := hcleared.watchdogStateGet
    rw [healthGet_fst, healthGet_fst, hactive] at hhealth
    rw [watchdogStateGet_fst, watchdogStateGet_fst, hactive] at hstate
    exact ⟨hhealth.symm, hstate.symm⟩
  · rintro ⟨hhealth, hstate⟩
    constructor
    · rw [recoveryStateGet_fst, hactive]
      rfl
    · intro name
      rw [recoveryStateGetForBlock_fst, hcodes]
    · rw [healthGet_fst, healthGet_fst, hactive, hhealth]
      rfl
    · intro name
      rw [healthGetForBlock_fst, healthGetForBlock_fst, hcodes]
    · rw [watchdogStateGet_fst, watchdogStateGet_fst, hactive, hstate]
      rfl
    · intro name
      rw [watchdogStateGetForBlock_fst, watchdogStateGetForBlock_fst, hcodes]

/-- **The frame of a reset.** In every state, the reset of the watchdog clears
the watchdog states and no other result, and the reset of the recovery clears
the recovery states and no health or watchdog result, if and only if the slot
looked up last since the last reset has health code 0 and watchdog state 0. -/
theorem resets_frame_iff (t : BlockStates) :
    (WatchdogCleared t (watchdogReset t) ∧ RecoveryCleared t (recoveryReset t)) ↔
      t.activeCodes.healthCode = 0 ∧ t.activeCodes.watchdogState = 0 := by
  rw [watchdogCleared_iff, recoveryCleared_iff]
  exact and_iff_right_of_imp And.left

/-- A reset of the watchdog loses the health code of the block set last. -/
theorem reset_loses_health :
    (Runs.run AdapterOp.step .fresh
      ([.block (.healthSetForBlock (some (.lit "a")) 5), .healthGet, .block .watchdogReset,
        .healthGet] : List (AdapterOp .host))).1 = [none, some 5, none, some 0] := by
  decide +kernel

end Loxguard
