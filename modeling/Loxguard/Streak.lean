/-
# The failure streaks

`lox_failure_streak_for_block` looks up the streak of a block and claims a slot
for a block it does not find. The search takes the first slot that does not
match as the free one, whether it is in use or not, so a block that is not
found always claims the first slot and the overflow slot is never reached
(`failureStreakForBlock_eq`).

`streakOf` is the streak the lookup holds for a block, `observe` what an event
does to the table. For a name of at most 63 bytes an event moves the block's
streak as it should (`streakOf_observe`); a longer name is never found and has
streak 0 whenever it is looked up (`streakOf_of_long`). Starting from the
fresh table, an event of one block leaves every other block with streak 0
(`streakOf_observe_ne`).

Key definitions: `failureStreakForBlock`, `streakOf`, `observe`,
`EventKind.nextStreak`, `streakAfter`, `failuresSinceOk`.
Key theorems: `failureStreakForBlock_eq`, `lookup_lookup`, `streakOf_observe`,
`streakOf_of_long`, `streakOf_observe_ne`, `streakAfter_ofNat`.
-/
import Loxguard.Slots
import Mathlib.Data.BitVec
import Mathlib.Data.List.FinRange

namespace Loxguard

open Lib

/-! ### What an event does to a streak -/

/-- The kinds that count as a failure. -/
def EventKind.isFailure : EventKind → Bool
  | .blockTimeout | .blockWriteOutOfBounds | .blockArenaOverflow | .blockMemoryFault | .blockPanic
  | .blockFault | .blockError | .blockUnsupported => true
  | _ => false

/-- The streak after an event. -/
def EventKind.nextStreak (kind : EventKind) (streak : BitVec 32) : BitVec 32 :=
  if kind = .blockOk then 0 else if kind.isFailure then streak + 1 else streak

/-- The streak after events of some kinds. -/
def streakAfter (streak : BitVec 32) (kinds : List EventKind) : BitVec 32 :=
  kinds.foldl (fun s kind => kind.nextStreak s) streak

/-- A number of failures after events of some kinds, counted without a bound. -/
def countAfter (n : ℕ) (kinds : List EventKind) : ℕ :=
  kinds.foldl (fun n kind => if kind = .blockOk then 0 else if kind.isFailure then n + 1 else n) n

/-- The number of failures since the last `OK`. -/
def failuresSinceOk (kinds : List EventKind) : ℕ := countAfter 0 kinds

/-! ### The table -/

/-- `g_failure_streaks` and `g_failure_streak_overflow`. -/
structure StreakTable where
  slots : Fin 8 → Slot (BitVec 32)
  overflow : Slot (BitVec 32)

/-- The table of a fresh process. -/
def StreakTable.fresh : StreakTable := ⟨fun _ => .empty 0, .empty 0⟩

/-- A pointer to a streak: the slot, `none` for the overflow slot. -/
abbrev StreakPtr := Option (Fin 8)

/-- Read through a streak pointer. -/
def StreakTable.read (t : StreakTable) : StreakPtr → BitVec 32
  | some i => (t.slots i).data
  | none => t.overflow.data

/-- Write through a streak pointer. -/
def StreakTable.write (t : StreakTable) (p : StreakPtr) (streak : BitVec 32) : StreakTable :=
  match p with
  | some i => { t with slots := Function.update t.slots i { t.slots i with data := streak } }
  | none => { t with overflow := { t.overflow with data := streak } }

/-- Take slot `i` over for a key. -/
def StreakTable.claim (t : StreakTable) (i : Fin 8) (key : CStr) (keyHash : BitVec 32) : StreakTable :=
  { t with slots := Function.update t.slots i ((t.slots i).claim key keyHash 0) }

/-- The search of `lox_failure_streak_for_block` over the slots that are left:
the slot found, and `free_idx`. -/
def findStreak (t : StreakTable) (key : CStr) (keyHash : BitVec 32) :
    List (Fin 8) → Option (Fin 8) → Option (Fin 8) × Option (Fin 8)
  | [], freeIdx => (none, freeIdx)
  | i :: is, freeIdx =>
    if (t.slots i).nameMatches key keyHash then (some i, freeIdx)
    -- any slot that does not match counts as free
    else findStreak t key keyHash is (if freeIdx = none then some i else freeIdx)

/-- `lox_failure_streak_for_block`. -/
def failureStreakForBlock (t : StreakTable) (blockName : Option CStr) : StreakTable × StreakPtr :=
  let key := blockKey blockName
  let keyHash := hashBlockName (some key)
  match findStreak t key keyHash (List.finRange 8) none with
  | (some i, _) => (t, some i)
  | (none, none) => ({ t with overflow := t.overflow.claim key keyHash t.overflow.data }, none)
  | (none, some i) => (t.claim i key keyHash, some i)

/-- The streak the lookup holds for a block. -/
def streakOf (t : StreakTable) (blockName : Option CStr) : BitVec 32 :=
  (failureStreakForBlock t blockName).1.read (failureStreakForBlock t blockName).2

/-- An event of a block: the lookup, then the change of the streak. -/
def observe (blockName : Option CStr) (t : StreakTable) (kind : EventKind) : StreakTable :=
  (failureStreakForBlock t blockName).1.write (failureStreakForBlock t blockName).2
    (kind.nextStreak (streakOf t blockName))

/-! ### What the lookup does -/

theorem StreakTable.read_write (t : StreakTable) (p : StreakPtr) (s : BitVec 32) :
    (t.write p s).read p = s := by
  cases p <;> simp [StreakTable.write, StreakTable.read]

/-- Slot `i` is found by the name. -/
def StreakTable.Matches (t : StreakTable) (key : CStr) (i : Fin 8) : Bool :=
  (t.slots i).nameMatches key (hashBlockName (some key))

theorem findStreak_eq (t : StreakTable) (key : CStr) : ∀ (is : List (Fin 8)) (freeIdx : Option (Fin 8)),
    (findStreak t key (hashBlockName (some key)) is freeIdx).1 = is.find? (t.Matches key) ∧
      (is.find? (t.Matches key) = none → is ≠ [] →
        (findStreak t key (hashBlockName (some key)) is freeIdx).2 = freeIdx.or is.head?)
  | [], _ => by simp [findStreak]
  | i :: is, freeIdx => by
    obtain ⟨ih1, ih2⟩ := findStreak_eq t key is (if freeIdx = none then some i else freeIdx)
    rw [findStreak]
    by_cases h : (t.slots i).nameMatches key (hashBlockName (some key)) = true
    · rw [if_pos h, List.find?_cons_of_pos (by exact h)]
      simp
    · rw [if_neg h, List.find?_cons_of_neg (by exact h)]
      refine ⟨ih1, fun hnone _ => ?_⟩
      cases is with
      | nil => cases freeIdx <;> simp [findStreak]
      | cons j is =>
        rw [ih2 hnone (by simp)]
        cases freeIdx <;> simp

/-- **The lookup**: the first slot the name finds, else the first slot of all,
claimed with streak 0. -/
theorem failureStreakForBlock_eq (t : StreakTable) (blockName : Option CStr) :
    failureStreakForBlock t blockName =
      match (List.finRange 8).find? (t.Matches (blockKey blockName)) with
      | some i => (t, some i)
      | none =>
        (t.claim 0 (blockKey blockName) (hashBlockName (some (blockKey blockName))), some 0) := by
  obtain ⟨h1, h2⟩ := findStreak_eq t (blockKey blockName) (List.finRange 8) none
  rw [failureStreakForBlock]
  cases hfind : (List.finRange 8).find? (t.Matches (blockKey blockName)) with
  | some i =>
    rw [hfind] at h1
    rw [show findStreak t (blockKey blockName) (hashBlockName (some (blockKey blockName)))
      (List.finRange 8) none = (some i, _) from Prod.ext h1 rfl]
  | none =>
    rw [hfind] at h1
    have h0 := h2 hfind (by decide)
    rw [show findStreak t (blockKey blockName) (hashBlockName (some (blockKey blockName)))
      (List.finRange 8) none = (none, some 0) from Prod.ext h1 h0]

/-- The lookup finds the name in slot `i`. -/
def StreakTable.Found (t : StreakTable) (blockName : Option CStr) (i : Fin 8) : Prop :=
  (List.finRange 8).find? (t.Matches (blockKey blockName)) = some i

section Found

variable {t : StreakTable} {blockName : Option CStr} {i : Fin 8}

theorem StreakTable.Found.lookup (h : t.Found blockName i) :
    failureStreakForBlock t blockName = (t, some i) := by
  rw [failureStreakForBlock_eq, h]

theorem StreakTable.Found.write (h : t.Found blockName i) (j : Fin 8) (s : BitVec 32) :
    (t.write (some j) s).Found blockName i := by
  have hmatch : (t.write (some j) s).Matches = t.Matches := by
    funext key k
    simp only [Matches, StreakTable.write, Function.update_apply]
    split
    · rename_i hk
      rw [Slot.nameMatches_data, hk]
    · rfl
  unfold Found
  rw [hmatch]
  exact h

theorem found_lookup (h : (blockKey blockName).length ≤ 63) :
    ∃ i, (failureStreakForBlock t blockName).2 = some i ∧
      (failureStreakForBlock t blockName).1.Found blockName i := by
  rw [failureStreakForBlock_eq]
  cases hfind : (List.finRange 8).find? (t.Matches (blockKey blockName)) with
  | some i => exact ⟨i, rfl, hfind⟩
  | none =>
    refine ⟨0, rfl, ?_⟩
    unfold StreakTable.Found
    rw [show List.finRange 8 = 0 :: (List.finRange 8).tail by decide]
    refine List.find?_cons_of_pos ?_
    simp only [StreakTable.Matches, StreakTable.claim, Function.update_self]
    exact Slot.nameMatches_claim_self _ h _ _

end Found

/-! ### Names that fit -/

section Fits

variable (t : StreakTable) {blockName : Option CStr} (h : (blockKey blockName).length ≤ 63)
include h

/-- A second lookup changes nothing. -/
theorem lookup_lookup : failureStreakForBlock (failureStreakForBlock t blockName).1 blockName =
    failureStreakForBlock t blockName := by
  obtain ⟨i, hi, hf⟩ := found_lookup (t := t) h
  rw [hf.lookup, ← hi]

theorem lookup_observe (kind : EventKind) : failureStreakForBlock (observe blockName t kind) blockName =
    (observe blockName t kind, (failureStreakForBlock t blockName).2) := by
  obtain ⟨i, hi, hf⟩ := found_lookup (t := t) h
  unfold observe
  rw [hi]
  exact (hf.write i _).lookup

/-- **An event of a block moves its streak.** -/
theorem streakOf_observe (kind : EventKind) :
    streakOf (observe blockName t kind) blockName = kind.nextStreak (streakOf t blockName) := by
  rw [streakOf, lookup_observe t h]
  exact StreakTable.read_write _ _ _

theorem streakOf_foldl_observe (kinds : List EventKind) (t : StreakTable) :
    streakOf (kinds.foldl (observe blockName) t) blockName = streakAfter (streakOf t blockName) kinds := by
  induction kinds generalizing t with
  | nil => rfl
  | cons kind kinds ih =>
    rw [List.foldl_cons, ih, streakOf_observe t h]
    rfl

theorem streakOf_lookup : streakOf (failureStreakForBlock t blockName).1 blockName =
    streakOf t blockName := by
  rw [streakOf, lookup_lookup t h]
  rfl

end Fits

/-! ### The table of a process -/

/-- Only the first slot was ever claimed. -/
structure StreakTable.FirstOnly (t : StreakTable) : Prop where
  rest : ∀ i : Fin 8, i ≠ 0 → (t.slots i).inUse = false
  name_le : (t.slots 0).blockName.text.length ≤ 63

theorem StreakTable.fresh_firstOnly : StreakTable.fresh.FirstOnly :=
  ⟨fun _ _ => rfl, by simp [StreakTable.fresh, Slot.empty, CharBuf.text_zero, CStr.length]⟩

theorem StreakTable.slots_claim_of_ne (t : StreakTable) {i j : Fin 8} (h : j ≠ i) (key : CStr)
    (keyHash : BitVec 32) : (t.claim i key keyHash).slots j = t.slots j :=
  Function.update_of_ne h _ _

theorem StreakTable.slots_write_of_ne (t : StreakTable) {i j : Fin 8} (h : j ≠ i) (s : BitVec 32) :
    (t.write (some i) s).slots j = t.slots j :=
  Function.update_of_ne h _ _

namespace StreakTable.FirstOnly

variable {t : StreakTable} (ht : t.FirstOnly)
include ht

theorem find?_eq (key : CStr) :
    (List.finRange 8).find? (t.Matches key) = if t.Matches key 0 then some 0 else none := by
  have hrest : ∀ i : Fin 8, i ≠ 0 → t.Matches key i = false := fun i hi => by
    simp [StreakTable.Matches, Slot.nameMatches, ht.rest i hi]
  split
  · rename_i h0
    exact List.find?_cons_of_pos h0
  · rename_i h0
    rw [List.find?_eq_none]
    intro i _
    by_cases hi : i = 0
    · rw [hi]; exact h0
    · rw [hrest i hi]; simp

theorem lookup_eq (blockName : Option CStr) :
    failureStreakForBlock t blockName =
      (if t.Matches (blockKey blockName) 0 then t
        else t.claim 0 (blockKey blockName) (hashBlockName (some (blockKey blockName))), some 0) := by
  rw [failureStreakForBlock_eq, ht.find?_eq]
  by_cases h0 : t.Matches (blockKey blockName) 0 = true
  · rw [if_pos h0, if_pos h0]
  · rw [if_neg h0, if_neg h0]

theorem claim (key : CStr) (keyHash : BitVec 32) : (t.claim 0 key keyHash).FirstOnly where
  rest i hi := by
    rw [StreakTable.slots_claim_of_ne t hi]
    exact ht.rest i hi
  name_le := by
    simp only [StreakTable.claim, Function.update_self, Slot.claim, CharBuf.text_copy]
    exact CStr.length_take_le key 63

theorem write (s : BitVec 32) : (t.write (some 0) s).FirstOnly where
  rest i hi := by
    rw [StreakTable.slots_write_of_ne t hi]
    exact ht.rest i hi
  name_le := by
    simp only [StreakTable.write, Function.update_self]
    exact ht.name_le

theorem lookup (blockName : Option CStr) : (failureStreakForBlock t blockName).1.FirstOnly := by
  rw [ht.lookup_eq]
  dsimp only
  split
  · exact ht
  · exact ht.claim _ _

theorem observe (blockName : Option CStr) (kind : EventKind) :
    (Loxguard.observe blockName t kind).FirstOnly := by
  have h2 : (failureStreakForBlock t blockName).2 = some 0 := by rw [ht.lookup_eq]
  rw [Loxguard.observe, h2]
  exact (ht.lookup blockName).write _

/-- A block the first slot is not found by has streak 0. -/
theorem streakOf_of_not_matches {blockName : Option CStr}
    (h : t.Matches (blockKey blockName) 0 = false) : streakOf t blockName = 0 := by
  rw [streakOf, ht.lookup_eq, h]
  simp [StreakTable.read, StreakTable.claim, Slot.claim]

/-- **A name that does not fit** has streak 0 at every lookup. -/
theorem streakOf_of_long {blockName : Option CStr} (h : 63 < (blockKey blockName).length) :
    streakOf t blockName = 0 :=
  ht.streakOf_of_not_matches (Slot.not_nameMatches_of_long _ h ht.name_le _)

/-- **An event of one block** leaves every other block with streak 0. -/
theorem streakOf_observe_ne {blockName other : Option CStr} (h : (blockKey blockName).length ≤ 63)
    (hne : blockKey blockName ≠ blockKey other) (kind : EventKind) :
    streakOf (Loxguard.observe blockName t kind) other = 0 := by
  have ht' := ht.observe blockName kind
  refine ht'.streakOf_of_not_matches ?_
  -- the first slot is found by the block the event is of
  have hself : (Loxguard.observe blockName t kind).Matches (blockKey blockName) 0 = true := by
    have hlookup := ht'.lookup_eq blockName
    rw [lookup_observe t h] at hlookup
    obtain ⟨i, hi, hf⟩ := found_lookup (t := Loxguard.observe blockName t kind) h
    have hfound : (Loxguard.observe blockName t kind).Found blockName i := by
      rwa [lookup_observe t h] at hf
    have hsome := hfound
    unfold StreakTable.Found at hsome
    rw [ht'.find?_eq] at hsome
    split at hsome
    · assumption
    · cases hsome
  rw [Bool.eq_false_iff]
  exact fun hother => hne (Slot.eq_of_nameMatches hself hother)

end StreakTable.FirstOnly

/-! ### Counting failures -/

/-- **The streak counts failures since the last `OK`**, modulo 2^32. -/
theorem streakAfter_ofNat (kinds : List EventKind) (n : ℕ) :
    streakAfter (BitVec.ofNat 32 n) kinds = BitVec.ofNat 32 (countAfter n kinds) := by
  induction kinds generalizing n with
  | nil => rfl
  | cons kind kinds ih =>
    have hstep : kind.nextStreak (BitVec.ofNat 32 n) = BitVec.ofNat 32
        (if kind = .blockOk then 0 else if kind.isFailure then n + 1 else n) := by
      unfold EventKind.nextStreak
      split
      · rfl
      · split
        · rw [BitVec.ofNat_add]
          rfl
        · rfl
    unfold streakAfter countAfter
    rw [List.foldl_cons, List.foldl_cons, hstep]
    apply ih

end Loxguard
