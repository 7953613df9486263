/-
# Slots of a block table

The failure streaks of `loxguard.c` and the block states of
`loxguard_adapters.c` are kept in tables of 8 slots and one for overflow. A
slot holds a bounded copy of its block's name and the hash of the whole name;
it is found by both. A name of at most 63 bytes is found in the slot that was
claimed for it, a longer one never is.

Key definitions: `Slot`, `blockKey`, `Slot.nameMatches`, `Slot.claim`.
Key theorems: `nameMatches_claim_self`, `not_nameMatches_of_long`.
-/
import Loxguard.Types

namespace Loxguard

open Lib

/-- The common part of `lox_failure_streak_t` and `lox_adapter_block_state_t`. -/
structure Slot (α : Type) where
  inUse : Bool
  blockName : CharBuf 64
  nameHash : BitVec 32
  data : α
deriving DecidableEq

/-- `lox_block_key`: no name and the empty name are the key `"global"`. -/
def blockKey : Option CStr → CStr
  | none => .lit "global"
  | some s => if s.bytes = [] then .lit "global" else s

/-- `lox_hash_block_name`, `lox_block_key_hash`. -/
def hashBlockName (name : Option CStr) : BitVec 32 := fnv1a (blockKey name).bytes

namespace Slot

variable {α : Type}

/-- A slot of a fresh process. -/
def empty (zero : α) : Slot α := ⟨false, .zero 64, 0, zero⟩

/-- `lox_failure_streak_name_matches`, `lox_block_name_matches`. -/
def nameMatches (slot : Slot α) (key : CStr) (keyHash : BitVec 32) : Bool :=
  if !slot.inUse then false
  else if slot.nameHash ≠ keyHash then false
  else slot.blockName.text = key

/-- A slot taken over for a key. -/
def claim (slot : Slot α) (key : CStr) (keyHash : BitVec 32) (data : α) : Slot α :=
  ⟨true, slot.blockName.copy key, keyHash, data⟩

theorem nameMatches_iff (slot : Slot α) (key : CStr) (keyHash : BitVec 32) :
    slot.nameMatches key keyHash = true ↔
      slot.inUse = true ∧ slot.nameHash = keyHash ∧ slot.blockName.text = key := by
  unfold nameMatches
  cases slot.inUse <;> simp

@[simp] theorem nameMatches_data (slot : Slot α) (d : α) (key : CStr) (keyHash : BitVec 32) :
    ({ slot with data := d } : Slot α).nameMatches key keyHash = slot.nameMatches key keyHash := rfl

theorem nameMatches_claim (slot : Slot α) (key key' : CStr) (keyHash keyHash' : BitVec 32) (d : α) :
    (slot.claim key keyHash d).nameMatches key' keyHash' = true ↔
      keyHash = keyHash' ∧ key.take 63 = key' := by
  rw [nameMatches_iff, claim, CharBuf.text_copy]
  simp

/-- A claimed slot is found again by a name that fits. -/
theorem nameMatches_claim_self (slot : Slot α) {key : CStr} (h : key.length ≤ 63)
    (keyHash : BitVec 32) (d : α) : (slot.claim key keyHash d).nameMatches key keyHash = true :=
  (nameMatches_claim ..).mpr ⟨rfl, CStr.take_eq_self h⟩

/-- No slot is found by a name that does not fit. -/
theorem not_nameMatches_of_long (slot : Slot α) {key : CStr} (h : 63 < key.length)
    (hslot : slot.blockName.text.length ≤ 63) (keyHash : BitVec 32) :
    slot.nameMatches key keyHash = false := by
  rw [Bool.eq_false_iff, ne_eq, nameMatches_iff]
  rintro ⟨-, -, rfl⟩
  omega

/-- Two names that find the same slot are the same name. -/
theorem eq_of_nameMatches {slot : Slot α} {key key' : CStr} {keyHash keyHash' : BitVec 32}
    (h : slot.nameMatches key keyHash = true) (h' : slot.nameMatches key' keyHash' = true) :
    key = key' := by
  rw [nameMatches_iff] at h h'
  exact h.2.2.symm.trans h'.2.2

end Slot

end Loxguard
