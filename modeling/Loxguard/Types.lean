/-
# The data of loxguard

The status codes, the enumerations and the records of `loxguard.h`. A text
pointer of an event is `CharPtr`: null, a string somewhere outside, or one of
the text slots of the blackbox that holds the event. `Event` is generic in its
text type, so an event with pointers and the same event with its texts read
out (`Option CStr`, `none` for `NULL`) are one record.

A `Platform` fixes the widths of `size_t` and `long`; `int` and `uint32_t`
have 32 bits and `uintmax_t` has 64.

Key definitions: `Platform`, `EventKind`, `Action`, `Result`, `CharPtr`,
`Event`, `Report`, `copyCstr`.
-/
import Mathlib.Data.BitVec
import Loxguard.Lib.CString

namespace Loxguard

open Lib

/-! ### Widths -/

/-- The widths of `size_t` and `long`. -/
structure Platform where
  sizeBits : ℕ
  longBits : ℕ
  le_sizeBits : 32 ≤ sizeBits
  sizeBits_le : sizeBits ≤ 64
  le_longBits : 32 ≤ longBits

/-- `size_t`. -/
abbrev Platform.Size (P : Platform) := BitVec P.sizeBits

/-- A host with 64-bit `size_t` and `long`. -/
def Platform.host : Platform := ⟨64, 64, by decide, by decide, by decide⟩

/-- `SIZE_MAX`. -/
def Platform.sizeMax (P : Platform) : ℕ := 2 ^ P.sizeBits - 1

/-- `UINTMAX_MAX`. -/
def uintmaxMax : ℕ := 2 ^ 64 - 1

/-- `UINT32_MAX`. -/
def uint32Max : ℕ := 2 ^ 32 - 1

/-- `INT_MAX`. -/
def intMax : ℕ := 2 ^ 31 - 1

/-! ### Status codes -/

def ok : ℤ := 0
def errBounds : ℤ := -1
def errNull : ℤ := -2
def errReadonly : ℤ := -3
def errOverflow : ℤ := -4
def errArenaFull : ℤ := -6
def errTimeout : ℤ := -7
def errUnsupported : ℤ := -8
def errMemoryFault : ℤ := -9

/-! ### Enumerations -/

/-- `lox_event_kind_t`. -/
inductive EventKind
  | none
  | blockWriteOutOfBounds
  | blockArenaOverflow
  | blockTimeout
  | blockMemoryFault
  | blockUnsupported
  | blockEntered
  | blockOk
  | blockCompleted
  | blockError
  | blockPanic
  | blockFault
deriving DecidableEq, Repr

/-- The enumerator's value. -/
def EventKind.code : EventKind → ℕ
  | .none => 0
  | .blockWriteOutOfBounds => 1
  | .blockArenaOverflow => 2
  | .blockTimeout => 3
  | .blockMemoryFault => 4
  | .blockUnsupported => 5
  | .blockEntered => 6
  | .blockOk => 7
  | .blockCompleted => 8
  | .blockError => 9
  | .blockPanic => 10
  | .blockFault => 11

/-- The cast from an `int` that is an enumerator's value. -/
def EventKind.ofCode : ℤ → Option EventKind
  | 0 => some .none
  | 1 => some .blockWriteOutOfBounds
  | 2 => some .blockArenaOverflow
  | 3 => some .blockTimeout
  | 4 => some .blockMemoryFault
  | 5 => some .blockUnsupported
  | 6 => some .blockEntered
  | 7 => some .blockOk
  | 8 => some .blockCompleted
  | 9 => some .blockError
  | 10 => some .blockPanic
  | 11 => some .blockFault
  | _ => Option.none

theorem EventKind.ofCode_code (k : EventKind) : ofCode k.code = some k := by
  cases k <;> rfl

theorem EventKind.ofCode_eq_some_iff (x : ℤ) (k : EventKind) : ofCode x = some k ↔ x = k.code := by
  constructor
  · unfold ofCode
    intro h
    split at h <;> cases h <;> rfl
  · rintro rfl
    exact k.ofCode_code

theorem EventKind.code_le (k : EventKind) : k.code ≤ 11 := by
  cases k <;> decide

/-- `lox_action_t`. -/
inductive Action
  | none
  | dropInput
  | resetBlock
deriving DecidableEq, Repr

/-- `lox_result_t`. -/
inductive Result
  | none
  | ok
  | error
  | timeout
  | bounds
  | arena
  | memoryFault
  | unsupported
deriving DecidableEq, Repr

/-! ### Events and reports -/

/-- A `const char *` in an event: null, a string outside every blackbox, or
text slot `i` of the blackbox the event is stored in. -/
inductive CharPtr
  | null
  | str (s : CStr)
  | blockNames (i : ℕ)
  | reasons (i : ℕ)
deriving DecidableEq, Repr

/-- The pointer to a text given from outside. -/
def CharPtr.ofText : Option CStr → CharPtr
  | Option.none => .null
  | some s => .str s

/-- `lox_event_t`, with texts of type `T`. -/
structure Event (P : Platform) (T : Type) where
  kind : EventKind
  blockName : T
  reason : T
  index : P.Size
  limit : P.Size
  auxCode : BitVec 32
deriving DecidableEq, Repr

/-- An event whose texts are given from outside. -/
abbrev ExtEvent (P : Platform) := Event P (Option CStr)

/-- Read or write the texts of an event another way. -/
def Event.mapText {P : Platform} {T U : Type} (f : T → U) (e : Event P T) : Event P U :=
  ⟨e.kind, f e.blockName, f e.reason, e.index, e.limit, e.auxCode⟩

/-- An event `memset` to zero. -/
def Event.zero (P : Platform) {T : Type} (null : T) : Event P T := ⟨.none, null, null, 0, 0, 0⟩

/-- `lox_report_t`. -/
structure Report where
  lastBlock : Option CStr
  lastFailedBlock : Option CStr
  reason : Option CStr
  result : Result
  action : Action
  durationTicks : BitVec 32
  eventPersisted : ℤ
deriving DecidableEq, Repr

/-- `loxguard_copy_cstr`: a bounded copy, of nothing for `NULL`. -/
def copyCstr {n : ℕ} (dst : CharBuf n) : Option CStr → CharBuf n
  | Option.none => dst.copy ⟨[], by simp⟩
  | some s => dst.copy s

end Loxguard
