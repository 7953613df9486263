/-
# The blackbox

`lox_blackbox_t` is three parallel arrays of 16 slots, the events and their
two texts, and a count. `blackboxStore` fills the next slot, or shifts the
three arrays down one slot when all are taken, then points every event at its
own text slots.

What it is for is the list of its events with their texts read out,
`contents`. A store of an event from outside is `Window.push` on that list
(`contents_store`), so after any number of stores it is the last 16 events,
each with its texts cut to 63 bytes (`contents_stores`).

Key definitions: `Blackbox`, `EventPtr`, `blackboxStore`, `Blackbox.contents`,
`recorded`.
Key theorems: `Blackbox.Wf.store`, `contents_store`, `contents_stores`,
`faithful_window`.
-/
import Loxguard.Lib.Window
import Loxguard.Types
import Mathlib.Data.List.FinRange

namespace Loxguard

open Lib

variable {P : Platform}

/-- `lox_blackbox_t`, with `LOX_BLACKBOX_MAX_EVENTS` events. -/
structure Blackbox (P : Platform) where
  events : Fin 16 → Event P CharPtr
  blockNames : Fin 16 → CharBuf 64
  reasons : Fin 16 → CharBuf 64
  count : ℕ

namespace Blackbox

/-- The text a pointer of a stored event reads as. -/
def deref (bb : Blackbox P) : CharPtr → Option CStr
  | .null => none
  | .str s => some s
  | .blockNames i => if h : i < 16 then some (bb.blockNames ⟨i, h⟩).text else none
  | .reasons i => if h : i < 16 then some (bb.reasons ⟨i, h⟩).text else none

/-- Event `i` with its texts read out. -/
def view (bb : Blackbox P) (i : Fin 16) : ExtEvent P := (bb.events i).mapText bb.deref

/-- The stored events, oldest first, with their texts read out. -/
def contents (bb : Blackbox P) : List (ExtEvent P) := ((List.finRange 16).take bb.count).map bb.view

end Blackbox

/-- The `const lox_event_t *` a caller hands to `lox_blackbox_store`: null, an
event outside the blackbox, or an event of the blackbox itself. -/
inductive EventPtr (P : Platform)
  | null
  | ext (e : Event P CharPtr)
  | slot (i : Fin 16)

/-- The event the pointer refers to. -/
def EventPtr.read (bb : Blackbox P) : EventPtr P → Option (Event P CharPtr)
  | .null => none
  | .ext e => some e
  | .slot i => some (bb.events i)

/-- `lox_blackbox_init`. -/
def blackboxInit : Blackbox P where
  events := fun _ => Event.zero P .null
  blockNames := fun _ => .zero 64
  reasons := fun _ => .zero 64
  count := 0

/-- `memmove` of slots 1 to 15 to slots 0 to 14. -/
def shiftDown {α : Type} (a : Fin 16 → α) (i : Fin 16) : α :=
  if h : i.val + 1 < 16 then a ⟨i.val + 1, h⟩ else a i

/-- The pointer, or the constant `"none"` for a null one. -/
def CharPtr.orNone : CharPtr → CharPtr
  | .null => .str (.lit "none")
  | p => p

/-- `lox_blackbox_store`. -/
def blackboxStore (bb : Blackbox P) (event : EventPtr P) : Blackbox P :=
  match event.read bb with
  | none => bb
  | some e =>
    let bb := if 16 < bb.count then { bb with count := 16 } else bb
    let block := e.blockName.orNone
    let reason := e.reason.orNone
    let (bb, idx) : Blackbox P × Fin 16 :=
      if h : bb.count < 16 then ({ bb with count := bb.count + 1 }, ⟨bb.count, h⟩)
      else
        ({ bb with
            events := shiftDown bb.events
            blockNames := shiftDown bb.blockNames
            reasons := shiftDown bb.reasons }, 15)
    -- the event is read again, after the shift
    let bb := { bb with events := Function.update bb.events idx ((event.read bb).getD e) }
    let bb := { bb with
      blockNames := Function.update bb.blockNames idx (copyCstr (bb.blockNames idx) (bb.deref block)) }
    let bb := { bb with
      reasons := Function.update bb.reasons idx (copyCstr (bb.reasons idx) (bb.deref reason)) }
    { bb with
      events := fun i =>
        if i.val < bb.count then
          { bb.events i with blockName := .blockNames i.val, reason := .reasons i.val }
        else bb.events i }

/-! ### The invariant -/

/-- The count is in range and every stored event points at its own text slots. -/
structure Blackbox.Wf (bb : Blackbox P) : Prop where
  count_le : bb.count ≤ 16
  blockName : ∀ i : Fin 16, i.val < bb.count → (bb.events i).blockName = .blockNames i.val
  reason : ∀ i : Fin 16, i.val < bb.count → (bb.events i).reason = .reasons i.val

theorem blackboxInit_wf : (blackboxInit : Blackbox P).Wf :=
  ⟨by simp [blackboxInit], by simp [blackboxInit], by simp [blackboxInit]⟩

/-- A text as the blackbox keeps it: `"none"` for `NULL`, the first 63 bytes
of a string. -/
def recordedText (t : Option CStr) : Option CStr := some ((t.getD (.lit "none")).take 63)

/-- An event as the blackbox keeps it. -/
def recorded (e : ExtEvent P) : ExtEvent P := e.mapText recordedText

/-- What the blackbox keeps it keeps as it is. -/
theorem recorded_recorded (e : ExtEvent P) : recorded (recorded e) = recorded e := by
  simp [recorded, Event.mapText, recordedText, CStr.take]

/-- An event from outside as the code receives it. -/
def EventPtr.ofExt (e : ExtEvent P) : EventPtr P := .ext (e.mapText CharPtr.ofText)

@[simp] theorem EventPtr.read_ofExt (bb : Blackbox P) (e : ExtEvent P) :
    (EventPtr.ofExt e).read bb = some (e.mapText CharPtr.ofText) := rfl

/-- A text from outside reads the same whatever the blackbox holds. -/
theorem deref_ofText_orNone (bb : Blackbox P) (t : Option CStr) :
    bb.deref (CharPtr.ofText t).orNone = some (t.getD (.lit "none")) := by
  cases t <;> rfl

theorem text_copyCstr (dst : CharBuf 64) (s : CStr) : (copyCstr dst (some s)).text = s.take 63 :=
  CharBuf.text_copy dst s

namespace Blackbox

variable {bb : Blackbox P}

theorem Wf.view (h : bb.Wf) (i : Fin 16) (hi : i.val < bb.count) :
    bb.view i = ⟨(bb.events i).kind, some (bb.blockNames i).text, some (bb.reasons i).text,
      (bb.events i).index, (bb.events i).limit, (bb.events i).auxCode⟩ := by
  have := i.isLt
  simp [Blackbox.view, Event.mapText, h.blockName i hi, h.reason i hi, deref]

theorem Wf.length_contents (h : bb.Wf) : bb.contents.length = bb.count := by
  have := h.count_le
  simp [contents]
  omega

theorem Wf.getElem_contents (h : bb.Wf) (i : ℕ) (hi : i < bb.contents.length) :
    bb.contents[i] = bb.view ⟨i, by rw [h.length_contents] at hi; have := h.count_le; omega⟩ := by
  simp [contents]

/-- The event in the last slot in use, of a blackbox that is not empty. -/
def newest (bb : Blackbox P) : ExtEvent P := bb.view (Fin.ofNat 16 (bb.count - 1))

theorem Wf.newest_eq (h : bb.Wf) {e : ExtEvent P} (hlast : bb.contents.getLast? = some e) :
    bb.count ≠ 0 ∧ bb.newest = e := by
  have hlen := h.length_contents
  have hcount := h.count_le
  rw [List.getLast?_eq_getElem?] at hlast
  obtain ⟨hlt, hget⟩ := List.getElem?_eq_some_iff.mp hlast
  have hindex : Fin.ofNat 16 (bb.count - 1) = ⟨bb.contents.length - 1, by omega⟩ := by
    apply Fin.ext
    show (bb.count - 1) % 16 = bb.contents.length - 1
    omega
  refine ⟨by omega, ?_⟩
  rw [newest, hindex, ← h.getElem_contents _ hlt, hget]

end Blackbox

/-! ### A store -/

section Store

variable (bb : Blackbox P) (e : ExtEvent P)

/-- The blackbox after slot `idx` took an event from outside and all events
were pointed at their own slots. -/
def putAt (bb : Blackbox P) (idx : Fin 16) (e : ExtEvent P) : Blackbox P where
  events := fun i =>
    if i.val < bb.count then
      { Function.update bb.events idx (e.mapText CharPtr.ofText) i with
        blockName := .blockNames i.val, reason := .reasons i.val }
    else Function.update bb.events idx (e.mapText CharPtr.ofText) i
  blockNames := Function.update bb.blockNames idx
    (copyCstr (bb.blockNames idx) (some (e.blockName.getD (.lit "none"))))
  reasons := Function.update bb.reasons idx
    (copyCstr (bb.reasons idx) (some (e.reason.getD (.lit "none"))))
  count := bb.count

theorem putAt_wf (idx : Fin 16) (h : bb.count ≤ 16) : (putAt bb idx e).Wf := by
  refine ⟨h, fun i hi => ?_, fun i hi => ?_⟩ <;>
  · have hi' : i.val < bb.count := hi
    simp [putAt, hi']

theorem view_putAt_self (idx : Fin 16) (h : bb.count ≤ 16) (hi : idx.val < bb.count) :
    (putAt bb idx e).view idx = recorded e := by
  rw [(putAt_wf bb e idx h).view idx hi]
  simp [putAt, hi, recorded, recordedText, Event.mapText, text_copyCstr]

theorem view_putAt_ne {idx i : Fin 16} (h : bb.count ≤ 16) (hi : i.val < bb.count) (hne : i ≠ idx) :
    (putAt bb idx e).view i = ⟨(bb.events i).kind, some (bb.blockNames i).text,
      some (bb.reasons i).text, (bb.events i).index, (bb.events i).limit, (bb.events i).auxCode⟩ := by
  rw [(putAt_wf bb e idx h).view i hi]
  simp [putAt, hi, hne]

theorem store_eq_room (hc : bb.count < 16) : blackboxStore bb (.ofExt e) =
    putAt { bb with count := bb.count + 1 } ⟨bb.count, hc⟩ e := by
  have hn : ¬ 16 < bb.count := by omega
  simp only [blackboxStore, EventPtr.read_ofExt, if_neg hn, dif_pos hc, Option.getD_some,
    Event.mapText, deref_ofText_orNone, putAt]

theorem store_eq_full (hc : bb.count = 16) : blackboxStore bb (.ofExt e) =
    putAt { bb with
      events := shiftDown bb.events
      blockNames := shiftDown bb.blockNames
      reasons := shiftDown bb.reasons } 15 e := by
  have hn : ¬ 16 < bb.count := by omega
  have hn' : ¬ bb.count < 16 := by omega
  simp only [blackboxStore, EventPtr.read_ofExt, if_neg hn, dif_neg hn', Option.getD_some,
    Event.mapText, deref_ofText_orNone, putAt]

theorem Blackbox.Wf.store {bb : Blackbox P} (h : bb.Wf) : (blackboxStore bb (.ofExt e)).Wf := by
  rcases Nat.lt_or_ge bb.count 16 with hc | hc
  · rw [store_eq_room bb e hc]
    exact putAt_wf _ e _ hc
  · have hc' : bb.count = 16 := Nat.le_antisymm h.count_le hc
    rw [store_eq_full bb e hc']
    exact putAt_wf _ e _ h.count_le

theorem count_store {bb : Blackbox P} (h : bb.Wf) :
    (blackboxStore bb (.ofExt e)).count = min (bb.count + 1) 16 := by
  rcases Nat.lt_or_ge bb.count 16 with hc | hc
  · rw [store_eq_room bb e hc]
    simp only [putAt]
    omega
  · have hc' : bb.count = 16 := Nat.le_antisymm h.count_le hc
    rw [store_eq_full bb e hc']
    simp only [putAt]
    omega

theorem view_store_room {bb : Blackbox P} (h : bb.Wf) (hc : bb.count < 16) (i : Fin 16)
    (hi : i.val < bb.count + 1) : (blackboxStore bb (.ofExt e)).view i =
      if i.val < bb.count then bb.view i else recorded e := by
  rw [store_eq_room bb e hc]
  split
  · rename_i hlt
    have hne : i ≠ ⟨bb.count, hc⟩ := fun he => by rw [he] at hlt; exact absurd hlt (lt_irrefl _)
    refine (view_putAt_ne _ e ?_ ?_ hne).trans (h.view i hlt).symm
    · exact hc
    · exact hi
  · rename_i hge
    obtain rfl : i = ⟨bb.count, hc⟩ := Fin.ext (by simp only; omega)
    exact view_putAt_self _ e _ (by exact hc) hi

/-- When all slots are taken, each takes what the next one held and the last
takes the event. -/
theorem view_store_full {bb : Blackbox P} (h : bb.Wf) (hc : bb.count = 16) (i : Fin 16) :
    (blackboxStore bb (.ofExt e)).view i =
      if hi : i.val + 1 < 16 then bb.view ⟨i.val + 1, hi⟩ else recorded e := by
  rw [store_eq_full bb e hc]
  split
  · rename_i hlt
    have hne : i ≠ 15 := fun he => by rw [he] at hlt; exact absurd hlt (by decide)
    refine (view_putAt_ne _ e ?_ ?_ hne).trans ?_
    · exact h.count_le
    · simp only
      omega
    · rw [h.view _ (by simp only; omega)]
      simp [shiftDown, hlt]
  · rename_i hge
    have hi := i.isLt
    obtain rfl : i = 15 := Fin.ext (by show i.val = 15; omega)
    exact view_putAt_self _ e _ h.count_le (by simp only; omega)

/-- **A store is a push on the list of events.** -/
theorem contents_store {bb : Blackbox P} (h : bb.Wf) :
    (blackboxStore bb (.ofExt e)).contents = Window.push 16 bb.contents (recorded e) := by
  have h' := h.store e
  have hlen := h.length_contents
  have hcount := count_store e h
  have hle := h.count_le
  refine List.ext_getElem ?_ fun i hi hi' => ?_
  · rw [h'.length_contents, hcount, Window.push, Window.length_rtake]
    simp only [List.length_append, List.length_singleton]
    omega
  · rw [h'.length_contents, hcount] at hi
    rw [h'.getElem_contents]
    simp only [Window.push, Window.getElem_rtake, List.get_eq_getElem, Window.length_rtake, List.length_append,
      List.length_singleton, hlen, List.getElem_append]
    rcases Nat.lt_or_ge bb.count 16 with hc | hc
    · rw [view_store_room e h hc ⟨i, by omega⟩ (by simp only; omega)]
      have hz : bb.count + 1 - min 16 (bb.count + 1) + i = i := by omega
      simp only [hz]
      split
      · rw [h.getElem_contents]
      · exact (List.getElem_singleton (by omega)).symm
    · rw [view_store_full e h (by omega) ⟨i, by omega⟩]
      have hz : bb.count + 1 - min 16 (bb.count + 1) + i = i + 1 := by omega
      simp only [hz]
      by_cases hi1 : i + 1 < 16
      · rw [dif_pos hi1, dif_pos (by omega), h.getElem_contents]
      · rw [dif_neg hi1, dif_neg (by omega)]
        simp

end Store

/-! ### Any number of stores -/

/-- The blackbox after the stores of `es`, in order. -/
def stores (bb : Blackbox P) (es : List (ExtEvent P)) : Blackbox P :=
  es.foldl (fun bb e => blackboxStore bb (.ofExt e)) bb

theorem stores_wf : ∀ (es : List (ExtEvent P)) {bb : Blackbox P}, bb.Wf → (stores bb es).Wf
  | [], _, h => h
  | e :: es, _, h => stores_wf es (h.store e)

theorem contents_stores_of_wf : ∀ (es : List (ExtEvent P)) {bb : Blackbox P}, bb.Wf →
    (stores bb es).contents = (es.map recorded).foldl (Window.push 16) bb.contents
  | [], _, _ => rfl
  | e :: es, bb, h => by
    show (stores (blackboxStore bb (.ofExt e)) es).contents = _
    rw [contents_stores_of_wf es (h.store e), contents_store e h]
    rfl

/-- A blackbox whose count was set to zero holds nothing, whatever is left in
its arrays. -/
theorem wf_of_count_zero {bb : Blackbox P} (h : bb.count = 0) : bb.Wf :=
  ⟨by omega, fun i hi => by omega, fun i hi => by omega⟩

theorem contents_of_count_zero {bb : Blackbox P} (h : bb.count = 0) : bb.contents = [] := by
  simp [Blackbox.contents, h]

/-- **The contents after any number of stores** are the last 16 events. -/
theorem contents_stores (es : List (ExtEvent P)) {bb : Blackbox P} (h : bb.count = 0) :
    (stores bb es).contents = (es.map recorded).rtake 16 := by
  rw [contents_stores_of_wf es (wf_of_count_zero h), contents_of_count_zero h,
    Window.foldl_push_nil]

/-- **The blackbox is a faithful last-16 window.** After `n` stores it counts
`min n 16` events; event `i` is the `(n - count + i)`-th one stored, and its
two texts, the first 63 bytes of that event's, stand in its own text slots. -/
theorem faithful_window (es : List (ExtEvent P)) :
    (stores blackboxInit es).count = min es.length 16 ∧
      ∀ i : Fin 16, i.val < (stores blackboxInit es).count →
        ∃ hlt : es.length - (stores blackboxInit es).count + i.val < es.length,
          let bb := stores blackboxInit es
          let stored := es[es.length - bb.count + i.val]
          (bb.events i).kind = stored.kind ∧ (bb.events i).index = stored.index ∧
            (bb.events i).limit = stored.limit ∧ (bb.events i).auxCode = stored.auxCode ∧
            (bb.events i).blockName = .blockNames i.val ∧ (bb.events i).reason = .reasons i.val ∧
            (bb.blockNames i).text = (stored.blockName.getD (.lit "none")).take 63 ∧
            (bb.reasons i).text = (stored.reason.getD (.lit "none")).take 63 := by
  have hwf := stores_wf es (blackboxInit_wf (P := P))
  have hcon := contents_stores es (show (blackboxInit : Blackbox P).count = 0 from rfl)
  have hcount : (stores (blackboxInit : Blackbox P) es).count = min es.length 16 := by
    rw [← hwf.length_contents, hcon, Window.length_rtake, List.length_map, Nat.min_comm]
  refine ⟨hcount, fun i hi => ⟨by omega, ?_⟩⟩
  have hview := hwf.view i hi
  have hget : (stores blackboxInit es).view i =
      recorded (es.get ⟨es.length - (stores (blackboxInit : Blackbox P) es).count + i.val, by omega⟩) := by
    have hi' : i.val < (stores (blackboxInit : Blackbox P) es).contents.length := by
      rw [hwf.length_contents]; exact hi
    rw [show (stores (blackboxInit : Blackbox P) es).view i =
      (stores (blackboxInit : Blackbox P) es).contents[i.val] from (hwf.getElem_contents i hi').symm]
    simp only [hcon, Window.getElem_rtake, List.get_eq_getElem, List.getElem_map, List.length_map,
      Window.length_rtake, hcount, Nat.min_comm]
  rw [hview] at hget
  simp only [recorded, recordedText, Event.mapText, Event.mk.injEq, Option.some.injEq] at hget
  obtain ⟨h1, h2, h3, h4, h5, h6⟩ := hget
  exact ⟨h1, h4, h5, h6, hwf.blockName i hi, hwf.reason i hi, h2, h3⟩

end Loxguard
