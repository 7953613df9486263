/-
# Storing an event of the blackbox itself

A caller may hand `lox_blackbox_store` an event of the same blackbox. The
pointers are taken before the slots are shifted and read after it, so on a
full blackbox the slot they point at already holds the next event: a store of
slot `i` is the store of a copy of `storedSlot i` (`store_slot`). That is the
event the caller meant exactly when the blackbox is not full, the event is the
newest, or the next one is the same (`own_store_iff`).

Key definitions: `Blackbox.Reachable`, `Blackbox.storedSlot`.
Key theorems: `store_slot`, `Blackbox.Reachable.wf`, `own_store_iff`.
-/
import Loxguard.Blackbox

namespace Loxguard

open Lib

variable {P : Platform}

/-- The slot a shift moves to slot `i`; the last one keeps what it holds. -/
def nextSlot (i : Fin 16) : Fin 16 := if h : i.val + 1 < 16 then ⟨i.val + 1, h⟩ else i

theorem shiftDown_eq {α : Type} (a : Fin 16 → α) (i : Fin 16) : shiftDown a i = a (nextSlot i) := by
  unfold shiftDown nextSlot
  split <;> rfl

/-- The slot whose event a store of slot `i` stores. -/
def Blackbox.storedSlot (bb : Blackbox P) (i : Fin 16) : Fin 16 :=
  if bb.count < 16 then i else nextSlot i

section Slot

variable {bb : Blackbox P} (h : bb.Wf) {i : Fin 16} (hi : i.val < bb.count)
include h hi

/-- With room, slot `i` is stored as it is. -/
theorem store_slot_room (hc : bb.count < 16) :
    blackboxStore bb (.slot i) = putAt { bb with count := bb.count + 1 } ⟨bb.count, hc⟩ (bb.view i) := by
  have hn : ¬ 16 < bb.count := by omega
  have hlt := i.isLt
  simp only [blackboxStore, EventPtr.read, if_neg hn, dif_pos hc, Option.getD_some, h.blockName i hi,
    h.reason i hi, CharPtr.orNone, Blackbox.deref, hlt, dite_true, h.view i hi, putAt, Event.mapText]
  congr 1
  funext j
  by_cases hj : j = ⟨bb.count, hc⟩
  · subst hj
    simp
  · simp [hj]

/-- When all slots are taken, the shift comes first. -/
theorem store_slot_full (hc : bb.count = 16) : blackboxStore bb (.slot i) =
    putAt { bb with
      events := shiftDown bb.events
      blockNames := shiftDown bb.blockNames
      reasons := shiftDown bb.reasons } 15 (bb.view (nextSlot i)) := by
  have hn : ¬ 16 < bb.count := by omega
  have hn' : ¬ bb.count < 16 := by omega
  have hlt := i.isLt
  have hnext : (nextSlot i).val < bb.count := by rw [hc]; exact (nextSlot i).isLt
  simp only [blackboxStore, EventPtr.read, if_neg hn, dif_neg hn', Option.getD_some, h.blockName i hi,
    h.reason i hi, CharPtr.orNone, Blackbox.deref, hlt, dite_true, h.view _ hnext, putAt, Event.mapText,
    shiftDown_eq]
  congr 1
  funext j
  by_cases hj : j = 15
  · subst hj
    simp [hc]
  · simp [hj]

/-- **A store of slot `i`** is a store of a copy of `storedSlot i`. -/
theorem store_slot :
    blackboxStore bb (.slot i) = blackboxStore bb (.ofExt (bb.view (bb.storedSlot i))) := by
  rcases Nat.lt_or_ge bb.count 16 with hc | hc
  · rw [store_slot_room h hi hc, store_eq_room bb _ hc, Blackbox.storedSlot, if_pos hc]
  · have hc' : bb.count = 16 := Nat.le_antisymm h.count_le hc
    rw [store_slot_full h hi hc', store_eq_full bb _ hc', Blackbox.storedSlot, if_neg (by omega)]

end Slot

namespace Blackbox

/-- The blackboxes that stores lead to, of events from outside and of events
of the blackbox itself. -/
inductive Reachable : Blackbox P → Prop
  | init : Reachable blackboxInit
  | store {bb : Blackbox P} (h : Reachable bb) (e : ExtEvent P) : Reachable (blackboxStore bb (.ofExt e))
  | storeSlot {bb : Blackbox P} (h : Reachable bb) (i : Fin 16) (hi : i.val < bb.count) :
    Reachable (blackboxStore bb (.slot i))

theorem Reachable.wf {bb : Blackbox P} (h : bb.Reachable) : bb.Wf := by
  induction h with
  | init => exact blackboxInit_wf
  | store _ e ih => exact ih.store e
  | storeSlot _ i hi ih =>
    rw [store_slot ih hi]
    exact ih.store _

theorem Reachable.stores : ∀ (es : List (ExtEvent P)) {bb : Blackbox P}, bb.Reachable →
    (Loxguard.stores bb es).Reachable
  | [], _, h => h
  | e :: es, _, h => Reachable.stores es (h.store e)

theorem Reachable.recorded_contents {bb : Blackbox P} (h : bb.Reachable) :
    ∀ e ∈ bb.contents, recorded e = e := by
  have hstore : ∀ {bb : Blackbox P} (e : ExtEvent P), bb.Wf → (∀ e' ∈ bb.contents, recorded e' = e') →
      ∀ e' ∈ (blackboxStore bb (.ofExt e)).contents, recorded e' = e' := by
    intro bb e hwf ih e' he'
    rw [contents_store e hwf] at he'
    rcases List.mem_append.mp (Window.mem_of_mem_rtake he') with hold | hnew
    · exact ih e' hold
    · rw [List.mem_singleton.mp hnew]
      exact recorded_recorded e
  induction h with
  | init =>
    rw [contents_of_count_zero rfl]
    exact fun e he => absurd he List.not_mem_nil
  | store hbb e ih => exact hstore e hbb.wf ih
  | storeSlot hbb i hi ih =>
    rw [store_slot hbb.wf hi]
    exact hstore _ hbb.wf ih

theorem Reachable.recorded_view {bb : Blackbox P} (h : bb.Reachable) {i : Fin 16}
    (hi : i.val < bb.count) : recorded (bb.view i) = bb.view i := by
  apply h.recorded_contents
  have hlen : i.val < bb.contents.length := by rwa [h.wf.length_contents]
  have hget := List.getElem_mem hlen
  rwa [h.wf.getElem_contents i.val hlen] at hget

end Blackbox

theorem getLast?_contents_store {bb : Blackbox P} (h : bb.Wf) (e : ExtEvent P) :
    (blackboxStore bb (.ofExt e)).contents.getLast? = some (recorded e) := by
  rw [contents_store e h]
  exact Window.getLast?_push (show 0 < 16 by decide) _ _

/-- **When an event of the blackbox is stored again.** A store of entry `i`
does what a store of a copy of it does, and leaves it as the newest entry,
unless the blackbox is full and the entry after `i` is another event. -/
theorem own_store_iff {bb : Blackbox P} (hbb : bb.Reachable) (i : Fin 16) (hi : i.val < bb.count) :
    (blackboxStore bb (.slot i) = blackboxStore bb (.ofExt (bb.view i)) ∧
      (blackboxStore bb (.slot i)).contents.getLast? = some (bb.view i)) ↔
    (bb.count = 16 → ∀ h : i.val + 1 < 16, bb.view ⟨i.val + 1, h⟩ = bb.view i) := by
  have hwf := hbb.wf
  have hslot := store_slot hwf hi
  constructor
  · rintro ⟨-, hnewest⟩ hc hnext
    have hstored : bb.storedSlot i = ⟨i.val + 1, hnext⟩ := by
      rw [Blackbox.storedSlot, if_neg (by omega), nextSlot, dif_pos hnext]
    rw [hslot, hstored, getLast?_contents_store hwf,
      hbb.recorded_view (show (⟨i.val + 1, hnext⟩ : Fin 16).val < bb.count by rw [hc]; exact hnext)] at hnewest
    exact Option.some_inj.mp hnewest
  · intro hsame
    have hview : bb.view (bb.storedSlot i) = bb.view i := by
      unfold Blackbox.storedSlot nextSlot
      split_ifs with hc hnext
      · rfl
      · exact hsame (Nat.le_antisymm hwf.count_le (Nat.le_of_not_lt hc)) hnext
      · rfl
    rw [hview] at hslot
    refine ⟨hslot, ?_⟩
    rw [hslot, getLast?_contents_store hwf, hbb.recorded_view hi]

/-- Events that differ in their index. -/
def numbered (n : ℕ) : ExtEvent .host := ⟨.blockError, some (.lit "b"), some (.lit "r"), n, 0, 0⟩

/-- A blackbox with three events takes the first one again. -/
theorem own_store_room :
    let bb := stores blackboxInit [numbered 0, numbered 1, numbered 2]
    (blackboxStore bb (.slot 0)).contents.getLast? = some (bb.view 0) :=
  ((own_store_iff (.stores [numbered 0, numbered 1, numbered 2] .init) 0 (by decide)).mpr
    fun hc => absurd hc (by decide)).2

/-- A full blackbox asked for its oldest event stores the one after it. -/
theorem own_store_full :
    let bb := stores blackboxInit ((List.range 16).map numbered)
    bb.Reachable ∧ 0 < bb.count ∧ (bb.view 0).index = 0 ∧
      (blackboxStore bb (.slot 0)).contents.getLast?.map Event.index = some 1 := by
  intro bb
  exact ⟨.stores _ .init, by decide +kernel, by decide +kernel, by decide +kernel⟩

end Loxguard
