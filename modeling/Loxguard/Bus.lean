/-
# The bus

With the bus built in, every event a run stores is published on it, as a topic
and two bytes, and a handler counts what is delivered. The bus is made with the
first event, or with the first look at its count, and resetting the statistics
drops it: the next event finds a new one.

After any calls, resets and looks at the count, the statistics are those of the
events stored since the last reset: the bus holds those that were published, in
order, both counts are their number modulo 2^32, and the last topic and kind
are those of the last event stored (`bus_tells`). A publication that fails is
not counted, but still sets the last topic and kind.

The library behind the bus is not part of the repository: it is given, and a
bus that was made and subscribed to is empty and delivers what is published
(`MbusLib.Whole`).

Key definitions: `MbusLib`, `logEvent`, `busStats`, `BusItem.step`,
`sinceReset`, `BusState.Tells`.
Key theorems: `BusState.Tells.log`, `bus_tells`.
-/
import Loxguard.Footprint

namespace Loxguard

open Lib

variable {P : Platform} {B : Type}

/-! ### The library -/

/-- The topics of the library events are published under. -/
structure BusTopics where
  panic : BitVec 8
  wdtTimeout : BitVec 8
  healthAlert : BitVec 8

/-- What is published: the topic and the two bytes of the payload. -/
structure BusMessage where
  topic : BitVec 8
  kind : BitVec 8
  auxCode : BitVec 8
deriving DecidableEq

/-- What the library behind the bus does, with states `B`: `mbus_init`, true
for `MBUS_OK`, `mbus_subscribe` of the counting handler to every topic, true
unless negative, `mbus_publish`, with how often the handler is called, and
`mbus_publish_count`. The messages published on a bus, and whether it has the
handler, are what it holds. -/
structure MbusLib (B : Type) where
  topics : BusTopics
  init : B → Bool × B
  subscribe : B → Bool × B
  publish : B → BusMessage → ℕ × B
  publishCount : B → BitVec 32
  published : B → List BusMessage
  subscribed : B → Bool

/-- A bus is empty when it is made and can be subscribed to; publishing
delivers a message once, or fails and changes nothing; what was published is
counted. -/
structure MbusLib.Whole (lib : MbusLib B) : Prop where
  init : ∀ b, (lib.init b).1 = true
  subscribe : ∀ b, (lib.subscribe (lib.init b).2).1 = true
  empty : ∀ b, lib.published (lib.subscribe (lib.init b).2).2 = []
  subscribed : ∀ b, lib.subscribed (lib.subscribe (lib.init b).2).2 = true
  publish : ∀ b msg, lib.subscribed b = true → lib.subscribed (lib.publish b msg).2 = true ∧
    ((lib.publish b msg).1 = 1 ∧ lib.published (lib.publish b msg).2 = lib.published b ++ [msg] ∨
      (lib.publish b msg).1 = 0 ∧ lib.published (lib.publish b msg).2 = lib.published b)
  count : ∀ b, lib.publishCount b = BitVec.ofNat 32 (lib.published b).length

/-- No publication fails. -/
def MbusLib.Lossless (lib : MbusLib B) : Prop := ∀ b msg, (lib.publish b msg).1 ≠ 0

/-! ### The adapter -/

/-- The bus of `loxguard_adapters.c` and its statistics. -/
structure BusState (B : Type) where
  ready : Bool
  mbus : B
  deliverCount : BitVec 32
  lastTopic : BitVec 8
  lastKind : BitVec 8

/-- What the four getters of the bus return. -/
structure BusStats where
  publishCount : BitVec 32
  deliverCount : BitVec 32
  lastTopic : BitVec 8
  lastKind : BitVec 8
deriving DecidableEq

section Adapter

variable (lib : MbusLib B)

/-- `lox_event_to_bus_topic`. -/
def eventToBusTopic (topics : BusTopics) : EventKind → BitVec 8
  | .blockPanic | .blockFault => topics.panic
  | .blockTimeout => topics.wdtTimeout
  | _ => topics.healthAlert

/-- What `lox_adapter_log_event` publishes of an event. -/
def busMessage (topics : BusTopics) (event : ExtEvent P) : BusMessage :=
  ⟨eventToBusTopic topics event.kind, BitVec.ofNat 8 event.kind.code, event.auxCode.setWidth 8⟩

/-- `lox_mbus_ensure_init`. -/
def mbusEnsureInit (s : BusState B) : BusState B :=
  if s.ready then s
  else
    let (made, mbus) := lib.init s.mbus
    if !made then { s with mbus }
    else
      let (subscribed, mbus) := lib.subscribe mbus
      if !subscribed then { s with mbus } else { s with mbus, ready := true }

/-- `lox_adapter_log_event` with the bus built in. It returns `OK`. -/
def logEvent (event : Option (ExtEvent P)) (s : BusState B) : BusState B :=
  match event with
  | none => s
  | some event =>
    let s := mbusEnsureInit lib s
    if !s.ready then s
    else
      let msg := busMessage lib.topics event
      let (calls, mbus) := lib.publish s.mbus msg
      { s with
        mbus
        deliverCount := s.deliverCount + BitVec.ofNat 32 calls
        lastTopic := msg.topic
        lastKind := msg.kind }

/-- `lox_adapter_bus_publish_count`. -/
def busPublishCount (s : BusState B) : BitVec 32 × BusState B :=
  let s := mbusEnsureInit lib s
  (if s.ready then lib.publishCount s.mbus else 0, s)

/-- `lox_adapter_bus_reset_stats`. -/
def busResetStats (s : BusState B) : BusState B :=
  { s with ready := false, deliverCount := 0, lastTopic := 0, lastKind := 0 }

/-- `lox_adapter_bus_publish_count`, `lox_adapter_bus_deliver_count`,
`lox_adapter_bus_last_topic` and `lox_adapter_bus_last_kind`. -/
def busStats (s : BusState B) : BusStats :=
  let r := busPublishCount lib s
  ⟨r.1, r.2.deliverCount, r.2.lastTopic, r.2.lastKind⟩

/-- What happens in a process with a bus. -/
inductive BusItem (P : Platform)
  | call (c : Call P)
  | publishCount
  | resetStats

/-- The events a step stored, `none` for a reset. -/
abbrev BusSeen (P : Platform) := Option (List (ExtEvent P))

/-- Every event a run stores is logged, in order. -/
def BusItem.step (s : World P × BusState B) : BusItem P → BusSeen P × World P × BusState B
  | call c =>
    let r := c.step s.1
    let es := storedEvents r.1.effects
    (some es, r.2, es.foldl (fun bus e => logEvent lib (some e) bus) s.2)
  | publishCount => (some [], s.1, (busPublishCount lib s.2).2)
  | resetStats => (none, s.1, busResetStats s.2)

end Adapter

/-- The events stored since the last reset. -/
def sinceReset (es : List (ExtEvent P)) : BusSeen P → List (ExtEvent P)
  | some more => es ++ more
  | none => []

/-- What was published last, or should have been. -/
def newestMessage (topics : BusTopics) (es : List (ExtEvent P)) : BusMessage :=
  (es.getLast?.map (busMessage topics)).getD ⟨0, 0, 0⟩

theorem newestMessage_concat (topics : BusTopics) (es : List (ExtEvent P)) (e : ExtEvent P) :
    newestMessage topics (es ++ [e]) = busMessage topics e := by
  unfold newestMessage
  rw [List.getLast?_concat]
  rfl

/-! ### What the bus tells -/

/-- **The bus tells** of the events: those that were published are on it and
were delivered once, and the last one is remembered. -/
structure BusState.Tells (lib : MbusLib B) (es : List (ExtEvent P)) (s : BusState B) : Prop where
  made : s.ready = false → es = [] ∧ s.deliverCount = 0
  subscribed : s.ready = true → lib.subscribed s.mbus = true
  published : s.ready = true → (lib.published s.mbus).Sublist (es.map (busMessage lib.topics))
  lossless : lib.Lossless → s.ready = true → lib.published s.mbus = es.map (busMessage lib.topics)
  delivered : s.ready = true → s.deliverCount = BitVec.ofNat 32 (lib.published s.mbus).length
  lastTopic : s.lastTopic = (newestMessage lib.topics es).topic
  lastKind : s.lastKind = (newestMessage lib.topics es).kind

section Tells

variable {lib : MbusLib B} {es : List (ExtEvent P)} {s : BusState B}

theorem tells_reset (s : BusState B) : (busResetStats s).Tells lib ([] : List (ExtEvent P)) where
  made _ := ⟨rfl, rfl⟩
  subscribed := nofun
  published := nofun
  lossless _ := nofun
  delivered := nofun
  lastTopic := rfl
  lastKind := rfl

theorem mbusEnsureInit_eq (hlib : lib.Whole) (s : BusState B) : mbusEnsureInit lib s =
    if s.ready then s else { s with mbus := (lib.subscribe (lib.init s.mbus).2).2, ready := true } := by
  unfold mbusEnsureInit
  by_cases hready : s.ready = true
  · rw [if_pos hready, if_pos hready]
  · rw [if_neg hready, if_neg hready]
    simp only [hlib.init, hlib.subscribe, Bool.not_true, Bool.false_eq_true, if_false]

theorem BusState.Tells.ensureInit (hlib : lib.Whole) (h : s.Tells lib es) :
    (mbusEnsureInit lib s).ready = true ∧ (mbusEnsureInit lib s).Tells lib es := by
  rw [mbusEnsureInit_eq hlib]
  by_cases hready : s.ready = true
  · rw [if_pos hready]
    exact ⟨hready, h⟩
  · rw [if_neg hready]
    obtain ⟨rfl, hcount⟩ := h.made (Bool.not_eq_true _ ▸ hready)
    refine ⟨rfl, nofun, fun _ => hlib.subscribed _, fun _ => ?_, fun _ _ => hlib.empty _, fun _ => ?_,
      h.lastTopic, h.lastKind⟩
    · rw [hlib.empty]
      exact List.nil_sublist _
    · rw [hlib.empty]
      exact hcount

/-- **One event.** -/
theorem BusState.Tells.log (hlib : lib.Whole) (h : s.Tells lib es) (e : ExtEvent P) :
    (logEvent lib (some e) s).Tells lib (es ++ [e]) := by
  obtain ⟨hready, htells⟩ := h.ensureInit hlib
  have hpublished := htells.published hready
  have hdelivered := htells.delivered hready
  obtain ⟨hsubscribed, hcases⟩ := hlib.publish _ (busMessage lib.topics e) (htells.subscribed hready)
  simp only [logEvent, hready, Bool.not_true, Bool.false_eq_true, if_false]
  refine ⟨nofun, fun _ => hsubscribed, fun _ => ?_, fun hlossless _ => ?_, fun _ => ?_, ?_, ?_⟩
  · rw [List.map_append]
    rcases hcases with ⟨-, hmore⟩ | ⟨-, hsame⟩
    · rw [hmore]
      exact hpublished.append (.refl _)
    · rw [hsame]
      exact hpublished.trans (List.sublist_append_left _ _)
  · rcases hcases with ⟨-, hmore⟩ | ⟨hcalls, -⟩
    · rw [List.map_append, hmore, htells.lossless hlossless hready]
      rfl
    · exact absurd hcalls (hlossless _ _)
  · rcases hcases with ⟨hcalls, hmore⟩ | ⟨hcalls, hsame⟩
    · rw [hmore, hcalls, hdelivered, List.length_append, BitVec.ofNat_add]
      rfl
    · rw [hsame, hcalls, hdelivered]
      exact BitVec.add_zero _
  · rw [newestMessage_concat]
  · rw [newestMessage_concat]

theorem BusState.Tells.logs (hlib : lib.Whole) (more : List (ExtEvent P)) (h : s.Tells lib es) :
    (more.foldl (fun bus e => logEvent lib (some e) bus) s).Tells lib (es ++ more) := by
  induction more generalizing es s with
  | nil =>
    rw [List.append_nil]
    exact h
  | cons e more ih =>
    rw [List.foldl_cons, List.append_cons]
    exact ih (h.log hlib e)

/-- **One step.** -/
theorem BusState.Tells.step (hlib : lib.Whole) {w : World P} (h : s.Tells lib es) (item : BusItem P) :
    (item.step lib (w, s)).2.2.Tells lib (sinceReset es (item.step lib (w, s)).1) := by
  cases item with
  | call c => exact h.logs hlib _
  | publishCount =>
    show (mbusEnsureInit lib s).Tells lib (es ++ [])
    rw [List.append_nil]
    exact (h.ensureInit hlib).2
  | resetStats => exact tells_reset s

theorem BusState.Tells.stats (hlib : lib.Whole) (h : s.Tells lib es) :
    let sent := lib.published (mbusEnsureInit lib s).mbus
    sent.Sublist (es.map (busMessage lib.topics)) ∧
      (lib.Lossless → sent = es.map (busMessage lib.topics)) ∧
      busStats lib s = ⟨BitVec.ofNat 32 sent.length, BitVec.ofNat 32 sent.length,
        (newestMessage lib.topics es).topic, (newestMessage lib.topics es).kind⟩ := by
  obtain ⟨hready, htells⟩ := h.ensureInit hlib
  refine ⟨htells.published hready, fun hlossless => htells.lossless hlossless hready, ?_⟩
  rw [← hlib.count, ← htells.lastTopic, ← htells.lastKind]
  simp only [busStats, busPublishCount, hready, if_true, htells.delivered hready, hlib.count]

/-- **The statistics of the bus.** From a bus that was just reset, after any
calls with all they nest, resets and looks at the count: the bus, which a look
at the count makes if need be, holds events stored since the last reset, in
order, and all of them if no publication fails; both counts are their number,
and the last topic and kind are those of the last event stored. -/
theorem bus_tells (hlib : lib.Whole) (s : BusState B) (w : World P) (items : List (BusItem P)) :
    let r := Runs.run (BusItem.step lib) (w, busResetStats s) items
    let es := r.1.foldl sinceReset []
    let sent := lib.published (mbusEnsureInit lib r.2.2).mbus
    sent.Sublist (es.map (busMessage lib.topics)) ∧
      (lib.Lossless → sent = es.map (busMessage lib.topics)) ∧
      busStats lib r.2.2 = ⟨BitVec.ofNat 32 sent.length, BitVec.ofNat 32 sent.length,
        (newestMessage lib.topics es).topic, (newestMessage lib.topics es).kind⟩ := by
  intro r es
  have htells : r.2.2.Tells lib es :=
    @Runs.run_invariant_foldl _ _ _ _ (BusItem.step lib) (fun x es => x.2.Tells lib es) sinceReset items
      (w, busResetStats s) [] (fun item _ _ _ hs => hs.step hlib item) (tells_reset s)
  exact htells.stats hlib

end Tells

/-- A bus that takes at most `capacity` messages. -/
def listBus (capacity : ℕ) : MbusLib (List BusMessage) where
  topics := ⟨1, 2, 3⟩
  init _ := (true, [])
  subscribe msgs := (true, msgs)
  publish msgs msg := if msgs.length < capacity then (1, msgs ++ [msg]) else (0, msgs)
  publishCount msgs := BitVec.ofNat 32 msgs.length
  published msgs := msgs
  subscribed _ := true

theorem listBus_whole (capacity : ℕ) : (listBus capacity).Whole where
  init _ := rfl
  subscribe _ := rfl
  empty _ := rfl
  subscribed _ := rfl
  publish msgs msg _ := by
    refine ⟨rfl, ?_⟩
    simp only [listBus]
    split_ifs
    · exact Or.inl ⟨rfl, rfl⟩
    · exact Or.inr ⟨rfl, rfl⟩
  count _ := rfl

/-- A bus with room for four messages, and twice six events with a reset in
between. -/
theorem bus_tells_four :
    let r := Runs.run (BusItem.step (listBus 4)) (World.start .quiet, busResetStats ⟨false, [], 0, 0, 0⟩)
      [.call writingCall, .resetStats, .publishCount, .call writingCall]
    let es := r.1.foldl sinceReset []
    let sent := (listBus 4).published (mbusEnsureInit (listBus 4) r.2.2).mbus
    sent.Sublist (es.map (busMessage (listBus 4).topics)) ∧
      ((listBus 4).Lossless → sent = es.map (busMessage (listBus 4).topics)) ∧
      busStats (listBus 4) r.2.2 = ⟨BitVec.ofNat 32 sent.length, BitVec.ofNat 32 sent.length,
        (newestMessage (listBus 4).topics es).topic, (newestMessage (listBus 4).topics es).kind⟩ :=
  bus_tells (listBus_whole 4) ⟨false, [], 0, 0, 0⟩ (World.start .quiet)
    [.call writingCall, .resetStats, .publishCount, .call writingCall]

example :
    let r := Runs.run (BusItem.step (listBus 4)) (World.start .quiet, busResetStats ⟨false, [], 0, 0, 0⟩)
      [.call writingCall, .resetStats, .publishCount, .call writingCall]
    busStats (listBus 4) r.2.2 = ⟨4, 4, 3, 8⟩ := by
  decide +kernel

end Loxguard
