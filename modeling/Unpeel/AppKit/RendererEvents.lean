import Unpeel.AppKit.BridgeRules
import Unpeel.Foundation.Runs

/-! # What becomes of a renderer's events

An event frame is answered by handing it to the App, by an acknowledgement or by the end of
its connection. The App is handed an event once for each time it is remembered, and what
waits for the App is not forgotten.
-/
namespace Unpeel.AppKit
open List

open Manifest (Text)
open Fallible Runs
variable {Node Op : Type} {kit : UiKit Node Op}
variable {id : ℕ} {event : UiEvent} {message : Incoming}
variable {io : PumpIo}

/-- An event is handed over only if it was not remembered; one that was acknowledged gets
that acknowledgement again, as long as its connection lasts; and a client that is turned
away has used up its own limit, or all of the bridge's is taken. -/
structure Answer.Apt (answer : Answer) : Prop where
  once : answer.verdict = .action → answer.found = none
  replayed : ∀ record ∈ answer.found, record.event = answer.event → answer.routed = true → ∀ ack ∈ record.ack,
    answer.verdict = .acknowledged ack ∨ answer.verdict = .ended
  limit : answer.verdict = .rejected "eventLimit".toList →
    maxEventHistoryPerClient ≤ answer.unacknowledged ∨ maxEventHistory ≤ answer.unmovable

structure Answer.Right (answer : Answer) : Prop extends answer.Apt where
  isOver : answer.verdict = .ended → answer.wasOver = true

/-- The records are sound, the answers right, and what is not answered yet is what is still
to be looked at. -/
structure EventsKept (later : List UiEvent) (b : Bridge Node Op) : Prop where
  history : b.history.Sound
  answers : ∀ answer ∈ b.answers, answer.Right
  asked : b.refused = false → b.asked = b.answers.map Answer.event ++ later

structure EventsBroken (b : Bridge Node Op) : Prop where
  history : b.history.Sound
  answers : ∀ answer ∈ b.answers, answer.Right
  refused : b.refused = true

variable {later : List UiEvent} {b : Bridge Node Op}

theorem EventsBroken.kept (h : EventsBroken b) : EventsKept later b :=
  ⟨h.history,h.answers,fun hrefused => by rw [h.refused] at hrefused; cases hrefused⟩

theorem EventsKept.refuse (h : EventsKept later b) : EventsBroken { b with refused := true } :=
  ⟨h.history,h.answers,rfl⟩

theorem EventsKept.connections (h : EventsKept later b) (connections : List (UiConnection Node Op)) :
    EventsKept later { b with connections := connections } :=
  ⟨h.history,h.answers,h.asked⟩

theorem EventsKept.pushPending (h : EventsKept later b) (event : UiBridgeEvent) :
    EventsKept later (b.pushPending event) :=
  ⟨h.history,h.answers,h.asked⟩

theorem EventsKept.setHistory (h : EventsKept later b) {history : EventHistory} (hs : history.Sound) :
    EventsKept later { b with history := history } :=
  ⟨hs,h.answers,h.asked⟩

section Sends
variable {id : ℕ}
variable {flushes : ℕ → Option ℕ}

theorem queueMessage_eventsKept {message : Outgoing Node Op} {targeted : Bool} :
    Keeps (EventsKept later) EventsBroken (queueMessage kit id message targeted) :=
  keeps_queueMessage (fun _ h => h.refuse) (fun _ h => h.connections _) fun _ _ h => h.connections _

theorem flushAvailable_eventsKept :
    Keeps (EventsKept later) EventsBroken (flushAvailable flushes : BridgeM Node Op PUnit) :=
  keeps_modify fun _ h => h.connections _

theorem queueProjection_eventsKept : Keeps (EventsKept later) EventsBroken (queueProjection kit id) :=
  keeps_queueProjection (fun _ _ _ _ _ _ => queueMessage_eventsKept) fun _ _ _ h => h.connections _

theorem sendProjections_eventsKept {p : Attachment → Bool} :
    Keeps (EventsKept later) EventsBroken (sendProjections kit p flushes) :=
  keeps_sendProjections (fun _ => queueProjection_eventsKept) flushAvailable_eventsKept

theorem sendDeltas_eventsKept {p current : Attachment → Bool} {baseRevision revision : ℕ} {operations : List Op}
    {targeted : Bool} : Keeps (EventsKept later) EventsBroken
      (sendDeltas kit p current baseRevision revision operations targeted flushes) :=
  keeps_sendDeltas (fun _ => queueProjection_eventsKept)
    (fun _ => keeps_queueDeltaMessage (fun _ _ _ => queueMessage_eventsKept) fun _ _ _ h => h.connections _)
    flushAvailable_eventsKept

theorem broadcastPresence_eventsKept {viewId : Text} :
    Keeps (EventsKept later) EventsBroken (broadcastPresence kit viewId) :=
  keeps_broadcastPresence fun _ _ _ => queueMessage_eventsKept

theorem rejectConnection_eventsKept {code message : Text} :
    Keeps (EventsKept later) EventsBroken (rejectConnection kit id code message) :=
  keeps_rejectConnection (fun _ => queueMessage_eventsKept) fun _ h => h.connections _

theorem reapConnections_eventsKept : Keeps (EventsKept later) EventsBroken (reapConnections kit) := by
  refine keeps_get fun b _ => keeps_bind (keeps_modify fun _ h => h.connections _) fun _ => keeps_forM fun a _ => ?_
  exact keeps_bind (keeps_modify fun _ h => h.pushPending _) fun _ => broadcastPresence_eventsKept

theorem handleLifecycle_eventsKept {a : Attachment} {route : UiRoute} {state : UiRendererState} :
    Keeps (EventsKept later) EventsBroken (handleLifecycle kit id a route state) := by
  unfold handleLifecycle
  split
  · exact rejectConnection_eventsKept
  · refine keeps_bind (keeps_modify fun _ h => h.connections _) fun _ => ?_
    exact keeps_bind (keeps_modify fun _ h => h.pushPending _) fun _ => broadcastPresence_eventsKept

theorem handleSnapshotRequest_eventsKept {a : Attachment} {route : UiRoute} :
    Keeps (EventsKept later) EventsBroken (handleSnapshotRequest kit id a route) := by
  unfold handleSnapshotRequest
  split
  · exact rejectConnection_eventsKept
  · exact keeps_void queueProjection_eventsKept

theorem handleAttach_eventsKept {attach : UiAttach} :
    Keeps (EventsKept later) EventsBroken (handleAttach kit id attach) := by
  unfold handleAttach
  split
  · exact rejectConnection_eventsKept
  · split
    · exact rejectConnection_eventsKept
    · split
      · exact rejectConnection_eventsKept
      · refine keeps_bind (keeps_modify fun _ h => ⟨h.history,h.answers,h.asked⟩) fun _ => ?_
        refine keeps_get fun b _ => ?_
        split
        · exact keeps_pure
        · refine keeps_bind (keeps_modify fun _ h => h.connections _) fun _ => ?_
          refine keeps_bind queueMessage_eventsKept fun _ => keeps_whenever ?_
          refine keeps_bind queueProjection_eventsKept fun _ => ?_
          exact keeps_bind (keeps_modify fun _ h => h.pushPending _) fun _ => broadcastPresence_eventsKept

end Sends

def Dealt (later : List UiEvent) (outcome : Except UiBridgeError PUnit) (b : Bridge Node Op) : Prop :=
  match outcome with
  | .ok _ => EventsKept later b
  | .error _ => EventsBroken b

theorem dealt_of_keeps {x : BridgeM Node Op PUnit} (h : Keeps (EventsKept later) EventsBroken x) :
    Holds (EventsKept later) x (Dealt later) :=
  h.holds (fun _ _ h => h) fun _ _ h => h

theorem note_dealt {answer : Answer} (hevent : answer.event = event) (hapt : answer.Apt) :
    Holds (fun b => EventsKept (event :: later) b ∧ (answer.verdict = .ended → b.isOver id = true))
      (note id answer : BridgeM Node Op PUnit) (Dealt later) := by
  subst hevent
  refine holds_modify fun b h => ⟨h.1.history,?_,?_⟩
  · intro other hother
    rcases mem_append.mp hother with hother | hother
    · exact h.1.answers other hother
    · rw [mem_singleton.mp hother]
      exact ⟨⟨hapt.once,hapt.replayed,hapt.limit⟩,h.2⟩
  · intro hrefused
    have hasked := h.1.asked hrefused
    simp only [Bridge.record,map_append,map_cons,map_nil,append_assoc]
    exact hasked

theorem reject_then_note {answer : Answer} {code text : Text} (hevent : answer.event = event)
    (hapt : answer.Apt) (hended : answer.verdict ≠ .ended) : Holds (EventsKept (event :: later))
      (do rejectConnection kit id code text; note id answer) (Dealt later) := by
  refine holds_bind rejectConnection_eventsKept (fun _ => ?_) fun _ _ h => h
  exact (note_dealt hevent hapt).mono (fun _ h => ⟨h,fun he => absurd he hended⟩) fun _ _ h => h

theorem queueAck_dealt {ack : UiAck} : Holds (EventsKept later) (queueMessage kit id (.ack ack) false)
    fun outcome b => match outcome with
      | .ok queued => EventsKept later b ∧ (queued = false → b.isOver id = true)
      | .error _ => EventsBroken b := by
  refine holds_queueMessage (fun b h hnone => ⟨h,fun _ => ?_⟩) (fun b h => h.refuse)
    (fun b c _ h hc _ _ => ⟨h.connections _,fun _ => ?_⟩) fun b c length h _ => ⟨h.connections _,by simp⟩
  · rw [Bridge.isOver,hnone]
    rfl
  · rw [Bridge.isOver,Bridge.connection_onConnection b id UiConnection.disconnect (fun _ => rfl),hc]
    simp [Bridge.id_of_connection hc,UiConnection.disconnect]

theorem noteAck_dealt {ack : UiAck} {queued : Bool}
    (hapt : (b.answer kit.appInstanceId id event (if queued then .acknowledged ack else .ended)).Apt) :
    Holds (fun s : Bridge Node Op => EventsKept (event :: later) s ∧ (queued = false → s.isOver id = true))
      (note id (b.answer kit.appInstanceId id event (if queued then .acknowledged ack else .ended))) (Dealt later) := by
  refine (note_dealt rfl hapt).mono (fun s h => ⟨h.1,fun he => h.2 ?_⟩) fun _ _ h => h
  cases queued with
  | false => rfl
  | true => cases he

section Events
variable {id : ℕ} {event : UiEvent}
variable {verdict : Verdict}

theorem apt_of_new (hnew : b.history.get event.key = none)
    (hlimit : verdict ≠ .rejected "eventLimit".toList) : (b.answer kit.appInstanceId id event verdict).Apt where
  once := fun _ => hnew
  replayed := by
    intro record hrecord
    rw [Bridge.answer,hnew] at hrecord
    cases hrecord
  limit := fun h => absurd h hlimit

theorem apt_of_limit (hnew : b.history.get event.key = none)
    (hlimit : maxEventHistoryPerClient ≤ b.history.unacknowledged event.clientId ∨
      maxEventHistory ≤ b.history.unmovable event.clientId) :
    (b.answer kit.appInstanceId id event (.rejected "eventLimit".toList)).Apt where
  once := fun _ => hnew
  replayed := by
    intro record hrecord
    rw [Bridge.answer,hnew] at hrecord
    cases hrecord
  limit := fun _ => hlimit

theorem apt_of_unrouted (haction : verdict ≠ .action) (hlimit : verdict ≠ .rejected "eventLimit".toList)
    (hrouted : (b.answer kit.appInstanceId id event verdict).routed = true → verdict = .ended) :
    (b.answer kit.appInstanceId id event verdict).Apt where
  once := fun h => absurd h haction
  replayed := fun _ _ _ hr _ _ => .inr (hrouted hr)
  limit := fun h => absurd h hlimit

theorem overflow_dealt {history : EventHistory} (hkept : EventsKept (event :: later) b) (hsound : history.Sound)
    (happlies : (b.answer kit.appInstanceId id event verdict).Apt) (hverdict : verdict ≠ .ended) :
    Holds (fun s => s = b) (do
      setHistory history
      rejectEventOverflow kit id
      note id (b.answer kit.appInstanceId id event verdict)) (Dealt later) := by
  refine holds_bind (M := Dealt (event :: later)) ?_ (fun _ => ?_) fun _ _ h => h
  · rintro _ rfl
    exact hkept.setHistory hsound
  · exact reject_then_note rfl happlies (by simpa [Bridge.answer] using hverdict)

theorem finishEvent_dealt {ack : UiAck} {resync : Bool} (hkept : EventsKept (event :: later) b)
    (hnew : b.history.get event.key = none) :
    Holds (fun s => s = b) (finishEvent kit id event ack resync) (Dealt later) := by
  obtain ⟨hsound,-,hlimit⟩ := hkept.history.remember b.clock (some ack) hnew
  refine holds_get ?_
  rintro _ rfl
  split
  · rename_i history hremember
    rw [hremember] at hsound hlimit
    exact overflow_dealt hkept hsound (apt_of_limit hnew (hlimit rfl)) (by simp)
  · rename_i history hremember
    rw [hremember] at hsound
    refine holds_bind (M := Dealt (event :: later)) ?_ (fun _ => ?_) fun _ _ h => h
    · rintro _ rfl
      exact hkept.setHistory hsound
    · refine holds_bind queueAck_dealt (fun queued => ?_) fun _ _ h => h
      refine holds_bind (noteAck_dealt (apt_of_new hnew ?_)) (fun _ => ?_) fun _ _ h => h
      · cases queued <;> simp
      · exact dealt_of_keeps (keeps_whenever (keeps_void queueProjection_eventsKept))

theorem acceptEvent_dealt {a : Attachment} (hkept : EventsKept (event :: later) b)
    (hnew : b.history.get event.key = none) :
    Holds (fun s => s = b) (acceptEvent kit id a event) (Dealt later) := by
  obtain ⟨hsound,hget,hlimit⟩ := hkept.history.remember b.clock none hnew
  refine holds_get ?_
  rintro _ rfl
  split
  · rename_i history hremember
    rw [hremember] at hsound hlimit
    exact overflow_dealt hkept hsound (apt_of_limit hnew (hlimit rfl)) (by simp)
  · rename_i history hremember
    rw [hremember] at hsound hget
    have hedited : (history.edit event.key fun record => { record with actions := record.actions + 1 }).Sound := by
      refine hsound.edit (fun _ => rfl) fun record hrecord => ?_
      have hsame := (hsound.get_of_mem hrecord).symm.trans (hget rfl)
      rw [Option.some.inj hsame]
    refine holds_bind (M := Dealt (event :: later)) ?_ (fun _ => ?_) fun _ _ h => h
    · rintro _ rfl
      exact hkept.setHistory hedited
    · refine holds_bind (M := Dealt (event :: later)) (holds_modify fun _ h => h.pushPending _) (fun _ => ?_)
        fun _ _ h => h
      exact (note_dealt rfl (apt_of_new hnew (by simp))).mono (fun _ h => ⟨h,fun he => by simp [Bridge.answer] at he⟩)
        fun _ _ h => h

theorem handleEvent_dealt {a : Attachment} (hkept : EventsKept (event :: later) b) (ha : b.attachment id = some a) :
    Holds (fun s => s = b) (handleEvent kit id a event) (Dealt later) := by
  refine holds_get ?_
  rintro t rfl
  have hstart : ∀ s, s = t → EventsKept (event :: later) s := by
    rintro _ rfl
    exact hkept
  split
  · rename_i hmatch
    refine (reject_then_note rfl ?_ (by simp [Bridge.answer])).mono hstart fun _ _ h => h
    refine apt_of_unrouted (by simp) (by decide) fun hrouted => ?_
    simp [Bridge.answer,ha,hmatch] at hrouted
  · split
    · rename_i record hrecord
      split
      · rename_i hdifferent
        refine (reject_then_note rfl ?_ (by simp [Bridge.answer])).mono hstart fun _ _ h => h
        refine ⟨by simp [Bridge.answer],?_,fun h => absurd h (by simp [Bridge.answer])⟩
        intro other hother hsame
        rw [Bridge.answer,hrecord] at hother
        cases hother
        exact absurd hsame hdifferent
      · refine Holds.mono (P := EventsKept (event :: later)) ?_ hstart fun _ _ h => h
        refine holds_bind queueAck_dealt (fun queued => noteAck_dealt ?_) fun _ _ h => h
        refine ⟨?_,?_,?_⟩
        · cases queued <;> simp [Bridge.answer]
        · intro other hother _ _ ack hack
          rw [Bridge.answer,hrecord] at hother
          cases hother
          cases queued with
          | false => exact .inr rfl
          | true =>
            refine .inl ?_
            rw [Option.mem_def] at hack
            simp [Bridge.answer,hack]
        · cases queued <;> simp [Bridge.answer]
    · rename_i hnew
      split
      · exact finishEvent_dealt hkept hnew
      · split
        · exact finishEvent_dealt hkept hnew
        · split
          · exact finishEvent_dealt hkept hnew
          · split
            · exact finishEvent_dealt hkept hnew
            · exact acceptEvent_dealt hkept hnew

end Events

theorem eventFrames_cons (message : Incoming) (rest : List Incoming) :
    eventFrames (message :: rest) = eventFrames [message] ++ eventFrames rest := by
  cases message with
  | event e | attach | lifecycle | requestSnapshot | appOwned => rfl

theorem noteMessage_dealt {verdict : Verdict}
    (hapt : ∀ e, message = .event e → (b.answer kit.appInstanceId id e verdict).Apt) :
    Holds (fun s => EventsKept (eventFrames [message] ++ later) s ∧ (verdict = .ended → s.isOver id = true))
      (noteMessage kit b id message verdict) (Dealt later) := by
  cases message with
  | event e => exact note_dealt rfl (hapt e rfl)
  | attach | lifecycle | requestSnapshot | appOwned => exact holds_pure fun _ h => h.1

theorem reject_dealt {code text : Text} (hcode : code ≠ "eventLimit".toList) (hrouted : ∀ e, message = .event e →
      (b.answer kit.appInstanceId id e (.rejected code)).routed ≠ true) :
    Holds (EventsKept (eventFrames [message] ++ later))
      (do rejectConnection kit id code text; noteMessage kit b id message (.rejected code)) (Dealt later) := by
  refine holds_bind rejectConnection_eventsKept (fun _ => ?_) fun _ _ h => h
  refine (noteMessage_dealt fun e he => ?_).mono (fun _ h => ⟨h,by simp⟩) fun _ _ h => h
  exact apt_of_unrouted (by simp) (by simpa using hcode) fun h => absurd h (hrouted e he)

/-- Every frame of a batch is dealt with in turn. -/
theorem handleMessage_dealt :
    Holds (EventsKept (eventFrames [message] ++ later)) (handleMessage kit id message) (Dealt later) := by
  refine holds_get fun b hb => ?_
  have hstart : ∀ s, s = b → EventsKept (eventFrames [message] ++ later) s := by
    rintro _ rfl
    exact hb
  have hended : b.isOver id = true →
      Holds (fun s => s = b) (noteMessage kit b id message .ended) (Dealt later) := by
    intro hover
    refine (noteMessage_dealt fun e _ => apt_of_unrouted (by simp) (by simp) fun _ => rfl).mono ?_ fun _ _ h => h
    rintro _ rfl
    exact ⟨hb,fun _ => hover⟩
  split
  · rename_i hc
    exact hended (by rw [Bridge.isOver,hc]; rfl)
  · rename_i c hc
    split
    · rename_i hclosing
      exact hended (by rw [Bridge.isOver,hc]; exact hclosing)
    · split
      · rename_i hnone
        have hunattached : b.attachment id = none := by rw [Bridge.attachment,hc,Option.bind_some,hnone]
        split
        · exact (dealt_of_keeps handleAttach_eventsKept).mono hstart fun _ _ h => h
        · refine (reject_dealt (by decide) fun e _ => ?_).mono hstart fun _ _ h => h
          simp [Bridge.answer,hunattached]
      · rename_i a ha
        have hattached : b.attachment id = some a := by rw [Bridge.attachment,hc,Option.bind_some,ha]
        split
        · rename_i hversion
          refine (reject_dealt (by decide) fun e he => ?_).mono hstart fun _ _ h => h
          subst he
          have hne : e.protocolVersion ≠ a.protocolVersion := fun h => hversion (congrArg some h)
          simp [Bridge.answer,hattached,hne]
        · split
          · exact handleEvent_dealt hb hattached
          · exact (dealt_of_keeps handleLifecycle_eventsKept).mono hstart fun _ _ h => h
          · exact (dealt_of_keeps handleSnapshotRequest_eventsKept).mono hstart fun _ _ h => h
          · exact (dealt_of_keeps rejectConnection_eventsKept).mono hstart fun _ _ h => h
          · exact (dealt_of_keeps rejectConnection_eventsKept).mono hstart fun _ _ h => h

theorem handleMessages_dealt {messages : List Incoming} :
    Holds (EventsKept (eventFrames messages)) (messages.forM fun message => handleMessage kit id message) (Dealt []) := by
  have hloop := holds_forM (fun rest => EventsKept (eventFrames rest)) EventsBroken messages
    (f := fun message => handleMessage kit id message) fun message rest => by
      rw [eventFrames_cons]
      exact handleMessage_dealt.mono (fun _ h => h) fun outcome _ h => by cases outcome <;> exact h
  exact hloop.mono (fun _ h => h) fun outcome _ h => by cases outcome <;> exact h

theorem pumpConnection_eventsKept :
    Keeps (EventsKept []) EventsBroken (pumpConnection kit io id) := by
  refine keeps_get fun b _ => ?_
  split
  · exact keeps_pure
  · refine keeps_bind (keeps_modify fun _ h => h.connections _) fun _ => ?_
    split
    · exact keeps_pure
    · split
      · exact keeps_modify fun _ h => h.connections _
      · unfold rejectInvalidMessage
        refine keeps_bind (keeps_modify fun b h => ?_) fun _ => keeps_modify fun _ h => h.connections _
        split
        · exact h
        · exact h.connections _
      · rename_i messages eof _
        refine keeps_bind (keeps_modify fun _ h => h.connections _) fun _ => ?_
        refine holds_bind (M := Dealt (eventFrames messages)) ?_ (fun _ => ?_) fun _ _ h => h
        · refine holds_modify fun b h => ⟨h.history,h.answers,fun hrefused => ?_⟩
          rw [h.asked hrefused,append_nil]
        · exact handleMessages_dealt.mono (fun _ h => h) fun outcome _ h => by cases outcome <;> exact h

theorem acceptConnection_eventsKept {b : Bridge Node Op} (h : EventsKept later b) (allowed : Bool) :
    EventsKept later (acceptConnection b allowed) := by
  unfold acceptConnection
  split
  · exact ⟨h.history,h.answers,h.asked⟩
  · exact h

theorem pump_eventsKept : Keeps (EventsKept []) (EventsKept []) (pump kit io) :=
  keeps_pump (keeps_modify fun _ h => h.connections _) (reapConnections_eventsKept.weaken fun _ h => h.kept)
    (keeps_acceptConnections (fun _ h => h) fun _ allowed h => acceptConnection_eventsKept h allowed)
    (fun _ => pumpConnection_eventsKept.weaken fun _ h => h.kept) (flushAvailable_eventsKept.weaken fun _ h => h.kept)

theorem poll_eventsKept : Keeps (EventsKept []) (EventsKept []) (poll kit io) := by
  refine keeps_poll pump_eventsKept (keeps_modify fun b h => ?_)
  split
  · exact h
  · exact ⟨h.history,h.answers,h.asked⟩

theorem acknowledge_eventsKept {outcome : UiEventOutcome} {revision : ℕ} {flushes : ℕ → Option ℕ} :
    Keeps (EventsKept []) (EventsKept []) (acknowledge kit event outcome revision flushes) := by
  unfold acknowledge
  split
  · exact keeps_throw fun _ h => h
  · refine keeps_get fun b hb => ?_
    split
    · exact keeps_throw fun _ h => h
    · split
      · exact keeps_throw fun _ h => h
      · refine keeps_bind (keeps_modify fun _ h => h.setHistory ?_) fun _ => ?_
        · exact hb.history.edit (fun _ => rfl) fun record hrecord => hb.history.actions _ hrecord
        · exact (keeps_sendAck (fun _ => queueMessage_eventsKept) flushAvailable_eventsKept).weaken fun _ h => h.kept

section Calls
variable [DecidableEq Node]

theorem call_eventsKept (c : BridgeCall Node Op) : Keeps (EventsKept []) (EventsKept []) (call kit c) :=
  keeps_call (fun _ h => h) (fun _ _ _ h => ⟨h.history,h.answers,h.asked⟩)
    (fun _ _ => sendProjections_eventsKept.weaken fun _ h => h.kept)
    (fun _ _ _ _ _ _ _ => sendDeltas_eventsKept.weaken fun _ h => h.kept)
    (fun _ => poll_eventsKept) (fun _ _ _ _ => acknowledge_eventsKept) c

/-- The records stay consistent and what waits for the App is never thrown out; the App is
handed an event at most once while its record is kept; an acknowledged event is answered
from its record; clients are turned away at a limit only; and every event frame that was
read is answered, as long as every frame the bridge builds can be encoded. -/
theorem renderer_events_are_answered (calls : List (ℕ × BridgeCall Node Op)) :
    Always (bridgeStep kit) (EventsKept []) Bridge.start calls := by
  refine always_of_invariant (J := EventsKept []) ?_ (fun _ h => h) ⟨.empty,by simp [Bridge.start],by simp [Bridge.start]⟩ _
  rintro b ⟨now,c⟩ _ h ⟨⟩
  have hcall := (@call_eventsKept Node Op kit _ c).holds (Q := fun _ b => EventsKept [] b) (fun _ _ h => h) fun _ _ h => h
  exact hcall { b with clock := now } ⟨h.history,h.answers,h.asked⟩

end Calls

def pressed : UiEvent := ⟨1,['i'],['c'],['c'],['r'],['v'],['e'],1,['n'],['a'],.activate,[]⟩

def hungUp : List (ℕ × BridgeCall ℕ ℕ) :=
  [(0,.publish ['v'] 1 10 fun _ => some 0),polled [true] 1 [attachTo ['v']] false,polled [] 1 [.event pressed] true]

/-- Client `n` of many, with one event each. -/
def crowdEvent (n : ℕ) : UiEvent := { pressed with clientId := List.replicate n 'a' }

def crowdRecord (n : ℕ) : EventRecord := ⟨crowdEvent n,some (makeAck (crowdEvent n) .applied 1 none),0,0⟩

/-- The App has answered one event of each of `n` clients. -/
def crowd : ℕ → EventHistory
  | 0 => .empty
  | n + 1 => ((crowd n).remember 0 (crowdEvent n) (crowdRecord n).ack).1

namespace EventHistory
variable {h : EventHistory} {clientId : Text}

theorem evictUntilRoom_of_room {rounds : ℕ} (hroom : h.full clientId = false) :
    evictUntilRoom clientId rounds h = (h,true) := by
  cases rounds with
  | zero | succ rounds => simp [evictUntilRoom,hroom]

theorem evictUntilRoom_of_stuck {rounds : ℕ} (hfull : h.full clientId = true)
    (hstuck : h.eventOrder.find? (h.evictable clientId) = none) : evictUntilRoom clientId rounds h = (h,false) := by
  cases rounds with
  | zero => simp [evictUntilRoom,hfull]
  | succ rounds => simp [evictUntilRoom,hfull,hstuck]

theorem pruneExpiredEvents_zero (h : EventHistory) : h.pruneExpiredEvents 0 = h := by
  have hkept : ∀ key, h.expired 0 key = false := by
    intro key
    rw [expired]
    cases h.get key with
    | none => rfl
    | some record => simp [eventReplayTtl]
  simp [pruneExpiredEvents,remove,hkept]

end EventHistory

theorem crowd_key_ne {m n : ℕ} (h : m ≠ n) : (crowdEvent m).clientId ≠ (crowdEvent n).clientId := by
  intro he
  have hlength := congrArg List.length he
  simp [crowdEvent] at hlength
  exact h hlength

theorem crowd_own {h : EventHistory} {n : ℕ}
    (hevents : h.events = (List.range n).map fun k => ((crowdEvent k).key,crowdRecord k)) :
    h.own (crowdEvent n).clientId = [] := by
  rw [EventHistory.own,hevents,filter_eq_nil_iff]
  intro entry hentry
  obtain ⟨k,hk,rfl⟩ := mem_map.mp hentry
  have hlt := mem_range.mp hk
  exact fun hown => crowd_key_ne (Nat.ne_of_lt hlt) (of_decide_eq_true hown)

theorem crowd_eq {n : ℕ} (hn : n ≤ maxEventHistory) :
    (crowd n).events = ((List.range n).map fun k => ((crowdEvent k).key,crowdRecord k)) ∧
    (crowd n).eventOrder = (List.range n).map fun k => (crowdEvent k).key := by
  induction n with
  | zero => exact ⟨rfl,rfl⟩
  | succ n ih =>
    obtain ⟨hevents,horder⟩ := ih (by omega)
    have hroom : (crowd n).full (crowdEvent n).clientId = false := by
      rw [EventHistory.full,crowd_own hevents,hevents]
      simp [maxEventHistoryPerClient]
      omega
    have hremember : ((crowd n).remember 0 (crowdEvent n) (crowdRecord n).ack).1 =
        (crowd n).insert (crowdEvent n).key (crowdRecord n) := by
      rw [EventHistory.remember,EventHistory.makeEventRoom,EventHistory.pruneExpiredEvents_zero]
      rw [EventHistory.evictUntilRoom_of_room hroom]
      rfl
    rw [crowd,hremember,EventHistory.insert,hevents,horder,range_succ]
    simp

/-- The 4097th client is turned away with its first event. -/
theorem crowd_is_full : ((crowd maxEventHistory).remember 0 (crowdEvent maxEventHistory) none).2 = false ∧
    (crowd maxEventHistory).own (crowdEvent maxEventHistory).clientId = [] := by
  obtain ⟨hevents,horder⟩ := crowd_eq (Nat.le_refl maxEventHistory)
  refine ⟨?_,crowd_own hevents⟩
  have hfull : (crowd maxEventHistory).full (crowdEvent maxEventHistory).clientId = true := by
    rw [EventHistory.full,hevents]
    simp
  have hstuck : (crowd maxEventHistory).eventOrder.find?
      ((crowd maxEventHistory).evictable (crowdEvent maxEventHistory).clientId) = none := by
    rw [find?_eq_none,horder]
    intro key hkey
    obtain ⟨k,hk,rfl⟩ := mem_map.mp hkey
    have hne := crowd_key_ne (Nat.ne_of_lt (mem_range.mp hk))
    simp [EventHistory.evictable,UiEvent.key,hne]
  rw [EventHistory.remember,EventHistory.makeEventRoom,EventHistory.pruneExpiredEvents_zero]
  rw [EventHistory.evictUntilRoom_of_stuck hfull hstuck]

/-- Every event frame that is addressed to its attachment is answered, and a client is
turned away for its own events only. -/
def AllAnswered (b : Bridge Node Op) : Prop :=
  b.asked = b.answers.map Answer.event ∧ ∀ answer ∈ b.answers,
    (answer.routed = true → answer.verdict ≠ .ended) ∧
    (answer.verdict = .rejected "eventLimit".toList → maxEventHistoryPerClient ≤ answer.unacknowledged)

/-- The event that came with the end of its connection is dropped, and a client with no
event of its own is over the limit. -/
theorem hung_up_event_is_dropped : ¬ Always (bridgeStep sizedKit) AllAnswered Bridge.start hungUp ∧
    ((crowd maxEventHistory).remember 0 (crowdEvent maxEventHistory) none).2 = false ∧
    (crowd maxEventHistory).own (crowdEvent maxEventHistory).clientId = [] := by
  refine ⟨fun h => ?_,crowd_is_full⟩
  have hrun : (run (bridgeStep sizedKit) Bridge.start hungUp).map (fun b => b.answers) =
      some [⟨pressed,true,none,0,0,.ended,true⟩] := by
    decide +kernel
  obtain ⟨b,hb,hanswers⟩ := Option.map_eq_some_iff.mp hrun
  have hanswered := ((h.last hb).2 ⟨pressed,true,none,0,0,.ended,true⟩ (by rw [hanswers]; exact mem_singleton_self _)).1
  exact hanswered rfl rfl

end Unpeel.AppKit
