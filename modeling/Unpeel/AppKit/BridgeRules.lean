import Mathlib.Data.List.Perm.Basic
import Unpeel.AppKit.UiBridge

/-! # Proof rules for the bridge's functions

One rule for each function of the bridge: a property survives the function if it survives
the steps the function is made of. A property of the connections has to look at fewer of
them than one of the frames.
-/
namespace Unpeel.AppKit
open List

open Manifest (Text)
open Fallible
variable {Node Op : Type} {kit : UiKit Node Op} {J E : Bridge Node Op → Prop}
variable {b : Bridge Node Op} {id : ℕ} {c : UiConnection Node Op} {targeted : Bool} {flushes : ℕ → Option ℕ}
variable {message : Outgoing Node Op}

theorem Bridge.connection_map (b : Bridge Node Op) (f : UiConnection Node Op → UiConnection Node Op)
    (hf : ∀ c, (f c).id = c.id) (j : ℕ) :
    ({ b with connections := b.connections.map f } : Bridge Node Op).connection j = (b.connection j).map f := by
  rw [Bridge.connection,find?_map]
  refine congrArg (Option.map _) (congrArg (List.find? · b.connections) (funext fun c => ?_))
  rw [Function.comp_apply,hf]

theorem Bridge.connection_onConnection (b : Bridge Node Op) (id : ℕ) (f : UiConnection Node Op → UiConnection Node Op)
    (hf : ∀ c, (f c).id = c.id) (j : ℕ) :
    (b.onConnection id f).connection j = (b.connection j).map fun c => if c.id = id then f c else c := by
  refine b.connection_map _ (fun c => ?_) j
  split
  · exact hf c
  · rfl

theorem Bridge.id_of_connection (h : b.connection id = some c) :
    c.id = id := by
  simpa using find?_some h

theorem Bridge.connection_edited
    (f : UiConnection Node Op → UiConnection Node Op) (hf : ∀ c, (f c).id = c.id) (h : b.connection id = some c) :
    (b.onConnection id f).connection id = some (f c) := by
  rw [Bridge.connection_onConnection b id f hf,h,Option.map_some,if_pos (Bridge.id_of_connection h)]

theorem replaced_id {a : Attachment} (c : UiConnection Node Op) : (if c.duplicates id a then c.release else c).id = c.id := by
  split
  · rfl
  · rfl

theorem connection_replaced {b : Bridge Node Op} {id : ℕ} {c : UiConnection Node Op} {a : Attachment}
    (hc : b.connection id = some c) : (b.replaceDuplicates id a).connection id = some c := by
  have hkept : c.duplicates id a = false := by
    simp [UiConnection.duplicates,Bridge.id_of_connection hc]
  have hmap := b.connection_map (fun c => if c.duplicates id a then c.release else c) replaced_id id
  rw [hc,Option.map_some,hkept,if_neg Bool.false_ne_true] at hmap
  exact hmap

structure Numbered (b : Bridge Node Op) : Prop where
  ids : (b.connections.map UiConnection.id).Nodup
  below : ∀ c ∈ b.connections, c.id < b.nextConnectionId

theorem Numbered.connection_eq (h : Numbered b) (hc : c ∈ b.connections) : b.connection c.id = some c := by
  have hnodup := h.ids
  rw [Bridge.connection]
  generalize b.connections = connections at hc hnodup
  induction connections with
  | nil => cases hc
  | cons first rest ih =>
    rw [map_cons,nodup_cons] at hnodup
    rcases mem_cons.mp hc with rfl | hrest
    · simp
    · have hne : first.id ≠ c.id := fun heq => hnodup.1 (heq ▸ mem_map_of_mem hrest)
      simpa [hne] using ih hrest hnodup.2

theorem Numbered.edit {b : Bridge Node Op} (h : Numbered b) {f : UiConnection Node Op → UiConnection Node Op}
    (hf : ∀ c ∈ b.connections, (f c).id = c.id) : Numbered { b with connections := b.connections.map f } where
  ids := by
    have hsame : (b.connections.map f).map UiConnection.id = b.connections.map UiConnection.id := by
      rw [map_map]
      exact map_congr_left hf
    exact hsame ▸ h.ids
  below := by
    intro c' hc'
    obtain ⟨c,hc,rfl⟩ := mem_map.mp hc'
    rw [hf c hc]
    exact h.below c hc

theorem Numbered.remove {b : Bridge Node Op} (h : Numbered b) {kept removed : List (UiConnection Node Op)}
    (hperm : (kept ++ removed).Perm b.connections) : Numbered { b with connections := kept } := by
  have hids := (hperm.map UiConnection.id).nodup_iff.mpr h.ids
  rw [map_append] at hids
  exact ⟨hids.of_append_left,fun c hc => h.below c (hperm.subset (mem_append_left _ hc))⟩

theorem Numbered.accept (h : Numbered b) : Numbered { b with
    connections := b.connections ++ [UiConnection.new b.nextConnectionId b.clock]
    nextConnectionId := b.nextConnectionId + 1 } where
  ids := by
    rw [map_append,nodup_append]
    refine ⟨h.ids,nodup_singleton _,fun i hi j hj => ?_⟩
    obtain ⟨c,hc,rfl⟩ := mem_map.mp hi
    rw [mem_singleton.mp hj]
    exact Nat.ne_of_lt (h.below c hc)
  below := by
    intro c hc
    rcases mem_append.mp hc with hc | hc
    · exact Nat.lt_succ_of_lt (h.below c hc)
    · rw [mem_singleton.mp hc]
      exact Nat.lt_succ_self _

/-- Every element is kept or taken out. -/
theorem sweep_perm {γ : Type} (gone : γ → Bool) (rounds : ℕ) (l : List γ) (hrounds : l.length ≤ rounds) :
    ((sweep gone rounds l).1 ++ (sweep gone rounds l).2).Perm l := by
  induction rounds generalizing l with
  | zero =>
    rw [length_eq_zero_iff.mp (Nat.le_zero.mp hrounds)]
    exact .refl _
  | succ rounds ih =>
    cases l with
    | nil => exact .refl _
    | cons c tail =>
      rw [sweep]
      split
      · refine perm_middle.trans (List.Perm.cons c ?_)
        cases hlast : tail.getLast? with
        | none =>
          rw [List.getLast?_eq_none_iff.mp hlast]
          exact ih [] (Nat.zero_le _)
        | some last =>
          have hsplit : tail.dropLast ++ [last] = tail := dropLast_append_getLast? last hlast
          have hmoved : (last :: tail.dropLast).Perm tail :=
            (perm_append_singleton last tail.dropLast).symm.trans (List.Perm.of_eq hsplit)
          refine (ih (last :: tail.dropLast) ?_).trans hmoved
          rw [hmoved.length_eq]
          exact Nat.le_of_succ_le_succ hrounds
      · exact (ih tail (by simpa using hrounds)).cons c

theorem Bridge.onConnection_onConnection (b : Bridge Node Op) (id : ℕ) (f g : UiConnection Node Op → UiConnection Node Op)
    (hf : ∀ c, (f c).id = c.id) : (b.onConnection id f).onConnection id g = b.onConnection id fun c => g (f c) := by
  rw [Bridge.onConnection,Bridge.onConnection,Bridge.onConnection]
  congr 1
  rw [map_map]
  refine map_congr_left fun c _ => ?_
  by_cases hid : c.id = id
  · simp [hid,hf]
  · simp [hid]

/-- The four ways of `queue_message`: no such connection, no frame, no room, or queued. -/
theorem holds_queueMessage {P : Bridge Node Op → Prop} {Q : Except UiBridgeError Bool → Bridge Node Op → Prop}
    (hmissing : ∀ b, P b → b.connection id = none → Q (.ok false) b)
    (hrefused : ∀ b, P b → Q (.error .protocol) { b with refused := true })
    (hfull : ∀ b c length, P b → b.connection id = some c → kit.encodeUiFrame message = some length →
      c.overflows length = true → Q (.ok false) (b.onConnection id UiConnection.disconnect))
    (hqueued : ∀ b c length, P b → b.connection id = some c →
      Q (.ok true) (b.onConnection id fun c => c.push length message targeted)) :
    Holds P (queueMessage kit id message targeted) Q := by
  refine holds_get fun b hb => ?_
  cases hc : b.connection id with
  | none =>
    refine holds_pure ?_
    rintro _ rfl
    exact hmissing _ hb hc
  | some c =>
    dsimp only
    split
    · rintro _ rfl
      exact hrefused _ hb
    · rename_i length hlength
      split
      · rename_i hoverflows
        rintro _ rfl
        exact hfull _ c length hb hc hlength hoverflows
      · rintro _ rfl
        exact hqueued _ c length hb hc

theorem keeps_queueMessage (hrefused : ∀ b, J b → E { b with refused := true })
    (hfull : ∀ b, J b → J (b.onConnection id UiConnection.disconnect))
    (hqueued : ∀ b length, J b → J (b.onConnection id fun c => c.push length message targeted)) :
    Keeps J E (queueMessage kit id message targeted) :=
  holds_queueMessage (fun _ hb _ => hb) hrefused (fun b _ _ hb _ _ _ => hfull b hb)
    fun b _ length hb _ => hqueued b length hb

theorem keeps_queueProjection (hsnapshot : ∀ version clientId viewId revision root targeted,
      Keeps J E (queueMessage kit id (.snapshot version clientId viewId revision root) targeted))
    (hnote : ∀ revision targeted b, J b → J (b.onConnection id fun c => c.noteSent revision targeted)) :
    Keeps J E (queueProjection kit id) := by
  refine keeps_get fun b _ => ?_
  split
  · exact keeps_pure
  · split
    · exact keeps_pure
    · refine keeps_bind (hsnapshot _ _ _ _ _ _) fun queued => ?_
      exact keeps_bind (keeps_whenever (keeps_modify (hnote _ _))) fun _ => keeps_pure

theorem keeps_queueDeltaMessage {baseRevision revision : ℕ} {operations : List Op} (hdelta : ∀ version clientId viewId,
      Keeps J E (queueMessage kit id (.delta version clientId viewId baseRevision revision operations) targeted))
    (hnote : ∀ revision targeted b, J b → J (b.onConnection id fun c => c.noteSent revision targeted)) :
    Keeps J E (queueDeltaMessage kit id baseRevision revision operations targeted) := by
  refine keeps_get fun b _ => ?_
  split
  · exact keeps_pure
  · refine keeps_bind (hdelta _ _ _) fun queued => ?_
    exact keeps_bind (keeps_whenever (keeps_modify (hnote _ _))) fun _ => keeps_pure

theorem keeps_sendProjections {p : Attachment → Bool}
    (hqueue : ∀ id, Keeps J E (queueProjection kit id)) (hflush : Keeps J E (flushAvailable flushes)) :
    Keeps J E (sendProjections kit p flushes) :=
  keeps_get fun _ _ => keeps_bind (keeps_forM fun _ _ => keeps_void (hqueue _)) fun _ => hflush

theorem keeps_sendDeltas {p current : Attachment → Bool} {baseRevision revision : ℕ} {operations : List Op}
    (hqueue : ∀ id, Keeps J E (queueProjection kit id))
    (hdelta : ∀ id, Keeps J E (queueDeltaMessage kit id baseRevision revision operations targeted))
    (hflush : Keeps J E (flushAvailable flushes)) :
    Keeps J E (sendDeltas kit p current baseRevision revision operations targeted flushes) := by
  refine keeps_get fun _ _ => keeps_bind (keeps_forM fun _ _ => keeps_get fun _ _ => keeps_void ?_) fun _ => hflush
  unfold queueChange
  split
  · exact hdelta _
  · exact hqueue _

theorem keeps_broadcastPresence {viewId : Text}
    (hpresence : ∀ id version members, Keeps J E (queueMessage kit id (.presence version viewId members) false)) :
    Keeps J E (broadcastPresence kit viewId) :=
  keeps_get fun _ _ => keeps_forM fun _ _ => keeps_void (hpresence _ _ _)

theorem keeps_sendAck {ack : UiAck}
    (hack : ∀ id, Keeps J E (queueMessage kit id (.ack ack) false)) (hflush : Keeps J E (flushAvailable flushes)) :
    Keeps J E (sendAck kit ack flushes) :=
  keeps_get fun _ _ => keeps_bind (keeps_forM fun _ _ => keeps_void (hack _)) fun _ => hflush

theorem keeps_rejectConnection {code message : Text}
    (herror : ∀ version, Keeps J E (queueMessage kit id (.error version code message) false))
    (hclose : ∀ b, J b → J (b.onConnection id UiConnection.close)) :
    Keeps J E (rejectConnection kit id code message) := by
  refine keeps_get fun b _ => keeps_bind (herror _) fun queued => ?_
  exact keeps_whenever (keeps_modify hclose)

section Frames
variable {id : ℕ} (hhistory : ∀ b history, J b → J { b with history := history })
  (hnote : ∀ b answer, J b → J (b.record id answer))
  (hreject : ∀ code message, Keeps J E (rejectConnection kit id code message))
variable {event : UiEvent} {a : Attachment}

include hnote in
theorem keeps_noteMessage {b : Bridge Node Op} {message : Incoming} {verdict : Verdict} :
    Keeps J E (noteMessage kit b id message verdict) := by
  cases message with
  | event e => exact keeps_modify fun b h => hnote b _ h
  | attach | lifecycle | requestSnapshot | appOwned => exact keeps_pure

include hhistory hnote hreject in
theorem keeps_finishEvent {ack : UiAck} {resync : Bool}
    (hack : Keeps J E (queueMessage kit id (.ack ack) false)) (hprojection : Keeps J E (queueProjection kit id)) :
    Keeps J E (finishEvent kit id event ack resync) := by
  refine keeps_get fun b _ => ?_
  split
  · refine keeps_bind (keeps_modify fun b h => hhistory b _ h) fun _ => ?_
    exact keeps_bind (hreject _ _) fun _ => keeps_modify fun b h => hnote b _ h
  · refine keeps_bind (keeps_modify fun b h => hhistory b _ h) fun _ => ?_
    refine keeps_bind hack fun queued => keeps_bind (keeps_modify fun b h => hnote b _ h) fun _ => ?_
    exact keeps_whenever (keeps_void hprojection)

include hhistory hnote hreject in
theorem keeps_acceptEvent (hpush : ∀ b, J b → J (b.pushPending (.action a.participant event))) :
    Keeps J E (acceptEvent kit id a event) := by
  refine keeps_get fun b _ => ?_
  split
  · refine keeps_bind (keeps_modify fun b h => hhistory b _ h) fun _ => ?_
    exact keeps_bind (hreject _ _) fun _ => keeps_modify fun b h => hnote b _ h
  · refine keeps_bind (keeps_modify fun b h => hhistory b _ h) fun _ => ?_
    exact keeps_bind (keeps_modify hpush) fun _ => keeps_modify fun b h => hnote b _ h

include hhistory hnote hreject in
theorem keeps_handleEvent
    (hack : ∀ ack, Keeps J E (queueMessage kit id (.ack ack) false)) (hprojection : Keeps J E (queueProjection kit id))
    (hpush : ∀ b, J b → J (b.pushPending (.action a.participant event))) :
    Keeps J E (handleEvent kit id a event) := by
  have hfinish : ∀ ack resync, Keeps J E (finishEvent kit id event ack resync) := fun ack _ =>
    keeps_finishEvent hhistory hnote hreject (hack ack) hprojection
  refine keeps_get fun b _ => ?_
  split
  · exact keeps_bind (hreject _ _) fun _ => keeps_modify fun b h => hnote b _ h
  · split
    · split
      · exact keeps_bind (hreject _ _) fun _ => keeps_modify fun b h => hnote b _ h
      · exact keeps_bind (hack _) fun _ => keeps_modify fun b h => hnote b _ h
    · split
      · exact hfinish _ _
      · split
        · exact hfinish _ _
        · split
          · exact hfinish _ _
          · split
            · exact hfinish _ _
            · exact keeps_acceptEvent hhistory hnote hreject hpush

include hreject in
theorem keeps_handleSnapshotRequest {route : UiRoute}
    (hprojection : Keeps J E (queueProjection kit id)) : Keeps J E (handleSnapshotRequest kit id a route) := by
  unfold handleSnapshotRequest
  split
  · exact hreject _ _
  · exact keeps_void hprojection

end Frames

section Polling
variable {io : PumpIo}

theorem keeps_pumpConnection {id : ℕ} (hflush : ∀ b written, J b → J (b.onConnection id fun c => c.flush written))
    (hdisconnect : ∀ b, J b → J (b.onConnection id UiConnection.disconnect))
    (hinvalid : ∀ message, Keeps J E (rejectInvalidMessage kit id message))
    (heof : ∀ b (eof : Bool), J b → J (b.onConnection id fun c => if eof then c.disconnect else c))
    (hasked : ∀ b events, J b → J { b with asked := b.asked ++ events })
    (hmessage : ∀ message, Keeps J E (handleMessage kit id message)) : Keeps J E (pumpConnection kit io id) := by
  refine keeps_get fun b _ => ?_
  split
  · exact keeps_pure
  · refine keeps_bind (keeps_modify fun b h => hflush b _ h) fun _ => ?_
    split
    · exact keeps_pure
    · split
      · exact keeps_modify hdisconnect
      · exact hinvalid _
      · refine keeps_bind (keeps_modify fun b h => heof b _ h) fun _ => ?_
        refine keeps_bind (keeps_modify fun b h => hasked b _ h) fun _ => ?_
        exact keeps_forM fun message _ => hmessage message

theorem keeps_pump (hexpire : Keeps J E (expireUnattachedConnections : BridgeM Node Op PUnit))
    (hreap : Keeps J E (reapConnections kit)) (haccept : Keeps J E (acceptConnections io : BridgeM Node Op PUnit))
    (hconnection : ∀ id, Keeps J E (pumpConnection kit io id))
    (hflush : Keeps J E (flushAvailable io.lastFlushes : BridgeM Node Op PUnit)) : Keeps J E (pump kit io) := by
  refine keeps_bind hexpire fun _ => keeps_bind hreap fun _ => keeps_bind haccept fun _ => keeps_get fun b _ => ?_
  exact keeps_bind (keeps_forM fun id _ => hconnection id) fun _ => keeps_bind hflush fun _ => hreap

theorem keeps_acceptConnections (hthrow : ∀ b, J b → E b) (haccept : ∀ b allowed, J b → J (acceptConnection b allowed)) :
    Keeps J E (acceptConnections io : BridgeM Node Op PUnit) := by
  refine keeps_bind (keeps_modify fun b h => ?_) fun _ => ?_
  · generalize io.accepted = accepted
    induction accepted generalizing b with
    | nil => exact h
    | cons allowed rest ih => exact ih _ (haccept b allowed h)
  · split
    · exact keeps_throw hthrow
    · exact keeps_pure

theorem keeps_poll (hpump : Keeps J E (pump kit io)) (hpop : Keeps J E (popPending : BridgeM Node Op PUnit)) :
    Keeps J E (poll kit io) :=
  keeps_get fun _ _ => keeps_bind (keeps_whenever hpump) fun _ => hpop

theorem keeps_acknowledge {event : UiEvent} {outcome : UiEventOutcome} {revision : ℕ} {flushes : ℕ → Option ℕ}
    (hthrow : ∀ b, J b → E b) (hhistory : ∀ b history, J b → J { b with history := history })
    (hsend : ∀ ack, Keeps J E (sendAck kit ack flushes)) : Keeps J E (acknowledge kit event outcome revision flushes) := by
  unfold acknowledge
  split
  · exact keeps_throw hthrow
  · refine keeps_get fun b _ => ?_
    split
    · exact keeps_throw hthrow
    · split
      · exact keeps_throw hthrow
      · exact keeps_bind (keeps_modify fun b h => hhistory b _ h) fun _ => hsend _

end Polling

section Publishing
variable {viewId : Text} {revision baseRevision : ℕ} {root : Node} {operations : List Op}

theorem keeps_validateProjection (hthrow : ∀ b, J b → E b) :
    Keeps J E (validateProjection kit revision root : BridgeM Node Op PUnit) := by
  unfold validateProjection
  split
  · exact keeps_throw hthrow
  · split
    · exact keeps_throw hthrow
    · exact keeps_pure

theorem keeps_validateDeltaBase {previous : Projection Node} (hthrow : ∀ b, J b → E b) :
    Keeps J E (validateDeltaBase viewId previous baseRevision revision operations : BridgeM Node Op PUnit) := by
  unfold validateDeltaBase
  split
  · exact keeps_throw hthrow
  · split
    · exact keeps_throw hthrow
    · split
      · exact keeps_throw hthrow
      · split
        · exact keeps_throw hthrow
        · exact keeps_pure

theorem keeps_applyOperations (hthrow : ∀ b, J b → E b) : Keeps J E (applyOperations kit root operations) := by
  unfold applyOperations
  split
  · exact keeps_throw hthrow
  · exact keeps_pure

variable [DecidableEq Node]

theorem keeps_checkStored {previous : Option (Projection Node)} (hthrow : ∀ b, J b → E b) :
    Keeps J E (checkStored viewId previous revision root : BridgeM Node Op PUnit) := by
  unfold checkStored
  split
  · exact keeps_pure
  · split
    · exact keeps_throw hthrow
    · split
      · exact keeps_throw hthrow
      · exact keeps_pure

/-- A property that is not about the projections survives every call, if it survives what
the call sends. -/
theorem keeps_call (hthrow : ∀ b, J b → E b)
    (hstore : ∀ b views clientViews, J b → J { b with views := views, clientViews := clientViews })
    (hsend : ∀ p flushes, Keeps J E (sendProjections kit p flushes))
    (hdelta : ∀ p current baseRevision revision operations targeted flushes,
      Keeps J E (sendDeltas kit p current baseRevision revision operations targeted flushes))
    (hpoll : ∀ io, Keeps J E (poll kit io))
    (hacknowledge : ∀ event outcome revision flushes, Keeps J E (acknowledge kit event outcome revision flushes))
    (c : BridgeCall Node Op) : Keeps J E (call kit c) := by
  cases c with
  | publish viewId revision root flushes =>
    refine keeps_bind (keeps_validateProjection hthrow) fun _ => keeps_get fun b _ => ?_
    refine keeps_bind (keeps_checkStored hthrow) fun _ => ?_
    exact keeps_bind (keeps_modify fun b h => hstore b _ _ h) fun _ => hsend _ _
  | publishDelta viewId baseRevision revision operations flushes =>
    refine keeps_get fun b _ => ?_
    split
    · exact keeps_throw hthrow
    · refine keeps_bind (keeps_validateDeltaBase hthrow) fun _ => ?_
      refine keeps_bind (keeps_applyOperations hthrow) fun _ => ?_
      refine keeps_bind (keeps_validateProjection hthrow) fun _ => ?_
      exact keeps_bind (keeps_modify fun b h => hstore b _ _ h) fun _ => hdelta _ _ _ _ _ _ _
  | publishTo clientId viewId revision root flushes =>
    refine keeps_bind (keeps_validateProjection hthrow) fun _ => keeps_get fun b _ => ?_
    split
    · exact keeps_throw hthrow
    · refine keeps_bind (keeps_checkStored hthrow) fun _ => ?_
      exact keeps_bind (keeps_modify fun b h => hstore b b.views _ h) fun _ => hsend _ _
  | publishDeltaTo clientId viewId baseRevision revision operations flushes =>
    refine keeps_get fun b _ => ?_
    split
    · exact keeps_throw hthrow
    · refine keeps_bind (keeps_validateDeltaBase hthrow) fun _ => ?_
      refine keeps_bind (keeps_applyOperations hthrow) fun _ => ?_
      refine keeps_bind (keeps_validateProjection hthrow) fun _ => ?_
      exact keeps_bind (keeps_modify fun b h => hstore b b.views _ h) fun _ => hdelta _ _ _ _ _ _ _
  | poll io => exact hpoll io
  | acknowledge event outcome revision flushes => exact hacknowledge event outcome revision flushes

end Publishing

/-- What has gone wrong in `t` has gone wrong in `b`. -/
def Marked (t b : Bridge Node Op) : Prop :=
  (t.refused = true → b.refused = true) ∧ (t.moved = true → b.moved = true)

section Marks
variable {t : Bridge Node Op} {id : ℕ}

theorem queueMessage_marked {message : Outgoing Node Op} {targeted : Bool} :
    Keeps (Marked t) (Marked t) (queueMessage kit id message targeted) :=
  keeps_queueMessage (fun _ h => ⟨fun _ => rfl,h.2⟩) (fun _ h => h) fun _ _ h => h

theorem queueProjection_marked : Keeps (Marked t) (Marked t) (queueProjection kit id) :=
  keeps_queueProjection (fun _ _ _ _ _ _ => queueMessage_marked) fun _ _ _ h => h

theorem broadcastPresence_marked {viewId : Text} : Keeps (Marked t) (Marked t) (broadcastPresence kit viewId) :=
  keeps_broadcastPresence fun _ _ _ => queueMessage_marked

theorem rejectConnection_marked {code message : Text} :
    Keeps (Marked t) (Marked t) (rejectConnection kit id code message) :=
  keeps_rejectConnection (fun _ => queueMessage_marked) fun _ h => h

theorem reapConnections_marked : Keeps (Marked t) (Marked t) (reapConnections kit) :=
  keeps_get fun _ _ => keeps_bind (keeps_modify fun _ h => h) fun _ => keeps_forM fun _ _ =>
    keeps_bind (keeps_modify fun _ h => h) fun _ => broadcastPresence_marked

theorem completeAttach_marked {a : Attachment} {resumed : Bool} :
    Keeps (Marked t) (Marked t) (completeAttach kit id a resumed) := by
  refine keeps_get fun b _ => ?_
  split
  · exact keeps_pure
  · refine keeps_bind (keeps_modify fun _ h => h) fun _ => ?_
    refine keeps_bind queueMessage_marked fun _ => keeps_whenever ?_
    refine keeps_bind queueProjection_marked fun _ => ?_
    exact keeps_bind (keeps_modify fun _ h => h) fun _ => broadcastPresence_marked

theorem handleAttach_marked {attach : UiAttach} : Keeps (Marked t) (Marked t) (handleAttach kit id attach) := by
  unfold handleAttach
  split
  · exact rejectConnection_marked
  · split
    · exact rejectConnection_marked
    · split
      · exact rejectConnection_marked
      · refine keeps_bind (keeps_modify fun b h => ⟨h.1,fun hm => ?_⟩) fun _ => completeAttach_marked
        rw [Bridge.replaceDuplicates,h.2 hm,Bool.true_or]

theorem handleLifecycle_marked {a : Attachment} {route : UiRoute} {state : UiRendererState} :
    Keeps (Marked t) (Marked t) (handleLifecycle kit id a route state) := by
  unfold handleLifecycle
  split
  · exact rejectConnection_marked
  · refine keeps_bind (keeps_modify fun _ h => h) fun _ => ?_
    exact keeps_bind (keeps_modify fun _ h => h) fun _ => broadcastPresence_marked

theorem handleMessage_marked {message : Incoming} : Keeps (Marked t) (Marked t) (handleMessage kit id message) := by
  have hnote : ∀ b verdict, Keeps (Marked t) (Marked t) (noteMessage kit b id message verdict) := fun _ _ =>
    keeps_noteMessage fun _ _ h => h
  refine keeps_get fun b _ => ?_
  split
  · exact hnote _ _
  · split
    · exact hnote _ _
    · split
      · split
        · exact handleAttach_marked
        · exact keeps_bind rejectConnection_marked fun _ => hnote _ _
      · split
        · exact keeps_bind rejectConnection_marked fun _ => hnote _ _
        · split
          · exact keeps_handleEvent (fun _ _ h => h) (fun _ _ h => h) (fun _ _ => rejectConnection_marked)
              (fun _ => queueMessage_marked) queueProjection_marked fun _ h => h
          · exact handleLifecycle_marked
          · exact keeps_handleSnapshotRequest (fun _ _ => rejectConnection_marked) queueProjection_marked
          · exact rejectConnection_marked
          · exact rejectConnection_marked

end Marks

end Unpeel.AppKit
