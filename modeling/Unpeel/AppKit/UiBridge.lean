import Mathlib.Data.List.Sort
import Unpeel.AppKit.EventHistory
import Unpeel.Foundation.Fallible

/-! # The bridge between an App and its renderers

`UiBridge`: the projections an App has published, the connections of its renderers, and
what it does with each frame they send. Every function changes the bridge as it goes and
may stop in the middle with an error; what it has changed by then stays.
-/
namespace Unpeel.AppKit
open Manifest (Text)
open Fallible

/-- `MAX_CONNECTIONS`. -/
def maxConnections : ℕ := 256

/-- `MAX_PENDING_WRITE_BYTES`. -/
def maxPendingWriteBytes : ℕ := 32 * 1024 * 1024

/-- `ATTACH_DEADLINE` in milliseconds. -/
def attachDeadline : ℕ := 5000

/-- `MAX_UI_FRAME_BYTES`. -/
def maxUiFrameBytes : ℕ := 16 * 1024 * 1024

/-- What the bridge uses of the rest of App Kit: the length of a message's frame, where it
can be encoded, the check of a participant's token, and the component trees. A frame ends
in a line feed. -/
structure UiKit (Node Op : Type) where
  appInstanceId : Text
  encodeUiFrame : Outgoing Node Op → Option ℕ
  encoded : ∀ message length, encodeUiFrame message = some length → length ≤ maxUiFrameBytes + 1
  verify : Text → Text → Text → Text → Option UiParticipant
  validate : Node → Bool
  applyDeltaOperations : List Op → Node → Option Node

inductive UiBridgeEvent where
  | attached (participant : UiParticipant) (clientId : Text) (renderer : UiRendererMetadata) (viewId : Text)
      (resumed : Bool)
  | detached (participant : UiParticipant) (clientId : Text) (renderer : UiRendererMetadata) (viewId : Text)
  | lifecycle (participant : UiParticipant) (clientId : Text) (renderer : UiRendererMetadata) (viewId : Text)
      (state : UiRendererState)
  | action (participant : UiParticipant) (event : UiEvent)
deriving DecidableEq

inductive UiEventOutcome where
  | applied
  | rejected (message : Text)

/-- `protocol` is a frame that could not be encoded, `io` the listener's failure. -/
inductive UiBridgeError where
  | io
  | protocol
  | invalidView
  | invalidOperations
  | revisionRegressed (viewId : Text) (previous received : ℕ)
  | revisionConflict (viewId : Text) (revision : ℕ)
  | missingBaseProjection (viewId : Text)
  | deltaBaseMismatch (viewId : Text) (current received : ℕ)
  | invalidDeltaRevision (viewId : Text) (base received : ℕ)
  | invalidRevision (revision : ℕ)
  | unknownEvent (clientId eventId : Text)
  | eventIdentityCollision (clientId eventId : Text)
deriving DecidableEq

structure Projection (Node : Type) where
  revision : ℕ
  root : Node
deriving DecidableEq

structure Attachment where
  participant : UiParticipant
  clientId : Text
  renderer : UiRendererMetadata
  viewId : Text
  state : UiRendererState
  protocolVersion : ℕ
  lastSentRevision : Option ℕ
  lastSentWasTargeted : Bool
deriving DecidableEq

/-- `outgoing` holds what is left to write of each frame. `sent` is every message that was
queued, and whether it showed a projection of this client alone. -/
structure UiConnection (Node Op : Type) where
  id : ℕ
  acceptedAt : ℕ
  outgoing : List ℕ
  attachment : Option Attachment
  closeAfterFlush : Bool
  disconnected : Bool
  sent : List (Outgoing Node Op × Bool)

/-- What became of an event frame: `ended` where its connection was gone by then. -/
inductive Verdict where
  | action
  | acknowledged (ack : UiAck)
  | rejected (code : Text)
  | ended
deriving DecidableEq

/-- An event frame, whether it came over an attachment it is addressed to, what was
remembered when it came, and whether its connection was over when it was answered. -/
structure Answer where
  event : UiEvent
  routed : Bool
  found : Option EventRecord
  unacknowledged : ℕ
  unmovable : ℕ
  verdict : Verdict
  wasOver : Bool
deriving DecidableEq

/-- The bridge with its history: the events it has handed to the App, the event frames it
has read and how it answered them, whether a call was ever cut short by a frame that the
encoder refused, and whether a renderer ever moved from one view to another while it was
attached. -/
structure Bridge (Node Op : Type) where
  views : Text → Option (Projection Node)
  clientViews : Text × Text → Option (Projection Node)
  pending : List UiBridgeEvent
  history : EventHistory
  connections : List (UiConnection Node Op)
  nextConnectionId : ℕ
  clock : ℕ
  delivered : List UiBridgeEvent
  asked : List UiEvent
  answers : List Answer
  refused : Bool
  moved : Bool

/-- `drain` of the frames that a write of so many bytes completes. -/
def drain : ℕ → List ℕ → List ℕ
  | _,[] => []
  | written,frame :: frames => if frame ≤ written then drain (written - frame) frames else (frame - written) :: frames

namespace UiConnection
variable {Node Op : Type}

def new (id now : ℕ) : UiConnection Node Op := ⟨id,now,[],none,false,false,[]⟩

def disconnect (c : UiConnection Node Op) : UiConnection Node Op := { c with disconnected := true }

def close (c : UiConnection Node Op) : UiConnection Node Op := { c with closeAfterFlush := true }

/-- `pending_write_bytes`. -/
def pendingWriteBytes (c : UiConnection Node Op) : ℕ := c.outgoing.foldr (· + ·) 0

def overflows (c : UiConnection Node Op) (length : ℕ) : Bool := maxPendingWriteBytes < c.pendingWriteBytes + length

def push (c : UiConnection Node Op) (length : ℕ) (message : Outgoing Node Op) (targeted : Bool) :
    UiConnection Node Op :=
  { c with outgoing := c.outgoing ++ [length], sent := c.sent ++ [(message,targeted)] }

def flush (c : UiConnection Node Op) : Option ℕ → UiConnection Node Op
  | none => c.disconnect
  | some written => { c with outgoing := drain written c.outgoing }

def attach (c : UiConnection Node Op) (attachment : Attachment) : UiConnection Node Op :=
  { c with attachment := some attachment }

def noteSent (c : UiConnection Node Op) (revision : ℕ) (targeted : Bool) : UiConnection Node Op :=
  { c with attachment := c.attachment.map fun a =>
      { a with lastSentRevision := some revision, lastSentWasTargeted := targeted } }

def duplicates (c : UiConnection Node Op) (id : ℕ) (a : Attachment) : Bool :=
  c.id ≠ id && c.attachment.any fun other => other.clientId = a.clientId && other.renderer.id = a.renderer.id

def release (c : UiConnection Node Op) : UiConnection Node Op := { c with attachment := none, closeAfterFlush := true }

def gone (c : UiConnection Node Op) : Bool := c.disconnected || (c.closeAfterFlush && c.outgoing.isEmpty)

end UiConnection

/-- The loop of `reap_connections`: `swap_remove` puts the last element where one was
taken out, and it is looked at next. -/
def sweep {γ : Type} (gone : γ → Bool) : ℕ → List γ → List γ × List γ
  | 0,_ => ([],[])
  | _ + 1,[] => ([],[])
  | rounds + 1,c :: tail =>
    if gone c then
      let swept := sweep gone rounds (match tail.getLast? with
        | none => []
        | some last => last :: tail.dropLast)
      (swept.1,c :: swept.2)
    else
      let swept := sweep gone rounds tail
      (c :: swept.1,swept.2)

def Attachment.member (a : Attachment) : UiPresenceMember := ⟨a.participant,a.clientId,a.renderer,a.state⟩

def memberLe (a b : UiPresenceMember) : Bool :=
  if a.participant.id ≠ b.participant.id then !decide (b.participant.id < a.participant.id)
  else if a.clientId ≠ b.clientId then !decide (b.clientId < a.clientId)
  else !decide (b.renderer.id < a.renderer.id)

def eventMatchesAttachment (event : UiEvent) (a : Attachment) (appInstanceId : Text) : Bool :=
  event.appInstanceId = appInstanceId && event.participantId = a.participant.id && event.clientId = a.clientId &&
    event.rendererId = a.renderer.id && event.viewId = a.viewId

def routeMatchesAttachment (route : UiRoute) (a : Attachment) (appInstanceId : Text) : Bool :=
  route.appInstanceId = appInstanceId && route.clientId = a.clientId && route.rendererId = a.renderer.id &&
    route.viewId = a.viewId

namespace Bridge
variable {Node Op : Type}

def start : Bridge Node Op :=
  ⟨fun _ => none,fun _ => none,[],EventHistory.empty,[],1,0,[],[],[],false,false⟩

def connection (b : Bridge Node Op) (id : ℕ) : Option (UiConnection Node Op) := b.connections.find? fun c => c.id = id

def attachment (b : Bridge Node Op) (id : ℕ) : Option Attachment := (b.connection id).bind UiConnection.attachment

/-- `connection_mut`. -/
def onConnection (b : Bridge Node Op) (id : ℕ) (f : UiConnection Node Op → UiConnection Node Op) : Bridge Node Op :=
  { b with connections := b.connections.map fun c => if c.id = id then f c else c }

def projectionForWithSource (b : Bridge Node Op) (clientId viewId : Text) : Option (Projection Node × Bool) :=
  match b.views viewId,b.clientViews (clientId,viewId) with
  | some shared,some targeted => if shared.revision ≤ targeted.revision then some (targeted,true) else some (shared,false)
  | some shared,none => some (shared,false)
  | none,some targeted => some (targeted,true)
  | none,none => none

def projectionFor (b : Bridge Node Op) (clientId viewId : Text) : Option (Projection Node) :=
  (b.projectionForWithSource clientId viewId).map Prod.fst

def storeShared (b : Bridge Node Op) (viewId : Text) (projection : Projection Node) : Bridge Node Op :=
  { b with
    views := Function.update b.views viewId (some projection)
    clientViews := fun key => (b.clientViews key).filter fun targeted =>
      key.2 ≠ viewId || projection.revision ≤ targeted.revision }

def storeTargeted (b : Bridge Node Op) (clientId viewId : Text) (projection : Projection Node) : Bridge Node Op :=
  { b with clientViews := Function.update b.clientViews (clientId,viewId) (some projection) }

def recipients (b : Bridge Node Op) (p : Attachment → Bool) : List (ℕ × Attachment) :=
  b.connections.filterMap fun c => (c.attachment.filter p).map fun a => (c.id,a)

def replaceDuplicates (b : Bridge Node Op) (id : ℕ) (a : Attachment) : Bridge Node Op :=
  { b with
    connections := b.connections.map fun c => if c.duplicates id a then c.release else c
    moved := b.moved || b.connections.any fun c =>
      c.duplicates id a && c.attachment.any fun other => other.viewId ≠ a.viewId }

def pushPending (b : Bridge Node Op) (event : UiBridgeEvent) : Bridge Node Op :=
  { b with pending := b.pending ++ [event] }

def answer (b : Bridge Node Op) (appInstanceId : Text) (id : ℕ) (event : UiEvent) (verdict : Verdict) : Answer where
  event := event
  routed := (b.attachment id).any fun a =>
    event.protocolVersion = a.protocolVersion && eventMatchesAttachment event a appInstanceId
  found := b.history.get event.key
  unacknowledged := b.history.unacknowledged event.clientId
  unmovable := b.history.unmovable event.clientId
  verdict := verdict
  wasOver := false

def isOver (b : Bridge Node Op) (id : ℕ) : Bool := (b.connection id).all fun c => c.disconnected || c.closeAfterFlush

def record (b : Bridge Node Op) (id : ℕ) (answer : Answer) : Bridge Node Op :=
  { b with answers := b.answers ++ [{ answer with wasOver := b.isOver id }] }

end Bridge

abbrev BridgeM (Node Op : Type) := Attempt (Bridge Node Op) UiBridgeError

section Functions
variable {Node Op : Type} (kit : UiKit Node Op)

def onConnection (id : ℕ) (f : UiConnection Node Op → UiConnection Node Op) : BridgeM Node Op PUnit :=
  modify fun b => b.onConnection id f

/-- `queue_message`, with `UiConnection::queue`. -/
def queueMessage (id : ℕ) (message : Outgoing Node Op) (targeted : Bool) : BridgeM Node Op Bool := do
  let b ← get
  match b.connection id with
  | none => pure false
  | some c =>
    match kit.encodeUiFrame message with
    | none => do
      modify fun b => { b with refused := true }
      throw .protocol
    | some length =>
      if c.overflows length then do
        onConnection id UiConnection.disconnect
        pure false
      else do
        onConnection id fun c => c.push length message targeted
        pure true

def queueProjection (id : ℕ) : BridgeM Node Op Bool := do
  let b ← get
  match b.attachment id with
  | none => pure false
  | some a =>
    match b.projectionForWithSource a.clientId a.viewId with
    | none => pure false
    | some (projection,targeted) => do
      let queued ← queueMessage kit id
        (.snapshot a.protocolVersion a.clientId a.viewId projection.revision projection.root) targeted
      whenever queued (onConnection id fun c => c.noteSent projection.revision targeted)
      pure queued

def queueDeltaMessage (id baseRevision revision : ℕ) (operations : List Op) (targeted : Bool) :
    BridgeM Node Op Bool := do
  let b ← get
  match b.attachment id with
  | none => pure false
  | some a => do
    let queued ← queueMessage kit id
      (.delta a.protocolVersion a.clientId a.viewId baseRevision revision operations) targeted
    whenever queued (onConnection id fun c => c.noteSent revision targeted)
    pure queued

/-- `flush_available`, with what each connection's socket takes. -/
def flushAvailable (flushes : ℕ → Option ℕ) : BridgeM Node Op PUnit :=
  modify fun b => { b with connections := b.connections.map fun c => c.flush (flushes c.id) }

/-- `broadcast_view` and `send_projection_to`: the projection goes to every attachment of
a kind. -/
def sendProjections (p : Attachment → Bool) (flushes : ℕ → Option ℕ) : BridgeM Node Op PUnit := do
  let b ← get
  (b.recipients p).forM fun (id,_) => do
    let _ ← queueProjection kit id
    pure ()
  flushAvailable flushes

def queueChange (id : ℕ) (canApply : Bool) (baseRevision revision : ℕ) (operations : List Op) (targeted : Bool) :
    BridgeM Node Op Bool :=
  if canApply then queueDeltaMessage kit id baseRevision revision operations targeted else queueProjection kit id

/-- `broadcast_shared_delta` and `send_delta_to`: the operations go where the renderer is
known to be at their base. -/
def sendDeltas (p current : Attachment → Bool) (baseRevision revision : ℕ) (operations : List Op) (targeted : Bool)
    (flushes : ℕ → Option ℕ) : BridgeM Node Op PUnit := do
  let b ← get
  (b.recipients p).forM fun (id,_) => do
    let b ← get
    let canApply := (b.attachment id).any fun a =>
      a.renderer.supports uiDeltaCapability && a.lastSentRevision = some baseRevision && current a
    let _ ← queueChange kit id canApply baseRevision revision operations targeted
    pure ()
  flushAvailable flushes

def broadcastPresence (viewId : Text) : BridgeM Node Op PUnit := do
  let b ← get
  let recipients := b.recipients fun a => a.viewId = viewId
  let members := (recipients.map fun (_,a) => a.member).insertionSort fun a b => memberLe a b = true
  recipients.forM fun (id,a) => do
    let _ ← queueMessage kit id (.presence a.protocolVersion viewId members) false
    pure ()

def sendAck (ack : UiAck) (flushes : ℕ → Option ℕ) : BridgeM Node Op PUnit := do
  let b ← get
  let recipients := b.recipients fun a =>
    a.clientId = ack.clientId && a.renderer.id = ack.rendererId && a.viewId = ack.viewId
  recipients.forM fun (id,_) => do
    let _ ← queueMessage kit id (.ack ack) false
    pure ()
  flushAvailable flushes

def rejectConnection (id : ℕ) (code message : Text) : BridgeM Node Op PUnit := do
  let b ← get
  let version := ((b.attachment id).map Attachment.protocolVersion).getD uiProtocolMaxVersion
  let queued ← queueMessage kit id (.error version code message) false
  whenever queued (onConnection id UiConnection.close)

def reapConnections : BridgeM Node Op PUnit := do
  let b ← get
  let swept := sweep UiConnection.gone b.connections.length b.connections
  modify fun b => { b with connections := swept.1 }
  (swept.2.filterMap UiConnection.attachment).forM fun a => do
    modify fun b => b.pushPending (.detached a.participant a.clientId a.renderer a.viewId)
    broadcastPresence kit a.viewId

def note (id : ℕ) (answer : Answer) : BridgeM Node Op PUnit := modify fun b => b.record id answer

def noteMessage (b : Bridge Node Op) (id : ℕ) (message : Incoming) (verdict : Verdict) : BridgeM Node Op PUnit :=
  match message with
  | .event e => note id (b.answer kit.appInstanceId id e verdict)
  | _ => pure ()

def setHistory (history : EventHistory) : BridgeM Node Op PUnit := modify fun b => { b with history := history }

def rejectEventOverflow (id : ℕ) : BridgeM Node Op PUnit :=
  rejectConnection kit id "eventLimit".toList "renderer exceeded its pending event or acknowledgement quota".toList

/-- An event that is answered without the App: `remember_final_event` and its
acknowledgement, with a fresh projection where the renderer has to resync. -/
def finishEvent (id : ℕ) (event : UiEvent) (ack : UiAck) (resync : Bool) : BridgeM Node Op PUnit := do
  let b ← get
  match b.history.remember b.clock event (some ack) with
  | (history,false) => do
    setHistory history
    rejectEventOverflow kit id
    note id (b.answer kit.appInstanceId id event (.rejected "eventLimit".toList))
  | (history,true) => do
    setHistory history
    let queued ← queueMessage kit id (.ack ack) false
    note id (b.answer kit.appInstanceId id event (if queued then .acknowledged ack else .ended))
    whenever resync do
      let _ ← queueProjection kit id
      pure ()

/-- The last part of `handle_event`: the App is to decide. -/
def acceptEvent (id : ℕ) (a : Attachment) (event : UiEvent) : BridgeM Node Op PUnit := do
  let b ← get
  match b.history.remember b.clock event none with
  | (history,false) => do
    setHistory history
    rejectEventOverflow kit id
    note id (b.answer kit.appInstanceId id event (.rejected "eventLimit".toList))
  | (history,true) => do
    setHistory (history.edit event.key fun record => { record with actions := record.actions + 1 })
    modify fun b => b.pushPending (.action a.participant event)
    note id (b.answer kit.appInstanceId id event .action)

def handleEvent (id : ℕ) (a : Attachment) (event : UiEvent) : BridgeM Node Op PUnit := do
  let b ← get
  if eventMatchesAttachment event a kit.appInstanceId = false then do
    rejectConnection kit id "routeMismatch".toList "event identity does not match its authenticated attachment".toList
    note id (b.answer kit.appInstanceId id event (.rejected "routeMismatch".toList))
  else match b.history.get event.key with
    | some record =>
      if record.event ≠ event then do
        rejectConnection kit id "eventIdCollision".toList "eventId was reused with different content".toList
        note id (b.answer kit.appInstanceId id event (.rejected "eventIdCollision".toList))
      else do
        let ack := record.ack.getD (makeAck event .pending event.baseRevision none)
        let queued ← queueMessage kit id (.ack ack) false
        note id (b.answer kit.appInstanceId id event (if queued then .acknowledged ack else .ended))
    | none =>
      match b.projectionFor event.clientId event.viewId with
      | none =>
        finishEvent kit id event (makeAck event .rejected 0 (some "view has not published a snapshot".toList)) false
      | some projection =>
        if event.baseRevision < projection.revision then
          finishEvent kit id event
            (makeAck event .stale projection.revision (some "renderer must resync before retrying".toList)) true
        else if projection.revision < event.baseRevision then
          finishEvent kit id event
            (makeAck event .rejected projection.revision (some "event revision is ahead of the App".toList)) false
        else if participantAllows a.participant (requiredGrant event.kind) = false then
          finishEvent kit id event (makeAck event .rejected projection.revision
            (some ("participant lacks the ".toList ++ requiredGrant event.kind ++ " grant".toList))) false
        else acceptEvent kit id a event

/-- The part of `handle_attach` before the new attachment: the connections of the same
client and renderer are let go. -/
def replaceDuplicates (id : ℕ) (a : Attachment) : BridgeM Node Op PUnit := modify fun b => b.replaceDuplicates id a

def completeAttach (id : ℕ) (a : Attachment) (resumed : Bool) : BridgeM Node Op PUnit := do
  let b ← get
  match b.connection id with
  | none => pure ()
  | some _ => do
    onConnection id fun c => c.attach a
    let queued ← queueMessage kit id (.attached a.protocolVersion a.participant.id a.clientId a.renderer.id a.viewId
      resumed ((b.projectionFor a.clientId a.viewId).map Projection.revision)) false
    whenever queued do
      let _ ← queueProjection kit id
      modify fun b => b.pushPending (.attached a.participant a.clientId a.renderer a.viewId resumed)
      broadcastPresence kit a.viewId

def handleAttach (id : ℕ) (attach : UiAttach) : BridgeM Node Op PUnit := do
  match negotiateUiProtocolVersion attach.minProtocolVersion attach.maxProtocolVersion with
  | none =>
    rejectConnection kit id "unsupportedProtocolVersion".toList
      "renderer and App do not share a UI protocol version".toList
  | some version =>
    match kit.verify attach.participantToken attach.clientId attach.renderer.id attach.viewId with
    | none => rejectConnection kit id "unauthorized".toList "participant credential verification failed".toList
    | some participant =>
      if participantAllows participant UiGrant.view = false then
        rejectConnection kit id "forbidden".toList "participant lacks the view grant".toList
      else do
        let resumed := attach.expectedAppInstanceId.any fun expected => expected = kit.appInstanceId
        let a : Attachment := ⟨participant,attach.clientId,attach.renderer,attach.viewId,attach.state,version,none,false⟩
        replaceDuplicates id a
        completeAttach kit id a resumed

def handleLifecycle (id : ℕ) (a : Attachment) (route : UiRoute) (state : UiRendererState) :
    BridgeM Node Op PUnit :=
  if routeMatchesAttachment route a kit.appInstanceId = false then
    rejectConnection kit id "routeMismatch".toList "lifecycle identity does not match its authenticated attachment".toList
  else do
    onConnection id fun c => c.attach { a with state := state }
    modify fun b => b.pushPending (.lifecycle a.participant a.clientId a.renderer a.viewId state)
    broadcastPresence kit a.viewId

def handleSnapshotRequest (id : ℕ) (a : Attachment) (route : UiRoute) : BridgeM Node Op PUnit :=
  if routeMatchesAttachment route a kit.appInstanceId = false then
    rejectConnection kit id "routeMismatch".toList "snapshot request does not match its authenticated attachment".toList
  else do
    let _ ← queueProjection kit id
    pure ()

def handleMessage (id : ℕ) (message : Incoming) : BridgeM Node Op PUnit := do
  let b ← get
  match b.connection id with
  | none => noteMessage kit b id message .ended
  | some c =>
    if c.disconnected || c.closeAfterFlush then noteMessage kit b id message .ended
    else match c.attachment with
      | none =>
        match message with
        | .attach attach => handleAttach kit id attach
        | _ => do
          rejectConnection kit id "attachRequired".toList "the first renderer frame must be attach".toList
          noteMessage kit b id message (.rejected "attachRequired".toList)
      | some a =>
        if message.protocolVersion ≠ some a.protocolVersion then do
          rejectConnection kit id "protocolVersionMismatch".toList
            "message protocolVersion differs from the negotiated connection version".toList
          noteMessage kit b id message (.rejected "protocolVersionMismatch".toList)
        else match message with
          | .event e => handleEvent kit id a e
          | .lifecycle route state => handleLifecycle kit id a route state
          | .requestSnapshot route => handleSnapshotRequest kit id a route
          | .attach _ | .appOwned _ =>
            rejectConnection kit id "unexpectedMessage".toList "renderer sent an App-owned UI frame".toList

/-- What a connection's socket has for `read_messages`. Frames may come with the end of the
stream; `invalid` is a frame that does not decode, and takes those before it along. -/
inductive Reading where
  | frames (messages : List Incoming) (eof : Bool)
  | ioError
  | invalid (message : Text)

/-- The sockets during one `pump`: for each new connection whether it is a peer of the same
user that can be made nonblocking, whether `accept` fails after them, and what each
connection's socket takes and has. -/
structure PumpIo where
  accepted : List Bool
  acceptFails : Bool
  flushes : ℕ → Option ℕ
  readings : ℕ → Reading
  lastFlushes : ℕ → Option ℕ

def expireUnattachedConnections : BridgeM Node Op PUnit :=
  modify fun b => { b with connections := b.connections.map fun c =>
    if c.attachment.isNone && attachDeadline ≤ b.clock - c.acceptedAt then c.disconnect else c }

def acceptConnection (b : Bridge Node Op) (allowed : Bool) : Bridge Node Op :=
  if b.connections.length < maxConnections && allowed then
    { b with
      connections := b.connections ++ [UiConnection.new b.nextConnectionId b.clock]
      nextConnectionId := b.nextConnectionId + 1 }
  else b

def acceptConnections (io : PumpIo) : BridgeM Node Op PUnit := do
  modify fun b => io.accepted.foldl acceptConnection b
  if io.acceptFails then throw .io else pure ()

def eventFrames (messages : List Incoming) : List UiEvent :=
  messages.filterMap fun
    | .event e => some e
    | _ => none

/-- The branch of `pump` for a frame that does not decode: what the encoder says of the
answer is ignored. -/
def rejectInvalidMessage (id : ℕ) (message : Text) : BridgeM Node Op PUnit := do
  modify fun b => match kit.encodeUiFrame (.error uiProtocolMaxVersion "invalidMessage".toList message) with
    | none => b
    | some length => b.onConnection id fun c =>
      if c.overflows length then c.disconnect
      else c.push length (.error uiProtocolMaxVersion "invalidMessage".toList message) false
  onConnection id UiConnection.close

/-- The reading half of `pump` for one connection. -/
def pumpConnection (io : PumpIo) (id : ℕ) : BridgeM Node Op PUnit := do
  let b ← get
  match b.connection id with
  | none => pure ()
  | some _ => do
    onConnection id fun c => c.flush (io.flushes id)
    if (io.flushes id).isNone then pure ()
    else match io.readings id with
      | .ioError => onConnection id UiConnection.disconnect
      | .invalid message => rejectInvalidMessage kit id message
      | .frames messages eof => do
        onConnection id fun c => if eof then c.disconnect else c
        modify fun b => { b with asked := b.asked ++ eventFrames messages }
        messages.forM fun message => handleMessage kit id message

def pump (io : PumpIo) : BridgeM Node Op PUnit := do
  expireUnattachedConnections
  reapConnections kit
  acceptConnections io
  let b ← get
  (b.connections.map UiConnection.id).forM fun id => pumpConnection kit io id
  flushAvailable io.lastFlushes
  reapConnections kit

def popPending : BridgeM Node Op PUnit :=
  modify fun b => match b.pending with
    | [] => b
    | event :: rest => { b with pending := rest, delivered := b.delivered ++ [event] }

def poll (io : PumpIo) : BridgeM Node Op PUnit := do
  let b ← get
  whenever b.pending.isEmpty (pump kit io)
  popPending

def validateProjection (revision : ℕ) (root : Node) : BridgeM Node Op PUnit :=
  if maxSafeUiInteger < revision then throw (.invalidRevision revision)
  else if kit.validate root = false then throw .invalidView
  else pure ()

def validateDeltaBase (viewId : Text) (previous : Projection Node) (baseRevision revision : ℕ) (operations : List Op) :
    BridgeM Node Op PUnit :=
  if maxSafeUiInteger < baseRevision ∨ maxSafeUiInteger < revision then
    throw (.invalidRevision (max baseRevision revision))
  else if previous.revision ≠ baseRevision then throw (.deltaBaseMismatch viewId previous.revision baseRevision)
  else if revision ≤ baseRevision then throw (.invalidDeltaRevision viewId baseRevision revision)
  else if operations.isEmpty ∨ 4096 < operations.length then throw .invalidOperations
  else pure ()

section Publish
variable [DecidableEq Node]

/-- The checks of `store_projection` against what is stored under the key. -/
def checkStored (viewId : Text) (previous : Option (Projection Node)) (revision : ℕ) (root : Node) :
    BridgeM Node Op PUnit :=
  match previous with
  | none => pure ()
  | some previous =>
    if revision < previous.revision then throw (.revisionRegressed viewId previous.revision revision)
    else if revision = previous.revision ∧ root ≠ previous.root then throw (.revisionConflict viewId revision)
    else pure ()

def storeShared (viewId : Text) (projection : Projection Node) : BridgeM Node Op PUnit :=
  modify fun b => b.storeShared viewId projection

def storeTargeted (clientId viewId : Text) (projection : Projection Node) : BridgeM Node Op PUnit :=
  modify fun b => b.storeTargeted clientId viewId projection

def publish (viewId : Text) (revision : ℕ) (root : Node) (flushes : ℕ → Option ℕ) : BridgeM Node Op PUnit := do
  validateProjection kit revision root
  let b ← get
  checkStored viewId (b.views viewId) revision root
  storeShared viewId ⟨revision,root⟩
  sendProjections kit (fun a => a.viewId = viewId) flushes

def applyOperations (root : Node) (operations : List Op) : BridgeM Node Op Node :=
  match kit.applyDeltaOperations operations root with
  | none => throw .invalidView
  | some root => pure root

def publishDelta (viewId : Text) (baseRevision revision : ℕ) (operations : List Op) (flushes : ℕ → Option ℕ) :
    BridgeM Node Op PUnit := do
  let b ← get
  match b.views viewId with
  | none => throw (.missingBaseProjection viewId)
  | some previous => do
    validateDeltaBase viewId previous baseRevision revision operations
    let root ← applyOperations kit previous.root operations
    validateProjection kit revision root
    storeShared viewId ⟨revision,root⟩
    sendDeltas kit (fun a => a.viewId = viewId) (fun a => !a.lastSentWasTargeted) baseRevision revision operations
      false flushes

def publishTo (clientId viewId : Text) (revision : ℕ) (root : Node) (flushes : ℕ → Option ℕ) :
    BridgeM Node Op PUnit := do
  validateProjection kit revision root
  let b ← get
  match (b.views viewId).filter fun shared => revision < shared.revision with
  | some shared => throw (.revisionRegressed viewId shared.revision revision)
  | none => do
    checkStored viewId (b.clientViews (clientId,viewId)) revision root
    storeTargeted clientId viewId ⟨revision,root⟩
    sendProjections kit (fun a => a.clientId = clientId && a.viewId = viewId) flushes

def publishDeltaTo (clientId viewId : Text) (baseRevision revision : ℕ) (operations : List Op)
    (flushes : ℕ → Option ℕ) : BridgeM Node Op PUnit := do
  let b ← get
  match b.projectionFor clientId viewId with
  | none => throw (.missingBaseProjection viewId)
  | some previous => do
    validateDeltaBase viewId previous baseRevision revision operations
    let root ← applyOperations kit previous.root operations
    validateProjection kit revision root
    storeTargeted clientId viewId ⟨revision,root⟩
    sendDeltas kit (fun a => a.clientId = clientId && a.viewId = viewId) (fun _ => true) baseRevision revision
      operations true flushes

end Publish

def acknowledge (event : UiEvent) (outcome : UiEventOutcome) (revision : ℕ) (flushes : ℕ → Option ℕ) :
    BridgeM Node Op PUnit := do
  if maxSafeUiInteger < revision then throw (.invalidRevision revision)
  else do
    let b ← get
    match b.history.get event.key with
    | none => throw (.unknownEvent event.clientId event.eventId)
    | some record =>
      if record.event ≠ event then throw (.eventIdentityCollision event.clientId event.eventId)
      else do
        let ack := match outcome with
          | .applied => makeAck event .applied revision none
          | .rejected message => makeAck event .rejected revision (some message)
        setHistory (b.history.edit event.key fun record => { record with ack := some ack, recordedAt := b.clock })
        sendAck kit ack flushes

end Functions

inductive BridgeCall (Node Op : Type) where
  | publish (viewId : Text) (revision : ℕ) (root : Node) (flushes : ℕ → Option ℕ)
  | publishDelta (viewId : Text) (baseRevision revision : ℕ) (operations : List Op) (flushes : ℕ → Option ℕ)
  | publishTo (clientId viewId : Text) (revision : ℕ) (root : Node) (flushes : ℕ → Option ℕ)
  | publishDeltaTo (clientId viewId : Text) (baseRevision revision : ℕ) (operations : List Op)
      (flushes : ℕ → Option ℕ)
  | poll (io : PumpIo)
  | acknowledge (event : UiEvent) (outcome : UiEventOutcome) (revision : ℕ) (flushes : ℕ → Option ℕ)

section Calls
variable {Node Op : Type} [DecidableEq Node] (kit : UiKit Node Op)

def call : BridgeCall Node Op → BridgeM Node Op PUnit
  | .publish viewId revision root flushes => publish kit viewId revision root flushes
  | .publishDelta viewId baseRevision revision operations flushes =>
    publishDelta kit viewId baseRevision revision operations flushes
  | .publishTo clientId viewId revision root flushes => publishTo kit clientId viewId revision root flushes
  | .publishDeltaTo clientId viewId baseRevision revision operations flushes =>
    publishDeltaTo kit clientId viewId baseRevision revision operations flushes
  | .poll io => poll kit io
  | .acknowledge event outcome revision flushes => acknowledge kit event outcome revision flushes

def bridgeStep (b : Bridge Node Op) (timed : ℕ × BridgeCall Node Op) : Option (Bridge Node Op) :=
  some (perform (call kit timed.2) { b with clock := timed.1 }).2

end Calls

/-- A kit whose trees are their size in bytes and whose edits set it. A frame of more than
16 MiB is refused, and every token is good. -/
def sizedKit : UiKit ℕ ℕ where
  appInstanceId := ['i']
  encodeUiFrame
    | .snapshot _ _ _ _ root => if root + 200 ≤ maxUiFrameBytes then some (root + 201) else none
    | _ => some 201
  encoded := by
    intro message length h
    cases message with
    | snapshot version clientId viewId revision root =>
      obtain ⟨hsize,hlength⟩ := Option.ite_none_right_eq_some.mp h
      cases hlength
      omega
    | attached | delta | ack | presence | error =>
      cases h
      decide
  verify := fun _ clientId _ _ => some ⟨clientId,[UiGrant.all]⟩
  validate := fun _ => true
  applyDeltaOperations := fun operations _ => operations.getLast?

/-- A renderer of client `c` asks for a view. -/
def attachTo (viewId : Text) : Incoming :=
  .attach ⟨1,1,['t'],['c'],⟨['r'],['w'],[uiDeltaCapability]⟩,viewId,none,⟨true,false⟩⟩

/-- One poll in which new connections come in and connection `id` has frames to read. -/
def polled (accepted : List Bool) (id : ℕ) (messages : List Incoming) (eof : Bool) : ℕ × BridgeCall ℕ ℕ :=
  (0,.poll ⟨accepted,false,fun _ => some 0,fun j => if j = id then .frames messages eof else .frames [] false,
    fun _ => some 0⟩)

end Unpeel.AppKit
