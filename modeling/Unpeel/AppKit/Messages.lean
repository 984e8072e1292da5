import Unpeel.Manifest.Record

/-! # Frames between an App and its renderers

What `unpeel.ui` says over one renderer connection, as far as the bridge looks at it. The
component tree, its edits and the JSON of a frame are left open.
-/
namespace Unpeel.AppKit
open Manifest (Text)

/-- `UI_PROTOCOL_MIN_VERSION`. -/
def uiProtocolMinVersion : ℕ := 1

/-- `UI_PROTOCOL_MAX_VERSION`, the one new messages are made with. -/
def uiProtocolMaxVersion : ℕ := 1

/-- `MAX_SAFE_UI_INTEGER`. -/
def maxSafeUiInteger : ℕ := 9007199254740991

/-- `UI_DELTA_CAPABILITY`. -/
def uiDeltaCapability : Text := "serverDelta".toList

namespace UiGrant

def all : Text := "*".toList
def view : Text := "view".toList
def interact : Text := "interact".toList
def edit : Text := "edit".toList
def command : Text := "command".toList
def admin : Text := "admin".toList

end UiGrant

structure UiParticipant where
  id : Text
  grants : List Text
deriving DecidableEq

def UiParticipant.allows (participant : UiParticipant) (grant : Text) : Bool :=
  participant.grants.any fun candidate => candidate = UiGrant.all || candidate = grant

structure UiRendererMetadata where
  id : Text
  kind : Text
  capabilities : List Text
deriving DecidableEq

def UiRendererMetadata.supports (renderer : UiRendererMetadata) (capability : Text) : Bool :=
  renderer.capabilities.any fun candidate => candidate = capability

structure UiRendererState where
  rendererVisible : Bool
  terminalVisible : Bool
deriving DecidableEq

structure UiAttach where
  minProtocolVersion : ℕ
  maxProtocolVersion : ℕ
  participantToken : Text
  clientId : Text
  renderer : UiRendererMetadata
  viewId : Text
  expectedAppInstanceId : Option Text
  state : UiRendererState
deriving DecidableEq

inductive UiEventKind where
  | activate
  | select
  | change
  | submit
  | cancel
  | command
deriving DecidableEq

/-- `value` is the event's value by its JSON. -/
structure UiEvent where
  protocolVersion : ℕ
  appInstanceId : Text
  participantId : Text
  clientId : Text
  rendererId : Text
  viewId : Text
  eventId : Text
  baseRevision : ℕ
  nodeId : Text
  action : Text
  kind : UiEventKind
  value : Text
deriving DecidableEq

structure UiRoute where
  protocolVersion : ℕ
  appInstanceId : Text
  clientId : Text
  rendererId : Text
  viewId : Text
deriving DecidableEq

inductive UiAckStatus where
  | pending
  | applied
  | rejected
  | stale
deriving DecidableEq

structure UiAck where
  protocolVersion : ℕ
  appInstanceId : Text
  clientId : Text
  rendererId : Text
  viewId : Text
  eventId : Text
  status : UiAckStatus
  revision : ℕ
  message : Option Text
deriving DecidableEq

structure UiPresenceMember where
  participant : UiParticipant
  clientId : Text
  renderer : UiRendererMetadata
  state : UiRendererState
deriving DecidableEq

inductive Incoming where
  | attach (attach : UiAttach)
  | event (event : UiEvent)
  | lifecycle (route : UiRoute) (state : UiRendererState)
  | requestSnapshot (route : UiRoute)
  | appOwned (protocolVersion : ℕ)
deriving DecidableEq

inductive Outgoing (Node Op : Type) where
  | attached (protocolVersion : ℕ) (participantId clientId rendererId viewId : Text) (resumed : Bool)
      (currentRevision : Option ℕ)
  | snapshot (protocolVersion : ℕ) (clientId viewId : Text) (revision : ℕ) (root : Node)
  | delta (protocolVersion : ℕ) (clientId viewId : Text) (baseRevision revision : ℕ) (operations : List Op)
  | ack (ack : UiAck)
  | presence (protocolVersion : ℕ) (viewId : Text) (members : List UiPresenceMember)
  | error (protocolVersion : ℕ) (code message : Text)

def negotiateUiProtocolVersion (minimum maximum : ℕ) : Option ℕ :=
  if minimum = 0 ∨ maximum < minimum then none
  else
    let sharedMinimum := if uiProtocolMinVersion < minimum then minimum else uiProtocolMinVersion
    let sharedMaximum := if maximum < uiProtocolMaxVersion then maximum else uiProtocolMaxVersion
    if sharedMinimum ≤ sharedMaximum then some sharedMaximum else none

/-- `message_protocol_version`. -/
def Incoming.protocolVersion : Incoming → Option ℕ
  | .attach _ => none
  | .event e => some e.protocolVersion
  | .lifecycle route _ => some route.protocolVersion
  | .requestSnapshot route => some route.protocolVersion
  | .appOwned version => some version

def requiredGrant : UiEventKind → Text
  | .activate | .select | .cancel => UiGrant.interact
  | .change | .submit => UiGrant.edit
  | .command => UiGrant.command

def participantAllows (participant : UiParticipant) (grant : Text) : Bool :=
  participant.allows grant || participant.allows UiGrant.admin ||
    (grant = UiGrant.interact && (participant.allows UiGrant.edit || participant.allows UiGrant.command)) ||
    (grant = UiGrant.command && participant.allows UiGrant.edit)

def makeAck (event : UiEvent) (status : UiAckStatus) (revision : ℕ) (message : Option Text) : UiAck where
  protocolVersion := event.protocolVersion
  appInstanceId := event.appInstanceId
  clientId := event.clientId
  rendererId := event.rendererId
  viewId := event.viewId
  eventId := event.eventId
  status := status
  revision := revision
  message := message

end Unpeel.AppKit
