import Unpeel.Pairing.DeviceStore

/-! # The relay uplink

The owner thread holds the sessions of the phones: it answers their handshakes, opens
their requests and seals the responses. The requests themselves are dispatched by
workers, which come back in any order and may do so after the uplink was replaced. The
direct-path hub keeps the handshake inputs of each connection for the path negotiation,
which takes its lock twice.
-/
namespace Unpeel.Remote
open Runs Manifest Pairing

structure SessionTicket where
  generation : ℕ
  connId : ℕ
  incarnation : ℕ
deriving DecidableEq

structure ConnMaterial where
  sharedSecret : Bytes
  clientSalt : Bytes
  hostSalt : Bytes
deriving DecidableEq

/-- `handshake` numbers the handshakes of the run and `material` is what this one was
made from; the source keeps neither here. -/
structure ActiveSession where
  ticket : SessionTicket
  deviceId : Text
  relayTokenHash : Text
  crypto : CryptoSession
  handshake : ℕ
  material : ConnMaterial

structure TunnelRequest where
  id : ℕ
  body : Bytes

structure ClientHello where
  deviceId : Text
  salt : Bytes
  ephemeralPublic : Bytes

/-- `serial` numbers the accepted requests of the run. -/
structure DispatchJob where
  ticket : SessionTicket
  request : TunnelRequest
  serial : ℕ

structure DispatchCompletion where
  ticket : SessionTicket
  requestId : ℕ
  status : ℕ
  body : Bytes
  serial : ℕ

structure Negotiation where
  pathSession : Text
  key : Bytes

inductive WorkStage where
  | taken
  | dispatching (negotiation : Option Negotiation)
  | answered (status : ℕ) (body : Bytes)

structure Work where
  job : DispatchJob
  stage : WorkStage

/-- `worker` is the punch worker that shares the cancel flag. -/
structure ActivePath where
  pathSession : Text
  worker : ℕ

structure ConnEntry where
  material : ConnMaterial
  active : Option ActivePath

structure PunchWorker where
  connId : ℕ
  pathSession : Text
  key : Bytes

structure AcceptedRequest where
  connId : ℕ
  handshake : ℕ

/-- A sealed response: the connection it goes to, the session that sealed it, and the
token hash of its device in `devices.json` at that step. -/
structure SealedResponse where
  serial : ℕ
  connId : ℕ
  handshake : ℕ
  relayTokenHash : Text
  currentHash : Option Text

/-- The owner thread with the dispatch pool and the hub. `tickets` are those of the
handshakes, `requests` the accepted requests and `responses` what was sealed so far. A
file that cannot be read is `none`. -/
structure RelayLoop where
  devices : Option (List DeviceRecord)
  keys : Option (Text → Option Text)
  connected : Bool
  macId : Text
  generation : ℕ
  activeGeneration : ℕ
  sessions : ℕ → Option ActiveSession
  nextIncarnation : ℕ
  queue : List DispatchJob
  working : List Work
  completions : List DispatchCompletion
  hub : ℕ → Option ConnEntry
  punches : List PunchWorker
  cancelled : List ℕ
  tickets : List SessionTicket
  requests : List AcceptedRequest
  responses : List SealedResponse

structure RelayWire where
  deriveKey : Bytes → Bytes → String → Bytes
  sealCipher : Bytes → Bytes → Bytes → Option Bytes
  openCipher : Bytes → Bytes → Bytes → Option Bytes
  parseTunnelRequest : Bytes → Option TunnelRequest
  parseClientHello : Bytes → Option ClientHello
  encodeTunnelResponse : ℕ → ℕ → Bytes → Bytes
  probeKey : ConnMaterial → Text → Bytes

structure HandshakeDraw where
  shared : Option Bytes
  hostSalt : Bytes

def dispatchWorkers : ℕ := 8
def dispatchQueueCapacity : ℕ := 32
def completionQueueCapacity : ℕ := 32

/-- `wrapping_add(1)` of a 64-bit counter that skips zero. -/
def nextCounter (n : ℕ) : ℕ := if (n + 1) % 2 ^ 64 = 0 then 1 else (n + 1) % 2 ^ 64

def byteLength (text : Text) : ℕ := (text.map Char.utf8Size).sum

def relayTokenHashInStore (devices : List DeviceRecord) (deviceId : Text) : Option Text :=
  (((devices.find? (·.id = deviceId)).filter (·.relayAllowed ≠ some false)).map DeviceRecord.relayTokenHash).filter
    (byteLength · = 64)

def errorBody (message : String) : Bytes := message.toUTF8.toList

def hostBusy : Bytes := errorBody "\x7b\"error\":\"relay host busy\"\x7d"
def responseTooLarge : Bytes := errorBody "\x7b\"error\":\"response too large\"\x7d"

def RelayWire.encodeBoundedTunnelResponse (wire : RelayWire) (id status : ℕ) (body : Bytes) : Bytes :=
  let response := wire.encodeTunnelResponse id status body
  if plaintextFrameFits response.length then response else wire.encodeTunnelResponse id 413 responseTooLarge

def startRelay : RelayLoop where
  devices := none
  keys := none
  connected := false
  macId := []
  generation := 0
  activeGeneration := 0
  sessions := fun _ => none
  nextIncarnation := 0
  queue := []
  working := []
  completions := []
  hub := fun _ => none
  punches := []
  cancelled := []
  tickets := []
  requests := []
  responses := []

namespace RelayLoop

def relayTokenHash (s : RelayLoop) (deviceId : Text) : Option Text :=
  s.devices.bind (relayTokenHashInStore · deviceId)

def e2eKey (s : RelayLoop) (deviceId : Text) : Option Bytes :=
  s.keys.bind fun keys => Pairing.e2eKey s.macId ⟨[],keys⟩ deviceId

def setSession (s : RelayLoop) (connId : ℕ) (session : Option ActiveSession) : RelayLoop :=
  { s with sessions := Function.update s.sessions connId session }

def cancelPath (s : RelayLoop) (connId : ℕ) : List ℕ :=
  (((s.hub connId).bind ConnEntry.active).map ActivePath.worker).toList ++ s.cancelled

/-- `DirectPathHub::register`. -/
def register (s : RelayLoop) (connId : ℕ) (material : ConnMaterial) : RelayLoop :=
  { s with hub := Function.update s.hub connId (some ⟨material,none⟩), cancelled := s.cancelPath connId }

/-- `DirectPathHub::remove`. -/
def remove (s : RelayLoop) (connId : ℕ) : RelayLoop :=
  { s with hub := Function.update s.hub connId none, cancelled := s.cancelPath connId }

/-- The second lock of `DirectPathHub::negotiate`, with the start of the punch worker. -/
def recordPath (s : RelayLoop) (connId : ℕ) (negotiation : Negotiation) : RelayLoop :=
  match s.hub connId with
  | none => s
  | some entry => { s with
      hub := Function.update s.hub connId (some ⟨entry.material,some ⟨negotiation.pathSession,s.punches.length⟩⟩)
      punches := s.punches ++ [⟨connId,negotiation.pathSession,negotiation.key⟩]
      cancelled := s.cancelPath connId }

/-- A new uplink: the pool is activated and `run_once` starts without sessions. -/
def connect (s : RelayLoop) (macId : Text) : RelayLoop :=
  { s with
    connected := true
    macId := macId
    generation := nextCounter s.generation
    activeGeneration := nextCounter s.generation
    sessions := fun _ => none
    nextIncarnation := 0 }

/-- `run_once` returns: its sessions are dropped and the pool is deactivated. -/
def disconnect (s : RelayLoop) : RelayLoop :=
  { s with
    connected := false
    activeGeneration := if s.activeGeneration = s.generation then 0 else s.activeGeneration
    sessions := fun _ => none }

/-- Where the socket takes no more, `run_once` returns. -/
def afterSend (s : RelayLoop) (sent : Bool) : RelayLoop := if sent then s else s.disconnect

def Authorized (s : RelayLoop) (active : ActiveSession) : Prop :=
  s.relayTokenHash active.deviceId = some active.relayTokenHash

instance (s : RelayLoop) (active : ActiveSession) : Decidable (s.Authorized active) :=
  inferInstanceAs (Decidable (_ = _))

section Owner
variable (wire : RelayWire)

/-- `send_tunnel_response`: the authority of the session is checked, the response sealed
and sent in one go. -/
def sendTunnelResponse (s : RelayLoop) (ticket : SessionTicket) (serial requestId status : ℕ) (body : Bytes)
    (sent : Bool) : RelayLoop :=
  match s.sessions ticket.connId with
  | none => s
  | some active =>
    if ¬s.Authorized active then s.setSession ticket.connId none
    else if active.ticket ≠ ticket then s
    else match active.crypto.sealFrame wire.sealCipher (wire.encodeBoundedTunnelResponse requestId status body) with
      | (_,.error _) => s.setSession ticket.connId none
      | (crypto,.ok _) =>
        afterSend { s.setSession ticket.connId (some { active with crypto := crypto }) with
          responses := s.responses ++ [⟨serial,ticket.connId,active.handshake,active.relayTokenHash,
            s.relayTokenHash active.deviceId⟩] } sent

def acceptHello (s : RelayLoop) (connId : ℕ) (deviceId : Text) (payload : Bytes) (draw : HandshakeDraw) :
    Option ActiveSession := do
  let hello ← wire.parseClientHello payload
  if hello.deviceId ≠ deviceId then none else
    let relayTokenHash ← s.relayTokenHash hello.deviceId
    let key ← s.e2eKey hello.deviceId
    let shared ← draw.shared
    match CryptoSession.new wire.deriveKey key shared hello.salt draw.hostSalt .host with
    | .error _ => none
    | .ok crypto =>
      let ticket := ⟨s.generation,connId,nextCounter s.nextIncarnation⟩
      some ⟨ticket,hello.deviceId,relayTokenHash,crypto,s.tickets.length,⟨shared,hello.salt,draw.hostSalt⟩⟩

def openSession (s : RelayLoop) (connId : ℕ) (active : ActiveSession) (sent : Bool) : RelayLoop :=
  afterSend { (s.register connId active.material).setSession connId (some active) with
    nextIncarnation := nextCounter s.nextIncarnation
    tickets := s.tickets ++ [active.ticket] } sent

def submit (s : RelayLoop) (connId : ℕ) (active : ActiveSession) (request : TunnelRequest) (sent : Bool) :
    RelayLoop :=
  let accepted : RelayLoop := { s with requests := s.requests ++ [⟨connId,active.handshake⟩] }
  if s.queue.length < dispatchQueueCapacity then
    { accepted with queue := s.queue ++ [⟨active.ticket,request,s.requests.length⟩] }
  else accepted.sendTunnelResponse wire active.ticket s.requests.length request.id 503 hostBusy sent

def clientData (s : RelayLoop) (connId : ℕ) (deviceId : Text) (payload : Bytes) (draw : HandshakeDraw)
    (sent : Bool) : RelayLoop :=
  match s.sessions connId with
  | some active =>
    if active.deviceId ≠ deviceId ∨ ¬s.Authorized active then s.setSession connId none
    else match active.crypto.openFrame wire.openCipher payload with
      | (_,.error _) => s.setSession connId none
      | (crypto,.ok plaintext) =>
        let opened := s.setSession connId (some { active with crypto := crypto })
        match wire.parseTunnelRequest plaintext with
        | none => opened
        | some request => opened.submit wire connId { active with crypto := crypto } request sent
  | none =>
    match s.acceptHello wire connId deviceId payload draw with
    | none => s
    | some active => s.openSession connId active sent

end Owner

def setStage (s : RelayLoop) (i : ℕ) (stage : WorkStage) : RelayLoop :=
  { s with working := s.working.modify i ({ · with stage := stage }) }

def discard (s : RelayLoop) (i : ℕ) : RelayLoop := { s with working := s.working.eraseIdx i }

end RelayLoop

inductive RelayEvent where
  | storeChanged (devices : Option (List DeviceRecord)) (keys : Option (Text → Option Text))
  | connect (macId : Text)
  | disconnect
  | clientClosed (connId : ℕ)
  | clientData (connId : ℕ) (deviceId : Text) (payload : Bytes) (draw : HandshakeDraw) (sent : Bool)
  | drain (sent : Bool)
  | take
  | check (worker : ℕ) (owns : Bool)
  | negotiateStart (worker : ℕ) (pathSession : Text)
  | negotiateRecord (worker : ℕ)
  | finish (worker : ℕ) (status : ℕ) (body : Bytes)
  | complete (worker : ℕ)

open RelayLoop in
def relayStep (wire : RelayWire) (s : RelayLoop) : RelayEvent → Option RelayLoop
  | .storeChanged devices keys => some { s with devices := devices, keys := keys }
  | .connect macId => if s.connected then none else some (s.connect macId)
  | .disconnect => if s.connected then some s.disconnect else none
  | .clientClosed connId => if s.connected then some ((s.setSession connId none).remove connId) else none
  | .clientData connId deviceId payload draw sent =>
    if s.connected then some (s.clientData wire connId deviceId payload draw sent) else none
  | .drain sent =>
    match s.connected,s.completions with
    | true,completion :: rest => some (({ s with completions := rest } : RelayLoop).sendTunnelResponse wire
        completion.ticket completion.serial completion.requestId completion.status completion.body sent)
    | _,_ => none
  | .take =>
    match s.queue with
    | job :: rest => if s.working.length < dispatchWorkers then
        some { s with queue := rest, working := s.working ++ [⟨job,.taken⟩] } else none
    | [] => none
  -- the worker looks at the generation before it dispatches and once more after
  | .check i owns =>
    match s.working[i]? with
    | some ⟨job,.taken⟩ =>
      if s.activeGeneration ≠ job.ticket.generation ∨ owns = false then some (s.discard i)
      else some (s.setStage i (.dispatching none))
    | _ => none
  | .negotiateStart i pathSession =>
    match s.working[i]? with
    | some ⟨job,.dispatching _⟩ =>
      match s.hub job.ticket.connId with
      | none => some s
      | some entry => some (s.setStage i (.dispatching (some ⟨pathSession,wire.probeKey entry.material pathSession⟩)))
    | _ => none
  | .negotiateRecord i =>
    match s.working[i]? with
    | some ⟨job,.dispatching (some negotiation)⟩ =>
      some ((s.setStage i (.dispatching none)).recordPath job.ticket.connId negotiation)
    | _ => none
  | .finish i status body =>
    match s.working[i]? with
    | some ⟨job,.dispatching _⟩ =>
      if s.activeGeneration ≠ job.ticket.generation then some (s.discard i)
      else some (s.setStage i (.answered status body))
    | _ => none
  -- a full channel keeps the worker waiting
  | .complete i =>
    match s.working[i]? with
    | some ⟨job,.answered status body⟩ =>
      if s.completions.length < completionQueueCapacity then some { s.discard i with
        completions := s.completions ++ [⟨job.ticket,job.request.id,status,body,job.serial⟩] }
      else none
    | _ => none

namespace RelayLoop
variable {wire : RelayWire} {s : RelayLoop}

@[simp] theorem setSession_sessions (s : RelayLoop) (connId : ℕ) (session : Option ActiveSession) (c : ℕ) :
    (s.setSession connId session).sessions c = if c = connId then session else s.sessions c := by
  simp [setSession, Function.update_apply]

def Seals (wire : RelayWire) (active : ActiveSession) (requestId status : ℕ) (body : Bytes) : Prop :=
  ∃ crypto frame, active.crypto.sealFrame wire.sealCipher (wire.encodeBoundedTunnelResponse requestId status body) =
    (crypto,.ok frame)

def responded (s : RelayLoop) (connId serial : ℕ) (active : ActiveSession) (crypto : CryptoSession) : RelayLoop :=
  { s.setSession connId (some { active with crypto := crypto }) with
    responses := s.responses ++ [⟨serial,connId,active.handshake,active.relayTokenHash,
      s.relayTokenHash active.deviceId⟩] }

theorem sendTunnelResponse_cases (wire : RelayWire) (s : RelayLoop) (ticket : SessionTicket)
    (serial requestId status : ℕ) (body : Bytes) (sent : Bool) :
    (s.sessions ticket.connId = none ∧ s.sendTunnelResponse wire ticket serial requestId status body sent = s) ∨
    ∃ active, s.sessions ticket.connId = some active ∧
      ((¬s.Authorized active ∧
        s.sendTunnelResponse wire ticket serial requestId status body sent = s.setSession ticket.connId none) ∨
      (s.Authorized active ∧ active.ticket ≠ ticket ∧
        s.sendTunnelResponse wire ticket serial requestId status body sent = s) ∨
      (s.Authorized active ∧ active.ticket = ticket ∧ ¬Seals wire active requestId status body ∧
        s.sendTunnelResponse wire ticket serial requestId status body sent = s.setSession ticket.connId none) ∨
      ∃ crypto, s.Authorized active ∧ active.ticket = ticket ∧ Seals wire active requestId status body ∧
        s.sendTunnelResponse wire ticket serial requestId status body sent =
          (s.responded ticket.connId serial active crypto).afterSend sent) := by
  unfold sendTunnelResponse
  cases hsession : s.sessions ticket.connId with
  | none => exact .inl ⟨rfl,rfl⟩
  | some active =>
    refine .inr ⟨active,rfl,?_⟩
    by_cases hauth : s.Authorized active
    · by_cases hticket : active.ticket = ticket
      · dsimp only
        rw [if_neg (not_not.mpr hauth), if_neg (not_not.mpr hticket)]
        cases hseal : active.crypto.sealFrame wire.sealCipher
            (wire.encodeBoundedTunnelResponse requestId status body) with
        | mk crypto result =>
        cases result with
        | error e =>
          refine .inr (.inr (.inl ⟨hauth,hticket,?_,rfl⟩))
          rintro ⟨crypto',frame,hok⟩
          cases hseal.symm.trans hok
        | ok frame => exact .inr (.inr (.inr ⟨crypto,hauth,hticket,⟨crypto,frame,hseal⟩,rfl⟩))
      · exact .inr (.inl ⟨hauth,hticket,by simp [hauth, hticket]⟩)
    · exact .inl ⟨hauth,by simp [hauth]⟩

def Opens (wire : RelayWire) (active : ActiveSession) (payload : Bytes) (crypto : CryptoSession) (plaintext : Bytes) :
    Prop :=
  active.crypto.openFrame wire.openCipher payload = (crypto,.ok plaintext)

theorem clientData_cases (wire : RelayWire) (s : RelayLoop) (connId : ℕ) (deviceId : Text) (payload : Bytes)
    (draw : HandshakeDraw) (sent : Bool) :
    (∃ active, s.sessions connId = some active ∧
      ((s.clientData wire connId deviceId payload draw sent = s.setSession connId none ∧
        ¬(active.deviceId = deviceId ∧ s.Authorized active ∧ ∃ crypto plaintext,
          Opens wire active payload crypto plaintext)) ∨
      ∃ crypto plaintext, active.deviceId = deviceId ∧ s.Authorized active ∧ Opens wire active payload crypto plaintext ∧
        s.clientData wire connId deviceId payload draw sent =
          match wire.parseTunnelRequest plaintext with
          | none => s.setSession connId (some { active with crypto := crypto })
          | some request => (s.setSession connId (some { active with crypto := crypto })).submit wire connId
              { active with crypto := crypto } request sent)) ∨
    (s.sessions connId = none ∧ s.clientData wire connId deviceId payload draw sent =
      match s.acceptHello wire connId deviceId payload draw with
      | none => s
      | some active => s.openSession connId active sent) := by
  unfold clientData
  cases hsession : s.sessions connId with
  | none => exact .inr ⟨rfl,rfl⟩
  | some active =>
    refine .inl ⟨active,rfl,?_⟩
    by_cases hauth : active.deviceId = deviceId ∧ s.Authorized active
    · cases hopen : active.crypto.openFrame wire.openCipher payload with
      | mk crypto result =>
      cases result with
      | error e =>
        refine .inl ⟨by simp [hauth, hopen],?_⟩
        rintro ⟨-,-,crypto',plaintext,hok⟩
        cases hopen.symm.trans hok
      | ok plaintext =>
        exact .inr ⟨crypto,plaintext,hauth.1,hauth.2,hopen,by simp [hauth, hopen]⟩
    · refine .inl ⟨if_pos ?_,fun h => hauth ⟨h.1,h.2.1⟩⟩
      by_cases hdevice : active.deviceId = deviceId
      · exact .inr fun h => hauth ⟨hdevice,h⟩
      · exact .inl hdevice

theorem acceptHello_some {connId : ℕ} {deviceId : Text} {payload : Bytes} {draw : HandshakeDraw}
    {active : ActiveSession} (h : s.acceptHello wire connId deviceId payload draw = some active) :
    active.ticket = ⟨s.generation,connId,nextCounter s.nextIncarnation⟩ ∧ active.handshake = s.tickets.length := by
  simp only [acceptHello, Option.bind_eq_bind, Option.bind_eq_some_iff] at h
  obtain ⟨hello,-,h⟩ := h
  split_ifs at h
  simp only [Option.bind_eq_some_iff] at h
  obtain ⟨hash,-,key,-,shared,-,h⟩ := h
  split at h
  · cases h
  · cases h
    exact ⟨rfl,rfl⟩

end RelayLoop

def plainWire : RelayWire where
  deriveKey := fun _ _ _ => List.replicate 32 0
  sealCipher := fun _ _ plaintext => some (plaintext ++ List.replicate 16 0)
  openCipher := fun _ _ frame => some (frame.take (frame.length - 16))
  parseTunnelRequest := fun plaintext => if plaintext = [] then none else some ⟨7,plaintext⟩
  parseClientHello := fun payload =>
    if payload = [] then some ⟨"phone".toList,List.replicate 16 0,List.replicate 32 0⟩ else none
  encodeTunnelResponse := fun _ _ body => body
  probeKey := fun material _ => material.sharedSecret

def pairedFiles : DeviceFiles :=
  (registerDevice emptyTokenHash "MAC".toList .none (pairedPhone "phone" (constantKey 0)) ⟨[],fun _ => none⟩).2

def phoneFrame (payload : Bytes) (secret : UInt8) : RelayEvent :=
  .clientData 1 "phone".toList payload ⟨some (List.replicate 32 secret),List.replicate 16 0⟩ true

def phoneHello : RelayEvent := phoneFrame [] 0
def phoneRequest : RelayEvent := phoneFrame ([0,0,0,0,0,0,0,1] ++ 1 :: List.replicate 16 0) 0

end Unpeel.Remote
