import Mathlib.Data.List.Destutter
import Unpeel.Foundation.Runs
import Unpeel.Remote.Probe

/-! # The punch sessions of two peers

Each peer sends probes of its own direction and answers those of the other one. An
answer has the direction of its sender and the nonce of the probe, so a session
tells an answer to itself from a probe of the peer by whose nonce it carries. The
network delivers any bytes at any time that carry no MAC nobody has made.
-/
namespace Unpeel.Remote
open BigEndian Runs

abbrev SocketAddr := ℕ

inductive PunchState where
  | probing
  | established (addr : SocketAddr)
  | timedOut
deriving DecidableEq

def pathSessionLifetime : ℕ := 60000

structure PunchSession where
  peers : List SocketAddr
  outgoingNonces : List Bytes
  seenNonces : List Bytes
  started : ℕ
  state : PunchState
  rtt : Option ℕ
  inFlight : List (Bytes × ℕ)

/-- `random_nonce`: where the generator fails, the nonce stays zero. -/
def randomNonce (filled : Option (Vector UInt8 8)) : Bytes := (filled.getD (Vector.replicate 8 0)).toList

namespace PunchSession
variable (mac : Vector UInt8 32 → Bytes → Vector UInt8 32) (path : PathKey)

def new (candidates : List SocketAddr) (clock : ℕ) : PunchSession where
  peers := candidates.destutter (· ≠ ·)
  outgoingNonces := []
  seenNonces := []
  started := clock
  state := .probing
  rtt := none
  inFlight := []

/-- `tick`. The token bucket lets so many probes through as there are draws. -/
def tick (session : PunchSession) (sendDirection : ProbeDirection) (clock nowMs : ℕ)
    (draws : List (Option (Vector UInt8 8))) : PunchSession × List (SocketAddr × Bytes) :=
  if session.state ≠ .probing then (session,[])
  else if pathSessionLifetime ≤ clock - session.started then ({ session with state := .timedOut },[])
  else
    let sends := session.peers.zip (draws.map randomNonce)
    ({ session with
        outgoingNonces := session.outgoingNonces ++ sends.map Prod.snd
        inFlight := session.inFlight ++ sends.map (fun send => (send.2,clock)) },
      sends.map (fun send => (send.1,encodeProbe mac path sendDirection nowMs send.2)))

def handleDatagram (session : PunchSession) (sendDirection : ProbeDirection) (clock nowMs : ℕ)
    (bytes : Bytes) (addr : SocketAddr) : PunchSession × Option (SocketAddr × Bytes) :=
  let peerDirection := sendDirection.flipped
  if bytes.length = probeLen ∧ bytes.getD 5 0 = peerDirection.byte then
    match (verifyProbe mac path bytes peerDirection nowMs []).1 with
    | none => (session,none)
    | some probe =>
      if probe.nonce ∈ session.outgoingNonces then
        -- an echo of one of our probes
        if session.state = .probing then
          ({ session with
              state := .established addr
              rtt := (session.inFlight.find? (·.1 = probe.nonce)).map (clock - ·.2) },none)
        else (session,none)
      else if probe.nonce ∈ session.seenNonces then (session,none)
      else ({ session with seenNonces := probe.nonce :: session.seenNonces },
        some (addr,encodeProbe mac path sendDirection nowMs probe.nonce))
  else (session,none)

end PunchSession

structure Datagram where
  sender : ProbeDirection
  answers : Option Bytes
  bytes : Bytes

structure Punch where
  session : ProbeDirection → PunchSession
  sent : List Datagram

inductive PunchEvent where
  | tick (side : ProbeDirection) (clock : ℕ) (now : UInt64) (draws : List (Option (Vector UInt8 8)))
  | deliver (side : ProbeDirection) (clock : ℕ) (now : UInt64) (bytes : Bytes) (addr : SocketAddr)

section System
variable (mac : Vector UInt8 32 → Bytes → Vector UInt8 32) (path : PathKey)

def Unforged (s : Punch) (bytes : Bytes) : Prop :=
  bytes.drop 38 = probeTag mac path (bytes.take 38) → ∃ d ∈ s.sent, d.bytes.take 38 = bytes.take 38

instance (s : Punch) (bytes : Bytes) : Decidable (Unforged mac path s bytes) :=
  inferInstanceAs (Decidable (_ → _))

def punchStep (s : Punch) : PunchEvent → Option Punch
  | .tick side clock now draws =>
    let (session,sends) := (s.session side).tick mac path side clock now.toNat draws
    some { session := Function.update s.session side session
           sent := s.sent ++ sends.map (fun send => ⟨side,none,send.2⟩) }
  | .deliver side clock now bytes addr =>
    if Unforged mac path s bytes then
      let (session,answer) := (s.session side).handleDatagram mac path side clock now.toNat bytes addr
      some { session := Function.update s.session side session
             sent := s.sent ++ answer.toList.map (fun send => ⟨side,some bytes,send.2⟩) }
    else none

end System

def startPunch (candidates : ProbeDirection → List SocketAddr) (clock : ProbeDirection → ℕ) : Punch :=
  ⟨fun side => .new (candidates side) (clock side),[]⟩

namespace Punch

def probesBy (s : Punch) (side : ProbeDirection) : List Datagram :=
  s.sent.filter (fun d => d.sender = side ∧ d.answers = none)

def answersBy (s : Punch) (side : ProbeDirection) : List Datagram :=
  s.sent.filter (fun d => d.sender = side ∧ d.answers ≠ none)

end Punch

/-- What the protocol promises: a session is established only once the peer has
answered a probe of it in time; a nonce is answered once, and answers are not; an
answer is as long as what it answers. -/
structure PunchSafe (s : Punch) : Prop where
  established : ∀ side addr, (s.session side).state = .established addr →
    ∃ answer ∈ s.answersBy side.flipped, ∃ probe ∈ s.probesBy side, answer.answers = some probe.bytes ∧
      nonceOf answer.bytes = nonceOf probe.bytes ∧
      max (timestampOf answer.bytes) (timestampOf probe.bytes) -
        min (timestampOf answer.bytes) (timestampOf probe.bytes) ≤ probeTimeWindowMs
  once : ∀ side, ((s.answersBy side).map (fun d => nonceOf d.bytes)).Nodup
  noEcho : ∀ side, ∀ d ∈ s.answersBy side, ∀ e ∈ s.answersBy side.flipped, d.answers ≠ some e.bytes
  finite : ∀ side, (s.answersBy side).length ≤ (s.probesBy side.flipped).length
  length : ∀ side, ∀ d ∈ s.answersBy side, ∀ bytes, d.answers = some bytes → d.bytes.length = bytes.length

def FreshNonces (s : Punch) : PunchEvent → Prop
  | .tick side _ _ draws => ∀ draw ∈ draws, randomNonce draw ∉ (s.session side.flipped).outgoingNonces
  | _ => True

end Unpeel.Remote
