import Unpeel.Manifest.PromptTitle
import Unpeel.Pairing.DeviceStore

/-! # The pairing window

A window issues one token. A request that proves it knows the token is registered, the
token is consumed, and the window counts as completed once the response was written to
the socket. The cipher is ideal: what was sealed opens under the same token, direction
and associated data, and nothing else opens.
-/
namespace Unpeel.Pairing
open Runs Manifest Remote

/-- `PAIRING_TTL`, in milliseconds. -/
def pairingTtl : ℕ := 5 * 60 * 1000

structure ActivePairing where
  token : Text
  endpoint : Text
  directEndpoint : Text
  expiresAtMs : ℕ

structure PairingState where
  active : Option ActivePairing
  completed : Bool
  responsePending : Bool

def strip (start text : Text) : Option Text :=
  if start <+: text then some (text.drop start.length) else none

def splitOnce (c : Char) (text : Text) : Option (Text × Text) :=
  match text.dropWhile (· ≠ c) with
  | [] => none
  | _ :: rest => some (text.takeWhile (· ≠ c),rest)

def rsplitOnce (c : Char) (text : Text) : Option (Text × Text) :=
  (splitOnce c text.reverse).map fun (back,front) => (front.reverse,back.reverse)

/-- `str::parse::<u16>`: digits, with a plus sign or without. -/
def parseU16 (text : Text) : Option ℕ :=
  let digits := (strip ['+'] text).getD text
  if digits ≠ [] ∧ digits.all Char.isDigit then
    let n := digits.foldl (fun n c => n * 10 + (c.toNat - '0'.toNat)) 0
    if n < 2 ^ 16 then some n else none
  else none

def compactHttpPath (value : Text) : Option Text :=
  if (value.map Char.utf8Size).sum > 2048 ∨ value.any (· ∈ ['?','#','@']) then none else do
    let remainder ← strip "http://".toList value
    let (authority,path) ← splitOnce '/' remainder
    let (host,port) ← rsplitOnce ':' authority
    if host = [] ∨ ':' ∈ host ∨ ¬host.all (fun c => c.isAlphanum ∨ c ∈ ['.','-']) ∨
        (parseU16 port).all (· = 0) then none else some path

def validProxyEndpoint (value : Text) : Bool :=
  match (compactHttpPath value).bind (strip "mobile/pairing-proxy/".toList) with
  | none => false
  | some proxyId => proxyId ≠ [] ∧ proxyId.length ≤ 128 ∧ proxyId.all (fun c => c.isAlphanum ∨ c = '-')

def validDirectEndpoint (value : Text) : Bool := compactHttpPath value = some "mobile".toList

/-- The window `begin` opens; an address with a colon has no compact form. -/
def directWindow (token host : Text) (port : ℕ) (macId : Text) (now : ℕ) : Option ActivePairing :=
  if ':' ∈ host ∨ host = [] ∨ macId = [] then none else
    let endpoint := "http://".toList ++ host ++ ':' :: Nat.toDigits 10 port ++ "/mobile".toList
    some ⟨token,endpoint,endpoint,now + pairingTtl⟩

/-- The window `begin_invitation` opens. -/
def invitationWindow (token endpoint directEndpoint macId : Text) (now : ℕ) : Option ActivePairing :=
  if macId = [] ∨ ¬validProxyEndpoint endpoint ∨ ¬validDirectEndpoint directEndpoint then none
  else some ⟨token,endpoint,directEndpoint,now + pairingTtl⟩

inductive Direction where
  | phoneToMac
  | macToPhone
deriving DecidableEq

/-- The fields of the JSON a phone seals; a field that is missing or no string is `none`. -/
structure PairRequest where
  token : Option Text
  deviceId : Option Text
  name : Option Text
  platform : Option Text
  appVersion : Option Text

/-- What someone who knew the token sealed; `plaintext` is `none` where it is not JSON. -/
structure Sealed where
  token : Text
  salt : Bytes
  direction : Direction
  macId : Text
  endpoint : Text
  plaintext : Option PairRequest

/-- A body as `open_envelope` reads it. `sealedBytes` is the length of the decoded bytes with
what was sealed, if they are the work of someone who knew a token. -/
structure Envelope where
  version : Option ℕ
  salt : Option Bytes
  sealedBytes : Option (ℕ × Option Sealed)

def openEnvelope (envelope : Envelope) (token macId endpoint : Text) : Option (Option PairRequest) :=
  if envelope.version ≠ some 1 then none else do
    let salt ← envelope.salt.filter (·.length = 16)
    let (length,origin) ← envelope.sealedBytes
    if length < 12 + 16 then none else
      let content ← origin
      if content.token = token ∧ content.salt = salt ∧ content.direction = .phoneToMac ∧
        content.macId = macId ∧ content.endpoint = endpoint then some content.plaintext else none

/-- A call of `handle_pair` with what it draws and reads on its way: the clock, the random
values, the advertised server and whether the store and the final sealing work. `body` is
`none` where it is not JSON. -/
structure PairCall where
  body : Option Envelope
  macId : Text
  macName : Text
  now : ℕ
  uuid : Text
  authToken : Text
  relayToken : Text
  key : E2eKey
  pairedAt : ℕ
  seenAt : ℕ
  respondedAt : ℕ
  remotePort : Option ℕ
  fingerprint : Option Text
  relayUrl : Text
  serverVersion : Text
  faults : StoreFaults
  seals : Bool

structure PairResponse where
  macId : Text
  macName : Text
  endpoint : Text
  deviceId : Text
  authToken : Text
  pairedAtUnixMs : ℕ
  serverVersion : Text
  relayUrl : Text
  relayToken : Text
  e2eKeyB64 : Text
  directEndpoint : Option Text
  remoteServerPort : Option ℕ
  fingerprint : Option Text

inductive PairReply where
  | error (status : ℕ) (message : Text)
  | paired (response : PairResponse)

namespace PairingState

def opening (_ : PairingState) (pairing : ActivePairing) : PairingState := ⟨some pairing,false,false⟩

def cancel (_ : PairingState) : PairingState := ⟨none,false,false⟩

def finishResponse (s : PairingState) (sent : Bool) : PairingState :=
  { s with completed := sent, responsePending := false }

/-- `wait_until_closed` gives up on a response that stays pending. -/
def waitTimedOut (s : PairingState) : PairingState :=
  if s.responsePending then { s with completed := false, responsePending := false } else s

/-- The checks of `handle_pair`, with the status and message of the one that fails. -/
def authenticate (s : PairingState) (call : PairCall) : Except (ℕ × String) (ActivePairing × PairRequest) :=
  match s.active with
  | none => .error (401,"pairing is not active")
  | some active =>
    if active.expiresAtMs ≤ call.now then .error (401,"pairing token expired") else
    match call.body with
    | none => .error (400,"request failed")
    | some envelope =>
      match openEnvelope envelope active.token call.macId active.endpoint with
      | some (some request) =>
        if request.token ≠ some active.token then .error (401,"invalid pairing token") else .ok (active,request)
      | _ => .error (401,"invalid encrypted pairing request")

def expire (s : PairingState) (now : ℕ) : PairingState :=
  { s with active := s.active.filter (now < ·.expiresAtMs) }

end PairingState

def PairCall.registration (call : PairCall) (request : PairRequest) : Registration where
  id := ((request.deviceId.map trim).filter (· ≠ [])).getD call.uuid
  name := request.name.getD "Phone".toList
  platform := request.platform.getD "iOS".toList
  appVersion := request.appVersion
  authToken := call.authToken
  relayToken := call.relayToken
  key := call.key
  pairedAt := call.pairedAt
  seenAt := call.seenAt

def PairCall.response (call : PairCall) (active : ActivePairing) (r : Registration) : PairResponse where
  macId := call.macId
  macName := call.macName
  endpoint := active.endpoint
  deviceId := r.id
  authToken := r.authToken
  pairedAtUnixMs := call.respondedAt
  serverVersion := call.serverVersion
  relayUrl := call.relayUrl
  relayToken := r.relayToken
  e2eKeyB64 := Base64.encode r.key.bytes
  directEndpoint := if active.directEndpoint ≠ active.endpoint then some active.directEndpoint else none
  remoteServerPort := call.remotePort
  fingerprint := call.fingerprint

def handlePair (sha256Hex : Text → Text) (s : PairingState) (files : DeviceFiles) (call : PairCall) :
    PairingState × DeviceFiles × PairReply :=
  match s.authenticate call with
  | .error (status,message) => (s.expire call.now,files,.error status message.toList)
  | .ok (active,request) =>
    let r := call.registration request
    match registerDevice sha256Hex call.macId call.faults r files with
    | (.error message,files) => (s,files,.error 500 message)
    | (.ok (),files) =>
      if call.seals then ({ s with active := none, responsePending := true },files,.paired (call.response active r))
      else (s,files,.error 500 "failed to seal pairing response".toList)

inductive PairingEvent where
  | begin (host : Text) (port : ℕ) (macId : Text) (now : ℕ)
  | beginInvitation (endpoint directEndpoint macId : Text) (now : ℕ)
  | cancel
  | pair (call : PairCall)
  | finishResponse (window : ℕ) (sent : Bool)
  | waitTimedOut

structure Authenticated where
  token : Option Text
  now : ℕ
  latest : ℕ
  cancelled : List ℕ

/-- The window and the store over a run. Windows are numbered from one as they are opened,
and each draws a token. `responding` are the windows whose response is being written;
`consumed` and `sent` those whose token was used and whose response arrived. -/
structure PairingRun where
  state : PairingState
  files : DeviceFiles
  latest : ℕ
  expires : ℕ → ℕ
  cancelled : List ℕ
  responding : List ℕ
  consumed : List ℕ
  sent : List ℕ
  authenticated : List Authenticated
  registered : List (Option Text × Text)

def startPairing : PairingRun := ⟨⟨none,false,false⟩,⟨[],fun _ => none⟩,0,fun _ => 0,[],[],[],[],[],[]⟩

namespace PairingRun

def opening (s : PairingRun) (pairing : ActivePairing) : PairingRun :=
  { s with
    state := s.state.opening pairing
    latest := s.latest + 1
    expires := Function.update s.expires (s.latest + 1) pairing.expiresAtMs }

def cancel (s : PairingRun) : PairingRun :=
  { s with state := s.state.cancel, cancelled := s.latest :: s.cancelled }

def pair (sha256Hex : Text → Text) (s : PairingRun) (call : PairCall) : PairingRun :=
  let (state,files,reply) := handlePair sha256Hex s.state s.files call
  match s.state.authenticate call with
  | .error _ => { s with state := state, files := files }
  | .ok (_,request) =>
    let r := call.registration request
    let paired := match reply with
      | .error _ _ => []
      | .paired _ => [s.latest]
    { s with
      state := state
      files := files
      responding := paired ++ s.responding
      consumed := paired ++ s.consumed
      authenticated := s.authenticated ++ [⟨request.token,call.now,s.latest,s.cancelled⟩]
      registered := match (registerDevice sha256Hex call.macId call.faults r s.files).1 with
        | .ok _ => s.registered ++ [(request.token,r.id)]
        | .error _ => s.registered }

def finishResponse (s : PairingRun) (window : ℕ) (sent : Bool) : PairingRun :=
  { s with
    state := s.state.finishResponse sent
    responding := s.responding.erase window
    sent := if sent then window :: s.sent else s.sent }

end PairingRun

section Steps
variable (token : ℕ → Text) (sha256Hex : Text → Text)

/-- The locked sections, one step each; the clock and the token of a new window are read
before its lock. -/
def pairingStep (s : PairingRun) : PairingEvent → Option PairingRun
  | .begin host port macId now => (directWindow (token (s.latest + 1)) host port macId now).map s.opening
  | .beginInvitation endpoint directEndpoint macId now =>
    (invitationWindow (token (s.latest + 1)) endpoint directEndpoint macId now).map s.opening
  | .cancel => some s.cancel
  | .pair call => some (s.pair sha256Hex call)
  | .finishResponse window sent => if window ∈ s.responding then some (s.finishResponse window sent) else none
  | .waitTimedOut => some { s with state := s.state.waitTimedOut }

/-- One token registers at most one device, a request is let in only while its window is
the latest, unexpired and not cancelled, and the latest window counts as completed only
after its own token was used and its own response sent. -/
structure OneShot (s : PairingRun) : Prop where
  once : ∀ t, (s.registered.filter (·.1 = t)).length ≤ 1
  authenticated : ∀ a ∈ s.authenticated, a.token = some (token a.latest) ∧ 0 < a.latest ∧
    a.now < s.expires a.latest ∧ a.latest ∉ a.cancelled
  completed : s.state.completed = true → s.latest ∈ s.consumed ∧ s.latest ∈ s.sent

end Steps

/-- The success response can be sealed; and a response that is reported as sent is that of
the latest window, or the latest window has had its own. -/
def OwnResponse (s : PairingRun) : PairingEvent → Prop
  | .pair call => call.seals = true
  | .finishResponse window sent => sent = true → window = s.latest ∨ s.latest ∈ s.sent
  | _ => True

instance decidableOwnResponse (s : PairingRun) : ∀ e, Decidable (OwnResponse s e)
  | .pair call => inferInstanceAs (Decidable (call.seals = true))
  | .finishResponse window sent =>
    inferInstanceAs (Decidable (sent = true → window = s.latest ∨ s.latest ∈ s.sent))
  | .begin _ _ _ _ | .beginInvitation _ _ _ _ | .cancel | .waitTimedOut => isTrue trivial

structure WindowInv (token : ℕ → Text) (s : PairingRun) : Prop where
  active : ∀ pairing, s.state.active = some pairing → 0 < s.latest ∧ pairing.token = token s.latest ∧
    pairing.expiresAtMs = s.expires s.latest ∧ s.latest ∉ s.cancelled ∧ s.latest ∉ s.consumed
  cancelled : ∀ window ∈ s.cancelled, window ≤ s.latest
  consumed : ∀ window ∈ s.consumed, window ≤ s.latest
  responding : ∀ window ∈ s.responding, window ∈ s.consumed
  sent : ∀ window ∈ s.sent, window ∈ s.consumed
  registered : ∀ entry ∈ s.registered, ∃ window ∈ s.consumed, entry.1 = some (token window)
  distinct : (s.registered.map Prod.fst).Nodup
  authenticated : ∀ a ∈ s.authenticated, a.token = some (token a.latest) ∧ 0 < a.latest ∧
    a.now < s.expires a.latest ∧ a.latest ∉ a.cancelled ∧ a.latest ≤ s.latest
  completed : s.state.completed = true → s.latest ∈ s.sent

theorem PairingState.authenticate_ok {s : PairingState} {call : PairCall} {active : ActivePairing}
    {request : PairRequest} (h : s.authenticate call = .ok (active,request)) :
    s.active = some active ∧ call.now < active.expiresAtMs ∧ request.token = some active.token := by
  unfold PairingState.authenticate at h
  split at h
  · cases h
  next pairing hactive =>
  split_ifs at h with hexpired
  split at h
  · cases h
  split at h
  · next opened hopen =>
    split_ifs at h with htoken
    cases h
    exact ⟨hactive,Nat.lt_of_not_le hexpired,not_not.mp htoken⟩
  · cases h

section Invariant
variable {token : ℕ → Text} {sha256Hex : Text → Text} {s t : PairingRun}
variable {pairing : ActivePairing}

theorem WindowInv.start : WindowInv token startPairing := by
  constructor <;> simp [startPairing]

theorem WindowInv.oneShot (h : WindowInv token s) : OneShot token s where
  once := by
    intro t
    have hcount := List.nodup_iff_count_le_one.mp h.distinct t
    rw [List.count_eq_countP, List.countP_map, List.countP_eq_length_filter] at hcount
    simpa [Function.comp_def, beq_eq_decide] using hcount
  authenticated := fun a ha => ⟨(h.authenticated a ha).1,(h.authenticated a ha).2.1,(h.authenticated a ha).2.2.1,
    (h.authenticated a ha).2.2.2.1⟩
  completed := fun hc => ⟨h.sent _ (h.completed hc),h.completed hc⟩

theorem WindowInv.opening (h : WindowInv token s) {pairing : ActivePairing}
    (htoken : pairing.token = token (s.latest + 1)) : WindowInv token (s.opening pairing) where
  active := by
    intro p hp
    cases hp
    refine ⟨Nat.succ_pos _,htoken,by simp [PairingRun.opening],fun hc => ?_,fun hc => ?_⟩
    · exact Nat.not_succ_le_self _ (h.cancelled _ hc)
    · exact Nat.not_succ_le_self _ (h.consumed _ hc)
  cancelled := fun window hw => Nat.le_succ_of_le (h.cancelled window hw)
  consumed := fun window hw => Nat.le_succ_of_le (h.consumed window hw)
  responding := h.responding
  sent := h.sent
  registered := h.registered
  distinct := h.distinct
  authenticated := by
    intro a ha
    obtain ⟨htok,hpos,hnow,hcancelled,hle⟩ := h.authenticated a ha
    refine ⟨htok,hpos,?_,hcancelled,Nat.le_succ_of_le hle⟩
    have hne : a.latest ≠ s.latest + 1 := by omega
    simpa [PairingRun.opening, Function.update_of_ne hne] using hnow
  completed := fun hc => nomatch hc

theorem WindowInv.cancel (h : WindowInv token s) : WindowInv token s.cancel where
  active := fun p hp => nomatch hp
  cancelled := by
    intro window hw
    rcases List.mem_cons.mp hw with rfl | hw
    · exact Nat.le_refl _
    · exact h.cancelled window hw
  consumed := h.consumed
  responding := h.responding
  sent := h.sent
  registered := h.registered
  distinct := h.distinct
  authenticated := h.authenticated
  completed := fun hc => nomatch hc

theorem WindowInv.keep (h : WindowInv token s) {state : PairingState} {files : DeviceFiles}
    (hactive : ∀ p, state.active = some p → s.state.active = some p)
    (hcompleted : state.completed = true → s.state.completed = true) :
    WindowInv token { s with state := state, files := files } where
  active := fun p hp => h.active p (hactive p hp)
  cancelled := h.cancelled
  consumed := h.consumed
  responding := h.responding
  sent := h.sent
  registered := h.registered
  distinct := h.distinct
  authenticated := h.authenticated
  completed := fun hc => h.completed (hcompleted hc)

theorem WindowInv.finishResponse (h : WindowInv token s) {window : ℕ} {sent : Bool} (hw : window ∈ s.responding)
    (hok : OwnResponse s (.finishResponse window sent)) : WindowInv token (s.finishResponse window sent) where
  active := h.active
  cancelled := h.cancelled
  consumed := h.consumed
  responding := fun w hmem => h.responding w (List.mem_of_mem_erase hmem)
  sent := by
    intro w hmem
    cases sent with
    | false => exact h.sent w hmem
    | true =>
      rcases List.mem_cons.mp hmem with rfl | hmem
      · exact h.responding w hw
      · exact h.sent w hmem
  registered := h.registered
  distinct := h.distinct
  authenticated := h.authenticated
  completed := by
    rintro rfl
    rcases hok rfl with rfl | hsent
    · exact List.mem_cons_self
    · exact List.mem_cons_of_mem _ hsent

theorem WindowInv.letIn (h : WindowInv token s) {call : PairCall} {active : ActivePairing} {request : PairRequest}
    (hauth : s.state.authenticate call = .ok (active,request)) :
    request.token = some (token s.latest) ∧ 0 < s.latest ∧ call.now < s.expires s.latest ∧ s.latest ∉ s.cancelled ∧
      s.latest ∉ s.consumed := by
  obtain ⟨hactive,hnow,htoken⟩ := PairingState.authenticate_ok hauth
  obtain ⟨hpos,htok,hexpires,hcancelled,hconsumed⟩ := h.active active hactive
  exact ⟨by rw [htoken, htok],hpos,hexpires ▸ hnow,hcancelled,hconsumed⟩

theorem WindowInv.pair (hid : Function.Injective token) (h : WindowInv token s) {call : PairCall}
    (hok : OwnResponse s (.pair call)) : WindowInv token (s.pair sha256Hex call) := by
  unfold PairingRun.pair handlePair
  cases hauth : s.state.authenticate call with
  | error e =>
    refine h.keep (fun p hp => ?_) fun hc => hc
    exact (Option.filter_eq_some_iff.mp hp).1
  | ok found =>
    obtain ⟨active,request⟩ := found
    obtain ⟨htoken,hpos,hnow,hcancelled,hconsumed⟩ := h.letIn hauth
    have hlist : ∀ a ∈ s.authenticated ++ [⟨request.token,call.now,s.latest,s.cancelled⟩],
        a.token = some (token a.latest) ∧ 0 < a.latest ∧ a.now < s.expires a.latest ∧ a.latest ∉ a.cancelled ∧
          a.latest ≤ s.latest := by
      intro a ha
      rcases List.mem_append.mp ha with ha | ha
      · exact h.authenticated a ha
      · rw [List.mem_singleton.mp ha]
        exact ⟨htoken,hpos,hnow,hcancelled,Nat.le_refl _⟩
    dsimp only
    rcases hreg : registerDevice sha256Hex call.macId call.faults (call.registration request) s.files with
      ⟨result,files⟩
    cases result with
    | error message =>
      exact ⟨h.active,h.cancelled,h.consumed,h.responding,h.sent,h.registered,h.distinct,hlist,h.completed⟩
    | ok u =>
      simp only [show call.seals = true from hok, if_true]
      have hfresh : ∀ entry ∈ s.registered, entry.1 ≠ request.token := by
        intro entry hentry hsame
        obtain ⟨window,hwindow,hw⟩ := h.registered entry hentry
        rw [hsame, htoken, Option.some.injEq] at hw
        exact hconsumed (hid hw ▸ hwindow)
      constructor
      case active => exact fun p hp => nomatch hp
      case cancelled => exact h.cancelled
      case consumed =>
        intro window hw
        rcases List.mem_cons.mp hw with rfl | hw
        · exact Nat.le_refl _
        · exact h.consumed window hw
      case responding =>
        intro window hw
        rcases List.mem_cons.mp hw with rfl | hw
        · exact List.mem_cons_self
        · exact List.mem_cons_of_mem _ (h.responding window hw)
      case sent => exact fun window hw => List.mem_cons_of_mem _ (h.sent window hw)
      case registered =>
        intro entry hentry
        rcases List.mem_append.mp hentry with hentry | hentry
        · obtain ⟨window,hwindow,hw⟩ := h.registered entry hentry
          exact ⟨window,List.mem_cons_of_mem _ hwindow,hw⟩
        · rw [List.mem_singleton.mp hentry]
          exact ⟨s.latest,List.mem_cons_self,htoken⟩
      case distinct =>
        rw [List.map_append]
        refine List.nodup_append.mpr ⟨h.distinct,List.nodup_singleton _,?_⟩
        rintro tok htok other hother rfl
        obtain ⟨entry,hentry,rfl⟩ := List.mem_map.mp htok
        exact hfresh entry hentry (List.mem_singleton.mp hother)
      case authenticated => exact hlist
      case completed => exact h.completed

theorem directWindow_token {tok host macId : Text} {port now : ℕ}
    (h : directWindow tok host port macId now = some pairing) : pairing.token = tok := by
  unfold directWindow at h
  split_ifs at h
  cases h
  rfl

theorem invitationWindow_token {tok endpoint direct macId : Text} {now : ℕ}
    (h : invitationWindow tok endpoint direct macId now = some pairing) : pairing.token = tok := by
  unfold invitationWindow at h
  split_ifs at h
  cases h
  rfl

theorem WindowInv.step (hid : Function.Injective token) (h : WindowInv token s) {e : PairingEvent}
    (hok : OwnResponse s e) (hs : pairingStep token sha256Hex s e = some t) : WindowInv token t := by
  cases e with
  | begin host port macId now =>
    obtain ⟨pairing,hp,rfl⟩ := Option.map_eq_some_iff.mp hs
    exact h.opening (directWindow_token hp)
  | beginInvitation endpoint direct macId now =>
    obtain ⟨pairing,hp,rfl⟩ := Option.map_eq_some_iff.mp hs
    exact h.opening (invitationWindow_token hp)
  | cancel => exact Option.some.inj hs ▸ h.cancel
  | pair call => exact Option.some.inj hs ▸ h.pair hid hok
  | finishResponse window sent =>
    simp only [pairingStep] at hs
    split_ifs at hs with hw
    exact Option.some.inj hs ▸ h.finishResponse hw hok
  | waitTimedOut =>
    cases hs
    unfold PairingState.waitTimedOut
    split
    · exact h.keep (fun p hp => hp) fun hc => nomatch hc
    · exact h

end Invariant

/-- In every interleaving in which success responses can be sealed and no response of an
earlier window is reported sent while the latest is open, pairing is one-shot and
completion belongs to the latest window. -/
theorem pairing_is_one_shot {token : ℕ → Text} (hid : Function.Injective token) (sha256Hex : Text → Text)
    (events : List PairingEvent) (hg : Guarded (pairingStep token sha256Hex) OwnResponse startPairing events) :
    Always (pairingStep token sha256Hex) (OneShot token) startPairing events :=
  always_of_guarded (J := WindowInv token) (fun _ _ _ h hok hs => h.step hid hok hs) (fun _ => WindowInv.oneShot)
    WindowInv.start hg

def countedToken (window : ℕ) : Text := List.replicate window 'A'

def directEndpoint : Text := "http://10.0.0.8:17661/mobile".toList

def phoneCall (window : ℕ) (id : String) (seals : Bool) : PairCall where
  body := some ⟨some 1,some (List.replicate 16 0),some (300,some ⟨countedToken window,List.replicate 16 0,.phoneToMac,
    "MAC".toList,directEndpoint,some ⟨some (countedToken window),some id.toList,none,none,none⟩⟩)⟩
  macId := "MAC".toList
  macName := "Host".toList
  now := 1000
  uuid := []
  authToken := []
  relayToken := []
  key := constantKey 0
  pairedAt := 1000
  seenAt := 1000
  respondedAt := 1000
  remotePort := none
  fingerprint := none
  relayUrl := []
  serverVersion := []
  faults := .none
  seals := seals

def openWindow : PairingEvent := .begin "10.0.0.8".toList 17661 "MAC".toList 0

/-- A phone pairs and the next window is opened after its response has arrived. -/
theorem phoneAfterPhone_is_one_shot :
    Always (pairingStep countedToken emptyTokenHash) (OneShot countedToken) startPairing
      [openWindow,.pair (phoneCall 1 "phone" true),.finishResponse 1 true,openWindow,
        .pair (phoneCall 2 "tablet" true),.waitTimedOut,.finishResponse 2 true] := by
  refine pairing_is_one_shot (fun m n h => ?_) _ _ ?_
  · simpa [countedToken] using congrArg List.length h
  · decide +kernel

/-- The next window is opened while the response to a phone is still being written: the
new window counts as completed without a request. And a response that cannot be sealed
leaves the token for the next phone. -/
theorem reopened_window_completes :
    ¬Always (pairingStep countedToken emptyTokenHash) (OneShot countedToken) startPairing
      [openWindow,.pair (phoneCall 1 "phone" true),openWindow,.finishResponse 1 true] ∧
    ¬Always (pairingStep countedToken emptyTokenHash) (OneShot countedToken) startPairing
      [openWindow,.pair (phoneCall 1 "phone" false),.pair (phoneCall 1 "tablet" true)] := by
  constructor
  · intro h
    have hend := h.last rfl
    exact absurd (hend.completed rfl).1 (by decide)
  · intro h
    have hend := h.last rfl
    exact absurd (hend.once (some (countedToken 1))) (by decide)

end Unpeel.Pairing
