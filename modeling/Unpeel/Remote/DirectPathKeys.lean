import Unpeel.Remote.RelayLoop

/-! # The key material of the direct paths

The hub keeps the handshake inputs of a connection apart from its session. A closed
connection takes them along; the other ways to lose a session leave them behind.
-/
namespace Unpeel.Remote
open Runs Manifest Pairing Function

/-- The hub has material only for live sessions, and only theirs; a path that is recorded
as active probes with a key from the material of its connection, and a punch worker that
is not cancelled is that of such a path. -/
structure KeysLive (wire : RelayWire) (s : RelayLoop) : Prop where
  material : ∀ c entry, s.hub c = some entry → ∃ active, s.sessions c = some active ∧ active.material = entry.material
  paths : ∀ c entry path, s.hub c = some entry → entry.active = some path →
    ∃ worker, s.punches[path.worker]? = some worker ∧ worker.pathSession = path.pathSession ∧
      worker.key = wire.probeKey entry.material path.pathSession
  workers : ∀ n worker, s.punches[n]? = some worker → n ∉ s.cancelled →
    ∃ entry path, s.hub worker.connId = some entry ∧ entry.active = some path ∧ path.worker = n

/-- Answering under a ticket does not end the session: its device has its token, and if the
ticket is that of the session the response seals and is sent. -/
def ResponseKept (wire : RelayWire) (s : RelayLoop) (ticket : SessionTicket) (requestId status : ℕ) (body : Bytes)
    (sent : Bool) : Prop :=
  ∀ active, s.sessions ticket.connId = some active → s.Authorized active ∧
    (active.ticket = ticket → RelayLoop.Seals wire active requestId status body ∧ sent = true)

/-- No session ends but by the close of its connection: its frames come from its device,
with its token in force, and open; its responses seal and are sent; and the uplink stays
while there are sessions. No path is recorded under a key from other material. -/
def SessionsClose (wire : RelayWire) (s : RelayLoop) : RelayEvent → Prop
  | .disconnect => ∀ c, s.sessions c = none
  | .clientData c deviceId payload draw sent =>
    match s.sessions c with
    | some active => active.deviceId = deviceId ∧ s.Authorized active ∧ ∃ crypto plaintext,
        RelayLoop.Opens wire active payload crypto plaintext ∧ ∀ request, wire.parseTunnelRequest plaintext = some request →
          s.queue.length < dispatchQueueCapacity ∨
          (RelayLoop.Seals wire { active with crypto := crypto } request.id 503 hostBusy ∧ sent = true)
    | none => (s.acceptHello wire c deviceId payload draw).isSome → sent = true
  | .drain sent => ∀ completion rest, s.completions = completion :: rest →
      ResponseKept wire s completion.ticket completion.requestId completion.status completion.body sent
  | .negotiateRecord i => ∀ job negotiation, s.working[i]? = some ⟨job,.dispatching (some negotiation)⟩ →
      ∀ entry, s.hub job.ticket.connId = some entry →
        negotiation.key = wire.probeKey entry.material negotiation.pathSession
  | _ => True

structure KeyInv (wire : RelayWire) (s : RelayLoop) : Prop extends KeysLive wire s where
  registered : ∀ c active, s.sessions c = some active → active.ticket.connId = c ∧ ∃ entry, s.hub c = some entry
  idle : s.connected = false → ∀ c, s.sessions c = none

section Invariant
variable {wire : RelayWire} {s t : RelayLoop}
variable {requestId status connId : ℕ} {sent : Bool}
variable {body : Bytes}

theorem KeyInv.start : KeyInv wire startRelay := by
  constructor
  · constructor <;> simp [startRelay]
  · simp [startRelay]
  · simp [startRelay]

theorem KeyInv.frame (h : KeyInv wire s) (hsessions : t.sessions = s.sessions) (hhub : t.hub = s.hub)
    (hpunches : t.punches = s.punches) (hcancelled : t.cancelled = s.cancelled)
    (hconnected : t.connected = s.connected) : KeyInv wire t where
  material := by rw [hsessions, hhub]; exact h.material
  paths := by rw [hhub, hpunches]; exact h.paths
  workers := by rw [hhub, hpunches, hcancelled]; exact h.workers
  registered := by rw [hsessions, hhub]; exact h.registered
  idle := by rw [hsessions, hconnected]; exact h.idle

theorem KeyInv.setStage (h : KeyInv wire s) (i : ℕ) (stage : WorkStage) : KeyInv wire (s.setStage i stage) :=
  h.frame rfl rfl rfl rfl rfl

/-- The session goes on under the same keys. -/
theorem KeyInv.advance (h : KeyInv wire s) {connId : ℕ} {active : ActiveSession}
    (hactive : s.sessions connId = some active) (crypto : CryptoSession) :
    KeyInv wire (s.setSession connId (some { active with crypto := crypto })) where
  material := by
    intro c entry hentry
    obtain ⟨a,ha,hmaterial⟩ := h.material c entry hentry
    rw [RelayLoop.setSession_sessions]
    by_cases hc : c = connId
    · subst hc
      cases hactive.symm.trans ha
      exact ⟨_,if_pos rfl,hmaterial⟩
    · rw [if_neg hc]
      exact ⟨a,ha,hmaterial⟩
  paths := h.paths
  workers := h.workers
  registered := by
    intro c a ha
    rw [RelayLoop.setSession_sessions] at ha
    split_ifs at ha with hc
    · cases ha
      exact hc ▸ h.registered connId active hactive
    · exact h.registered c a ha
  idle := by
    intro hconnected c
    rw [h.idle hconnected connId] at hactive
    cases hactive

theorem KeyInv.not_live (h : KeyInv wire s) {connId : ℕ} {active : ActiveSession}
    (hactive : s.sessions connId = some active) (hhub : t.hub = s.hub) (hgone : t.sessions connId = none) :
    ¬KeysLive wire t := by
  intro hlive
  obtain ⟨-,entry,hentry⟩ := h.registered connId active hactive
  obtain ⟨a,ha,-⟩ := hlive.material connId entry (hhub ▸ hentry)
  cases ha.symm.trans hgone

theorem KeyInv.respond (h : KeyInv wire s) {ticket : SessionTicket}
    (hok : ResponseKept wire s ticket requestId status body sent) (serial : ℕ) :
    KeyInv wire (s.sendTunnelResponse wire ticket serial requestId status body sent) := by
  rcases RelayLoop.sendTunnelResponse_cases wire s ticket serial requestId status body sent with
    ⟨-,ht⟩ | ⟨active,hactive,⟨hno,-⟩ | ⟨-,-,ht⟩ | ⟨-,hticket,hno,-⟩ | ⟨crypto,-,hticket,-,ht⟩⟩
  · rwa [ht]
  · exact absurd (hok active hactive).1 hno
  · rwa [ht]
  · exact absurd ((hok active hactive).2 hticket).1 hno
  · rw [ht, ((hok active hactive).2 hticket).2]
    exact (h.advance hactive crypto).frame rfl rfl rfl rfl rfl

theorem responseKept_of_live (h : KeyInv wire s) {ticket : SessionTicket} {serial : ℕ}
    (ht : KeysLive wire (s.sendTunnelResponse wire ticket serial requestId status body sent)) :
    ResponseKept wire s ticket requestId status body sent := by
  intro active hactive
  have hdropped : ¬KeysLive wire (s.setSession ticket.connId none) := h.not_live hactive rfl (by simp)
  rcases RelayLoop.sendTunnelResponse_cases wire s ticket serial requestId status body sent with
    ⟨hnone,-⟩ | ⟨a,ha,hcases⟩
  · cases hactive.symm.trans hnone
  cases hactive.symm.trans ha
  rcases hcases with ⟨-,hs⟩ | ⟨hauth,hne,-⟩ | ⟨-,-,-,hs⟩ | ⟨crypto,hauth,-,hseals,hs⟩
  · exact absurd (hs ▸ ht) hdropped
  · exact ⟨hauth,fun hticket => absurd hticket hne⟩
  · exact absurd (hs ▸ ht) hdropped
  · refine ⟨hauth,fun _ => ⟨hseals,?_⟩⟩
    cases sent with
    | true => rfl
    | false =>
      rw [hs] at ht
      exact absurd ht (h.not_live hactive rfl rfl)

theorem KeyInv.submit (h : KeyInv wire s) {connId : ℕ} {active : ActiveSession} {request : TunnelRequest} {sent : Bool}
    (hok : s.queue.length < dispatchQueueCapacity ∨
      ResponseKept wire s active.ticket request.id 503 hostBusy sent) :
    KeyInv wire (s.submit wire connId active request sent) := by
  have haccepted : KeyInv wire { s with requests := s.requests ++ [⟨connId,active.handshake⟩] } :=
    h.frame rfl rfl rfl rfl rfl
  unfold RelayLoop.submit
  by_cases hroom : s.queue.length < dispatchQueueCapacity
  · rw [if_pos hroom]
    exact haccepted.frame rfl rfl rfl rfl rfl
  · rw [if_neg hroom]
    exact haccepted.respond (hok.resolve_left hroom) _

theorem submitKept_of_live (h : KeyInv wire s) {active : ActiveSession} {request : TunnelRequest}
    (ht : KeysLive wire (s.submit wire connId active request sent)) :
    s.queue.length < dispatchQueueCapacity ∨ ResponseKept wire s active.ticket request.id 503 hostBusy sent := by
  have haccepted : KeyInv wire { s with requests := s.requests ++ [⟨connId,active.handshake⟩] } :=
    h.frame rfl rfl rfl rfl rfl
  by_cases hroom : s.queue.length < dispatchQueueCapacity
  · exact .inl hroom
  · unfold RelayLoop.submit at ht
    rw [if_neg hroom] at ht
    exact .inr (responseKept_of_live haccepted ht)

theorem responseKept_iff (h : KeyInv wire s) (connId : ℕ) (active : ActiveSession)
    (hactive : s.sessions connId = some active) (hauth : s.Authorized active)
    : ResponseKept wire s active.ticket requestId status body sent ↔
      RelayLoop.Seals wire active requestId status body ∧ sent = true := by
  have hconn := (h.registered connId active hactive).1
  constructor
  · intro hkept
    exact (hkept active (hconn ▸ hactive)).2 rfl
  · intro hok a ha
    rw [hconn, hactive] at ha
    cases ha
    exact ⟨hauth,fun _ => hok⟩

theorem mem_cancelPath {n : ℕ} : n ∈ s.cancelPath connId ↔
    n ∈ s.cancelled ∨ ∃ entry path, s.hub connId = some entry ∧ entry.active = some path ∧ path.worker = n := by
  simp only [RelayLoop.cancelPath, List.mem_append, Option.mem_toList, Option.map_eq_some_iff,
    Option.bind_eq_some_iff]
  constructor
  · rintro (⟨path,⟨entry,hentry,hpath⟩,rfl⟩ | hn)
    · exact .inr ⟨entry,path,hentry,hpath,rfl⟩
    · exact .inl hn
  · rintro (hn | ⟨entry,path,hentry,hpath,rfl⟩)
    · exact .inr hn
    · exact .inl ⟨path,⟨entry,hentry,hpath⟩,rfl⟩

/-- The workers that are left after the path of a connection was cancelled belong to the
other connections. -/
theorem KeyInv.workers_left (h : KeyInv wire s) {n : ℕ} {worker : PunchWorker}
    (hworker : s.punches[n]? = some worker) (hn : n ∉ s.cancelPath connId) : worker.connId ≠ connId ∧
      ∃ entry path, s.hub worker.connId = some entry ∧ entry.active = some path ∧ path.worker = n := by
  rw [mem_cancelPath, not_or] at hn
  obtain ⟨entry,path,hentry,hpath,hsame⟩ := h.workers n worker hworker hn.1
  refine ⟨fun hc => hn.2 ⟨entry,path,hc ▸ hentry,hpath,hsame⟩,entry,path,hentry,hpath,hsame⟩

/-- One connection gets another entry in the hub and another session: they have to fit
each other, and the old path is cancelled. -/
theorem KeyInv.replace (h : KeyInv wire s) (connId : ℕ) (entry' : Option ConnEntry) (session' : Option ActiveSession)
    (more : List PunchWorker) (hhub : t.hub = Function.update s.hub connId entry')
    (hsessions : t.sessions = Function.update s.sessions connId session')
    (hcancelled : t.cancelled = s.cancelPath connId) (hpunches : t.punches = s.punches ++ more)
    (hmaterial : ∀ entry, entry' = some entry → ∃ active, session' = some active ∧ active.material = entry.material)
    (hpaths : ∀ entry path, entry' = some entry → entry.active = some path →
      ∃ worker, t.punches[path.worker]? = some worker ∧ worker.pathSession = path.pathSession ∧
        worker.key = wire.probeKey entry.material path.pathSession)
    (hworkers : ∀ n worker, more[n]? = some worker → worker.connId = connId ∧
      ∃ entry path, entry' = some entry ∧ entry.active = some path ∧ path.worker = s.punches.length + n)
    (hregistered : ∀ active, session' = some active → active.ticket.connId = connId ∧ ∃ entry, entry' = some entry)
    (hidle : t.connected = false → s.connected = false ∧ session' = none) : KeyInv wire t where
  material := by
    intro c entry hentry
    rw [hhub, update_apply] at hentry
    rw [hsessions, update_apply]
    by_cases hc : c = connId
    · rw [if_pos hc] at hentry ⊢
      exact hmaterial entry hentry
    · rw [if_neg hc] at hentry ⊢
      exact h.material c entry hentry
  paths := by
    intro c entry path hentry hpath
    rw [hhub, update_apply] at hentry
    by_cases hc : c = connId
    · rw [if_pos hc] at hentry
      exact hpaths entry path hentry hpath
    · rw [if_neg hc] at hentry
      obtain ⟨worker,hworker,hkey⟩ := h.paths c entry path hentry hpath
      obtain ⟨hlt,-⟩ := List.getElem?_eq_some_iff.mp hworker
      exact ⟨worker,by rw [hpunches, List.getElem?_append_left hlt, hworker],hkey⟩
  workers := by
    intro n worker hworker hn
    rw [hhub]
    rw [hcancelled] at hn
    rw [hpunches] at hworker
    by_cases hold : n < s.punches.length
    · rw [List.getElem?_append_left hold] at hworker
      obtain ⟨hne,hleft⟩ := h.workers_left hworker hn
      rwa [update_of_ne hne]
    · have hle := Nat.le_of_not_lt hold
      rw [List.getElem?_append_right hle] at hworker
      obtain ⟨hconn,entry,path,hentry,hpath,hsame⟩ := hworkers _ worker hworker
      rw [hconn, update_self]
      exact ⟨entry,path,hentry,hpath,by omega⟩
  registered := by
    intro c active hactive
    rw [hsessions, update_apply] at hactive
    rw [hhub, update_apply]
    by_cases hc : c = connId
    · rw [if_pos hc] at hactive ⊢
      exact hc ▸ hregistered active hactive
    · rw [if_neg hc] at hactive ⊢
      exact h.registered c active hactive
  idle := by
    intro hconnected c
    obtain ⟨hbefore,hnone⟩ := hidle hconnected
    rw [hsessions, update_apply, hnone, h.idle hbefore c, ite_self]

theorem KeyInv.close (h : KeyInv wire s) (connId : ℕ) : KeyInv wire ((s.setSession connId none).remove connId) :=
  h.replace connId none none [] rfl rfl rfl (List.append_nil _).symm (by simp) (by simp) (by simp) (by simp)
    fun hconnected => ⟨hconnected,rfl⟩

theorem KeyInv.openSession (h : KeyInv wire s) (hconnected : s.connected = true) {active : ActiveSession}
    (hticket : active.ticket.connId = connId) : KeyInv wire (s.openSession connId active true) := by
  refine h.replace connId (some ⟨active.material,none⟩) (some active) [] rfl rfl rfl (List.append_nil _).symm ?_ ?_
    (by simp) ?_ ?_
  · rintro entry ⟨⟩
    exact ⟨active,rfl,rfl⟩
  · rintro entry path ⟨⟩ hpath
    cases hpath
  · rintro a ⟨⟩
    exact ⟨hticket,_,rfl⟩
  · intro hno
    exact absurd (hconnected.symm.trans hno) (by decide)

theorem KeyInv.recordPath (h : KeyInv wire s) {connId : ℕ} {negotiation : Negotiation}
    (hok : ∀ entry, s.hub connId = some entry →
      negotiation.key = wire.probeKey entry.material negotiation.pathSession) :
    KeyInv wire (s.recordPath connId negotiation) := by
  unfold RelayLoop.recordPath
  split
  · exact h
  next entry hentry =>
  obtain ⟨active,hactive,hmaterial⟩ := h.material connId entry hentry
  refine h.replace connId (some ⟨entry.material,some ⟨negotiation.pathSession,s.punches.length⟩⟩) (some active)
    [⟨connId,negotiation.pathSession,negotiation.key⟩] rfl ?_ rfl rfl ?_ ?_ ?_ ?_ ?_
  · rw [← hactive, update_eq_self]
  · rintro e ⟨⟩
    exact ⟨active,rfl,hmaterial⟩
  · rintro e path ⟨⟩ ⟨⟩
    exact ⟨_,List.getElem?_concat_length,rfl,hok entry hentry⟩
  · intro n worker hworker
    rw [List.getElem?_singleton] at hworker
    split_ifs at hworker with hn
    cases hworker
    exact ⟨rfl,_,_,rfl,rfl,by simp [hn]⟩
  · rintro a ⟨⟩
    exact ⟨(h.registered connId active hactive).1,_,rfl⟩
  · intro hno
    rw [h.idle hno connId] at hactive
    cases hactive

theorem KeyInv.clientData (h : KeyInv wire s) (hconnected : s.connected = true) {deviceId : Text}
    {payload : Bytes} {draw : HandshakeDraw}
    (hok : SessionsClose wire s (.clientData connId deviceId payload draw sent)) :
    KeyInv wire (s.clientData wire connId deviceId payload draw sent) := by
  simp only [SessionsClose] at hok
  rcases RelayLoop.clientData_cases wire s connId deviceId payload draw sent with
    ⟨active,hactive,hcases⟩ | ⟨hnone,ht⟩
  · simp only [hactive] at hok
    obtain ⟨hdevice,hauth,crypto,plaintext,hopens,hrequest⟩ := hok
    rcases hcases with ⟨-,hno⟩ | ⟨crypto',plaintext',-,-,hopens',ht⟩
    · exact absurd ⟨hdevice,hauth,crypto,plaintext,hopens⟩ hno
    obtain ⟨rfl,hplaintext⟩ := Prod.mk.inj (hopens.symm.trans hopens')
    cases hplaintext
    have hopened := h.advance hactive crypto
    rw [ht]
    split
    · exact hopened
    · next request hparse =>
      refine hopened.submit ((hrequest request hparse).imp id fun hseals => ?_)
      exact (responseKept_iff hopened connId { active with crypto := crypto } (by simp) hauth).mpr hseals
  · simp only [hnone] at hok
    rw [ht]
    split
    · exact h
    · next active hnew =>
      rw [hok (by simp [hnew])]
      exact h.openSession hconnected (by rw [(RelayLoop.acceptHello_some hnew).1])

theorem clientDataKept_of_live (h : KeyInv wire s) {deviceId : Text} {payload : Bytes}
    {draw : HandshakeDraw} (ht : KeysLive wire (s.clientData wire connId deviceId payload draw sent)) :
    SessionsClose wire s (.clientData connId deviceId payload draw sent) := by
  simp only [SessionsClose]
  rcases RelayLoop.clientData_cases wire s connId deviceId payload draw sent with
    ⟨active,hactive,⟨hs,-⟩ | ⟨crypto,plaintext,hdevice,hauth,hopens,hs⟩⟩ | ⟨hnone,hs⟩
  · rw [hs] at ht
    exact absurd ht (h.not_live hactive rfl (by simp))
  · simp only [hactive]
    refine ⟨hdevice,hauth,crypto,plaintext,hopens,fun request hparse => ?_⟩
    have hopened := h.advance hactive crypto
    simp only [hs, hparse] at ht
    refine (submitKept_of_live hopened ht).imp id fun hkept => ?_
    exact (responseKept_iff hopened connId { active with crypto := crypto } (by simp) hauth).mp hkept
  · simp only [hnone]
    intro hsome
    obtain ⟨active,hnew⟩ := Option.isSome_iff_exists.mp hsome
    simp only [hs, hnew] at ht
    cases sent with
    | true => rfl
    | false =>
      -- The reply was not sent: the uplink is gone, the material is not.
      obtain ⟨a,ha,-⟩ := ht.material connId ⟨active.material,none⟩ (update_self _ _ _)
      cases ha

theorem KeyInv.connect (h : KeyInv wire s) (hconnected : s.connected = false) (macId : Text) :
    KeyInv wire (s.connect macId) where
  material := by
    intro c entry hentry
    obtain ⟨active,hactive,-⟩ := h.material c entry hentry
    cases hactive.symm.trans (h.idle hconnected c)
  paths := h.paths
  workers := h.workers
  registered := fun _ _ ha => nomatch ha
  idle := fun hno => nomatch hno

theorem KeyInv.disconnect (h : KeyInv wire s) (hnone : ∀ c, s.sessions c = none) : KeyInv wire s.disconnect where
  material := by
    intro c entry hentry
    obtain ⟨active,hactive,-⟩ := h.material c entry hentry
    cases hactive.symm.trans (hnone c)
  paths := h.paths
  workers := h.workers
  registered := fun _ _ ha => nomatch ha
  idle := fun _ _ => rfl

theorem KeyInv.step (h : KeyInv wire s) {e : RelayEvent} (hok : SessionsClose wire s e)
    (hs : relayStep wire s e = some t) : KeyInv wire t := by
  cases e with
  | storeChanged devices keys =>
    cases hs
    exact h.frame rfl rfl rfl rfl rfl
  | connect macId =>
    simp only [relayStep] at hs
    split_ifs at hs with hconnected
    exact Option.some.inj hs ▸ h.connect (by simpa using hconnected) macId
  | disconnect =>
    simp only [relayStep] at hs
    split_ifs at hs
    exact Option.some.inj hs ▸ h.disconnect hok
  | clientClosed connId =>
    simp only [relayStep] at hs
    split_ifs at hs
    exact Option.some.inj hs ▸ h.close connId
  | clientData connId deviceId payload draw sent =>
    simp only [relayStep] at hs
    split_ifs at hs with hconnected
    exact Option.some.inj hs ▸ h.clientData hconnected hok
  | drain sent =>
    simp only [relayStep] at hs
    split at hs
    · next completion rest hconnected hcompletions =>
      have hrest : KeyInv wire { s with completions := rest } := h.frame rfl rfl rfl rfl rfl
      exact Option.some.inj hs ▸ hrest.respond (hok completion rest hcompletions) _
    · cases hs
  | take | complete i =>
    simp only [relayStep] at hs
    split at hs
    · split_ifs at hs
      cases hs
      exact h.frame rfl rfl rfl rfl rfl
    · cases hs
  | check i owns | finish i status body =>
    simp only [relayStep] at hs
    split at hs
    · split_ifs at hs <;> exact Option.some.inj hs ▸ h.frame rfl rfl rfl rfl rfl
    · cases hs
  | negotiateStart i pathSession =>
    simp only [relayStep] at hs
    split at hs
    · split at hs <;> exact Option.some.inj hs ▸ h.frame rfl rfl rfl rfl rfl
    · cases hs
  | negotiateRecord i =>
    simp only [relayStep] at hs
    split at hs
    · next job negotiation hwork =>
      exact Option.some.inj hs ▸ (h.setStage i (.dispatching none)).recordPath (hok job negotiation hwork)
    · cases hs

theorem sessionsClose_of_live (h : KeyInv wire s) {e : RelayEvent} (hs : relayStep wire s e = some t)
    (ht : KeysLive wire t) : SessionsClose wire s e := by
  cases e with
  | disconnect =>
    simp only [relayStep] at hs
    split_ifs at hs
    cases hs
    intro c
    by_contra hsome
    obtain ⟨active,hactive⟩ := Option.ne_none_iff_exists'.mp hsome
    exact h.not_live (t := s.disconnect) hactive rfl rfl ht
  | clientData connId deviceId payload draw sent =>
    simp only [relayStep] at hs
    split_ifs at hs
    exact clientDataKept_of_live h (Option.some.inj hs ▸ ht)
  | drain sent =>
    intro completion rest hcompletions
    simp only [relayStep, hcompletions] at hs
    split at hs
    · next c r _ hcons =>
      obtain ⟨rfl,rfl⟩ := List.cons.inj hcons
      have hrest : KeyInv wire { s with completions := rest } := h.frame rfl rfl rfl rfl rfl
      exact responseKept_of_live hrest (Option.some.inj hs ▸ ht)
    · cases hs
  | negotiateRecord i =>
    intro job negotiation hwork entry hentry
    simp only [relayStep, hwork, Option.some.injEq] at hs
    subst hs
    obtain ⟨worker,hworker,-,hkey⟩ := ht.paths job.ticket.connId
      ⟨entry.material,some ⟨negotiation.pathSession,s.punches.length⟩⟩ ⟨negotiation.pathSession,s.punches.length⟩
      (by simp [RelayLoop.recordPath, RelayLoop.setStage, hentry]) rfl
    simp only [RelayLoop.recordPath, RelayLoop.setStage, hentry, List.getElem?_concat_length, Option.some.injEq]
      at hworker
    rw [← hkey, ← hworker]
  | _ => trivial

end Invariant

/-- In every interleaving of the relay loop with path negotiations the material and the
keys are those of live sessions throughout exactly if every session ends with its
connection and every path is recorded under the material its key came from. -/
theorem keys_live_iff (wire : RelayWire) (events : List RelayEvent) :
    Always (relayStep wire) (KeysLive wire) startRelay events ↔
      Guarded (relayStep wire) (SessionsClose wire) startRelay events :=
  always_iff_guarded (J := KeyInv wire) (fun _ _ _ h hok hs => h.step hok hs) (fun _ h => h.toKeysLive)
    (fun _ _ _ h hs ht => sessionsClose_of_live h hs ht) KeyInv.start events

def lostUplink : List RelayEvent :=
  [.storeChanged (some pairedFiles.devices) (some pairedFiles.keys),.connect "MAC".toList,phoneHello,.disconnect]

def reusedConnection : List RelayEvent :=
  [.storeChanged (some pairedFiles.devices) (some pairedFiles.keys),.connect "MAC".toList,phoneHello,phoneRequest,
    .take,.check 0 true,.negotiateStart 0 "session".toList,.clientClosed 1,phoneFrame [] 1,.negotiateRecord 0]

/-- The hub keeps the material of the lost phone, and the path of the new connection
probes with the key of the old one. -/
theorem material_outlives_session :
    ¬Always (relayStep plainWire) (KeysLive plainWire) startRelay lostUplink ∧
      ¬Always (relayStep plainWire) (KeysLive plainWire) startRelay reusedConnection := by
  constructor
  · intro h
    have hend := h.last rfl
    obtain ⟨active,hactive,-⟩ := hend.material 1 _ rfl
    cases hactive
  · intro h
    have hend := h.last rfl
    obtain ⟨worker,hworker,-,hkey⟩ := hend.paths 1 _ _ rfl rfl
    cases hworker
    exact absurd hkey (by decide)

end Unpeel.Remote
