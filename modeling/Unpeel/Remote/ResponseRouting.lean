import Unpeel.Remote.RelayLoop

/-! # Responses of the relay go to the session that asked

A request carries the ticket of the session that opened it, and its response is sealed
only while that very session is there and its device still has its token.
-/
namespace Unpeel.Remote
open Runs Manifest Pairing List
variable {s : RelayLoop}

/-- Each accepted request has at most one sealed response, sealed by the session of the
handshake that opened the request, for its connection, with the device's token in force. -/
structure Routed (s : RelayLoop) : Prop where
  once : ∀ serial, s.responses.countP (·.serial = serial) ≤ 1
  own : ∀ r ∈ s.responses, ∃ q, s.requests[r.serial]? = some q ∧ r.connId = q.connId ∧ r.handshake = q.handshake
  inForce : ∀ r ∈ s.responses, r.currentHash = some r.relayTokenHash

def CountersRun (wire : RelayWire) (s : RelayLoop) : RelayEvent → Prop
  | .connect _ => s.generation + 1 < 2 ^ 64
  | .clientData connId deviceId payload draw _ => s.sessions connId = none →
      (s.acceptHello wire connId deviceId payload draw).isSome → s.nextIncarnation + 1 < 2 ^ 64
  | _ => True

instance decidableCountersRun (wire : RelayWire) (s : RelayLoop) : ∀ e, Decidable (CountersRun wire s e)
  | .connect _ => inferInstanceAs (Decidable (s.generation + 1 < 2 ^ 64))
  | .clientData connId deviceId payload draw _ => inferInstanceAs (Decidable (s.sessions connId = none →
      (s.acceptHello wire connId deviceId payload draw).isSome → s.nextIncarnation + 1 < 2 ^ 64))
  | .storeChanged _ _ | .disconnect | .clientClosed _ | .drain _ | .take | .check _ _ | .negotiateStart _ _
  | .negotiateRecord _ | .finish _ _ _ | .complete _ => isTrue trivial

def RelayLoop.pending (s : RelayLoop) : List (SessionTicket × ℕ) :=
  s.queue.map (fun job => (job.ticket,job.serial)) ++ s.working.map (fun w => (w.job.ticket,w.job.serial)) ++
    s.completions.map (fun c => (c.ticket,c.serial))

structure RoutingInv (s : RelayLoop) : Prop where
  once : ∀ n, s.pending.countP (·.2 = n) + s.responses.countP (·.serial = n) ≤ 1
  owned : ∀ p ∈ s.pending, ∃ q, s.requests[p.2]? = some q ∧ q.connId = p.1.connId ∧ s.tickets[q.handshake]? = some p.1
  sessions : ∀ c a, s.sessions c = some a → a.ticket.connId = c ∧ s.tickets[a.handshake]? = some a.ticket
  distinct : s.tickets.Nodup
  issued : ∀ ticket ∈ s.tickets, ticket.generation < s.generation ∨
    (ticket.generation = s.generation ∧ ticket.incarnation ≤ s.nextIncarnation)
  routed : ∀ r ∈ s.responses, r.currentHash = some r.relayTokenHash ∧
    ∃ q, s.requests[r.serial]? = some q ∧ r.connId = q.connId ∧ r.handshake = q.handshake

theorem nextCounter_of_lt {n : ℕ} (h : n + 1 < 2 ^ 64) : nextCounter n = n + 1 := by
  rw [nextCounter, Nat.mod_eq_of_lt h, if_neg (Nat.succ_ne_zero n)]

section Invariant
variable {wire : RelayWire} {s t : RelayLoop}

theorem RoutingInv.start : RoutingInv startRelay := by
  constructor <;> simp [startRelay, RelayLoop.pending]

theorem RoutingInv.routes (h : RoutingInv s) : Routed s where
  once := fun n => Nat.le_of_add_left_le (h.once n)
  own := fun r hr => (h.routed r hr).2
  inForce := fun r hr => (h.routed r hr).1

/-- A step that loses requests or sessions at most. -/
theorem RoutingInv.mono (h : RoutingInv s) (hpending : t.pending.Subperm s.pending)
    (hsessions : ∀ c a, t.sessions c = some a →
      ∃ b, s.sessions c = some b ∧ a.ticket = b.ticket ∧ a.handshake = b.handshake) (htickets : t.tickets = s.tickets)
    (hgeneration : t.generation = s.generation) (hnext : t.nextIncarnation = s.nextIncarnation)
    (hrequests : t.requests = s.requests) (hresponses : t.responses = s.responses) : RoutingInv t where
  once := by
    intro n
    have hcount := hpending.countP_le (·.2 = n)
    have := h.once n
    rw [hresponses]
    omega
  owned := by
    intro p hp
    rw [hrequests, htickets]
    exact h.owned p (hpending.subset hp)
  sessions := by
    intro c a ha
    obtain ⟨b,hb,hticket,hhandshake⟩ := hsessions c a ha
    rw [htickets, hticket, hhandshake]
    exact h.sessions c b hb
  distinct := htickets ▸ h.distinct
  issued := by
    rw [htickets, hgeneration, hnext]
    exact h.issued
  routed := by
    rw [hresponses, hrequests]
    exact h.routed

def RelayLoop.ledger (s : RelayLoop) :=
  (s.sessions,s.tickets,s.generation,s.nextIncarnation,s.requests,s.responses)

theorem RoutingInv.keep (h : RoutingInv s) (hpending : t.pending.Subperm s.pending) (hledger : t.ledger = s.ledger) :
    RoutingInv t := by
  simp only [RelayLoop.ledger, Prod.mk.injEq] at hledger
  obtain ⟨hsessions,htickets,hgeneration,hnext,hrequests,hresponses⟩ := hledger
  refine h.mono hpending (fun c a ha => ?_) htickets hgeneration hnext hrequests hresponses
  rw [hsessions] at ha
  exact ⟨a,ha,rfl,rfl⟩

theorem RoutingInv.setSession (h : RoutingInv s) (connId : ℕ) {session : Option ActiveSession}
    (hsession : ∀ a, session = some a →
      ∃ b, s.sessions connId = some b ∧ a.ticket = b.ticket ∧ a.handshake = b.handshake) :
    RoutingInv (s.setSession connId session) := by
  refine h.mono (List.Subperm.refl _) (fun c a ha => ?_) rfl rfl rfl rfl rfl
  rw [RelayLoop.setSession_sessions] at ha
  split_ifs at ha with hc
  · exact hc ▸ hsession a ha
  · exact ⟨a,ha,rfl,rfl⟩

theorem RoutingInv.dropSession (h : RoutingInv s) (connId : ℕ) : RoutingInv (s.setSession connId none) :=
  h.setSession connId fun _ ha => nomatch ha

theorem RoutingInv.disconnect (h : RoutingInv s) : RoutingInv s.disconnect :=
  h.mono (List.Subperm.refl _) (fun _ _ ha => nomatch ha) rfl rfl rfl rfl rfl

theorem RoutingInv.afterSend (h : RoutingInv s) (sent : Bool) : RoutingInv (s.afterSend sent) := by
  cases sent with
  | true => exact h
  | false => exact h.disconnect

/-- The response to a request that is no longer on its way. -/
theorem RoutingInv.respond (h : RoutingInv s) {ticket : SessionTicket} {serial : ℕ} {q : AcceptedRequest}
    (hpending : s.pending.countP (·.2 = serial) = 0) (hresponses : s.responses.countP (·.serial = serial) = 0)
    (hq : s.requests[serial]? = some q) (hconn : q.connId = ticket.connId)
    (hticket : s.tickets[q.handshake]? = some ticket) (requestId status : ℕ) (body : Bytes) (sent : Bool) :
    RoutingInv (s.sendTunnelResponse wire ticket serial requestId status body sent) := by
  rcases RelayLoop.sendTunnelResponse_cases wire s ticket serial requestId status body sent with
    ⟨-,ht⟩ | ⟨active,hactive,⟨-,ht⟩ | ⟨-,-,ht⟩ | ⟨-,-,-,ht⟩ | ⟨crypto,hauth,hsame,-,ht⟩⟩
  · rwa [ht]
  · rw [ht]
    exact h.dropSession _
  · rwa [ht]
  · rw [ht]
    exact h.dropSession _
  rw [ht]
  apply RoutingInv.afterSend
  have hupdated : RoutingInv (s.setSession ticket.connId (some { active with crypto := crypto })) := by
    refine h.setSession ticket.connId fun a ha => ⟨active,hactive,?_⟩
    cases ha
    exact ⟨rfl,rfl⟩
  -- The ticket tells the handshakes apart.
  have hhandshake : active.handshake = q.handshake := by
    have hactiveTicket := (h.sessions _ _ hactive).2
    rw [hsame, ← hticket] at hactiveTicket
    obtain ⟨hlt,-⟩ := List.getElem?_eq_some_iff.mp (hactiveTicket.trans hticket)
    exact (getElem?_inj hlt h.distinct).mp hactiveTicket
  constructor
  case once =>
    intro n
    have hn := h.once n
    simp only [RelayLoop.responded, countP_append, countP_singleton]
    change s.pending.countP (·.2 = n) + (s.responses.countP (·.serial = n) + _) ≤ 1
    by_cases hserial : serial = n
    · subst hserial
      split <;> omega
    · rw [if_neg (by simpa using hserial)]
      exact hn
  case owned => exact h.owned
  case sessions => exact hupdated.sessions
  case distinct => exact h.distinct
  case issued => exact h.issued
  case routed =>
    intro r hr
    rcases mem_append.mp hr with hr | hr
    · exact h.routed r hr
    · rw [mem_singleton.mp hr]
      exact ⟨hauth,q,hq,hconn.symm,hhandshake⟩

theorem RoutingInv.fresh (h : RoutingInv s) : s.pending.countP (·.2 = s.requests.length) = 0 ∧
    s.responses.countP (·.serial = s.requests.length) = 0 := by
  constructor
  · rw [countP_eq_zero]
    intro p hp hserial
    obtain ⟨q,hq,-⟩ := h.owned p hp
    obtain ⟨hlt,-⟩ := List.getElem?_eq_some_iff.mp hq
    exact Nat.ne_of_lt hlt (by simpa using hserial)
  · rw [countP_eq_zero]
    intro r hr hserial
    obtain ⟨-,q,hq,-⟩ := h.routed r hr
    obtain ⟨hlt,-⟩ := List.getElem?_eq_some_iff.mp hq
    exact Nat.ne_of_lt hlt (by simpa using hserial)

theorem getElem?_snoc {α : Type*} {l : List α} {i : ℕ} {a : α} (h : l[i]? = some a) (b : α) :
    (l ++ [b])[i]? = some a := by
  obtain ⟨hlt,-⟩ := List.getElem?_eq_some_iff.mp h
  rw [getElem?_append_left hlt, h]

theorem RoutingInv.request (h : RoutingInv s) (q : AcceptedRequest) :
    RoutingInv { s with requests := s.requests ++ [q] } where
  once := h.once
  owned := fun p hp => (h.owned p hp).imp fun _ hr => ⟨getElem?_snoc hr.1 q,hr.2⟩
  sessions := h.sessions
  distinct := h.distinct
  issued := h.issued
  routed := fun r hr => ⟨(h.routed r hr).1,(h.routed r hr).2.imp fun _ hq => ⟨getElem?_snoc hq.1 q,hq.2⟩⟩

theorem RoutingInv.submit (h : RoutingInv s) {connId : ℕ} {active : ActiveSession}
    (hactive : s.sessions connId = some active) (request : TunnelRequest) (sent : Bool) :
    RoutingInv (s.submit wire connId active request sent) := by
  obtain ⟨hconn,hticket⟩ := h.sessions connId active hactive
  have haccepted := h.request ⟨connId,active.handshake⟩
  have hq : (s.requests ++ [⟨connId,active.handshake⟩])[s.requests.length]? =
      some (⟨connId,active.handshake⟩ : AcceptedRequest) := by simp
  obtain ⟨hpending,hresponses⟩ := h.fresh
  unfold RelayLoop.submit
  by_cases hroom : s.queue.length < dispatchQueueCapacity
  · rw [if_pos hroom]
    -- The new request is one more on its way.
    have hperm : (RelayLoop.pending { s with queue := s.queue ++ [⟨active.ticket,request,s.requests.length⟩] }).Perm
        ((active.ticket,s.requests.length) :: s.pending) := by
      simp only [RelayLoop.pending, map_append, map_cons, map_nil, append_assoc]
      exact perm_middle
    constructor
    case once =>
      intro n
      have hcount := hperm.countP_eq (·.2 = n)
      have hn := h.once n
      change List.countP _ (RelayLoop.pending { s with queue := _ }) + _ ≤ 1
      rw [hcount, countP_cons]
      by_cases hserial : s.requests.length = n
      · subst hserial
        rw [hpending, hresponses]
        split <;> omega
      · rw [if_neg (by simpa using hserial)]
        exact hn
    case owned =>
      intro p hp
      rcases mem_cons.mp (hperm.mem_iff.mp hp) with rfl | hp
      · exact ⟨_,hq,hconn.symm,hticket⟩
      · exact haccepted.owned p hp
    case sessions => exact h.sessions
    case distinct => exact h.distinct
    case issued => exact h.issued
    case routed => exact haccepted.routed
  · rw [if_neg hroom]
    exact haccepted.respond hpending hresponses hq hconn.symm hticket _ _ _ sent

theorem RoutingInv.openSession (h : RoutingInv s) {connId : ℕ} {deviceId : Text} {payload : Bytes}
    {draw : HandshakeDraw} {active : ActiveSession} (hnew : s.acceptHello wire connId deviceId payload draw = some active)
    (hwrap : s.nextIncarnation + 1 < 2 ^ 64) (sent : Bool) : RoutingInv (s.openSession connId active sent) := by
  obtain ⟨hticket,hhandshake⟩ := RelayLoop.acceptHello_some hnew
  rw [nextCounter_of_lt hwrap] at hticket
  apply RoutingInv.afterSend
  have hfresh : active.ticket ∉ s.tickets := by
    intro hmem
    rw [hticket] at hmem
    rcases h.issued _ hmem with hlt | ⟨-,hle⟩
    · exact Nat.lt_irrefl _ hlt
    · exact Nat.not_succ_le_self _ hle
  constructor
  case once => exact h.once
  case owned =>
    intro p hp
    obtain ⟨q,hq,hconn,ht⟩ := h.owned p hp
    exact ⟨q,hq,hconn,getElem?_snoc ht _⟩
  case sessions =>
    intro c a ha
    rw [RelayLoop.setSession_sessions] at ha
    split_ifs at ha with hc
    · cases ha
      refine ⟨by rw [hticket, hc],?_⟩
      rw [hhandshake]
      simp
    · exact ⟨(h.sessions c a ha).1,getElem?_snoc (h.sessions c a ha).2 _⟩
  case distinct =>
    refine nodup_append.mpr ⟨h.distinct,nodup_singleton _,?_⟩
    rintro ticket hold other hother rfl
    exact hfresh (mem_singleton.mp hother ▸ hold)
  case issued =>
    intro ticket hmem
    rw [nextCounter_of_lt hwrap]
    rcases mem_append.mp hmem with hmem | hmem
    · exact (h.issued ticket hmem).imp id fun hle => ⟨hle.1,Nat.le_succ_of_le hle.2⟩
    · rw [mem_singleton.mp hmem, hticket]
      exact .inr ⟨rfl,Nat.le_refl _⟩
  case routed => exact h.routed

theorem RoutingInv.clientData (h : RoutingInv s) {connId : ℕ} {deviceId : Text} {payload : Bytes}
    {draw : HandshakeDraw} {sent : Bool} (hok : CountersRun wire s (.clientData connId deviceId payload draw sent)) :
    RoutingInv (s.clientData wire connId deviceId payload draw sent) := by
  rcases RelayLoop.clientData_cases wire s connId deviceId payload draw sent with
    ⟨active,hactive,⟨ht,-⟩ | ⟨crypto,plaintext,-,-,-,ht⟩⟩ | ⟨hnone,ht⟩
  · rw [ht]
    exact h.dropSession connId
  · have hopened : RoutingInv (s.setSession connId (some { active with crypto := crypto })) := by
      refine h.setSession connId fun a ha => ⟨active,hactive,?_⟩
      cases ha
      exact ⟨rfl,rfl⟩
    rw [ht]
    split
    · exact hopened
    · exact hopened.submit (by simp) _ sent
  · rw [ht]
    split
    · exact h
    · next active hnew => exact h.openSession hnew (hok hnone (by simp [hnew])) sent

theorem RoutingInv.connect (h : RoutingInv s) (macId : Text) (hwrap : s.generation + 1 < 2 ^ 64) :
    RoutingInv (s.connect macId) where
  once := h.once
  owned := h.owned
  sessions := fun _ _ ha => nomatch ha
  distinct := h.distinct
  issued := by
    intro ticket hmem
    left
    change ticket.generation < nextCounter s.generation
    rw [nextCounter_of_lt hwrap]
    rcases h.issued ticket hmem with hlt | ⟨heq,-⟩ <;> omega
  routed := h.routed

theorem pending_setStage (s : RelayLoop) (i : ℕ) (stage : WorkStage) : (s.setStage i stage).pending = s.pending := by
  have hworking : (s.working.modify i ({ · with stage := stage })).map (fun w => (w.job.ticket,w.job.serial)) =
      s.working.map fun w => (w.job.ticket,w.job.serial) := by
    apply ext_getElem?
    intro j
    rw [getElem?_map, getElem?_modify, getElem?_map]
    cases s.working[j]? <;> split <;> rfl
  rw [RelayLoop.pending, RelayLoop.setStage, hworking]
  rfl

theorem RoutingInv.setStage (h : RoutingInv s) (i : ℕ) (stage : WorkStage) : RoutingInv (s.setStage i stage) :=
  h.keep (pending_setStage s i stage ▸ List.Subperm.refl _) rfl

theorem RoutingInv.discard (h : RoutingInv s) (i : ℕ) : RoutingInv (s.discard i) := by
  refine h.keep (List.Sublist.subperm ?_) rfl
  have hworking := (eraseIdx_sublist s.working i).map fun w => (w.job.ticket,w.job.serial)
  exact ((List.Sublist.refl _).append hworking).append (List.Sublist.refl _)

theorem RoutingInv.drain (h : RoutingInv s) {completion : DispatchCompletion} {rest : List DispatchCompletion}
    (hcompletions : s.completions = completion :: rest) (sent : Bool) :
    RoutingInv (({ s with completions := rest } : RelayLoop).sendTunnelResponse wire completion.ticket
      completion.serial completion.requestId completion.status completion.body sent) := by
  have hperm : s.pending.Perm ((completion.ticket,completion.serial) ::
      RelayLoop.pending { s with completions := rest }) := by
    rw [RelayLoop.pending, hcompletions, map_cons]
    exact perm_middle
  have hrest : RoutingInv { s with completions := rest } :=
    h.keep ((sublist_cons_self _ _).subperm.trans hperm.symm.subperm) rfl
  obtain ⟨q,hq,hconn,hticket⟩ := h.owned _ (hperm.mem_iff.mpr mem_cons_self)
  have hcount := hperm.countP_eq (·.2 = completion.serial)
  have honce := h.once completion.serial
  rw [countP_cons_of_pos (by simp)] at hcount
  have hzero : (RelayLoop.pending { s with completions := rest }).countP (·.2 = completion.serial) = 0 ∧
      s.responses.countP (·.serial = completion.serial) = 0 := by omega
  exact hrest.respond hzero.1 hzero.2 hq hconn hticket _ _ _ sent

theorem pending_take {job : DispatchJob} {rest : List DispatchJob} (hqueue : s.queue = job :: rest) :
    (RelayLoop.pending { s with queue := rest, working := s.working ++ [⟨job,.taken⟩] }).Perm s.pending := by
  simp only [RelayLoop.pending, hqueue, map_append, map_cons, map_nil, append_assoc,
    cons_append, nil_append]
  rw [← append_assoc, ← append_assoc]
  exact perm_middle

theorem pending_complete {i : ℕ} {job : DispatchJob} {stage : WorkStage} (hwork : s.working[i]? = some ⟨job,stage⟩)
    (requestId status : ℕ) (body : Bytes) :
    (RelayLoop.pending { s.discard i with
      completions := s.completions ++ [⟨job.ticket,requestId,status,body,job.serial⟩] }).Perm s.pending := by
  obtain ⟨hlt,hget⟩ := List.getElem?_eq_some_iff.mp hwork
  have hworking := (getElem_cons_eraseIdx_perm hlt).map fun w : Work => (w.job.ticket,w.job.serial)
  rw [hget, map_cons] at hworking
  simp only [RelayLoop.pending, RelayLoop.discard, map_append, map_cons, map_nil, append_assoc]
  refine List.Perm.append_left _ (List.Perm.trans ?_ (hworking.append_right _))
  rw [← append_assoc]
  exact perm_append_singleton _ _

theorem RoutingInv.step (h : RoutingInv s) {e : RelayEvent} (hok : CountersRun wire s e)
    (hs : relayStep wire s e = some t) : RoutingInv t := by
  cases e with
  | storeChanged devices keys =>
    cases hs
    exact h.keep (List.Subperm.refl _) rfl
  | connect macId =>
    simp only [relayStep] at hs
    split_ifs at hs
    exact Option.some.inj hs ▸ h.connect macId hok
  | disconnect =>
    simp only [relayStep] at hs
    split_ifs at hs
    exact Option.some.inj hs ▸ h.disconnect
  | clientClosed connId =>
    simp only [relayStep] at hs
    split_ifs at hs
    cases hs
    exact (h.dropSession connId).keep (List.Subperm.refl _) rfl
  | clientData connId deviceId payload draw sent =>
    simp only [relayStep] at hs
    split_ifs at hs
    exact Option.some.inj hs ▸ h.clientData hok
  | drain sent =>
    simp only [relayStep] at hs
    split at hs
    · next completion rest hconnected hcompletions =>
      exact Option.some.inj hs ▸ h.drain hcompletions sent
    · cases hs
  | take =>
    simp only [relayStep] at hs
    split at hs
    · next job rest hqueue =>
      split_ifs at hs
      cases hs
      exact h.keep (pending_take hqueue).subperm rfl
    · cases hs
  | check i owns | finish i status body =>
    simp only [relayStep] at hs
    split at hs
    · split_ifs at hs
      · exact Option.some.inj hs ▸ h.discard i
      · exact Option.some.inj hs ▸ h.setStage i _
    · cases hs
  | negotiateStart i pathSession =>
    simp only [relayStep] at hs
    split at hs
    · split at hs
      · exact Option.some.inj hs ▸ h
      · exact Option.some.inj hs ▸ h.setStage i _
    · cases hs
  | negotiateRecord i =>
    simp only [relayStep] at hs
    split at hs
    · cases hs
      have hstage := h.setStage i (.dispatching none)
      unfold RelayLoop.recordPath
      split
      · exact hstage
      · exact hstage.keep (List.Subperm.refl _) rfl
    · cases hs
  | complete i =>
    simp only [relayStep] at hs
    split at hs
    · next job status body hwork =>
      split_ifs at hs
      cases hs
      exact h.keep (pending_complete hwork _ _ _).subperm rfl
    · cases hs

end Invariant

/-- In every interleaving of the uplink with its workers in which neither counter of a
ticket starts over, every response is sealed once, by the session that opened its
request and with the token of its device in force. -/
theorem responses_are_routed (wire : RelayWire) (events : List RelayEvent)
    (hg : Guarded (relayStep wire) (CountersRun wire) startRelay events) :
    Always (relayStep wire) Routed startRelay events :=
  always_of_guarded (J := RoutingInv) (fun _ _ _ h hok hs => h.step hok hs) (fun _ => RoutingInv.routes)
    RoutingInv.start hg

def requestUnderWay : List RelayEvent :=
  [.storeChanged (some pairedFiles.devices) (some pairedFiles.keys),.connect "MAC".toList,phoneHello,phoneRequest,
    .take,.check 0 true,.finish 0 200 [],.clientClosed 1]

/-- The phone connects again and asks again: only the second answer is sealed. -/
theorem reconnectedPhone_is_routed :
    Always (relayStep plainWire) Routed startRelay
      (requestUnderWay ++ [phoneHello,phoneRequest,.complete 0,.drain true,.take,.check 0 true,.finish 0 200 [],
        .complete 0,.drain true]) := by
  apply responses_are_routed
  decide +kernel

structure PhoneKnown (s : RelayLoop) : Prop where
  devices : s.devices = some pairedFiles.devices
  keys : s.keys = some pairedFiles.keys
  connected : s.connected = true
  macId : s.macId = "MAC".toList
  generation : s.generation = 1
  session : s.sessions 1 = none

/-- The phone is away, its request is answered and the next handshake is the `n + 1`-st. -/
structure AwayAfter (n : ℕ) (s : RelayLoop) : Prop extends PhoneKnown s where
  incarnation : s.nextIncarnation = n
  working : s.working = [⟨⟨⟨1,1,1⟩,⟨7,[1]⟩,0⟩,.answered 200 []⟩]
  completions : s.completions = []
  requests : s.requests = [⟨1,0⟩]
  responses : s.responses = []
  tickets : s.tickets.length = n

def RelayLoop.phoneSession (s : RelayLoop) : ActiveSession where
  ticket := ⟨1,1,nextCounter s.nextIncarnation⟩
  deviceId := "phone".toList
  relayTokenHash := emptyTokenHash []
  crypto := ⟨List.replicate 32 0,List.replicate 32 0,Side.host.tag,Side.client.tag,0,0⟩
  handshake := s.tickets.length
  material := ⟨List.replicate 32 0,List.replicate 16 0,List.replicate 16 0⟩

theorem PhoneKnown.phoneHash (h : PhoneKnown s) :
    s.relayTokenHash "phone".toList = some (emptyTokenHash []) := by
  rw [RelayLoop.relayTokenHash, h.devices]
  decide +kernel

theorem PhoneKnown.hello (h : PhoneKnown s) :
    relayStep plainWire s phoneHello = some (s.openSession 1 s.phoneSession true) := by
  have hhash := h.phoneHash
  have hkey : s.e2eKey "phone".toList = some (List.replicate 32 0) := by
    rw [RelayLoop.e2eKey, h.keys, h.macId]
    decide +kernel
  simp only [relayStep, phoneHello, phoneFrame, h.connected, if_true, RelayLoop.clientData, h.session,
    RelayLoop.acceptHello, plainWire, Option.bind_eq_bind, Option.bind_some, ne_eq, not_true_eq_false, if_false, hhash,
    hkey, CryptoSession.new, length_replicate, or_self, h.generation]
  rfl

def phoneReturns : List RelayEvent := [phoneHello,.clientClosed 1]

theorem openSession_sent (s : RelayLoop) (connId : ℕ) (active : ActiveSession) :
    s.openSession connId active true = { s with
      hub := Function.update s.hub connId (some ⟨active.material,none⟩)
      cancelled := s.cancelPath connId
      sessions := Function.update s.sessions connId (some active)
      nextIncarnation := nextCounter s.nextIncarnation
      tickets := s.tickets ++ [active.ticket] } := rfl

theorem clientClosed_step {w : RelayWire} {s : RelayLoop} (h : s.connected = true) (connId : ℕ) :
    relayStep w s (.clientClosed connId) = some ((s.setSession connId none).remove connId) := if_pos h

/-- One more handshake of the phone. -/
theorem AwayAfter.returns {n : ℕ} (h : AwayAfter n s) (hn : n + 1 < 2 ^ 64) :
    ∃ t, run (relayStep plainWire) s phoneReturns = some t ∧ AwayAfter (n + 1) t := by
  refine ⟨((s.openSession 1 s.phoneSession true).setSession 1 none).remove 1,?_,?_⟩
  · have hhello := h.hello
    have hconnected : (s.openSession 1 s.phoneSession true).connected = true := h.connected
    have hclosed := clientClosed_step (w := plainWire) hconnected 1
    rw [phoneReturns, run_cons]
    refine ⟨_,hhello,?_⟩
    rw [run_cons]
    exact ⟨_,hclosed,run_nil _⟩
  · rw [openSession_sent]
    constructor
    case toPhoneKnown => exact ⟨h.devices,h.keys,h.connected,h.macId,h.generation,by simp [RelayLoop.remove]⟩
    case incarnation =>
      change nextCounter s.nextIncarnation = n + 1
      rw [h.incarnation, nextCounter_of_lt hn]
    case working => exact h.working
    case completions => exact h.completions
    case requests => exact h.requests
    case responses => exact h.responses
    case tickets =>
      change (s.tickets ++ [s.phoneSession.ticket]).length = n + 1
      rw [length_append, h.tickets, length_singleton]

theorem AwayAfter.returns_often {n : ℕ} (h : AwayAfter n s) (k : ℕ) (hk : n + k < 2 ^ 64) :
    ∃ t, run (relayStep plainWire) s (List.replicate k phoneReturns).flatten = some t ∧ AwayAfter (n + k) t := by
  induction k generalizing n s with
  | zero => exact ⟨s,rfl,h⟩
  | succ k ih =>
    obtain ⟨t,ht,haway⟩ := h.returns (by omega)
    obtain ⟨u,hu,hfinal⟩ := ih haway (by omega)
    exact ⟨u,run_append.mpr ⟨t,ht,hu⟩,by rwa [Nat.add_right_comm, Nat.add_assoc] at hfinal⟩

def RelayLoop.phoneBack (s : RelayLoop) (completions : List DispatchCompletion) : RelayLoop :=
  { s with
    hub := Function.update s.hub 1 (some ⟨s.phoneSession.material,none⟩)
    cancelled := s.cancelPath 1
    sessions := Function.update s.sessions 1 (some s.phoneSession)
    nextIncarnation := nextCounter s.nextIncarnation
    tickets := s.tickets ++ [s.phoneSession.ticket]
    working := s.working.eraseIdx 0
    completions := completions }

theorem drain_step {wire : RelayWire} {s : RelayLoop} {completion : DispatchCompletion}
    {rest : List DispatchCompletion} {sent : Bool} (hconnected : s.connected = true)
    (hcompletions : s.completions = completion :: rest) :
    relayStep wire s (.drain sent) = some (({ s with completions := rest } : RelayLoop).sendTunnelResponse wire
      completion.ticket completion.serial completion.requestId completion.status completion.body sent) := by
  simp only [relayStep, hconnected, hcompletions]

/-- The handshake after the counter has started over has the ticket of the request that
is under way, and seals its response. -/
theorem AwayAfter.starts_over (h : AwayAfter (2 ^ 64 - 1) s) :
    ∃ t, run (relayStep plainWire) s [phoneHello,.complete 0,.drain true] = some t ∧ ¬Routed t := by
  have hcomplete : relayStep plainWire (s.openSession 1 s.phoneSession true) (.complete 0) =
      some (s.phoneBack [⟨⟨1,1,1⟩,7,200,[],0⟩]) := by
    rw [openSession_sent]
    simp only [relayStep, h.working, h.completions, getElem?_cons_zero]
    rw [← h.working]
    rfl
  have hdrain : relayStep plainWire (s.phoneBack [⟨⟨1,1,1⟩,7,200,[],0⟩]) (.drain true) =
      some ((s.phoneBack []).sendTunnelResponse plainWire ⟨1,1,1⟩ 0 7 200 [] true) :=
    @drain_step plainWire (s.phoneBack [⟨⟨1,1,1⟩,7,200,[],0⟩]) _ [] true h.connected rfl
  have hhello := h.hello
  refine ⟨(s.phoneBack []).sendTunnelResponse plainWire ⟨1,1,1⟩ 0 7 200 [] true,?_,fun hrouted => ?_⟩
  · rw [run_cons]
    refine ⟨_,hhello,?_⟩
    rw [run_cons]
    refine ⟨_,hcomplete,?_⟩
    rw [run_cons]
    exact ⟨_,hdrain,run_nil _⟩
  have hsession : (s.phoneBack []).sessions 1 = some s.phoneSession := by
    simp [RelayLoop.phoneBack]
  have hauth : (s.phoneBack []).Authorized s.phoneSession := by
    exact h.phoneHash
  have hticket : s.phoneSession.ticket = ⟨1,1,1⟩ := by
    change (⟨1,1,nextCounter s.nextIncarnation⟩ : SessionTicket) = ⟨1,1,1⟩
    rw [h.incarnation]
    decide
  have hseals : RelayLoop.Seals plainWire s.phoneSession 7 200 [] := ⟨_,_,rfl⟩
  rcases RelayLoop.sendTunnelResponse_cases plainWire (s.phoneBack []) ⟨1,1,1⟩ 0 7 200 [] true with
    ⟨hnone,-⟩ | ⟨active,hactive,hcases⟩
  · cases hsession.symm.trans hnone
  cases hsession.symm.trans hactive
  rcases hcases with ⟨hno,-⟩ | ⟨-,hno,-⟩ | ⟨-,-,hno,-⟩ | ⟨crypto,-,-,-,ht⟩
  · exact hno hauth
  · exact hno hticket
  · exact hno hseals
  · rw [ht, RelayLoop.afterSend, if_pos rfl] at hrouted
    obtain ⟨q,hq,-,hhandshake⟩ := hrouted.own _ (mem_append_right _ (mem_singleton_self _))
    have hrequests : (s.phoneBack []).requests = [⟨1,0⟩] := h.requests
    rw [RelayLoop.responded] at hq
    dsimp only [RelayLoop.setSession] at hq
    rw [hrequests] at hq
    cases hq
    have hzero : s.tickets.length = 0 := hhandshake
    rw [h.tickets] at hzero
    exact absurd hzero (by decide)

theorem requestUnderWay_away : ∃ s, run (relayStep plainWire) startRelay requestUnderWay = some s ∧ AwayAfter 1 s := by
  let s : RelayLoop := RelayLoop.connect { startRelay with
    devices := some pairedFiles.devices, keys := some pairedFiles.keys } "MAC".toList
  have hknown : PhoneKnown s := ⟨rfl,rfl,rfl,rfl,rfl,rfl⟩
  have hhello := hknown.hello
  refine ⟨_,run_cons.mpr ⟨_,rfl,run_cons.mpr ⟨s,rfl,run_cons.mpr ⟨_,hhello,rfl⟩⟩⟩,?_⟩
  constructor
  case toPhoneKnown => constructor <;> rfl
  all_goals rfl

/-- A request is still under way after a phone has connected `2 ^ 64` times: its response
is sealed under the keys of the last of these handshakes. -/
theorem counters_start_over :
    ¬∀ (wire : RelayWire) (events : List RelayEvent), Always (relayStep wire) Routed startRelay events := by
  intro hall
  obtain ⟨s,hs,haway⟩ := requestUnderWay_away
  obtain ⟨t,ht,hlast⟩ := haway.returns_often (2 ^ 64 - 2) (by decide)
  obtain ⟨u,hu,hlost⟩ := AwayAfter.starts_over hlast
  have hrun := run_append.mpr ⟨t,run_append.mpr ⟨s,hs,ht⟩,hu⟩
  exact hlost (always_iff.mp (hall plainWire _) _ [] u (append_nil _).symm hrun)

end Unpeel.Remote
