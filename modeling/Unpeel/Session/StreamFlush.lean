import Unpeel.Session.StreamSteps

/-! # A flush of all clients, client by client

`flush_stream_clients` goes through the table. What it leaves of one client, its
channel and its subscription is what the pump of that client leaves.
-/
namespace Unpeel.Session
namespace SessionIo

section FlushTrace
variable {base : ℕ} {s : SessionIo}
variable {c : Client} {id token : ℕ}

structure FlushedTo (s t : SessionIo) (token id : ℕ) (r : Channel × Client × Bool) : Prop where
  client : t.clients token = if r.2.2 then some r.2.1 else none
  channel : r.2.2 = true → t.channels id = r.1
  connected : r.2.2 = true → (t.broadcaster.Connected id ↔ s.broadcaster.Connected id)

theorem pumped_spec (hf : Fits base s c) (hs : c.state = .streamOut id none false)
    (now : ℕ) (results : List WriteResult) :
    Pumped id c (s.channels id) (s.pumped now results id c).2.1 (s.pumped now results id c).1 := by
  obtain ⟨data,hflight,_⟩ := (hf.serves id (Client.subscriber_streamOut hs)).flight
  exact (pumpStreamClient_inFlight results hs hflight).2

theorem flushStreamClient_eq (hc : s.clients token = some c)
    (hs : c.state = .streamOut id none false) (now : ℕ) (results : List WriteResult) :
    s.flushStreamClient now results token = s.pumpClient now results id c := by
  simp only [flushStreamClient, hc, hs]

theorem flushStreamClient_self (h : Good base s)
    (hc : s.clients token = some c) (hs : c.state = .streamOut id none false) (now : ℕ) (results : List WriteResult) :
    FlushedTo s (s.flushStreamClient now results token) token id (s.pumped now results id c) := by
  have hp := pumped_spec (h.fits token c hc) hs now results
  have htok := hp.token.trans (h.token token c hc)
  rw [flushStreamClient_eq hc hs, pumpClient]
  generalize s.pumped now results id c = r at *
  unfold settleClient
  cases hk : r.2.2 with
  | true => exact ⟨by simp [hk, htok],fun _ => by simp,fun _ => Iff.rfl⟩
  | false => exact ⟨by simp [closeClient, hp.state, htok, hk],by simp [hk],by simp [hk]⟩

/-- A flush of another client leaves a table entry, its channel and its
subscription alone. -/
theorem flushStreamClient_other (h : Good base s) {u : ℕ} (hu : u ≠ token) (now : ℕ) (results : List WriteResult) :
    (s.flushStreamClient now results u).clients token = s.clients token ∧
    ∀ c id, s.clients token = some c → c.subscriber = some id →
      (s.flushStreamClient now results u).channels id = s.channels id ∧
      ((s.flushStreamClient now results u).broadcaster.Connected id ↔ s.broadcaster.Connected id) := by
  cases hd : s.clients u with
  | none => simp [flushStreamClient, hd]
  | some d =>
    cases hst : d.state with
    | handshake buf | streamIn buf => simp [flushStreamClient, hd, hst]
    | streamOut i p cl =>
      have hst' := h.state_streamOut hd hst
      have hp := pumped_spec (h.fits u d hd) hst' now results
      have htok := hp.token.trans (h.token u d hd)
      have hne : ∀ c id, s.clients token = some c → c.subscriber = some id → id ≠ i := by
        rintro c id hc hid rfl
        exact (h.fits token c hc).own id hid u d (by rw [h.token token c hc]; exact hu) hd
          (Client.subscriber_streamOut hst)
      rw [flushStreamClient_eq hd hst', pumpClient]
      generalize s.pumped now results i d = r at *
      unfold settleClient
      cases hk : r.2.2 with
      | true =>
        refine ⟨by simp [htok, Function.update_of_ne hu.symm],fun c id hc hid => ?_⟩
        simp [Function.update_of_ne (hne c id hc hid)]
      | false =>
        refine ⟨by simp [closeClient, hp.state, htok, Function.update_of_ne hu.symm],fun c id hc hid => ?_⟩
        simp [closeClient, hp.state, Function.update_of_ne (hne c id hc hid),
          connected_removeSubscriber (hne c id hc hid)]

theorem flush_others (h : Good base s) (now : ℕ) (sockets : ℕ → List WriteResult)
    {tokens : List ℕ} (hn : token ∉ tokens) :
    let t := tokens.foldl (fun s u => s.flushStreamClient now (sockets u) u) s
    t.clients token = s.clients token ∧
    ∀ c id, s.clients token = some c → c.subscriber = some id →
      t.channels id = s.channels id ∧ (t.broadcaster.Connected id ↔ s.broadcaster.Connected id) := by
  induction tokens generalizing s with
  | nil => exact ⟨rfl,fun _ _ _ _ => ⟨rfl,Iff.rfl⟩⟩
  | cons u tokens ih =>
    simp only [List.mem_cons, not_or] at hn
    obtain ⟨hc,hrest⟩ := flushStreamClient_other h (Ne.symm hn.1) now (sockets u)
    obtain ⟨hc',hrest'⟩ := ih (h.flushStreamClient now (sockets u) u) hn.2
    refine ⟨hc'.trans hc,fun c id hcl hid => ?_⟩
    obtain ⟨h1,h2⟩ := hrest c id hcl hid
    obtain ⟨h3,h4⟩ := hrest' c id (hc.trans hcl) hid
    exact ⟨h3.trans h1,h4.trans h2⟩

/-- A flush of all clients is, for each of them, the pump of that client. -/
theorem flushStreamClients_at (h : Good base s)
    (hc : s.clients token = some c) (hs : c.state = .streamOut id none false) (now : ℕ)
    (sockets : ℕ → List WriteResult) :
    FlushedTo s (s.flushStreamClients now sockets) token id (s.pumped now (sockets token) id c) := by
  have hid := Client.subscriber_streamOut hs
  have hlt : token < s.nextToken := h.token token c hc ▸ (h.fits token c hc).below
  unfold flushStreamClients
  obtain ⟨before,after,hsplit⟩ := List.append_of_mem (List.mem_range.mpr hlt)
  have hnd := List.nodup_range (n := s.nextToken)
  rw [hsplit, List.nodup_append] at hnd
  have hb : token ∉ before := fun hm => hnd.2.2 token hm token (by simp) rfl
  have ha : token ∉ after := (List.nodup_cons.mp hnd.2.1).1
  rw [hsplit, List.foldl_append, List.foldl_cons]
  have hg := h.flushTokens now sockets before
  obtain ⟨hc1,hrest1⟩ := flush_others h now sockets hb
  obtain ⟨hch1,hcon1⟩ := hrest1 c id hc hid
  generalize before.foldl (fun s u => s.flushStreamClient now (sockets u) u) s = s1 at *
  have hpumped : s1.pumped now (sockets token) id c = s.pumped now (sockets token) id c := by
    simp only [pumped, hch1, hcon1]
  have hself := flushStreamClient_self hg (hc1.trans hc) hs now (sockets token)
  have hp := pumped_spec (hg.fits token c (hc1.trans hc)) hs now (sockets token)
  rw [hpumped] at hself hp
  obtain ⟨hc2,hrest2⟩ := flush_others (hg.flushStreamClient now (sockets token) token) now sockets ha
  generalize s1.flushStreamClient now (sockets token) token = s2 at *
  have hafter : (s.pumped now (sockets token) id c).2.2 = true → _ := fun hk =>
    hrest2 (s.pumped now (sockets token) id c).2.1 id (by rw [hself.client, if_pos hk])
      (Client.subscriber_streamOut hp.state)
  exact ⟨hc2.trans hself.client,fun hk => (hafter hk).1.trans (hself.channel hk),
    fun hk => (hafter hk).2.trans ((hself.connected hk).trans hcon1)⟩

/-- A flush touches no client without a subscription. -/
theorem flush_unsubscribed (h : Good base s) (now : ℕ) (sockets : ℕ → List WriteResult) (token : ℕ)
    (hn : ∀ c, s.clients token = some c → c.subscriber = none) :
    (s.flushStreamClients now sockets).clients token = s.clients token := by
  unfold flushStreamClients
  generalize List.range s.nextToken = tokens
  induction tokens generalizing s with
  | nil => rfl
  | cons u tokens ih =>
    have hu : (s.flushStreamClient now (sockets u) u).clients token = s.clients token := by
      by_cases hut : u = token
      · subst hut
        unfold flushStreamClient
        cases hc : s.clients u with
        | none => exact hc
        | some c =>
          have hsub := hn c hc
          cases hs : c.state with
          | handshake buf | streamIn buf => simpa [hs] using hc
          | streamOut id p cl => simp [Client.subscriber, hs] at hsub
      · exact (flushStreamClient_other h hut now (sockets u)).1
    rw [List.foldl_cons, ih (h.flushStreamClient now (sockets u) u) (by rwa [hu]), hu]

end FlushTrace
end SessionIo
end Unpeel.Session
