import Unpeel.Session.StreamSteps

/-! # A Session of the new core and its adopted clients

The new core puts the travelling clients into an empty table one by one, and
subscribes each follower at the end of an empty ring.
-/
namespace Unpeel.Session
open Function

namespace SessionIo

section Adoption
variable {base : ℕ} {journal : List UInt8} {t : SessionIo}
variable {m : UnixStream × ClientHandoff}

/-- Client `c` is the adopted `m`. -/
structure Placed (t : SessionIo) (m : UnixStream × ClientHandoff) (c : Client) : Prop where
  stream : c.stream = m.1
  outbuf : c.outbuf = m.2.outbuf
  outPos : c.outPos = 0
  kind : match m.2.kind with
    | .streamOut => ∃ id, c.state = .streamOut id none false ∧ id ≤ t.broadcaster.nextSubscriberId ∧
        t.broadcaster.Connected id ∧ t.channels id = ⟨[],0,true⟩
    | .streamIn => c.state = .streamIn m.2.inbuf
    | .handshake => c.state = .handshake m.2.inbuf

structure Adopted (base : ℕ) (journal : List UInt8) (l : List (UnixStream × ClientHandoff))
    (t : SessionIo) : Prop where
  file : t.journal = journal
  recent : t.broadcaster.recent = [] ∧ t.broadcaster.recentBytes = 0
  next : t.broadcaster.nextOffset = base + journal.length
  ids : t.broadcaster.IdsValid
  live : t.broadcaster.exited = false
  offset : t.outputOffset = t.broadcaster.nextOffset
  scanner : t.queryScanner = .new
  token : ∀ u c, t.clients u = some c → c.token = u ∧ u < t.nextToken
  source : ∀ u c, t.clients u = some c → ∃ m ∈ l, Placed t m c
  placed : ∀ m ∈ l, ∃ u c, t.clients u = some c ∧ Placed t m c
  own : ∀ u v c d id, t.clients u = some c → t.clients v = some d → c.subscriber = some id →
    d.subscriber = some id → u = v

theorem Placed.mono {m : UnixStream × ClientHandoff} {c : Client} {u : SessionIo} (h : Placed t m c)
    (hn : t.broadcaster.nextSubscriberId ≤ u.broadcaster.nextSubscriberId)
    (hc : ∀ i, t.broadcaster.Connected i → u.broadcaster.Connected i)
    (hch : ∀ i ≤ t.broadcaster.nextSubscriberId, u.channels i = t.channels i) : Placed u m c := by
  refine ⟨h.stream,h.outbuf,h.outPos,?_⟩
  have hk := h.kind
  cases hm : m.2.kind with
  | streamOut =>
    simp only [hm] at hk ⊢
    obtain ⟨id,hs,hi,hcon,he⟩ := hk
    exact ⟨id,hs,hi.trans hn,hc id hcon,(hch id hi).trans he⟩
  | streamIn | handshake => simpa only [hm] using hk

theorem Placed.subscriber_le {c : Client} (h : Placed t m c) {id : ℕ}
    (hid : c.subscriber = some id) : id ≤ t.broadcaster.nextSubscriberId := by
  have hk := h.kind
  cases hm : m.2.kind with
  | streamOut =>
    simp only [hm] at hk
    obtain ⟨i,hs,hi,_⟩ := hk
    cases (Client.subscriber_streamOut hs).symm.trans hid
    exact hi
  | streamIn | handshake =>
    simp only [hm] at hk
    simp [Client.subscriber, hk] at hid

/-- One more client: the table grows by one entry, and the subscriptions of the
others stay. -/
theorem Adopted.insert {l : List (UnixStream × ClientHandoff)} (h : Adopted base journal l t)
    {m : UnixStream × ClientHandoff} {c : Client} {b : OutputBroadcaster} {chs : Channels}
    (ht : c.token = t.nextToken) (hids : b.IdsValid)
    (hb : b.recent = t.broadcaster.recent ∧ b.recentBytes = t.broadcaster.recentBytes ∧
      b.nextOffset = t.broadcaster.nextOffset ∧ b.exited = t.broadcaster.exited)
    (hn : t.broadcaster.nextSubscriberId ≤ b.nextSubscriberId)
    (hc : ∀ i, t.broadcaster.Connected i → b.Connected i)
    (hch : ∀ i ≤ t.broadcaster.nextSubscriberId, chs i = t.channels i)
    (hnew : ∀ id, c.subscriber = some id → t.broadcaster.nextSubscriberId < id)
    (hp : Placed { t with broadcaster := b, channels := chs } m c) :
    Adopted base journal (l ++ [m])
      { t with broadcaster := b, channels := chs, nextToken := t.nextToken + 1,
               clients := Function.update t.clients t.nextToken (some c) } where
  file := h.file
  recent := by rw [hb.1, hb.2.1]; exact h.recent
  next := hb.2.2.1.trans h.next
  ids := hids
  live := hb.2.2.2.trans h.live
  offset := h.offset.trans hb.2.2.1.symm
  scanner := h.scanner
  token := by
    intro u d hd
    by_cases hu : u = t.nextToken
    · subst hu
      cases (update_self ..).symm.trans hd
      exact ⟨ht,Nat.lt_succ_self _⟩
    · obtain ⟨h1,h2⟩ := h.token u d ((update_of_ne hu ..).symm.trans hd)
      exact ⟨h1,h2.trans (Nat.lt_succ_self _)⟩
  source := by
    intro u d hd
    by_cases hu : u = t.nextToken
    · subst hu
      cases (update_self ..).symm.trans hd
      exact ⟨m,by simp,hp.mono (Nat.le_refl _) (fun _ => id) (fun _ _ => rfl)⟩
    · obtain ⟨m',hm',hp'⟩ := h.source u d ((update_of_ne hu ..).symm.trans hd)
      exact ⟨m',by simp [hm'],hp'.mono hn hc hch⟩
  placed := by
    intro m' hm'
    rw [List.mem_append, List.mem_singleton] at hm'
    rcases hm' with hm' | rfl
    · obtain ⟨u,d,hd,hp'⟩ := h.placed m' hm'
      have hu : u ≠ t.nextToken := Nat.ne_of_lt (h.token u d hd).2
      exact ⟨u,d,(update_of_ne hu ..).trans hd,hp'.mono hn hc hch⟩
    · exact ⟨t.nextToken,c,update_self ..,hp.mono (Nat.le_refl _) (fun _ => id) (fun _ _ => rfl)⟩
  own := by
    intro u v d e id hd he hdi hei
    have hold : ∀ w f, w ≠ t.nextToken → Function.update t.clients t.nextToken (some c) w = some f →
        f.subscriber = some id → id ≤ t.broadcaster.nextSubscriberId := by
      intro w f hw hf hfi
      obtain ⟨m',_,hp'⟩ := h.source w f ((update_of_ne hw ..).symm.trans hf)
      exact hp'.subscriber_le hfi
    by_cases hu : u = t.nextToken <;> by_cases hv : v = t.nextToken
    · rw [hu, hv]
    · subst hu
      cases (update_self ..).symm.trans hd
      have := hold v e hv he hei
      have := hnew id hdi
      omega
    · subst hv
      cases (update_self ..).symm.trans he
      have := hold u d hu hd hdi
      have := hnew id hei
      omega
    · exact h.own u v d e id ((update_of_ne hu ..).symm.trans hd)
        ((update_of_ne hv ..).symm.trans he) hdi hei

theorem subscribe_at_end {b : OutputBroadcaster} (hr : b.recent = []) (hx : b.exited = false)
    (chs : Channels) (answers : Bool) :
    b.subscribe chs b.nextOffset answers =
      some ({ b with nextSubscriberId := b.nextSubscriberId + 1,
                     subscribers := b.subscribers ++ [⟨b.nextSubscriberId + 1,answers⟩] },
        Function.update chs (b.nextSubscriberId + 1) ⟨[],0,true⟩,b.nextSubscriberId + 1) := by
  simp [OutputBroadcaster.subscribe, OutputBroadcaster.oldestAvailable, hr, hx]

theorem Adopted.adopt {l : List (UnixStream × ClientHandoff)} (h : Adopted base journal l t)
    (hm : m.2.offset = base + journal.length) (now : ℕ) :
    Adopted base journal (l ++ [m]) (t.adoptClient now m.1 m.2) := by
  unfold adoptClient
  cases hk : m.2.kind with
  | streamIn | handshake =>
    exact h.insert rfl h.ids ⟨rfl,rfl,rfl,rfl⟩ (Nat.le_refl _) (fun _ => id) (fun _ _ => rfl)
      (fun id hid => by simp [Client.subscriber] at hid) ⟨rfl,rfl,rfl,by simp [hk]⟩
  | streamOut =>
    rw [hm, ← h.next, subscribe_at_end h.recent.1 h.live]
    refine h.insert rfl (OutputBroadcaster.idsValid_subscribe h.ids _) ⟨rfl,rfl,rfl,rfl⟩
      (Nat.le_succ _) ?_ ?_ ?_ ⟨rfl,rfl,rfl,?_⟩
    · intro i hi
      simp only [OutputBroadcaster.Connected, List.map_append, List.mem_append] at hi ⊢
      exact .inl hi
    · intro i hi
      exact update_of_ne (by omega) ..
    · intro id hid
      obtain rfl : t.broadcaster.nextSubscriberId + 1 = id := Option.some.inj hid
      exact Nat.lt_succ_self _
    · simp only [hk]
      exact ⟨_,rfl,Nat.le_refl _,by simp [OutputBroadcaster.Connected],update_self ..⟩

theorem adopted_register (e : HandoffExport) (journal : List UInt8) (now : ℕ)
    (hoff : e.handoff.journalNextOffset = base + journal.length)
    (hcl : ∀ m ∈ e.streams.zip e.handoff.clients, m.2.offset = base + journal.length) :
    Adopted base journal (e.streams.zip e.handoff.clients) ((rebuildFromHandoff e journal).register now) := by
  have hfold : ∀ (l k : List (UnixStream × ClientHandoff)) (t : SessionIo), Adopted base journal k t →
      (∀ m ∈ l, m.2.offset = base + journal.length) →
      Adopted base journal (k ++ l) (l.foldl (fun s a => s.adoptClient now a.1 a.2) t) := by
    intro l
    induction l with
    | nil =>
      intro k t ht _
      rwa [List.append_nil]
    | cons m l ih =>
      intro k t ht hl
      have := ih (k ++ [m]) _ (ht.adopt (hl m (by simp)) now) (fun m' hm' => hl m' (by simp [hm']))
      simpa using this
  have hstart : Adopted base journal []
      { rebuildFromHandoff e journal with ptyReadInterest := true, poller := some (true,false),
                                          adoptedClients := [] } :=
    ⟨rfl,⟨rfl,rfl⟩,hoff,OutputBroadcaster.idsValid_atOffset _,rfl,rfl,rfl,
      fun u c hc => (by cases hc),fun u c hc => (by cases hc),by simp,fun u v c d id hc => by cases hc⟩
  exact hfold _ [] _ hstart hcl

end Adoption
end SessionIo
end Unpeel.Session
