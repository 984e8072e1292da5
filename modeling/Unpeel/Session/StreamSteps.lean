import Unpeel.Session.StreamPump
import Unpeel.Session.StreamInvariant

/-! # The operations of one core keep what is owed

One lemma for each operation that the reactor drives a Session by.
-/
namespace Unpeel.Session
namespace SessionIo
variable {base : ℕ} {s t : SessionIo}

section Pump

/-- Pumping a client keeps what it and everyone else is owed. -/
theorem Good.pump {c : Client} {id : ℕ} (h : Good base (s.removeClient c.token)) (hf : Fits base s c)
    (hs : c.state = .streamOut id none false) (now : ℕ) (results : List WriteResult) :
    Good base (s.pumpClient now results id c) := by
  have hid : c.subscriber = some id := Client.subscriber_streamOut hs
  have hsv := hf.serves id hid
  obtain ⟨data,hflight,hpre,hfull⟩ := hsv.flight
  have hpump : InFlight c.stream.since data (s.pumped now results id c).2.1 (s.pumped now results id c).1 ∧
      Pumped id c (s.channels id) (s.pumped now results id c).2.1 (s.pumped now results id c).1 :=
    pumpStreamClient_inFlight results hs hflight
  unfold pumpClient
  generalize s.pumped now results id c = pumped at *
  obtain ⟨hflight',hp⟩ := hpump
  apply Good.settle
  · rw [hp.token]
    exact h.retune (hf.own id hid) h.ring h.ids h.live rfl (Nat.le_refl _)
      (fun i hi => Function.update_of_ne hi ..) (fun i _ => Iff.rfl)
  · have hid' : pumped.2.1.subscriber = some id := Client.subscriber_streamOut hp.state
    refine ⟨by rw [hp.token]; exact hf.below,by simp [Client.Settled, hp.state],?_,?_⟩
    · intro i hi
      cases hid'.symm.trans hi
      refine ⟨?_,hsv.issued,by rw [hp.since]; exact hsv.low,by rw [hp.since]; exact hsv.high,data,?_⟩
      · simpa [hp.receiver] using hsv.receiver
      · rw [hp.since]
        exact ⟨by simpa using hflight',hpre,hfull⟩
    · intro i hi
      cases hid'.symm.trans hi
      rw [hp.token]
      exact hf.own id hid

theorem Good.state_streamOut {token : ℕ} {c : Client} (h : Good base s) (hc : s.clients token = some c)
    {id : ℕ} {p : Option SessionOutputChunk} {cl : Bool} (hs : c.state = .streamOut id p cl) :
    c.state = .streamOut id none false := by
  have := (h.fits token c hc).settled
  simp only [Client.Settled, hs] at this
  rw [hs, this.1, this.2]

theorem Good.flushStreamClient (h : Good base s) (now : ℕ) (results : List WriteResult) (token : ℕ) :
    Good base (s.flushStreamClient now results token) := by
  unfold SessionIo.flushStreamClient
  split
  · next c hc =>
    split
    · next id p cl hs =>
      obtain ⟨hg,hf⟩ := h.takes hc
      exact hg.pump hf (h.state_streamOut hc hs) now results
    · exact h
  · exact h

theorem Good.flushTokens (h : Good base s) (now : ℕ) (sockets : ℕ → List WriteResult) (tokens : List ℕ) :
    Good base (tokens.foldl (fun s token => s.flushStreamClient now (sockets token) token) s) := by
  induction tokens generalizing s with
  | nil => exact h
  | cons token tokens ih => exact ih (h.flushStreamClient now _ token)

theorem Good.flushStreamClients (h : Good base s) (now : ℕ) (sockets : ℕ → List WriteResult) :
    Good base (s.flushStreamClients now sockets) := h.flushTokens now sockets _

end Pump

section Publish

theorem Serves.publish {id : ℕ} {c : Client} (h : Serves base s id c)
    (hring : RingValid base s.journal s.broadcaster) (hids : s.broadcaster.IdsValid) (now : ℕ)
    {chunk : List UInt8} (hne : chunk ≠ []) (hle : chunk.length ≤ sessionOutputStreamMaxFrameBytes) :
    Serves base (s.publishChunk now chunk) id c := by
  have hstream : (s.publishChunk now chunk).streamFrom base c.stream.since =
      s.streamFrom base c.stream.since ++ chunk :=
    List.drop_append_of_le_length (by have := h.high; have := h.low; omega)
  have hnext : (s.publishChunk now chunk).broadcaster.nextSubscriberId =
      s.broadcaster.nextSubscriberId := by
    simp [publishChunk, OutputBroadcaster.broadcastChunk, hne]
  obtain ⟨data,hflight,hpre,hfull⟩ := h.flight
  have hx : OutputChunk ⟨chunk,s.broadcaster.nextOffset + chunk.length,false,true⟩ := ⟨hne,rfl,hle⟩
  have hchs : (s.publishChunk now chunk).channels = (retainSubscribers
      ⟨chunk,s.broadcaster.nextOffset + chunk.length,false,true⟩ s.broadcaster.subscribers s.channels).2 := by
    simp [publishChunk, OutputBroadcaster.broadcastChunk, hne]
  have hcons : (s.publishChunk now chunk).broadcaster.Connected id ↔ id ∈ (retainSubscribers
      ⟨chunk,s.broadcaster.nextOffset + chunk.length,false,true⟩ s.broadcaster.subscribers
      s.channels).1.map (·.id) := by
    simp [publishChunk, OutputBroadcaster.broadcastChunk, hne, OutputBroadcaster.Connected]
  have hhigh : c.stream.since ≤ base + (s.publishChunk now chunk).journal.length := by
    have := h.high
    simp only [publishChunk, List.length_append]
    omega
  by_cases hcon : s.broadcaster.Connected id
  · obtain ⟨hch,hkept⟩ := retainSubscribers_mem
      ⟨chunk,s.broadcaster.nextOffset + chunk.length,false,true⟩ s.channels hids.1 hcon
    have hq := enqueueOutputChunk_queue (s.channels id)
      ⟨chunk,s.broadcaster.nextOffset + chunk.length,false,true⟩
    have hdata := hfull.mp hcon
    have hlen : s.broadcaster.nextOffset = c.stream.since + data.length := by
      rw [hring.next, hdata, streamFrom, List.length_drop]
      have := h.low
      have := h.high
      omega
    rw [← hchs] at hch
    refine ⟨?_,hnext ▸ h.issued,h.low,hhigh,?_⟩
    · rw [hch, enqueueOutputChunk_receiver]
      exact h.receiver
    · rw [hstream, hcons, hkept, hch]
      split_ifs at hq with hsent
      · refine ⟨data ++ chunk,hflight.snoc hx (by rw [hlen]) hq,?_,?_⟩
        · exact hdata ▸ List.prefix_rfl
        · simp [hdata, hsent]
      · refine ⟨data,hflight.congr hq,hpre.trans (List.prefix_append _ _),?_⟩
        simp [hsent, hdata, hne]
  · have hch : (s.publishChunk now chunk).channels id = s.channels id := by
      rw [hchs]
      exact retainSubscribers_other hcon
    have hno : ¬(s.publishChunk now chunk).broadcaster.Connected id := by
      rw [hcons]
      exact fun hm => hcon (((retainSubscribers_sublist _ _ _).map _).subset hm)
    refine ⟨by rw [hch]; exact h.receiver,hnext ▸ h.issued,h.low,hhigh,data,?_⟩
    rw [hch, hstream]
    refine ⟨hflight,hpre.trans (List.prefix_append _ _),?_⟩
    simp only [hno, false_iff]
    intro he
    have := hpre.length_le
    rw [he, List.length_append] at this
    have := List.length_pos_iff.mpr hne
    omega

theorem Good.publish (h : Good base s) (now : ℕ) {chunk : List UInt8} (hne : chunk ≠ [])
    (hle : chunk.length ≤ sessionOutputStreamMaxFrameBytes) : Good base (s.publishChunk now chunk) where
  ring := OutputBroadcaster.ringValid_broadcastChunk h.ring _ _
  ids := OutputBroadcaster.idsValid_broadcastChunk h.ids _ _
  live := by simpa [publishChunk, OutputBroadcaster.broadcastChunk, hne] using h.live
  offset := by simp [publishChunk, OutputBroadcaster.broadcastChunk, hne, h.offset]
  scanner := h.scanner
  token := h.token
  fits := fun token c hc =>
    ⟨(h.fits token c hc).below,(h.fits token c hc).settled,
      fun id hid => ((h.fits token c hc).serves id hid).publish h.ring h.ids now hne hle,
      (h.fits token c hc).own⟩

theorem Good.rescan (h : Good base s) {q : OutputQueryScanner} (hq : q.WellFormed) (pty : PtyMaster) :
    Good base { s with queryScanner := q, pty := pty } where
  ring := h.ring
  ids := h.ids
  live := h.live
  offset := h.offset
  scanner := hq
  token := h.token
  fits := fun token c hc =>
    ⟨(h.fits token c hc).below,(h.fits token c hc).settled,
      fun id hid => ((h.fits token c hc).serves id hid).congr rfl (Nat.le_refl _) Iff.rfl rfl,
      (h.fits token c hc).own⟩

/-- A read of at most one buffer publishes what fits in a frame. -/
theorem Good.processPtyBytes (h : Good base s) {now : ℕ} {cursor : ℕ × ℕ} {replies : List WriteResult}
    {bytes : List UInt8} (hb : bytes.length ≤ sessionOutputReadBufferBytes)
    (hp : s.processPtyBytes now cursor replies bytes = some t) : Good base t := by
  have hw := OutputQueryScanner.scan_wellFormed h.scanner bytes s.interceptProbes
  have hl := OutputQueryScanner.scan_length h.scanner bytes s.interceptProbes
  have hseq := h.scanner.seq_length
  unfold SessionIo.processPtyBytes at hp
  simp only [Option.bind_eq_bind, Option.bind_eq_some_iff, Option.pure_def, Option.some.injEq] at hp
  obtain ⟨reply,_,rfl⟩ := hp
  have hg := h.rescan hw ⟨s.pty.accepted ++ reply⟩
  split
  · exact hg
  · next hne =>
    refine hg.publish now hne ?_
    have : sessionOutputReadBufferBytes + OutputQueryScanner.queryScanMaxSequenceBytes + 1 ≤
      sessionOutputStreamMaxFrameBytes := by decide
    omega

theorem Good.ptyReadable (h : Good base s) {now backlog : ℕ} {cursor : ℕ × ℕ}
    {replies : List WriteResult} {bytes : List UInt8}
    (hb : bytes.length ≤ sessionOutputReadBufferBytes)
    (hp : s.ptyReadable now cursor replies bytes backlog = some t) : Good base t := by
  obtain ⟨u,hu,rfl⟩ := Option.map_eq_some_iff.mp hp
  exact (onlyInput_applyJournalBackpressure u backlog).sameOutput.good (h.processPtyBytes hb hu)

theorem Good.releaseIdleBuffers (h : Good base s) (now : ℕ) : Good base (s.releaseIdleBuffers now) := by
  unfold SessionIo.releaseIdleBuffers
  split_ifs
  · exact h
  · exact h
  · exact ⟨OutputBroadcaster.ringValid_releaseRecent h.ring,h.ids,h.live,h.offset,h.scanner,h.token,
      fun token c hc => ⟨(h.fits token c hc).below,(h.fits token c hc).settled,
        fun id hid => ((h.fits token c hc).serves id hid).congr rfl (Nat.le_refl _) Iff.rfl rfl,
        (h.fits token c hc).own⟩⟩

end Publish

section Clients
variable {c : Client} {buf : List UInt8}

theorem Fits.unsubscribed (hb : c.token < s.nextToken) (hs : c.Settled) (hn : c.subscriber = none) : Fits base s c :=
  ⟨hb,hs,fun id hid => by simp [hn] at hid,fun id hid => by simp [hn] at hid⟩

theorem Good.acceptClient (h : Good base s) (now fd : ℕ) : Good base (s.acceptClient now fd) := by
  unfold SessionIo.acceptClient
  split
  · refine Good.insert (s := { s with nextToken := s.nextToken + 1 })
      (c := ⟨⟨fd,0,[]⟩,s.nextToken,.handshake [],[],0,false,now⟩) ?_
      (.unsubscribed (Nat.lt_succ_self _) ⟨rfl,rfl,rfl⟩ rfl)
    refine (Good.remove (s := { s with nextToken := s.nextToken + 1 }) ?_ _)
    exact ⟨h.ring,h.ids,h.live,h.offset,h.scanner,h.token,
      fun token c hc => ⟨(h.fits token c hc).below.trans (Nat.lt_succ_self _),(h.fits token c hc).settled,
        fun id hid => ((h.fits token c hc).serves id hid).congr rfl (Nat.le_refl _) Iff.rfl rfl,
        (h.fits token c hc).own⟩⟩
  · exact h

theorem settled_flushClientOutbuf (h : c.Settled) (now : ℕ) (results : List WriteResult) :
    (c.flushClientOutbuf now results).1.Settled := by
  have he := c.flushClientOutbuf_sameEnds now results
  unfold Client.Settled at h ⊢
  rw [he.state]
  cases hs : c.state with
  | handshake buf =>
    simp only [hs] at h ⊢
    have hu : c.unsent = [] := by simp [Client.unsent, h.1]
    obtain ⟨hk,hd,_⟩ := c.flush_spec now results
    have hkept := hk.mpr (.inl (by simp [hu]))
    have hout := Client.flush_drained hkept ((hd hkept).mpr (by simp [hu]))
    have hb := he.bytes
    rw [h.2.2, hu, List.append_nil, List.append_eq_nil_iff] at hb
    exact ⟨hout.1,hout.2,hb.1⟩
  | streamIn buf => trivial
  | streamOut id p cl => simpa only [hs] using h

theorem subscriber_congr {d : Client} (h : d.state = c.state) : d.subscriber = c.subscriber := by
  simp only [Client.subscriber, h]

theorem Good.clientWritable (h : Good base s) (now : ℕ) (results : List WriteResult) (token : ℕ) :
    Good base (s.clientWritable now results token) := by
  unfold SessionIo.clientWritable
  split
  · next c hc =>
    obtain ⟨hg,hf⟩ := h.takes hc
    split
    · next id p cl hs => exact hg.pump hf (h.state_streamOut hc hs) now results
    · next hno =>
      have he := c.flushClientOutbuf_sameEnds now results
      have hn : c.subscriber = none := by
        cases hs : c.state with
        | handshake buf | streamIn buf => simp [Client.subscriber, hs]
        | streamOut id p cl => exact absurd hs (hno id p cl)
      refine Good.settle (he.token ▸ hg) (.unsubscribed (he.token ▸ hf.below)
        (settled_flushClientOutbuf hf.settled now results) ((subscriber_congr he.state).trans hn)) _
  · exact h

theorem clientInput_client (s : SessionIo) (hs : c.state = .streamIn buf)
    (reads : List ReadResult) (writes : List (List WriteResult)) : (s.clientInput c reads writes).2.1.token = c.token ∧
      ∃ rest, (s.clientInput c reads writes).2.1.state = .streamIn rest := by
  unfold clientInput
  simp only [hs]
  split
  · exact ⟨rfl,_,rfl⟩
  · exact ⟨rfl,_,rfl⟩

theorem Good.clientInput (h : Good base (s.removeClient c.token)) (hb : c.token < s.nextToken)
    (hs : c.state = .streamIn buf) (reads : List ReadResult) (writes : List (List WriteResult)) :
    Good base ((s.clientInput c reads writes).1.settleClient (s.clientInput c reads writes).2.1
      (s.clientInput c reads writes).2.2) := by
  obtain ⟨ht,rest,hr⟩ := s.clientInput_client hs reads writes
  have hso := (s.onlyInput_clientInput c reads writes).sameOutput
  apply Good.settle
  · rw [ht]
    refine SameOutput.good ?_ h
    exact ⟨hso.broadcaster,hso.channels,hso.journal,hso.outputOffset,hso.nextToken,
      by simp only [removeClient, hso.clients],hso.queryScanner⟩
  · exact .unsubscribed (by rw [ht, hso.nextToken]; exact hb) (by simp [Client.Settled, hr])
      (by simp [Client.subscriber, hr])

theorem Good.subscribe (h : Good base (s.removeClient c.token)) (hf : Fits base s c)
    (hs : c.state = .handshake buf) {offset id : ℕ} {answers : Bool} {b : OutputBroadcaster} {chs : Channels}
    (hsub : s.broadcaster.subscribe s.channels offset answers = some (b,chs,id)) (now : ℕ) (socket : List WriteResult) :
    Good base (pumpClient { s with broadcaster := b, channels := chs } now socket id
      { c with state := .streamOut id none false, lastProgress := now,
               stream := { c.stream with since := offset } }) := by
  obtain ⟨hid,hb,ch,hch,hrec,⟨pre,hpub,hoff⟩,hcont,hout⟩ :=
    OutputBroadcaster.subscribe_spec (show RingValid base s.journal s.broadcaster from h.ring) h.live hsub
  have hset : c.outbuf = [] ∧ c.outPos = 0 ∧ c.stream.sent = [] := by
    simpa [Client.Settled, hs] using hf.settled
  have hfresh : s.Alone id c.token := by
    intro u d hu hd hsu
    have := ((h.fits u d ((removeClient_of_ne hu).trans hd)).serves id hsu).issued
    change id ≤ s.broadcaster.nextSubscriberId at this
    omega
  have hjoin : ∀ i, b.Connected i ↔ s.broadcaster.Connected i ∨ i = id := by
    intro i
    rw [hb]
    simp [OutputBroadcaster.Connected]
  have hids := OutputBroadcaster.idsValid_subscribe (show s.broadcaster.IdsValid from h.ids) answers
  rw [← hid] at hids
  refine Good.pump (s := { s with broadcaster := b, channels := chs })
    (c := { c with state := .streamOut id none false, lastProgress := now,
                   stream := { c.stream with since := offset } })
    ?_ ⟨hf.below,⟨rfl,rfl⟩,?_,?_⟩ rfl now socket
  · refine h.retune hfresh ?_ ?_ ?_ ?_ ?_ ?_ ?_
    · rw [hb]
      exact ⟨h.ring.next,h.ring.bytes,h.ring.bound,h.ring.suffix⟩
    · rw [hb]
      exact hids
    · rw [hb]
      exact h.live
    · rw [hb]
    · rw [hb, hid]
      exact Nat.le_succ _
    · intro i hi
      rw [hch, Function.update_of_ne hi]
    · intro i hi
      rw [hjoin i]
      simp [hi]
  · intro i hi
    obtain rfl : id = i := Option.some.inj hi
    have hstream : s.journal.drop (offset - base) = chunksData ch.queue := by
      have hl : offset - base = pre.length := by omega
      rw [hl, hpub, List.drop_left]
    have hle : offset ≤ base + s.journal.length := by
      rw [hpub, List.length_append]
      omega
    refine ⟨by simpa [hch] using hrec,by rw [hb],show base ≤ offset by omega,hle,
      chunksData ch.queue,?_,?_,?_⟩
    · refine ⟨by simp [hset.1, hset.2.1],[],?_,?_⟩
      · simp [Client.unsent, hset.1, hset.2.2]
      · simpa [Client.pendingChunks, hch] using ⟨hcont,hout⟩
    · rw [← hstream]
      exact List.prefix_refl _
    · simp [hjoin, streamFrom, hstream]
  · intro i hi
    obtain rfl : id = i := Option.some.inj hi
    exact hfresh

theorem Good.startCommand {c : Client} (h : Good base (s.removeClient c.token)) (hf : Fits base s c)
    {buf line : List UInt8} (hs : c.state = .handshake buf) (now : ℕ) (socket : List WriteResult)
    (reads : List ReadResult) (writes : List (List WriteResult)) (command : Option SessionHostCommand) :
    Good base (s.startCommand now socket reads writes c line command) := by
  match command with
  | none | some .oneShot => exact h.close hf
  | some (.streamOutput offset answers) =>
    simp only [SessionIo.startCommand]
    split
    · exact h.close hf
    · next b chs id hsub => exact h.subscribe hf hs hsub now socket
  | some .streamInput =>
    simp only [SessionIo.startCommand]
    have he := Client.flushClientOutbuf_sameEnds now socket
      { c with outbuf := c.outbuf ++ [sessionInputStreamAck], state := .streamIn (afterLine line) }
    have hst := he.state
    have htok := he.token
    generalize Client.flushClientOutbuf now socket
      { c with outbuf := c.outbuf ++ [sessionInputStreamAck], state := .streamIn (afterLine line) } =
      flushed at *
    split
    · exact Good.clientInput (htok ▸ h) (by rw [htok]; exact hf.below) hst reads writes
    · exact Good.close (htok ▸ h) (.unsubscribed (by rw [htok]; exact hf.below)
        (by simp [Client.Settled, hst]) (by simp [Client.subscriber, hst]))

theorem Good.clientReadable (h : Good base s) (now token : ℕ) (reads later : List ReadResult)
    (command : Option SessionHostCommand) (socket : List WriteResult)
    (writes : List (List WriteResult)) :
    Good base (s.clientReadable now token reads later command socket writes) := by
  unfold SessionIo.clientReadable
  split
  · exact h
  next c hc =>
  obtain ⟨hg,hf⟩ := h.takes hc
  split
  · next buf hs =>
    split
    · exact hg.close hf
    · next rest _ =>
      refine Good.settle (c := { c with state := .handshake rest }) hg (.unsubscribed hf.below ?_ rfl) true
      simpa [Client.Settled, hs] using hf.settled
    · exact hg.startCommand hf hs now socket later writes command
  · next buf hs => exact hg.clientInput hf.below hs reads writes
  · split
    · exact hg.settle hf _
    · exact hg.settle hf _
    · exact hg.settle hf _

theorem Good.sweepStalledClients (h : Good base s) (now : ℕ) : Good base (s.sweepStalledClients now) := by
  unfold SessionIo.sweepStalledClients
  generalize List.range s.nextToken = tokens
  induction tokens generalizing s with
  | nil => exact h
  | cons token tokens ih =>
    rw [List.foldl_cons]
    apply ih
    split
    · next c hc =>
      split
      · exact (h.takes hc).1.close (h.takes hc).2
      · exact h
    · exact h

end Clients
end SessionIo
end Unpeel.Session
