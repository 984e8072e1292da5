import Unpeel.Foundation.Runs
import Unpeel.Session.StreamFlush
import Unpeel.Session.StreamAdoption

/-! # A handoff and the clients that follow the output

A core hands a streaming client over with its unsent frames and re-subscribes it
at the journal's end. Chunks that still wait in the client's channel are in
neither, so the client's stream survives exactly when the flush of the export
emptied the channel of a client that was still subscribed.
-/
namespace Unpeel.Session
open Runs List

namespace SessionIo

/-- The condition on one streaming client and the answers its socket gives to the
flush of the export: it is dropped there, or nothing stays behind in its channel. -/
def HandsOver (s : SessionIo) (now : ℕ) (results : List WriteResult) (id : ℕ) (c : Client) : Prop :=
  let queue := (s.channels id).queue
  LosesSocket now results c queue ∨
  (s.broadcaster.Connected id ∧
    (queue = [] ∨ c.unsent.length + queuedAhead queue ≤ room results)) ∨
  (¬s.broadcaster.Connected id ∧ c.unsent.length + queuedBeforeEnd queue ≤ room results)

section Export
variable {base : ℕ} {s t : SessionIo}
variable {token id now : ℕ} {c : Client} {sockets : ℕ → List WriteResult}

theorem Good.state_of_subscriber (h : Good base s) (hc : s.clients token = some c) (hid : c.subscriber = some id) :
    c.state = .streamOut id none false := by
  cases hs : c.state with
  | handshake buf | streamIn buf => simp [Client.subscriber, hs] at hid
  | streamOut i p cl =>
    cases (Client.subscriber_streamOut hs).symm.trans hid
    exact hs ▸ h.state_streamOut hc hs

theorem Good.pauseForHandoff (h : Good base s) (now : ℕ) (sockets : ℕ → List WriteResult) :
    Good base (s.pauseForHandoff now sockets) :=
  ((onlyInput_pause s).sameOutput.good h).flushStreamClients now sockets

theorem pauseForHandoff_at (h : Good base s)
    (hc : s.clients token = some c) (hs : c.state = .streamOut id none false) (now : ℕ)
    (sockets : ℕ → List WriteResult) :
    FlushedTo s (s.pauseForHandoff now sockets) token id (s.pumped now (sockets token) id c) := by
  have hso := (onlyInput_pause s).sameOutput
  have hf := flushStreamClients_at (hso.good h) ((congrFun hso.clients token).trans hc) hs now sockets
  have hp : (setPtyInterest { s with handingOff := true } false s.ptyWriteInterest).pumped now
      (sockets token) id c = s.pumped now (sockets token) id c := by
    simp only [pumped, hso.broadcaster, hso.channels]
  rw [hp] at hf
  exact ⟨hf.client,hf.channel,fun hk => (hf.connected hk).trans (by rw [hso.broadcaster])⟩

/-- A streaming client that survives the pause was pumped. -/
theorem pauseForHandoff_source (h : Good base s)
    {d : Client} (hd : (s.pauseForHandoff now sockets).clients token = some d) (hid : d.subscriber = some id) :
    ∃ c, s.clients token = some c ∧ c.state = .streamOut id none false ∧ (s.pumped now (sockets token) id c).2.2 = true := by
  have hso := (onlyInput_pause s).sameOutput
  have hone := flush_unsubscribed (hso.good h) now sockets token
  rw [hso.clients] at hone
  have hkeep : (∀ c, s.clients token = some c → c.subscriber = none) → s.clients token = some d :=
    fun hn => (hone hn).symm.trans hd
  cases hc : s.clients token with
  | none =>
    have := hkeep (fun c hc' => by cases hc.symm.trans hc')
    cases hc.symm.trans this
  | some c =>
    cases hsub : c.subscriber with
    | none =>
      have := hkeep (fun c' hc' => by cases hc.symm.trans hc'; exact hsub)
      cases hc.symm.trans this
      cases hsub.symm.trans hid
    | some i =>
      have hs := h.state_of_subscriber hc hsub
      have hat := pauseForHandoff_at h hc hs now sockets
      have hp := pumped_spec (h.fits token c hc) hs now (sockets token)
      cases hk : (s.pumped now (sockets token) i c).2.2 with
      | false =>
        have := hat.client
        rw [hk, hd] at this
        cases this
      | true =>
        have := hat.client
        rw [hk, hd] at this
        cases this
        cases (Client.subscriber_streamOut hp.state).symm.trans hid
        exact ⟨c,rfl,hs,hk⟩

/-- A settled client is exported as it is, with its unsent bytes. -/
theorem exportClient_settled {c : Client} (h : c.Settled) :
    ∃ m, s.exportClient c = some (c,m) ∧ m.offset = s.outputOffset ∧ m.outbuf = c.unsent ∧
      m.kind = (match c.state with
        | .handshake _ => .handshake
        | .streamIn _ => .streamIn
        | .streamOut _ _ _ => .streamOut) := by
  unfold Client.Settled at h
  unfold exportClient
  cases hs : c.state with
  | handshake buf | streamIn buf => exact ⟨_,rfl,rfl,rfl,rfl⟩
  | streamOut id p cl =>
    simp only [hs] at h
    obtain ⟨rfl,rfl⟩ := h
    have hc : { c with outbuf := c.outbuf ++ framesBytes (none : Option SessionOutputChunk).toList,
                       state := .streamOut id none false } = c := by
      rw [← hs]
      simp
    simp only [Bool.false_eq_true, ↓reduceIte, hc]
    exact ⟨_,rfl,rfl,rfl,rfl⟩

def travelling (s : SessionIo) : List (UnixStream × ClientHandoff) :=
  s.exportClients.map (fun m => (m.1.stream,m.2))

theorem mem_travelling (h : Good base s) {m : UnixStream × ClientHandoff} :
    m ∈ s.travelling ↔ ∃ token c, s.clients token = some c ∧ s.exportClient c = some (c,m.2) ∧
      m.1 = c.stream := by
  simp only [travelling, exportClients, mem_map, mem_filterMap, mem_range,
    Option.bind_eq_some_iff]
  constructor
  · rintro ⟨⟨c',k⟩,⟨token,_,c,hc,he⟩,rfl⟩
    obtain ⟨k',hk,_⟩ := exportClient_settled (s := s) (h.fits token c hc).settled
    cases hk.symm.trans he
    exact ⟨token,_,hc,hk,rfl⟩
  · rintro ⟨token,c,hc,he,hm⟩
    have hlt := (h.fits token c hc).below
    rw [h.token token c hc] at hlt
    exact ⟨(c,m.2),⟨token,hlt,c,hc,he⟩,Prod.ext hm.symm rfl⟩

/-- What a committed handoff makes of a good Session. -/
theorem commitHandoff_adopted (h : Good base s) (hc : s.commitHandoff now sockets = some t) :
    Adopted base s.journal (s.pauseForHandoff now sockets).travelling t := by
  have hg := h.pauseForHandoff now sockets
  have hj := (onlyClientIo_pauseForHandoff s now sockets).text.journal
  obtain ⟨_,_,rfl⟩ := commitHandoff_some hc
  have hzip : (s.pauseForHandoff now sockets).handoffExport.streams.zip
      (s.pauseForHandoff now sockets).handoffExport.handoff.clients =
      (s.pauseForHandoff now sockets).travelling := by
    simp only [handoffExport, travelling, zip_map']
  have hoff : (s.pauseForHandoff now sockets).outputOffset = base + s.journal.length := by
    rw [hg.offset, hg.ring.next, hj]
  rw [hj, ← hzip]
  refine adopted_register _ _ _ hoff ?_
  intro m hm
  rw [hzip, mem_travelling hg] at hm
  obtain ⟨token,c,hc,he,_⟩ := hm
  obtain ⟨k,hk,ho,_⟩ := exportClient_settled (s := s.pauseForHandoff now sockets) (hg.fits token c hc).settled
  cases hk.symm.trans he
  exact ho.trans hoff

/-- The frames a client has and will get carry the whole stream exactly when it
is subscribed and its channel is empty. -/
theorem Good.whole_iff (h : Good base s) (hc : s.clients token = some c) (hs : c.state = .streamOut id none false) :
    Carries c.stream.since (s.streamFrom base c.stream.since) (c.stream.sent ++ c.unsent) [] ↔
      (s.channels id).queue = [] ∧ s.broadcaster.Connected id := by
  obtain ⟨data,⟨_,frames,hw,hcont,hd,ho⟩,hpre,hfull⟩ :=
    ((h.fits token c hc).serves id (Client.subscriber_streamOut hs)).flight
  have hp : c.pendingChunks = [] := by simp [Client.pendingChunks, hs]
  rw [hp, nil_append] at hcont hd ho
  constructor
  · rintro ⟨frames',hw',_,hd',ho'⟩
    rw [append_nil] at hd' ho'
    have heq := framesBytes_data_inj (fun x hx => (ho x (by simp [hx])).2.2)
      (fun x hx => (ho' x hx).2.2) (hw.symm.trans hw')
    have hlen := hpre.length_le
    rw [← hd, ← hd', chunksData_append, length_append, heq] at hlen
    have hq : chunksData (s.channels id).queue = [] := eq_nil_of_length_eq_zero (by omega)
    have hnil : (s.channels id).queue = [] := by
      cases hcase : (s.channels id).queue with
      | nil => rfl
      | cons x xs =>
        rw [hcase, chunksData_cons, append_eq_nil_iff] at hq
        exact absurd hq.1 (ho x (by simp [hcase])).1
    refine ⟨hnil,hfull.mpr ?_⟩
    rw [← hd, chunksData_append, hq, append_nil, heq, hd']
  · rintro ⟨hq,hcon⟩
    rw [hq] at hcont hd ho
    exact ⟨frames,hw,hcont,hd.trans (hfull.mp hcon),ho⟩

/-- The condition on a client, in terms of what the flush of the export does. -/
theorem Good.handsOver_iff (h : Good base s) (hc : s.clients token = some c)
    (hs : c.state = .streamOut id none false) (now : ℕ) (results : List WriteResult) :
    s.HandsOver now results id c ↔ ((s.pumped now results id c).2.2 = true →
      (s.pumped now results id c).1.queue = [] ∧ s.broadcaster.Connected id) := by
  obtain ⟨_,⟨_,_,_,_,_,ho⟩,_,_⟩ := ((h.fits token c hc).serves id (Client.subscriber_streamOut hs)).flight
  have hx : ∀ x ∈ (s.channels id).queue, x.exited = false := fun x hm => (ho x (by simp [hm])).2.1
  have hkeep : (s.pumped now results id c).2.2 = true ↔ _ :=
    @pumpStreamClient_keep (s.broadcaster.Connected id) now id results _ c hs hx
  have hempty : (s.pumped now results id c).2.2 = true → _ :=
    @pumpStreamClient_empties (s.broadcaster.Connected id) now id results _ c hs hx
  rw [decide_eq_true_eq] at hkeep
  constructor
  · intro hh hk
    obtain ⟨hl,hend⟩ := hkeep.mp hk
    rcases hh with hh | ⟨hcon,hh⟩ | ⟨hcon,hh⟩
    · exact absurd hh hl
    · exact ⟨(hempty hk).mpr hh,hcon⟩
    · exact absurd hh (hend.resolve_left hcon)
  · intro hh
    by_cases hk : (s.pumped now results id c).2.2 = true
    · obtain ⟨hq,hcon⟩ := hh hk
      exact .inr (.inl ⟨hcon,(hempty hk).mp hq⟩)
    · have hno := mt hkeep.mpr hk
      rw [not_and_or, not_not, not_or, not_not] at hno
      rcases hno with hl | ⟨hcon,hend⟩
      · exact .inl hl
      · exact .inr (.inr ⟨hcon,hend⟩)

/-- Every client that follows the output has been sent, or is about to be sent,
whole frames with the published bytes from its offset on; all of them while it is
subscribed, and an initial part once it was cut off for falling behind. -/
def StreamsIntact (base : ℕ) (s : SessionIo) : Prop :=
  ∀ token c id, s.clients token = some c → c.subscriber = some id →
    ∃ data, InFlight c.stream.since data c (s.channels id) ∧
      data <+: s.streamFrom base c.stream.since ∧
      (s.broadcaster.Connected id → data = s.streamFrom base c.stream.since)

theorem Good.streamsIntact (h : Good base s) : StreamsIntact base s := by
  intro token c id hc hid
  obtain ⟨data,hf,hp,hfull⟩ := ((h.fits token c hc).serves id hid).flight
  exact ⟨data,hf,hp,hfull.mp⟩

/-- A handoff of clients that leave nothing in their channels keeps every
stream. -/
theorem Good.commitHandoff (h : Good base s) (hc : s.commitHandoff now sockets = some t)
    (hok : ∀ token c id, s.clients token = some c → c.subscriber = some id →
      s.HandsOver now (sockets token) id c) : Good base t := by
  have ha := commitHandoff_adopted h hc
  have hg := h.pauseForHandoff now sockets
  have hj := (onlyClientIo_pauseForHandoff s now sockets).text.journal
  refine ⟨⟨by rw [ha.file]; exact ha.next,?_,?_,t.journal,?_,?_⟩,ha.ids,ha.live,ha.offset,?_,
    fun u d hd => (ha.token u d hd).1,?_⟩
  · simp [ha.recent, recentData]
  · simp [ha.recent]
  · simp [ha.recent, recentData]
  · simp [ha.recent, RecentFrom]
  · rw [ha.scanner]
    exact OutputQueryScanner.new_wellFormed
  intro u d hd
  have hbelow : d.token < t.nextToken := (ha.token u d hd).1.symm ▸ (ha.token u d hd).2
  obtain ⟨m,hm,hpl⟩ := ha.source u d hd
  obtain ⟨token,c1,hc1,hexp,hstream⟩ := (mem_travelling hg).mp hm
  obtain ⟨k,hk,_,hout,hkind⟩ := exportClient_settled (s := s.pauseForHandoff now sockets)
    (hg.fits token c1 hc1).settled
  cases hk.symm.trans hexp
  have hkd := hpl.kind
  cases hs1 : c1.state with
  | handshake buf =>
    simp only [hkind, hs1] at hkd
    have hset : c1.outbuf = [] ∧ c1.outPos = 0 ∧ c1.stream.sent = [] := by
      simpa [Client.Settled, hs1] using (hg.fits token c1 hc1).settled
    refine .unsubscribed hbelow ?_ (by simp [Client.subscriber, hkd])
    simp [Client.Settled, hkd, hpl.outbuf, hpl.outPos, hpl.stream, hstream, hout, Client.unsent, hset]
  | streamIn buf =>
    simp only [hkind, hs1] at hkd
    exact .unsubscribed hbelow (by simp [Client.Settled, hkd]) (by simp [Client.subscriber, hkd])
  | streamOut id p cl =>
    simp only [hkind, hs1] at hkd
    obtain ⟨i,hst,hi,hcon,hch⟩ := hkd
    have hs1' := hg.state_streamOut hc1 hs1
    have hsv := (hg.fits token c1 hc1).serves id (Client.subscriber_streamOut hs1)
    have hsub : d.subscriber = some i := Client.subscriber_streamOut hst
    have hwhole : Carries c1.stream.since ((s.pauseForHandoff now sockets).streamFrom base c1.stream.since)
        (c1.stream.sent ++ c1.unsent) [] := by
      obtain ⟨c,hcs,hst',hk'⟩ := pauseForHandoff_source h hc1 (Client.subscriber_streamOut hs1)
      have hat := pauseForHandoff_at h hcs hst' now sockets
      obtain ⟨hq,hcon'⟩ := (h.handsOver_iff hcs hst' now (sockets token)).mp
        (hok token c id hcs (Client.subscriber_streamOut hst')) hk'
      exact (hg.whole_iff hc1 hs1').mpr ⟨by rw [hat.channel hk']; exact hq,(hat.connected hk').mpr hcon'⟩
    refine ⟨hbelow,by simp [Client.Settled, hst],?_,?_⟩
    · intro j hj'
      cases hsub.symm.trans hj'
      have hs' : d.stream = c1.stream := hpl.stream.trans hstream
      refine ⟨by rw [hch],hi,hs' ▸ hsv.low,?_,t.streamFrom base d.stream.since,⟨?_,?_⟩,
        prefix_refl _,by simp [hcon]⟩
      · rw [ha.file, hs', ← hj]
        exact hsv.high
      · simp [hpl.outPos]
      · have hpend : d.pendingChunks = [] := by simp [Client.pendingChunks, hst]
        rw [hpend, hch, Client.unsent, hpl.outPos, hpl.outbuf, hout, hs', drop_zero, streamFrom, ha.file]
        rw [streamFrom, hj] at hwhole
        exact hwhole
    · intro j hj' v e hv he hje
      exact hv (((ha.own v u e d j he hd hje hj')).trans (ha.token u d hd).1.symm)

/-- A handoff after which every stream is intact left nothing in a channel. -/
theorem Good.handsOver_of_intact (h : Good base s)
    (hc : s.commitHandoff now sockets = some t) (hi : StreamsIntact base t)
    (hcl : s.clients token = some c) (hid : c.subscriber = some id) :
    s.HandsOver now (sockets token) id c := by
  have ha := commitHandoff_adopted h hc
  have hg := h.pauseForHandoff now sockets
  have hj := (onlyClientIo_pauseForHandoff s now sockets).text.journal
  have hs := h.state_of_subscriber hcl hid
  have hat := pauseForHandoff_at h hcl hs now sockets
  have hp := pumped_spec (h.fits token c hcl) hs now (sockets token)
  rw [h.handsOver_iff hcl hs]
  intro hk
  have hcl' : (s.pauseForHandoff now sockets).clients token = some (s.pumped now (sockets token) id c).2.1 := by
    rw [hat.client, if_pos hk]
  generalize s.pumped now (sockets token) id c = r at *
  obtain ⟨k,hexp,_,hout,hkind⟩ := exportClient_settled (s := s.pauseForHandoff now sockets)
    (hg.fits token r.2.1 hcl').settled
  obtain ⟨u,d,hd,hpl⟩ := ha.placed (r.2.1.stream,k) ((mem_travelling hg).mpr ⟨token,r.2.1,hcl',hexp,rfl⟩)
  have hkd := hpl.kind
  simp only [hkind, hp.state] at hkd
  obtain ⟨i,hst,_,hcon,hch⟩ := hkd
  obtain ⟨data,⟨_,hcar⟩,_,hfull⟩ := hi u d i hd (Client.subscriber_streamOut hst)
  have hwhole := (hg.whole_iff hcl' hp.state).mp (by
    have hpend : d.pendingChunks = [] := by simp [Client.pendingChunks, hst]
    rw [hfull hcon, hpend, hch, Client.unsent, hpl.outPos, hpl.outbuf, hout, hpl.stream, drop_zero,
      streamFrom, ha.file] at hcar
    rw [streamFrom, hj]
    exact hcar)
  rw [← hat.channel hk]
  exact ⟨hwhole.1,(hat.connected hk).mp hwhole.2⟩

theorem Good.abandonHandoff (h : Good base s) (now : ℕ) (sockets : ℕ → List WriteResult) :
    Good base (s.abandonHandoff now sockets) := by
  have hg := h.pauseForHandoff now sockets
  unfold SessionIo.abandonHandoff
  split
  · next p e he =>
    obtain ⟨_,_,_,rfl,_⟩ := exportHandoff_ok he
    have hcl : (fun token => ((s.pauseForHandoff now sockets).clients token).map
        (s.pauseForHandoff now sockets).afterExport) = (s.pauseForHandoff now sockets).clients := by
      funext token
      cases hc : (s.pauseForHandoff now sockets).clients token with
      | none => rfl
      | some c =>
        obtain ⟨k,hk,_⟩ := exportClient_settled (s := s.pauseForHandoff now sockets)
          (hg.fits token c hc).settled
        simp [afterExport, hk]
    rw [hcl]
    exact (onlyInput_resumeAfterHandoff _).sameOutput.good hg
  · next r e he =>
    unfold exportHandoff at he
    split_ifs at he with hs
    · cases he
      exact h
    · dsimp only at he
      split_ifs at he
      · cases he
        refine OnlyInput.sameOutput (.trans ?_ (onlyInput_setPtyInterest _ _ _)) |>.good hg
        exact ⟨_,_,_,_,_,_,rfl⟩
      · cases he

end Export
end SessionIo

section Runs

def LeavesNothingBehind (s : SessionIo) : SessionEvent → Prop
  | .commitHandoff now sockets => ∀ token c id, s.clients token = some c → c.subscriber = some id →
      s.HandsOver now (sockets token) id c
  | _ => True

open SessionIo in
theorem good_launched (pty : PtyMaster) (darkMode : Bool) (base now : ℕ) :
    Good base (launched pty darkMode base now) :=
  ⟨OutputBroadcaster.ringValid_atOffset base,OutputBroadcaster.idsValid_atOffset base,rfl,rfl,
    OutputQueryScanner.new_wellFormed,fun _ _ hc => (by cases hc),fun _ _ hc => by cases hc⟩

open SessionIo in
theorem sessionStep_good {base : ℕ} {s t : SessionIo} {a : SessionEvent} (h : Good base s)
    (hok : LeavesNothingBehind s a) (hst : sessionStep s a = some t) : Good base t := by
  cases a with
  | accept now fd => exact Option.some.inj hst ▸ h.acceptClient now fd
  | clientReadable now token reads later command socket writes =>
    exact Option.some.inj hst ▸ h.clientReadable now token reads later command socket writes
  | clientWritable now token socket => exact Option.some.inj hst ▸ h.clientWritable now socket token
  | flush now sockets => exact Option.some.inj hst ▸ h.flushStreamClients now sockets
  | ptyReadable now cursor replies bytes backlog =>
    simp only [sessionStep] at hst
    split at hst
    · cases hst
    · next hb => exact h.ptyReadable (Nat.le_of_not_lt (not_or.mp hb).2) hst
  | ptyWritable results => exact Option.some.inj hst ▸ (onlyInput_drainPendingInput s results).sameOutput.good h
  | write writeId data results =>
    obtain ⟨⟨u,r⟩,hw,rfl⟩ := Option.map_eq_some_iff.mp hst
    exact (sameOutput_dispatchWrite hw).good h
  | journalDrained => exact Option.some.inj hst ▸ (onlyInput_journalDrained s).sameOutput.good h
  | idleTick now => exact Option.some.inj hst ▸ (h.releaseIdleBuffers now).sweepStalledClients now
  | abandonHandoff now sockets => exact Option.some.inj hst ▸ h.abandonHandoff now sockets
  | commitHandoff now sockets => exact h.commitHandoff hst hok

/-- Over the whole life of a Session, across any number of handoffs, every
streaming client gets every byte once and in order exactly when every handoff
that commits leaves nothing behind in a client's channel. -/
theorem streams_intact_iff (pty : PtyMaster) (darkMode : Bool) (base now : ℕ) (as : List SessionEvent) :
    Runs.Always sessionStep (SessionIo.StreamsIntact base) (launched pty darkMode base now) as ↔
      Runs.Guarded sessionStep LeavesNothingBehind (launched pty darkMode base now) as := by
  apply Runs.always_iff_guarded (J := SessionIo.Good base)
  · exact fun s a t hs hok hst => sessionStep_good hs hok hst
  · exact fun s hs => hs.streamsIntact
  · intro s a t hs hst hi
    cases a with
    | commitHandoff now sockets => exact fun token c id hc hid => hs.handsOver_of_intact hst hi hc hid
    | _ => trivial
  · exact good_launched pty darkMode base now

/-- A subscriber whose socket is full while the child writes `a` and then `b`:
the first is framed, the second still queued, when the handoff commits. -/
def slowReader : List SessionEvent :=
  [.accept 0 3,
   .clientReadable 0 0 [.data [newline]] [] (some (.streamOutput 0 false)) [] [],
   .ptyReadable 0 (0,0) [] [0x61] 0,
   .flush 0 (fun _ => []),
   .ptyReadable 0 (0,0) [] [0x62] 0,
   .flush 0 (fun _ => []),
   .commitHandoff 0 (fun _ => [])]

theorem slow_reader_loses_output :
    ¬Runs.Always sessionStep (SessionIo.StreamsIntact 0) (launched ⟨[]⟩ false 0 0) slowReader := by
  intro h
  have hend := h.last rfl
  obtain ⟨data,⟨_,frames,hw,_,hd,ho⟩,_,hfull⟩ := hend 0 _ 1 rfl rfl
  have hcon := hfull (by decide)
  have hwire : framesBytes frames = framesBytes [⟨[0x61],1,false,true⟩] := hw.symm
  have hdata := framesBytes_data_inj (fun x hx => (ho x (mem_append_left _ hx)).2.2)
    (by decide) hwire
  have hd' : chunksData frames = data := by
    rw [← hd]
    simp [Client.pendingChunks]
    rfl
  have : chunksData [⟨[0x61],1,false,true⟩] = [0x61,0x62] := by
    rw [← hdata, hd', hcon]
    rfl
  exact absurd this (by decide)

end Runs
end Unpeel.Session
