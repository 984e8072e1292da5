import Unpeel.Session.StreamReader

/-! # Framing from end to end

Batching merges neighbours and nothing else, so the frames on the wire are the
queued chunks in blocks. The reader takes them off the socket one by one: what it
holds of a frame is always the beginning of the next one.
-/
namespace Unpeel.Session
open BigEndian Runs List
variable {xs ys : List SessionOutputChunk} {Q : List SessionOutputChunk → Prop} {chunk : SessionOutputChunk}

theorem SameStream.append {xs' ys' : List SessionOutputChunk} (h : SameStream xs xs')
    (g : SameStream ys ys') : SameStream (xs ++ ys) (xs' ++ ys') := by
  refine ⟨by rw [chunksData_append, chunksData_append, h.1, g.1],?_⟩
  rw [getLast?_append, getLast?_append]
  have hlast := g.2
  cases hy : ys.getLast? with
  | none =>
    rw [hy, Option.map_none, eq_comm, Option.map_eq_none_iff] at hlast
    rw [hlast]
    exact h.2
  | some y =>
    rw [hy, Option.map_some, eq_comm, Option.map_eq_some_iff] at hlast
    obtain ⟨y',hy',he⟩ := hlast
    rw [hy']
    exact congrArg some he.symm

theorem SameStream.refl (xs : List SessionOutputChunk) : SameStream xs xs := ⟨rfl,rfl⟩

/-- The chunks `ys` are the chunks `xs`, block by block. -/
def Batched (xs ys : List SessionOutputChunk) : Prop :=
  ∃ blocks : List (List SessionOutputChunk), xs = blocks.flatten ∧
    List.Forall₂ (fun block y => SameStream block [y]) blocks ys

namespace Batched
variable {xs ys zs : List SessionOutputChunk}

theorem nil : Batched [] [] := ⟨[],rfl,.nil⟩

theorem snoc (h : Batched xs ys) (x : SessionOutputChunk) : Batched (xs ++ [x]) (ys ++ [x]) := by
  obtain ⟨blocks,rfl,hb⟩ := h
  exact ⟨blocks ++ [[x]],by simp,rel_append hb (.cons (SameStream.refl _) .nil)⟩

theorem sameStream (h : Batched xs ys) : SameStream xs ys := by
  obtain ⟨blocks,rfl,hb⟩ := h
  induction hb with
  | nil => exact SameStream.refl []
  | cons hxy _ ih => exact hxy.append ih

theorem split (h : Batched xs (ys ++ zs)) : ∃ front back, xs = front ++ back ∧ Batched front ys ∧ Batched back zs := by
  obtain ⟨blocks,rfl,hb⟩ := h
  refine ⟨(blocks.take ys.length).flatten,(blocks.drop ys.length).flatten,?_,
    ⟨_,rfl,forall₂_take_append blocks ys zs hb⟩,⟨_,rfl,forall₂_drop_append blocks ys zs hb⟩⟩
  rw [← flatten_append, take_append_drop]

theorem append {xs' ys' : List SessionOutputChunk} (h : Batched xs ys) (g : Batched xs' ys') :
    Batched (xs ++ xs') (ys ++ ys') := by
  obtain ⟨blocks,rfl,hb⟩ := h
  obtain ⟨blocks',rfl,hb'⟩ := g
  exact ⟨blocks ++ blocks',by simp,rel_append hb hb'⟩

theorem merge {x y : SessionOutputChunk} (he : x.exited = y.exited) (h : Batched xs (x :: y :: zs)) :
    Batched xs ({ x with data := x.data ++ y.data, nextOffset := y.nextOffset } :: zs) := by
  obtain ⟨blocks,rfl,hb⟩ := h
  obtain ⟨bx,rest,hx,hrest,rfl⟩ := List.forall₂_cons_right_iff.mp hb
  obtain ⟨bz,rest,hy,htail,rfl⟩ := List.forall₂_cons_right_iff.mp hrest
  obtain ⟨hdata,hlast⟩ := hx.append hy
  refine ⟨(bx ++ bz) :: rest,by simp,.cons ⟨?_,?_⟩ htail⟩
  · simpa using hdata
  · rw [hlast]
    simp [he]

end Batched

def FitsHeader (chunk : SessionOutputChunk) : Prop := chunk.data.length < 2 ^ 32 ∧ chunk.nextOffset < 2 ^ 64

def InBlocks (queued xs : List SessionOutputChunk) : Prop := Batched queued xs ∧ ∀ x ∈ xs, FitsHeader x

theorem inBlocks_mergeClosed (queued : List SessionOutputChunk) : MergeClosed (InBlocks queued) := by
  intro xs x y ys hm h
  obtain ⟨hb,hall⟩ := h
  have hexited : x.exited = y.exited := by
    unfold canMergeOutputStreamChunk at hm
    split at hm
    · cases hm
    next hno =>
    simp only [Bool.or_eq_true, not_or, Bool.not_eq_true] at hno
    rw [hno.1.1, hno.1.2]
  obtain ⟨front,back,rfl,hfront,hback⟩ := hb.split
  refine ⟨hfront.append (hback.merge hexited),fun z hz => ?_⟩
  rcases mem_append.mp hz with hz | hz
  · exact hall z (by simp [hz])
  · rcases mem_cons.mp hz with rfl | hz
    · have hmax : sessionOutputStreamMaxFrameBytes < 2 ^ 32 := by decide
      refine ⟨?_,(hall y (by simp)).2⟩
      simp only [length_append]
      exact lt_of_le_of_lt (merge_bound hm) hmax
    · exact hall z (by simp [hz])

structure Streaming (Q : List SessionOutputChunk → Prop) (ch : Channel) (c : Client) : Prop where
  state : ∃ id closing, c.state = .streamOut id none closing
  pos : c.outPos ≤ c.outbuf.length
  framed : Framed Q (c.stream.sent ++ c.unsent) ch.queue

namespace Client

theorem writeLoop_sent (now : ℕ) (results : List WriteResult) (c : Client) :
    c.stream.sent <+: (writeLoop now results c).1.stream.sent := by
  induction results generalizing c with
  | nil => exact prefix_rfl
  | cons result rest ih =>
    simp only [writeLoop]
    split
    · cases result with
      | ok n =>
        dsimp only
        split_ifs
        · exact prefix_rfl
        · exact prefix_append _ _
        · have hwrote : c.stream.sent <+: (c.wrote now n).stream.sent := prefix_append _ _
          exact hwrote.trans (ih _)
      | wouldBlock | error => exact prefix_rfl
      | interrupted => exact ih c
    · exact prefix_rfl

theorem flushClientOutbuf_sent (now : ℕ) (results : List WriteResult) (c : Client) :
    c.stream.sent <+: (c.flushClientOutbuf now results).1.stream.sent := by
  have hw := writeLoop_sent now results c
  have hc (d : Client) : d.compact.stream = d.stream := by
    unfold compact
    split_ifs <;> rfl
  unfold flushClientOutbuf
  dsimp only
  split_ifs
  · rwa [hc]
  · dsimp only
    rwa [hc]
  · exact hw

end Client

theorem Streaming.flush {ch : Channel} {c : Client} (h : Streaming Q ch c)
    (now : ℕ) (results : List WriteResult) : Streaming Q ch (c.flushClientOutbuf now results).1 := by
  have he := c.flushClientOutbuf_sameEnds now results
  refine ⟨?_,he.pos h.pos,?_⟩
  · rw [he.state]
    exact h.state
  · rw [he.bytes]
    exact h.framed

/-- The pump moves bytes forward, exited chunks too, and leaves the rest in the channel. -/
theorem pumpPasses_streaming (hQ : MergeClosed Q) (connected : Bool) (now : ℕ)
    (fuel : ℕ) (results : List WriteResult) {ch : Channel} {c : Client} (h : Streaming Q ch c) :
    let r := pumpPasses connected now fuel results ch c
    Streaming Q r.1 r.2.1 ∧ c.stream.sent <+: r.2.1.stream.sent := by
  induction fuel generalizing results ch c with
  | zero => exact ⟨h,prefix_rfl⟩
  | succ fuel ih =>
    have hf := h.flush now results
    have hsent := c.flushClientOutbuf_sent now results
    have hdrained := @Client.flush_drained c now results
    simp only [pumpPasses]
    generalize c.flushClientOutbuf now results = flushed at hf hsent hdrained ⊢
    obtain ⟨id,closing,hstate⟩ := hf.state
    simp only [hstate]
    split
    · exact ⟨hf,hsent⟩
    next hk =>
    split
    · exact ⟨hf,hsent⟩
    next hd =>
    split
    · exact ⟨hf,hsent⟩
    obtain ⟨hout,hpos⟩ := hdrained (by simpa using hk) hd
    have hfill := (pull_framed connected hQ (p := ⟨ch.buffered,none,flushed.1.outbuf,closing,false⟩)
      (by simpa [Client.unsent, hout, hpos] using hf.framed)).frames
    generalize pull connected ch.queue ⟨ch.buffered,none,flushed.1.outbuf,closing,false⟩ = pulled at hfill ⊢
    have hs : Streaming Q { ch with queue := pulled.1, buffered := pulled.2.buffered }
        { flushed.1 with outbuf := pulled.2.outbuf ++ framesBytes pulled.2.pending.toList
                         state := .streamOut id none pulled.2.closing } := by
      refine ⟨⟨id,_,rfl⟩,by simp [hpos],?_⟩
      simpa [Client.unsent, hpos, ← append_assoc] using hfill
    split
    · exact ⟨hs,hsent⟩
    split
    · have hlast := Client.flushClientOutbuf_sent now flushed.2.2
        { flushed.1 with outbuf := pulled.2.outbuf ++ framesBytes pulled.2.pending.toList
                         state := .streamOut id none pulled.2.closing }
      exact ⟨hs.flush now _,hsent.trans hlast⟩
    · have hr := ih flushed.2.2 hs
      exact ⟨hr.1,hsent.trans hr.2⟩

def frameHeader (chunk : SessionOutputChunk) : List UInt8 :=
  beBytes 4 chunk.data.length ++ beBytes 8 chunk.nextOffset ++ [frameFlags chunk]

@[simp] theorem frameHeader_length (chunk : SessionOutputChunk) : (frameHeader chunk).length = 13 := by
  simp [frameHeader]

theorem sessionOutputFrameBytes_eq (chunk : SessionOutputChunk) :
    sessionOutputFrameBytes chunk = frameHeader chunk ++ chunk.data := rfl

theorem frameLen_frameHeader (h : FitsHeader chunk) :
    frameLen (frameHeader chunk) = chunk.data.length := by
  rw [frameLen, frameHeader, append_assoc, take_left' (beBytes_length 4 _), readBe_beBytes_of_lt h.1]

theorem frameChunk_frameHeader (h : FitsHeader chunk) (data : List UInt8) :
    frameChunk (frameHeader chunk) data = { chunk with data := data } := by
  have hoffset : readBe (((frameHeader chunk).drop 4).take 8) = chunk.nextOffset := by
    rw [frameHeader, append_assoc, drop_left' (beBytes_length 4 _),
      take_left' (beBytes_length 8 _), readBe_beBytes_of_lt h.2]
  have hflags : (frameHeader chunk).getD 12 0 = frameFlags chunk := by
    simp [frameHeader, getD_eq_getElem?_getD]
  have hbits : (frameFlags chunk &&& 1 != 0) = chunk.exited ∧ (frameFlags chunk &&& 2 != 0) = chunk.exists := by
    unfold frameFlags
    cases chunk.exited <;> cases chunk.exists <;> decide
  simp only [frameChunk, hoffset, hflags, hbits]

/-- A header and as much data as it says are the first frame. -/
theorem next_frame {frames : List SessionOutputChunk} (hfit : ∀ x ∈ frames, FitsHeader x) {head data : List UInt8}
    (hhead : head.length = 13) (hlen : data.length = frameLen head) (h : head ++ data <+: framesBytes frames) :
    ∃ f rest, frames = f :: rest ∧ head ++ data = sessionOutputFrameBytes f ∧ frameChunk head data = f := by
  cases frames with
  | nil =>
    have hle := h.length_le
    simp only [length_append, framesBytes_nil, length_nil] at hle
    omega
  | cons f rest =>
    have hf := hfit f mem_cons_self
    rw [framesBytes_cons, sessionOutputFrameBytes_eq, append_assoc] at h
    have hhd : head = frameHeader f := by
      have ht := List.prefix_iff_eq_take.mp ((prefix_append head data).trans h)
      rwa [hhead, take_left' (frameHeader_length f)] at ht
    subst hhd
    rw [frameLen_frameHeader hf] at hlen
    have hdt : data = f.data := by
      have ht := List.prefix_iff_eq_take.mp ((prefix_append_right_inj _).mp h)
      rwa [hlen, take_left] at ht
    subst hdt
    exact ⟨f,rest,rfl,rfl,frameChunk_frameHeader hf f.data⟩

theorem framesBytes_prefix (hx : ∀ x ∈ xs, FitsHeader x)
    (hy : ∀ y ∈ ys, FitsHeader y) (h : framesBytes xs <+: framesBytes ys) : xs <+: ys := by
  induction xs generalizing ys with
  | nil => exact nil_prefix
  | cons x xs ih =>
    rw [framesBytes_cons] at h
    have hfx := hx x mem_cons_self
    obtain ⟨f,rest,rfl,hb,hc⟩ := next_frame hy (frameHeader_length x) (frameLen_frameHeader hfx).symm
      ((prefix_append _ _).trans h)
    rw [frameChunk_frameHeader hfx] at hc
    subst hc
    rw [framesBytes_cons, prefix_append_right_inj] at h
    rw [cons_prefix_cons]
    exact ⟨rfl,ih (fun z hz => hx z (mem_cons_of_mem _ hz)) (fun z hz => hy z (mem_cons_of_mem _ hz)) h⟩

def ReaderState.held : ReaderState → List UInt8
  | .header got => got
  | .payload head got => head ++ got
  | .stopped => []

def ReaderState.Within : ReaderState → Prop
  | .header got => got.length < 13
  | .payload head got => head.length = 13 ∧ got.length < frameLen head
  | .stopped => True

structure LinkInv (s : StreamLink) : Prop where
  streaming : Streaming (InBlocks s.queued) s.channel s.client
  within : s.reader.Within
  fits : ∀ x ∈ s.returned, FitsHeader x
  consumed : s.consumed ≤ s.client.stream.sent.length
  taken : framesBytes s.returned <+: s.client.stream.sent
  held : s.reader ≠ .stopped → s.client.stream.sent.take s.consumed = framesBytes s.returned ++ s.reader.held

namespace LinkInv
variable {s : StreamLink}

theorem start (id : ℕ) (stream : UnixStream) (token now : ℕ) : LinkInv (startLink id stream token now) where
  streaming := ⟨⟨id,false,rfl⟩,le_rfl,[],rfl,Batched.nil,by simp [startLink]⟩
  within := by simp [startLink, ReaderState.Within]
  fits := by simp [startLink]
  consumed := le_rfl
  taken := prefix_rfl
  held := fun _ => rfl

theorem sofar (h : LinkInv s) : ∃ frames rest, s.client.stream.sent ++ s.client.unsent = framesBytes (s.returned ++ rest) ∧
    frames = s.returned ++ rest ∧ (∀ x ∈ frames, FitsHeader x) ∧ Batched s.queued (frames ++ s.channel.queue) := by
  obtain ⟨frames,hwire,hbat,hfit⟩ := h.streaming.framed
  have hall : ∀ x ∈ frames, FitsHeader x := fun x hx => hfit x (mem_append_left _ hx)
  have hpre : framesBytes s.returned <+: framesBytes frames :=
    hwire ▸ h.taken.trans (prefix_append _ _)
  obtain ⟨rest,rfl⟩ := framesBytes_prefix h.fits hall hpre
  exact ⟨_,rest,hwire,rfl,hall,hbat⟩

theorem faithful (h : LinkInv s) : Faithful s := by
  obtain ⟨frames,rest,hwire,rfl,-,hbat⟩ := h.sofar
  constructor
  case sofar =>
    rw [append_assoc] at hbat
    obtain ⟨front,back,hq,hfront,-⟩ := hbat.split
    exact ⟨front,back,hq,hfront.sameStream⟩
  case all =>
    intro hqueue hunsent hconsumed hreader
    have hheld := h.held (by simp [hreader])
    rw [hconsumed, take_length, hreader, ReaderState.held, append_nil] at hheld
    rw [hunsent, append_nil, hheld, framesBytes_append, self_eq_append_right] at hwire
    have hrest : rest = [] := by
      cases rest with
      | nil => rfl
      | cons f rest =>
        have hlen := congrArg List.length hwire
        simp at hlen
    rw [hqueue, hrest, append_nil, append_nil] at hbat
    exact hbat.sameStream
  case between =>
    intro hreader
    have hheld := h.held (by simp [hreader])
    rwa [hreader, ReaderState.held, append_nil] at hheld

theorem enqueue (h : LinkInv s) {chunk : SessionOutputChunk} (hfit : FitsHeader chunk) {ch : Channel}
    (hq : ch.queue = s.channel.queue ++ [chunk]) :
    LinkInv { s with channel := ch, queued := s.queued ++ [chunk] } where
  streaming := by
    obtain ⟨frames,hwire,hbat,hall⟩ := h.streaming.framed
    refine ⟨h.streaming.state,h.streaming.pos,frames,hwire,?_,?_⟩
    · rw [hq, ← append_assoc]
      exact hbat.snoc chunk
    · intro x hx
      rw [hq, ← append_assoc, mem_append, mem_singleton] at hx
      rcases hx with hx | rfl
      · exact hall x hx
      · exact hfit
  within := h.within
  fits := h.fits
  consumed := h.consumed
  taken := h.taken
  held := h.held

theorem pump (h : LinkInv s) (connected : Bool) (now : ℕ) (results : List WriteResult) :
    LinkInv { s with channel := (pumpStreamClient connected now results s.channel s.client).1
                     client := (pumpStreamClient connected now results s.channel s.client).2.1
                     attached := (pumpStreamClient connected now results s.channel s.client).2.2 } := by
  obtain ⟨hs,hsent⟩ := pumpPasses_streaming (inBlocks_mergeClosed s.queued) connected now
    (s.channel.queue.length + 2) results h.streaming
  refine ⟨hs,h.within,h.fits,h.consumed.trans hsent.length_le,h.taken.trans hsent,fun hr => ?_⟩
  obtain ⟨more,hmore⟩ := hsent
  have htake : (s.client.stream.sent ++ more).take s.consumed = s.client.stream.sent.take s.consumed :=
    take_append_of_le_length h.consumed
  rw [hmore] at htake
  exact htake.trans (h.held hr)

theorem readMore (h : LinkInv s) {n : ℕ} {reader : ReaderState} (hrun : s.reader ≠ .stopped)
    (hn : n ≤ (s.client.stream.sent.drop s.consumed).length) (hwithin : reader.Within)
    (hheld : reader.held = s.reader.held ++ (s.client.stream.sent.drop s.consumed).take n) :
    LinkInv { s with consumed := s.consumed + n, reader := reader } where
  streaming := h.streaming
  within := hwithin
  fits := h.fits
  consumed := by
    rw [length_drop] at hn
    have hc := h.consumed
    dsimp only
    omega
  taken := h.taken
  held := by
    intro _
    dsimp only
    rw [take_add, h.held hrun, hheld, append_assoc]

/-- The bytes complete the frame the reader is in. -/
theorem readLast (h : LinkInv s) {n : ℕ} {head data : List UInt8} (hrun : s.reader ≠ .stopped)
    (hn : n ≤ (s.client.stream.sent.drop s.consumed).length) (hhead : head.length = 13)
    (hlen : data.length = frameLen head)
    (hheld : head ++ data = s.reader.held ++ (s.client.stream.sent.drop s.consumed).take n) :
    LinkInv { s with consumed := s.consumed + n, reader := .header [],
                     returned := s.returned ++ [frameChunk head data] } := by
  have htake : s.client.stream.sent.take (s.consumed + n) = framesBytes s.returned ++ (head ++ data) := by
    rw [take_add, h.held hrun, hheld, append_assoc]
  obtain ⟨frames,rest,hwire,rfl,hfit,hbat⟩ := h.sofar
  have hpre : head ++ data <+: framesBytes rest := by
    rw [← prefix_append_right_inj (framesBytes s.returned), ← framesBytes_append, ← hwire, ← htake]
    exact (List.take_prefix _ _).trans (prefix_append _ _)
  obtain ⟨f,rest,rfl,hbytes,hchunk⟩ :=
    next_frame (fun x hx => hfit x (mem_append_right _ hx)) hhead hlen hpre
  have hf : FitsHeader f := hfit f (by simp)
  have hdone : s.client.stream.sent.take (s.consumed + n) = framesBytes (s.returned ++ [f]) := by
    rw [htake, hbytes]
    simp
  rw [hchunk]
  constructor
  case streaming => exact h.streaming
  case within => simp [ReaderState.Within]
  case fits =>
    intro x hx
    rcases mem_append.mp hx with hx | hx
    · exact h.fits x hx
    · rw [mem_singleton.mp hx]
      exact hf
  case consumed =>
    rw [length_drop] at hn
    have hc := h.consumed
    dsimp only
    omega
  case taken =>
    rw [← hdone]
    exact take_prefix _ _
  case held =>
    intro _
    rw [hdone, ReaderState.held, append_nil]

theorem stop (h : LinkInv s) {n : ℕ} (hn : s.consumed + n ≤ s.client.stream.sent.length) :
    LinkInv { s with consumed := s.consumed + n, reader := .stopped } where
  streaming := h.streaming
  within := trivial
  fits := h.fits
  consumed := hn
  taken := h.taken
  held := fun hr => absurd rfl hr

theorem read (h : LinkInv s) {n : ℕ} (hwanted : n ≤ s.reader.wanted)
    (hn : n ≤ (s.client.stream.sent.drop s.consumed).length) :
    LinkInv { s with
      consumed := s.consumed + n
      reader := (s.reader.fill ((s.client.stream.sent.drop s.consumed).take n)).1
      returned := s.returned ++ (s.reader.fill ((s.client.stream.sent.drop s.consumed).take n)).2.toList } := by
  have hsum : s.consumed + n ≤ s.client.stream.sent.length := by
    have hc := h.consumed
    rw [length_drop] at hn
    omega
  have hbytes : ((s.client.stream.sent.drop s.consumed).take n).length = n := by
    rw [length_take]
    omega
  have hwithin := h.within
  generalize hb : (s.client.stream.sent.drop s.consumed).take n = bytes at hbytes ⊢
  cases hr : s.reader with
  | header got =>
    rw [hr] at hwithin hwanted
    simp only [ReaderState.Within, ReaderState.wanted, sessionOutputStreamFrameHeaderBytes] at hwithin hwanted
    have hrun : s.reader ≠ .stopped := by simp [hr]
    have hheld : got ++ bytes = s.reader.held ++ (s.client.stream.sent.drop s.consumed).take n := by
      rw [hr, hb]
      rfl
    by_cases hshort : (got ++ bytes).length < sessionOutputStreamFrameHeaderBytes
    · rw [ReaderState.fill, if_pos hshort, Option.toList_none, append_nil]
      exact h.readMore hrun hn hshort hheld
    have hfull : (got ++ bytes).length = 13 := by
      rw [sessionOutputStreamFrameHeaderBytes, length_append] at hshort
      rw [length_append]
      omega
    rw [ReaderState.fill, if_neg hshort]
    by_cases hbig : sessionOutputStreamMaxFrameBytes < frameLen (got ++ bytes)
    · rw [if_pos hbig, Option.toList_none, append_nil]
      exact h.stop hsum
    rw [if_neg hbig]
    by_cases hempty : frameLen (got ++ bytes) = 0
    · rw [if_pos hempty]
      exact h.readLast hrun hn hfull hempty.symm (by rw [append_nil]; exact hheld)
    · rw [if_neg hempty, Option.toList_none, append_nil]
      refine h.readMore hrun hn ⟨hfull,Nat.pos_of_ne_zero hempty⟩ ?_
      rw [ReaderState.held, append_nil]
      exact hheld
  | payload head got =>
    rw [hr] at hwithin hwanted
    obtain ⟨hhead,hgot⟩ := hwithin
    simp only [ReaderState.wanted] at hwanted
    have hrun : s.reader ≠ .stopped := by simp [hr]
    have hheld : head ++ (got ++ bytes) = s.reader.held ++ (s.client.stream.sent.drop s.consumed).take n := by
      rw [hr, hb, ReaderState.held, append_assoc]
    by_cases hshort : (got ++ bytes).length < frameLen head
    · rw [ReaderState.fill, if_pos hshort, Option.toList_none, append_nil]
      exact h.readMore hrun hn ⟨hhead,hshort⟩ hheld
    · rw [ReaderState.fill, if_neg hshort]
      have hfull : (got ++ bytes).length = frameLen head := by
        rw [length_append] at hshort ⊢
        omega
      exact h.readLast hrun hn hhead hfull hheld
  | stopped => simpa [ReaderState.fill] using h.stop hsum

theorem timeOut (h : LinkInv s) (hmid : s.reader.midHeader = false) :
    LinkInv { s with reader := s.reader.timeOut } := by
  have hconsumed := h.consumed
  cases hr : s.reader with
  | header got =>
    cases got with
    | nil =>
      have hsame : { s with reader := (ReaderState.header []).timeOut } = s := by
        rw [ReaderState.timeOut, ← hr]
      rw [hsame]
      exact h
    | cons b got =>
      rw [hr] at hmid
      cases hmid
  | payload head got | stopped => exact h.stop (n := 0) hconsumed

theorem step (h : LinkInv s) {event : LinkEvent} (hok : WholeHeaders s event) {t : StreamLink}
    (ht : linkStep s event = some t) : LinkInv t := by
  cases event with
  | enqueue data nextOffset exited present =>
    simp only [linkStep] at ht
    split at ht
    · cases ht
    split at ht
    · next hsent =>
      cases ht
      refine h.enqueue (show FitsHeader ⟨data,nextOffset.toNat,exited,present⟩ from ⟨hok,nextOffset.toNat_lt⟩) ?_
      rw [enqueueOutputChunk_queue, if_pos hsent]
    · cases ht
      exact h
  | pump connected now results =>
    simp only [linkStep] at ht
    split at ht <;> cases ht
    exact h.pump connected now results
  | read n =>
    simp only [linkStep] at ht
    split at ht <;> cases ht
    next hread =>
    exact h.read hread.2.1 hread.2.2
  | timeout =>
    cases ht
    exact h.timeOut hok
  | readFails =>
    cases ht
    exact h.stop (n := 0) h.consumed

end LinkInv

/-- While no timeout strikes inside a header, the reader returns what was queued. -/
theorem framing_end_to_end (id : ℕ) (stream : UnixStream) (token now : ℕ) (events : List LinkEvent)
    (h : Guarded linkStep WholeHeaders (startLink id stream token now) events) :
    Always linkStep Faithful (startLink id stream token now) events :=
  always_of_guarded (fun _ _ _ hs hok ht => hs.step hok ht) (fun _ hs => hs.faithful)
    (LinkInv.start id stream token now) h

def sampleLink : StreamLink := startLink 1 ⟨5,0,[]⟩ 7 0

def slowFrames : List LinkEvent :=
  [.timeout,.enqueue [97,98] 2 false true,.pump true 0 [.ok 100],.read 4,.read 9,.read 1,.read 1,.timeout,
    .enqueue [] 2 true true,.pump true 0 [.ok 100],.read 13]

theorem slowFrames_arrive :
    (run linkStep sampleLink slowFrames).map StreamLink.returned = some [⟨[97,98],2,false,true⟩,⟨[],2,true,true⟩] ∧
    Always linkStep Faithful sampleLink slowFrames :=
  ⟨by decide +kernel,framing_end_to_end 1 ⟨5,0,[]⟩ 7 0 slowFrames (by decide +kernel)⟩

def lostHeader : List LinkEvent :=
  [.enqueue [97,98] 2 false true,.pump true 0 [.ok 100],.enqueue [99] 3 false true,.pump true 0 [.ok 100],
    .read 4,.timeout,.read 13]

/-- The reader takes the rest of the header, the data and the beginning of the next
frame for a header, and returns a chunk nobody queued. -/
theorem lostHeader_desyncs : ¬ Always linkStep Faithful sampleLink lostHeader := by
  intro h
  have hrun : (run linkStep sampleLink lostHeader).map (fun s => (s.queued,s.returned)) =
      some ([⟨[97,98],2,false,true⟩,⟨[99],3,false,true⟩],[⟨[],8629871104,false,false⟩]) := by
    decide +kernel
  obtain ⟨s,hs,he⟩ := Option.map_eq_some_iff.mp hrun
  obtain ⟨hqueued,hreturned⟩ := Prod.mk.inj he
  obtain ⟨front,back,hq,-,hlast⟩ := (always_iff.mp h lostHeader [] s (append_nil _).symm hs).sofar
  rw [hreturned] at hlast
  obtain ⟨x,hx,hoffset⟩ := Option.map_eq_some_iff.mp hlast
  have hmem : x ∈ s.queued := hq ▸ mem_append_left back (mem_of_getLast? hx)
  rw [hqueued] at hmem
  revert hoffset
  rcases mem_pair.mp hmem with rfl | rfl <;> simp

end Unpeel.Session
