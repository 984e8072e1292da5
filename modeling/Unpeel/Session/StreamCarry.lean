import Unpeel.Session.StreamClient

/-! # The pump loses nothing

Receiving, merging, framing and writing only move the bytes of a subscriber
forward. What the socket has and what is still behind it always carries the same
data from the same offset on.
-/
namespace Unpeel.Session
open List

variable {Q : List SessionOutputChunk → Prop} {wire data : List UInt8} {x : SessionOutputChunk}
variable {behind queue : List SessionOutputChunk} {p : Pull} {connected : Bool} {c : Client} {id : ℕ}
variable {chunk : SessionOutputChunk} {since : ℕ} {ch : Channel}

/-- The wire bytes are whole frames, and these with the chunks behind them are as
`Q` says. -/
def Framed (Q : List SessionOutputChunk → Prop) (wire : List UInt8) (behind : List SessionOutputChunk) : Prop :=
  ∃ frames, wire = framesBytes frames ∧ Q (frames ++ behind)

/-- `Q` allows for the merging of batches. -/
def MergeClosed (Q : List SessionOutputChunk → Prop) : Prop :=
  ∀ xs x y ys, canMergeOutputStreamChunk x y sessionOutputStreamBatchMaxBytes = true → Q (xs ++ x :: y :: ys) →
    Q (xs ++ { x with data := x.data ++ y.data, nextOffset := y.nextOffset } :: ys)

theorem Framed.frame (h : Framed Q wire (x :: behind)) :
    Framed Q (wire ++ sessionOutputFrameBytes x) behind := by
  obtain ⟨frames,rfl,hrest⟩ := h
  exact ⟨frames ++ [x],by simp,by rwa [append_assoc, singleton_append]⟩

theorem Framed.frames {xs : List SessionOutputChunk} (h : Framed Q wire (xs ++ behind)) :
    Framed Q (wire ++ framesBytes xs) behind := by
  induction xs generalizing wire with
  | nil => simpa using h
  | cons x xs ih => simpa using ih h.frame

theorem Framed.merge (hQ : MergeClosed Q) {y : SessionOutputChunk} (h : Framed Q wire (x :: y :: behind))
    (hm : canMergeOutputStreamChunk x y sessionOutputStreamBatchMaxBytes = true) :
    Framed Q wire ({ x with data := x.data ++ y.data, nextOffset := y.nextOffset } :: behind) := by
  obtain ⟨frames,hw,hrest⟩ := h
  exact ⟨frames,hw,hQ frames x y behind hm hrest⟩

theorem Pull.receive_framed (hQ : MergeClosed Q) {sent : List UInt8}
    (h : Framed Q (sent ++ p.outbuf) (p.pending.toList ++ chunk :: queue)) :
    Framed Q (sent ++ (p.receive chunk).1.outbuf) ((p.receive chunk).1.pending.toList ++ queue) := by
  unfold Pull.receive
  cases hp : p.pending with
  | none =>
    rw [hp] at h
    dsimp only
    split
    · simpa using h.frame
    · simpa using h
  | some current =>
    rw [hp] at h
    dsimp only
    split_ifs with hm hl hc
    · simpa using (h.merge hQ hm).frame
    · simpa using h.merge hQ hm
    · simpa using h.frame.frame
    · simpa using h.frame

theorem pull_framed (connected : Bool) (hQ : MergeClosed Q) {sent : List UInt8}
    (h : Framed Q (sent ++ p.outbuf) (p.pending.toList ++ queue)) :
    Framed Q (sent ++ (pull connected queue p).2.outbuf)
      ((pull connected queue p).2.pending.toList ++ (pull connected queue p).1) := by
  induction queue generalizing p with
  | nil => exact h
  | cons chunk queue ih =>
    have ha := Pull.receive_framed hQ (p := { p with buffered := p.buffered - min chunk.data.length p.buffered }) h
    simp only [pull]
    split_ifs
    · rw [append_cons] at h
      simpa [← append_assoc] using h.frames
    · exact ha
    · exact ih ha

/-- The wire bytes are whole frames that, with the chunks still behind them,
carry `data` from `since` on without a gap. -/
def Carries (since : ℕ) (data wire : List UInt8) (behind : List SessionOutputChunk) : Prop :=
  ∃ frames, wire = framesBytes frames ∧ Contiguous since (frames ++ behind) ∧
    chunksData (frames ++ behind) = data ∧ ∀ x ∈ frames ++ behind, OutputChunk x

theorem merge_bound {current : SessionOutputChunk}
    (h : canMergeOutputStreamChunk current chunk sessionOutputStreamBatchMaxBytes = true) :
    current.data.length + chunk.data.length ≤ sessionOutputStreamMaxFrameBytes := by
  have hle : sessionOutputStreamBatchMaxBytes ≤ sessionOutputStreamMaxFrameBytes := by decide
  unfold canMergeOutputStreamChunk at h
  split at h
  · cases h
  · simp only [Bool.and_eq_true, decide_eq_true_eq] at h
    exact h.2.trans hle

/-- The chunks carry `data` from `since` on. -/
def Carried (since : ℕ) (data : List UInt8) (xs : List SessionOutputChunk) : Prop :=
  Contiguous since xs ∧ chunksData xs = data ∧ ∀ x ∈ xs, OutputChunk x

theorem carries_iff :
    Carries since data wire behind ↔ Framed (Carried since data) wire behind := Iff.rfl

theorem carried_mergeClosed (since : ℕ) (data : List UInt8) : MergeClosed (Carried since data) := by
  intro xs x y ys hm h
  obtain ⟨hc,hd,ho⟩ := h
  obtain ⟨hcf,hcr⟩ := contiguous_append.mp hc
  refine ⟨contiguous_append.mpr ⟨hcf,hcr.merge⟩,?_,?_⟩
  · simpa using hd
  · intro z hz
    rcases mem_append.mp hz with hz | hz
    · exact ho z (mem_append_left _ hz)
    · rcases mem_cons.mp hz with rfl | hz
      · have hx := ho x (by simp)
        exact ⟨by simp [hx.1],hx.2.1,by simpa using merge_bound hm⟩
      · exact ho z (by simp [hz])

theorem Carries.snoc (h : Carries since data wire behind) (hx : OutputChunk x)
    (hn : x.nextOffset = since + data.length + x.data.length) :
    Carries since (data ++ x.data) wire (behind ++ [x]) := by
  obtain ⟨frames,hw,hc,hd,ho⟩ := h
  refine ⟨frames,hw,?_,?_,?_⟩
  · rw [← append_assoc, contiguous_append]
    exact ⟨hc,by rw [hd]; exact hn,trivial⟩
  · rw [← append_assoc, chunksData_append, hd]
    simp
  · intro y hy
    rw [← append_assoc, mem_append, mem_singleton] at hy
    rcases hy with hy | rfl
    · exact ho y hy
    · exact hx

def InFlight (since : ℕ) (data : List UInt8) (c : Client) (ch : Channel) : Prop :=
  c.outPos ≤ c.outbuf.length ∧
    Carries since data (c.stream.sent ++ c.unsent) (c.pendingChunks ++ ch.queue)

theorem InFlight.snoc {since : ℕ} {data : List UInt8} {c : Client} {ch ch' : Channel}
    {x : SessionOutputChunk} (h : InFlight since data c ch) (hx : OutputChunk x)
    (hn : x.nextOffset = since + data.length + x.data.length) (hq : ch'.queue = ch.queue ++ [x]) :
    InFlight since (data ++ x.data) c ch' :=
  ⟨h.1,by rw [hq, ← append_assoc]; exact h.2.snoc hx hn⟩

theorem InFlight.congr {since : ℕ} {data : List UInt8} {c : Client} {ch ch' : Channel}
    (h : InFlight since data c ch) (hq : ch'.queue = ch.queue) : InFlight since data c ch' :=
  ⟨h.1,by rw [hq]; exact h.2⟩

namespace Client

structure SameEnds (c d : Client) : Prop where
  fd : d.stream.fd = c.stream.fd
  since : d.stream.since = c.stream.since
  token : d.token = c.token
  state : d.state = c.state
  bytes : d.stream.sent ++ d.unsent = c.stream.sent ++ c.unsent
  pos : c.outPos ≤ c.outbuf.length → d.outPos ≤ d.outbuf.length

theorem SameEnds.refl (c : Client) : c.SameEnds c := ⟨rfl,rfl,rfl,rfl,rfl,id⟩

theorem SameEnds.trans {c d e : Client} (h : c.SameEnds d) (g : d.SameEnds e) : c.SameEnds e where
  fd := g.fd.trans h.fd
  since := g.since.trans h.since
  token := g.token.trans h.token
  state := g.state.trans h.state
  bytes := g.bytes.trans h.bytes
  pos := g.pos ∘ h.pos

theorem SameEnds.inFlight {c d : Client} (h : c.SameEnds d) {since : ℕ} {data : List UInt8}
    {ch : Channel} (hf : InFlight since data c ch) : InFlight since data d ch := by
  have he : d.pendingChunks = c.pendingChunks := by simp only [pendingChunks, h.state]
  exact ⟨h.pos hf.1,by rw [h.bytes, he]; exact hf.2⟩

theorem wrote_sameEnds {c : Client} (now : ℕ) {n : ℕ} (hn : n ≤ c.unsent.length) :
    c.SameEnds (c.wrote now n) := by
  refine ⟨rfl,rfl,rfl,rfl,?_,?_⟩
  · change c.stream.sent ++ c.unsent.take n ++ c.outbuf.drop (c.outPos + n) = _
    rw [← drop_drop, append_assoc]
    exact congrArg _ (take_append_drop _ _)
  · intro _
    simp only [unsent, length_drop] at hn
    simp only [wrote]
    omega

theorem writeLoop_sameEnds (now : ℕ) (results : List WriteResult) (c : Client) :
    c.SameEnds (writeLoop now results c).1 := by
  induction results generalizing c with
  | nil => exact SameEnds.refl c
  | cons result rest ih =>
    simp only [writeLoop]
    split
    · cases result with
      | ok n =>
        dsimp only
        split_ifs with h0 hn
        · exact SameEnds.refl c
        · exact wrote_sameEnds now (Nat.le_refl _)
        · exact (wrote_sameEnds now (Nat.le_of_not_lt hn)).trans (ih _)
      | wouldBlock | error => exact SameEnds.refl c
      | interrupted => exact ih c
    · exact SameEnds.refl c

theorem compact_sameEnds (c : Client) : c.SameEnds c.compact := by
  unfold compact
  split_ifs with h1 h2
  · exact ⟨rfl,rfl,rfl,rfl,by simp [unsent, drop_of_length_le h1],fun _ => Nat.le_refl _⟩
  · exact ⟨rfl,rfl,rfl,rfl,by simp [unsent],fun _ => Nat.zero_le _⟩
  · exact SameEnds.refl c

theorem flushClientOutbuf_sameEnds (now : ℕ) (results : List WriteResult) (c : Client) :
    c.SameEnds (c.flushClientOutbuf now results).1 := by
  have hw := writeLoop_sameEnds now results c
  unfold flushClientOutbuf
  dsimp only
  split_ifs
  · exact hw.trans (compact_sameEnds _)
  · exact (hw.trans (compact_sameEnds _)).trans ⟨rfl,rfl,rfl,rfl,rfl,id⟩
  · exact hw

end Client

theorem Pull.receive_closing (p : Pull) (chunk : SessionOutputChunk) :
    (p.receive chunk).1.closing = p.closing := by
  unfold Pull.receive
  dsimp only
  split
  · split_ifs <;> rfl
  · split_ifs <;> rfl

theorem pull_closing (hx : ∀ x ∈ queue, x.exited = false) : (pull connected queue p).2.closing = p.closing := by
  induction queue generalizing p with
  | nil => rfl
  | cons chunk queue ih =>
    simp only [pull, hx chunk mem_cons_self, Bool.false_eq_true, ↓reduceIte]
    split
    · exact Pull.receive_closing _ _
    · exact (ih (fun x hm => hx x (mem_cons_of_mem _ hm))).trans (Pull.receive_closing _ _)

theorem Client.compact_drained (h : ¬c.compact.outPos < c.compact.outbuf.length) :
    c.compact.outbuf = [] ∧ c.compact.outPos = 0 := by
  unfold Client.compact at h ⊢
  split_ifs at h ⊢ with h1 h2
  · exact ⟨rfl,rfl⟩
  · simp only [length_drop] at h
    omega
  · omega

theorem Client.flush_drained {c : Client} {now : ℕ} {results : List WriteResult}
    (hk : (c.flushClientOutbuf now results).2.1 = true)
    (h : ¬(c.flushClientOutbuf now results).1.outPos <
      (c.flushClientOutbuf now results).1.outbuf.length) :
    (c.flushClientOutbuf now results).1.outbuf = [] ∧
      (c.flushClientOutbuf now results).1.outPos = 0 := by
  unfold flushClientOutbuf at h hk ⊢
  dsimp only at h hk ⊢
  split_ifs at h hk ⊢ with hw hs
  · exact Client.compact_drained h
  · exact absurd hk hw

structure Pumped (id : ℕ) (c : Client) (ch : Channel) (d : Client) (ch' : Channel) : Prop where
  state : d.state = .streamOut id none false
  fd : d.stream.fd = c.stream.fd
  since : d.stream.since = c.stream.since
  token : d.token = c.token
  receiver : ch'.receiver = ch.receiver

theorem Client.SameEnds.pumped {d : Client} (h : c.SameEnds d) (ch : Channel)
    (hs : c.state = .streamOut id none false) : Pumped id c ch d ch :=
  ⟨h.state.trans hs,h.fd,h.since,h.token,rfl⟩

theorem Pumped.trans {id : ℕ} {c d e : Client} {ch ch' ch'' : Channel} (h : Pumped id c ch d ch')
    (g : Pumped id d ch' e ch'') : Pumped id c ch e ch'' :=
  ⟨g.state,g.fd.trans h.fd,g.since.trans h.since,g.token.trans h.token,g.receiver.trans h.receiver⟩

def refill (connected : Bool) (id : ℕ) (ch : Channel) (c : Client) : Channel × Client × Bool :=
  let pulled := pull connected ch.queue ⟨ch.buffered,none,c.outbuf,false,false⟩
  ({ ch with queue := pulled.1, buffered := pulled.2.buffered },
    { c with outbuf := pulled.2.outbuf ++ framesBytes pulled.2.pending.toList,
             state := .streamOut id none pulled.2.closing },pulled.2.disconnected)

theorem pull_suffix (connected : Bool) (queue : List SessionOutputChunk) (p : Pull) :
    (pull connected queue p).1 <:+ queue := by
  induction queue generalizing p with
  | nil => exact suffix_refl _
  | cons chunk queue ih =>
    simp only [pull]
    split_ifs
    · exact suffix_cons _ _
    · exact suffix_cons _ _
    · exact (ih _).trans (suffix_cons _ _)

theorem pull_progress (p : Pull) (hq : queue ≠ []) : (pull connected queue p).1.length < queue.length := by
  cases queue with
  | nil => exact absurd rfl hq
  | cons chunk queue =>
    simp only [pull, length_cons]
    split_ifs
    · exact Nat.lt_succ_self _
    · exact Nat.lt_succ_self _
    · exact Nat.lt_succ_of_le (pull_suffix _ _ _).length_le

theorem Pull.receive_disconnected (p : Pull) (chunk : SessionOutputChunk) :
    (p.receive chunk).1.disconnected = p.disconnected := by
  unfold Pull.receive
  dsimp only
  split
  · split_ifs <;> rfl
  · split_ifs <;> rfl

theorem Pull.receive_congr {q : Pull} (hb : p.outbuf = q.outbuf) (hp : p.pending = q.pending)
    (chunk : SessionOutputChunk) : (p.receive chunk).1.outbuf = (q.receive chunk).1.outbuf ∧
    (p.receive chunk).1.pending = (q.receive chunk).1.pending ∧ (p.receive chunk).2 = (q.receive chunk).2 := by
  unfold Pull.receive
  dsimp only
  rw [hb, hp]
  split
  · split_ifs <;> exact ⟨rfl,rfl,rfl⟩
  · split_ifs <;> exact ⟨rfl,rfl,rfl⟩

/-- What is framed depends neither on the counters beside it nor on the
subscription, which only decides what the end of the channel means. -/
theorem pull_congr (connected : Bool) (queue : List SessionOutputChunk) {q : Pull}
    (hb : p.outbuf = q.outbuf) (hp : p.pending = q.pending) (hd : p.disconnected = false)
    (hq : q.disconnected = false) : (pull connected queue p).1 = (pull false queue q).1 ∧
    (pull connected queue p).2.framed = (pull false queue q).2.framed ∧
    (pull connected queue p).2.disconnected = (!connected && (pull false queue q).2.disconnected) := by
  induction queue generalizing p q with
  | nil => exact ⟨rfl,by simp [pull, Pull.framed, hb, hp],by simp [pull]⟩
  | cons chunk queue ih =>
    obtain ⟨h1,h2,h3⟩ := Pull.receive_congr
      (p := { p with buffered := p.buffered - min chunk.data.length p.buffered })
      (q := { q with buffered := q.buffered - min chunk.data.length q.buffered }) hb hp chunk
    simp only [pull]
    rw [h3]
    split_ifs
    · exact ⟨rfl,by simp [Pull.framed, hb, hp],by simp [hd, hq]⟩
    · exact ⟨rfl,by simp only [Pull.framed, h1, h2],by simp [Pull.receive_disconnected, hd, hq]⟩
    · exact ih h1 h2 ((Pull.receive_disconnected _ _).trans hd) ((Pull.receive_disconnected _ _).trans hq)

theorem Pull.receive_framed_pos (p : Pull) (chunk : SessionOutputChunk) :
    0 < (p.receive chunk).1.framed.length := by
  unfold Pull.receive
  dsimp only
  split
  · split_ifs <;> simp [Pull.framed]
  · split_ifs <;> simp [Pull.framed]

theorem pull_framed_pos (h : queue ≠ [] ∨ 0 < p.framed.length) : 0 < (pull connected queue p).2.framed.length := by
  induction queue generalizing p with
  | nil => simpa [pull, Pull.framed] using h
  | cons chunk queue ih =>
    simp only [pull]
    split_ifs
    · simp [Pull.framed]
    · exact Pull.receive_framed_pos _ _
    · exact ih (.inr (Pull.receive_framed_pos _ _))

theorem pumpPasses_succ {now fuel : ℕ} {results : List WriteResult}
    (hs : c.state = .streamOut id none false) (hx : ∀ x ∈ ch.queue, x.exited = false) :
    let flushed := c.flushClientOutbuf now results
    let filled := refill connected id ch flushed.1
    pumpPasses connected now (fuel + 1) results ch c =
      if !flushed.2.1 then (ch,flushed.1,false)
      else if flushed.1.outPos < flushed.1.outbuf.length then (ch,flushed.1,true)
      else if filled.2.1.outPos = filled.2.1.outbuf.length then (filled.1,filled.2.1,!filled.2.2)
      else if filled.2.2 then
        (filled.1,(filled.2.1.flushClientOutbuf now flushed.2.2).1,false)
      else pumpPasses connected now fuel flushed.2.2 filled.1 filled.2.1 := by
  have hst := (c.flushClientOutbuf_sameEnds now results).state.trans hs
  have hc : ∀ p : Pull, (pull connected ch.queue p).2.closing = p.closing :=
    fun p => pull_closing hx
  simp only [pumpPasses, refill, hst, hc, Bool.false_eq_true, ↓reduceIte, Bool.or_false]

theorem refill_state (hx : ∀ x ∈ ch.queue, x.exited = false) :
    (refill connected id ch c).2.1.state = .streamOut id none false := by
  simp only [refill, pull_closing hx]

/-- The pump never loses, repeats or reorders a byte; what it does not send it
leaves in the channel. -/
theorem pumpPasses_inFlight {now : ℕ} (fuel : ℕ) (results : List WriteResult)
    (hs : c.state = .streamOut id none false) (h : InFlight since data c ch) :
    let r := pumpPasses connected now fuel results ch c
    InFlight since data r.2.1 r.1 ∧ Pumped id c ch r.2.1 r.1 := by
  induction fuel generalizing results ch c with
  | zero => exact ⟨h,(Client.SameEnds.refl c).pumped ch hs⟩
  | succ fuel ih =>
    have hx : ∀ x ∈ ch.queue, x.exited = false := by
      obtain ⟨_,_,_,_,_,ho⟩ := h
      exact fun x hm => (ho x (by simp [hm])).2.1
    have he := c.flushClientOutbuf_sameEnds now results
    have hf := he.inFlight h
    have hp := he.pumped ch hs
    rw [pumpPasses_succ hs hx]
    split
    · exact ⟨hf,hp⟩
    next hk =>
    split
    · exact ⟨hf,hp⟩
    next hd =>
    obtain ⟨hout,hpos⟩ := Client.flush_drained (by simpa using hk) hd
    have hfill : InFlight since data (refill connected id ch (c.flushClientOutbuf now results).1).2.1
        (refill connected id ch (c.flushClientOutbuf now results).1).1 := by
      have hcar : Framed (Carried since data)
          ((c.flushClientOutbuf now results).1.stream.sent ++ (c.flushClientOutbuf now results).1.outbuf)
          ((none : Option SessionOutputChunk).toList ++ ch.queue) := by
        simpa [InFlight, carries_iff, Client.unsent, Client.pendingChunks, hp.state, hout, hpos] using hf.2
      have hpull := pull_framed connected (carried_mergeClosed since data)
        (p := ⟨ch.buffered,none,(c.flushClientOutbuf now results).1.outbuf,false,false⟩) hcar
      refine ⟨by simp [refill, hpos],?_⟩
      rw [carries_iff]
      simpa [refill, Client.unsent, Client.pendingChunks, hpos, ← append_assoc] using hpull.frames
    have hpf : Pumped id c ch (refill connected id ch (c.flushClientOutbuf now results).1).2.1
        (refill connected id ch (c.flushClientOutbuf now results).1).1 :=
      ⟨refill_state hx,hp.fd,hp.since,hp.token,rfl⟩
    split
    · exact ⟨hfill,hpf⟩
    split
    · have hl := Client.flushClientOutbuf_sameEnds now (c.flushClientOutbuf now results).2.2
        (refill connected id ch (c.flushClientOutbuf now results).1).2.1
      exact ⟨hl.inFlight hfill,hpf.trans (hl.pumped _ hpf.state)⟩
    · have hr := ih (c.flushClientOutbuf now results).2.2 hpf.state hfill
      exact ⟨hr.1,hpf.trans hr.2⟩

end Unpeel.Session
