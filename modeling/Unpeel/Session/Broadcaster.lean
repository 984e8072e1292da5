import Unpeel.Session.OutputFrame

/-! # The output broadcaster and its subscriber channels

The broadcaster owns the sending halves of the subscribers' channels, the
attached clients own the receiving halves, so the channels are a store of their
own, addressed by subscriber id. A channel is disconnected once its subscriber
has left the broadcaster's list.
-/
namespace Unpeel.Session
open List

variable {subs : List OutputStreamSubscriber}

def sessionOutputStreamRecentBytes : ℕ := 128 * 1024
def sessionOutputStreamSubscriberMaxBufferedBytes : ℕ := 8 * 1024 * 1024

structure OutputStreamSubscriber where
  id : ℕ
  answersQueries : Bool
  deriving DecidableEq, Repr

structure RecentOutputChunk where
  startOffset : ℕ
  data : List UInt8
  deriving DecidableEq, Repr

structure OutputBroadcaster where
  nextSubscriberId : ℕ
  nextOffset : ℕ
  exited : Bool
  recentBytes : ℕ
  recent : List RecentOutputChunk
  subscribers : List OutputStreamSubscriber
  deriving DecidableEq, Repr

/-- One subscriber's `mpsc` channel with its shared byte counter; `receiver`
says whether the receiving half still exists. -/
structure Channel where
  queue : List SessionOutputChunk
  buffered : ℕ
  receiver : Bool
  deriving DecidableEq, Repr

abbrev Channels := ℕ → Channel

def enqueueOutputChunk (ch : Channel) (chunk : SessionOutputChunk) : Channel × Bool :=
  if sessionOutputStreamSubscriberMaxBufferedBytes < ch.buffered then (ch,false)
  else if ch.receiver then
    ({ ch with queue := ch.queue ++ [chunk], buffered := ch.buffered + chunk.data.length },true)
  else (ch,false)

/-- `subscribers.retain(enqueue)`: every subscriber is offered the chunk once. -/
def retainSubscribers (chunk : SessionOutputChunk) :
    List OutputStreamSubscriber → Channels → List OutputStreamSubscriber × Channels
  | [], chs => ([],chs)
  | s :: rest, chs =>
    let sent := enqueueOutputChunk (chs s.id) chunk
    let kept := retainSubscribers chunk rest (Function.update chs s.id sent.1)
    (if sent.2 then s :: kept.1 else kept.1,kept.2)

def evictRecent : ℕ → List RecentOutputChunk → ℕ × List RecentOutputChunk
  | bytes, [] => (bytes,[])
  | bytes, oldest :: rest =>
    if sessionOutputStreamRecentBytes < bytes then evictRecent (bytes - oldest.data.length) rest
    else (bytes,oldest :: rest)

namespace OutputBroadcaster

def atOffset (nextOffset : ℕ) : OutputBroadcaster := ⟨0,nextOffset,false,0,[],[]⟩

def oldestAvailable (b : OutputBroadcaster) : ℕ :=
  (b.recent.head?.map RecentOutputChunk.startOffset).getD b.nextOffset

def recentPiece (offset : ℕ) (chunk : RecentOutputChunk) : Option SessionOutputChunk :=
  let chunkEnd := chunk.startOffset + chunk.data.length
  let data := chunk.data.drop (offset - chunk.startOffset)
  if chunkEnd ≤ offset then none
  else if data = [] then none
  else some ⟨data,chunkEnd,false,true⟩

def exitChunk (b : OutputBroadcaster) : SessionOutputChunk := ⟨[],b.nextOffset,true,true⟩

/-- `subscribe`: the new subscriber id, refused outside the recent ring. -/
def subscribe (b : OutputBroadcaster) (chs : Channels) (offset : ℕ) (answersQueries : Bool) :
    Option (OutputBroadcaster × Channels × ℕ) :=
  if offset < b.oldestAvailable ∨ b.nextOffset < offset then none
  else
    let id := b.nextSubscriberId + 1
    let pieces := b.recent.filterMap (recentPiece offset)
    let filled := pieces.foldl (fun ch piece => (enqueueOutputChunk ch piece).1) ⟨[],0,true⟩
    if b.exited then
      let closed := (enqueueOutputChunk filled b.exitChunk).1
      some ({ b with nextSubscriberId := id },Function.update chs id closed,id)
    else
      some ({ b with nextSubscriberId := id, subscribers := b.subscribers ++ [⟨id,answersQueries⟩] },
        Function.update chs id filled,id)

def hasAnsweringSubscriber (b : OutputBroadcaster) : Bool := b.subscribers.any (·.answersQueries)

def subscriberAnswersQueries (b : OutputBroadcaster) (id : ℕ) : Bool :=
  b.subscribers.any (fun s => s.id == id && s.answersQueries)

def removeSubscriber (b : OutputBroadcaster) (id : ℕ) : OutputBroadcaster :=
  { b with subscribers := b.subscribers.filter (fun s => s.id != id) }

def hasSubscribers (b : OutputBroadcaster) : Bool := !b.subscribers.isEmpty

def releaseRecent (b : OutputBroadcaster) : OutputBroadcaster :=
  { b with recent := [], recentBytes := 0 }

def broadcastChunk (b : OutputBroadcaster) (chs : Channels) (data : List UInt8) :
    OutputBroadcaster × Channels :=
  if data = [] then (b,chs)
  else
    let nextOffset := b.nextOffset + data.length
    let ring := evictRecent (b.recentBytes + data.length) (b.recent ++ [⟨b.nextOffset,data⟩])
    let kept := retainSubscribers ⟨data,nextOffset,false,true⟩ b.subscribers chs
    ({ b with nextOffset := nextOffset, recentBytes := ring.1, recent := ring.2,
              subscribers := kept.1 },kept.2)

def markExited (b : OutputBroadcaster) (chs : Channels) : OutputBroadcaster × Channels :=
  ({ b with exited := true, subscribers := [] },(retainSubscribers b.exitChunk b.subscribers chs).2)

def Connected (b : OutputBroadcaster) (id : ℕ) : Prop := id ∈ b.subscribers.map (·.id)

instance (b : OutputBroadcaster) (id : ℕ) : Decidable (b.Connected id) :=
  inferInstanceAs (Decidable (id ∈ b.subscribers.map (·.id)))

def IdsValid (b : OutputBroadcaster) : Prop :=
  (b.subscribers.map (·.id)).Nodup ∧ ∀ id ∈ b.subscribers.map (·.id), id ≤ b.nextSubscriberId

end OutputBroadcaster

namespace OutputBroadcaster

theorem subscribe_nextOffset {b b' : OutputBroadcaster} {chs chs' : Channels} {offset id : ℕ} {answers : Bool}
    (h : b.subscribe chs offset answers = some (b',chs',id)) : b'.nextOffset = b.nextOffset := by
  unfold subscribe at h
  split_ifs at h <;> cases h <;> rfl

theorem broadcastChunk_nextOffset (b : OutputBroadcaster) (chs : Channels) (data : List UInt8) :
    (b.broadcastChunk chs data).1.nextOffset = b.nextOffset + data.length := by
  unfold broadcastChunk
  split
  · next h => simp [h]
  · rfl

end OutputBroadcaster

/-- A ring whose chunks follow each other from `start`. -/
def RecentFrom : ℕ → List RecentOutputChunk → Prop
  | _, [] => True
  | start, chunk :: rest =>
    chunk.startOffset = start ∧ chunk.data ≠ [] ∧ RecentFrom (start + chunk.data.length) rest

def recentData (recent : List RecentOutputChunk) : List UInt8 := recent.flatMap (·.data)

structure RingValid (base : ℕ) (published : List UInt8) (b : OutputBroadcaster) : Prop where
  next : b.nextOffset = base + published.length
  bytes : b.recentBytes = (recentData b.recent).length
  bound : b.recentBytes ≤ sessionOutputStreamRecentBytes
  suffix : ∃ old, published = old ++ recentData b.recent ∧ RecentFrom (base + old.length) b.recent

theorem retainSubscribers_sublist (chunk : SessionOutputChunk) (subs : List OutputStreamSubscriber)
    (chs : Channels) : (retainSubscribers chunk subs chs).1.Sublist subs := by
  induction subs generalizing chs with
  | nil => exact List.Sublist.refl _
  | cons s rest ih =>
    simp only [retainSubscribers]
    split
    · exact (ih _).cons_cons s
    · exact (ih _).cons s

theorem retainSubscribers_other {chunk : SessionOutputChunk} {chs : Channels} {i : ℕ} (hi : i ∉ subs.map (·.id)) :
    (retainSubscribers chunk subs chs).2 i = chs i := by
  induction subs generalizing chs with
  | nil => rfl
  | cons s rest ih =>
    simp only [map_cons, mem_cons, not_or] at hi
    simp only [retainSubscribers]
    rw [ih hi.2, Function.update_of_ne hi.1]

/-- A subscriber's channel gets the chunk once, and the subscriber stays exactly
when the channel took it. -/
theorem retainSubscribers_mem (chunk : SessionOutputChunk)
    (chs : Channels) {i : ℕ} (hn : (subs.map (·.id)).Nodup) (hi : i ∈ subs.map (·.id)) :
    (retainSubscribers chunk subs chs).2 i = (enqueueOutputChunk (chs i) chunk).1 ∧
    (i ∈ (retainSubscribers chunk subs chs).1.map (·.id) ↔ (enqueueOutputChunk (chs i) chunk).2 = true) := by
  induction subs generalizing chs with
  | nil => simp at hi
  | cons s rest ih =>
    simp only [map_cons, nodup_cons] at hn
    have hsub := fun chs => ((retainSubscribers_sublist chunk rest chs).map (·.id)).subset
    rcases mem_cons.mp hi with rfl | hi
    · simp only [retainSubscribers]
      refine ⟨by rw [retainSubscribers_other hn.1, Function.update_self],?_⟩
      cases hsent : (enqueueOutputChunk (chs s.id) chunk).2 with
      | true => simp
      | false => simpa using fun x hx he => hn.1 (hsub _ (mem_map.mpr ⟨x,hx,he⟩))
    · have hne : i ≠ s.id := fun h => hn.1 (h ▸ hi)
      have hrest := ih (Function.update chs s.id (enqueueOutputChunk (chs s.id) chunk).1) hn.2 hi
      rw [Function.update_of_ne hne] at hrest
      simp only [retainSubscribers]
      refine ⟨hrest.1,?_⟩
      rw [← hrest.2]
      split
      · simp [hne]
      · rfl

theorem enqueueOutputChunk_queue (ch : Channel) (chunk : SessionOutputChunk) :
    (enqueueOutputChunk ch chunk).1.queue =
      if (enqueueOutputChunk ch chunk).2 then ch.queue ++ [chunk] else ch.queue := by
  unfold enqueueOutputChunk
  split_ifs <;> simp_all

theorem enqueueOutputChunk_receiver (ch : Channel) (x : SessionOutputChunk) :
    (enqueueOutputChunk ch x).1.receiver = ch.receiver := by
  unfold enqueueOutputChunk
  split_ifs <;> rfl

theorem recentData_cons (chunk : RecentOutputChunk) (rest : List RecentOutputChunk) :
    recentData (chunk :: rest) = chunk.data ++ recentData rest := flatMap_cons

theorem recentData_append (xs ys : List RecentOutputChunk) :
    recentData (xs ++ ys) = recentData xs ++ recentData ys := flatMap_append

theorem recentFrom_append {start : ℕ} {xs ys : List RecentOutputChunk} :
    RecentFrom start (xs ++ ys) ↔
      RecentFrom start xs ∧ RecentFrom (start + (recentData xs).length) ys := by
  induction xs generalizing start with
  | nil => simp [RecentFrom, recentData]
  | cons x xs ih =>
    simp only [cons_append, RecentFrom, ih, recentData_cons, length_append, Nat.add_assoc,
      and_assoc]

theorem evictRecent_spec {start n : ℕ} {recent : List RecentOutputChunk}
    (hr : RecentFrom start recent) (hn : n = (recentData recent).length) :
    ∃ gone, recentData recent = gone ++ recentData (evictRecent n recent).2 ∧
      RecentFrom (start + gone.length) (evictRecent n recent).2 ∧
      (evictRecent n recent).1 = (recentData (evictRecent n recent).2).length ∧
      (evictRecent n recent).1 ≤ sessionOutputStreamRecentBytes := by
  induction recent generalizing start n with
  | nil =>
    subst hn
    exact ⟨[],rfl,trivial,rfl,Nat.zero_le _⟩
  | cons c rest ih =>
    simp only [evictRecent]
    split
    · obtain ⟨gone,hd,hf,hb,hm⟩ := ih (n := n - c.data.length) hr.2.2
        (by rw [hn, recentData_cons, length_append]; omega)
      refine ⟨c.data ++ gone,?_,?_,hb,hm⟩
      · rw [recentData_cons, append_assoc, ← hd]
      · rwa [length_append, ← Nat.add_assoc]
    · next h => exact ⟨[],rfl,hr,hn,Nat.le_of_not_lt h⟩

namespace OutputBroadcaster
variable {base offset : ℕ} {published : List UInt8} {b : OutputBroadcaster} {recent : List RecentOutputChunk}
variable {start : ℕ}

theorem ringValid_atOffset (base : ℕ) : RingValid base [] (atOffset base) where
  next := rfl
  bytes := rfl
  bound := Nat.zero_le _
  suffix := ⟨[],rfl,trivial⟩

theorem ringValid_releaseRecent (h : RingValid base published b) : RingValid base published b.releaseRecent where
  next := h.next
  bytes := rfl
  bound := Nat.zero_le _
  suffix := ⟨published,by simp [releaseRecent, recentData],trivial⟩

theorem ringValid_broadcastChunk (h : RingValid base published b) (chs : Channels) (data : List UInt8) :
    RingValid base (published ++ data) (b.broadcastChunk chs data).1 := by
  by_cases hd : data = []
  · simpa [broadcastChunk, hd] using h
  · obtain ⟨old,hold,hfrom⟩ := h.suffix
    have hend : base + old.length + (recentData b.recent).length = b.nextOffset := by
      rw [h.next, hold, length_append]
      omega
    have hring : RecentFrom (base + old.length) (b.recent ++ [⟨b.nextOffset,data⟩]) :=
      recentFrom_append.mpr ⟨hfrom,hend.symm,hd,trivial⟩
    obtain ⟨gone,hg,hf,hb,hm⟩ := evictRecent_spec (n := b.recentBytes + data.length) hring
      (by simp [recentData, h.bytes])
    simp only [broadcastChunk, if_neg hd]
    refine ⟨?_,hb,hm,old ++ gone,?_,?_⟩
    · simp [h.next, Nat.add_assoc]
    · rw [append_assoc, ← hg, recentData_append, hold]
      simp [recentData]
    · rwa [length_append, ← Nat.add_assoc]

theorem idsValid_atOffset (base : ℕ) : (atOffset base).IdsValid := ⟨nodup_nil,by simp [atOffset]⟩

theorem IdsValid.of_sublist (h : b.IdsValid) {subs : List OutputStreamSubscriber} (hs : subs.Sublist b.subscribers) :
    IdsValid { b with subscribers := subs } :=
  ⟨h.1.sublist (hs.map _),fun id hid => h.2 id ((hs.map _).subset hid)⟩

theorem idsValid_broadcastChunk (h : b.IdsValid) (chs : Channels)
    (data : List UInt8) : (b.broadcastChunk chs data).1.IdsValid := by
  unfold broadcastChunk
  split
  · exact h
  · exact h.of_sublist (retainSubscribers_sublist _ _ _)

theorem recentPieces_whole (hr : RecentFrom start recent) (ho : offset ≤ start) :
    chunksData (recent.filterMap (recentPiece offset)) = recentData recent ∧
      Contiguous start (recent.filterMap (recentPiece offset)) := by
  induction recent generalizing start with
  | nil => exact ⟨rfl,trivial⟩
  | cons c rest ih =>
    obtain ⟨hs,hne,hrest⟩ := hr
    have hpos := length_pos_iff.mpr hne
    have hp : recentPiece offset c = some ⟨c.data,start + c.data.length,false,true⟩ := by
      have h0 : offset - start = 0 := by omega
      have hl : ¬start + c.data.length ≤ offset := by omega
      simp [recentPiece, hs, h0, hl, hne]
    have hi := ih hrest (by omega)
    rw [filterMap_cons_some hp]
    exact ⟨by rw [chunksData_cons, recentData_cons, hi.1],rfl,hi.2⟩

/-- A subscriber inside the ring gets it from its offset on. -/
theorem recentPieces_from (hr : RecentFrom start recent) (ho : start ≤ offset)
    (hl : offset ≤ start + (recentData recent).length) :
    chunksData (recent.filterMap (recentPiece offset)) = (recentData recent).drop (offset - start) ∧
      Contiguous offset (recent.filterMap (recentPiece offset)) := by
  induction recent generalizing start with
  | nil => exact ⟨by simp [recentData],trivial⟩
  | cons c rest ih =>
    obtain ⟨hs,hne,hrest⟩ := hr
    rw [recentData_cons, length_append] at hl
    by_cases hend : start + c.data.length ≤ offset
    · have hp : recentPiece offset c = none := by simp [recentPiece, hs, hend]
      have hi := ih hrest hend (by omega)
      rw [filterMap_cons_none hp, recentData_cons, drop_append,
        drop_of_length_le (by omega), nil_append, hi.1]
      exact ⟨congrArg (fun n => (recentData rest).drop n) (by omega),hi.2⟩
    · have hd : c.data.drop (offset - start) ≠ [] := by
        rw [Ne, drop_eq_nil_iff]
        omega
      have hp : recentPiece offset c =
          some ⟨c.data.drop (offset - start),start + c.data.length,false,true⟩ := by
        simp [recentPiece, hs, hend, hd]
      have hi := recentPieces_whole hrest (show offset ≤ start + c.data.length by omega)
      rw [filterMap_cons_some hp, chunksData_cons, recentData_cons,
        drop_append_of_le_length (by omega), hi.1]
      refine ⟨rfl,?_,hi.2⟩
      simp only [length_drop]
      omega

theorem recentPieces_output (hm : (recentData recent).length ≤ sessionOutputStreamRecentBytes) :
    ∀ c ∈ recent.filterMap (recentPiece offset), OutputChunk c := by
  intro c hc
  obtain ⟨r,hr,hp⟩ := mem_filterMap.mp hc
  have hl : r.data.length ≤ (recentData recent).length := by
    induction recent with
    | nil => simp at hr
    | cons x xs ih =>
      rw [recentData_cons, length_append] at hm ⊢
      rcases mem_cons.mp hr with rfl | hr
      · omega
      · have := ih (by omega) (mem_filterMap.mpr ⟨r,hr,hp⟩) hr
        omega
  simp only [recentPiece] at hp
  split_ifs at hp with he hd
  cases hp
  refine ⟨hd,rfl,?_⟩
  have : sessionOutputStreamRecentBytes ≤ sessionOutputStreamMaxFrameBytes := by decide
  simp only [length_drop]
  omega

theorem foldl_enqueue (pieces : List SessionOutputChunk) {ch : Channel} (hr : ch.receiver = true)
    (hb : ch.buffered + (chunksData pieces).length ≤ sessionOutputStreamSubscriberMaxBufferedBytes) :
    pieces.foldl (fun ch piece => (enqueueOutputChunk ch piece).1) ch =
      ⟨ch.queue ++ pieces,ch.buffered + (chunksData pieces).length,true⟩ := by
  induction pieces generalizing ch with
  | nil => simp [← hr]
  | cons p rest ih =>
    rw [chunksData_cons, length_append] at hb
    have hp : (enqueueOutputChunk ch p).1 =
        ⟨ch.queue ++ [p],ch.buffered + p.data.length,true⟩ := by
      simp [enqueueOutputChunk, hr, show ¬sessionOutputStreamSubscriberMaxBufferedBytes < ch.buffered by omega]
    rw [foldl_cons, hp, ih rfl (by dsimp only; omega)]
    simp [Nat.add_assoc]

theorem oldestAvailable_of_recentFrom
    (hr : RecentFrom start b.recent) (he : start + (recentData b.recent).length = b.nextOffset) :
    b.oldestAvailable = start := by
  unfold oldestAvailable
  cases hc : b.recent with
  | nil => simpa [hc, recentData] using he.symm
  | cons c rest =>
    rw [hc] at hr
    simpa using hr.1

/-- The replay of the ring to a subscriber inside it: the published bytes from its
offset on, all of which its fresh channel takes. -/
theorem replay_spec (hr : RingValid base published b) (ho : b.oldestAvailable ≤ offset) (hn : offset ≤ b.nextOffset) :
    ∃ pieces, b.recent.filterMap (recentPiece offset) = pieces ∧
      pieces.foldl (fun ch piece => (enqueueOutputChunk ch piece).1) ⟨[],0,true⟩ =
        ⟨pieces,(chunksData pieces).length,true⟩ ∧
      (chunksData pieces).length ≤ sessionOutputStreamSubscriberMaxBufferedBytes ∧
      (∃ pre, published = pre ++ chunksData pieces ∧ base + pre.length = offset) ∧
      Contiguous offset pieces ∧ ∀ c ∈ pieces, OutputChunk c := by
  obtain ⟨old,hold,hfrom⟩ := hr.suffix
  have hend : base + old.length + (recentData b.recent).length = b.nextOffset := by
    rw [hr.next, hold, length_append]
    omega
  rw [oldestAvailable_of_recentFrom hfrom hend] at ho
  obtain ⟨hdata,hcont⟩ := recentPieces_from hfrom ho (by omega)
  have hlen : (chunksData (b.recent.filterMap (recentPiece offset))).length ≤
      sessionOutputStreamSubscriberMaxBufferedBytes := by
    rw [hdata, length_drop, ← hr.bytes]
    exact ((Nat.sub_le _ _).trans hr.bound).trans (by decide)
  refine ⟨_,rfl,?_,hlen,⟨old ++ (recentData b.recent).take (offset - (base + old.length)),?_,?_⟩,hcont,
    recentPieces_output (hr.bytes ▸ hr.bound)⟩
  · rw [foldl_enqueue _ rfl (by dsimp only; omega)]
    simp
  · rw [hdata, append_assoc, take_append_drop, hold]
  · rw [length_append, length_take]
    omega

/-- A subscriber starts with a fresh id and exactly the published bytes from its
offset on in its channel. -/
theorem subscribe_spec {b' : OutputBroadcaster}
    (hr : RingValid base published b) (hx : b.exited = false) {chs chs' : Channels}
    {id : ℕ} {answers : Bool} (h : b.subscribe chs offset answers = some (b',chs',id)) :
    id = b.nextSubscriberId + 1 ∧
    b' = { b with nextSubscriberId := id, subscribers := b.subscribers ++ [⟨id,answers⟩] } ∧
    ∃ ch, chs' = Function.update chs id ch ∧ ch.receiver = true ∧
      (∃ pre, published = pre ++ chunksData ch.queue ∧ base + pre.length = offset) ∧
      Contiguous offset ch.queue ∧ ∀ c ∈ ch.queue, OutputChunk c := by
  unfold subscribe at h
  by_cases hout : offset < b.oldestAvailable ∨ b.nextOffset < offset
  · rw [if_pos hout] at h
    cases h
  have ho : b.oldestAvailable ≤ offset ∧ offset ≤ b.nextOffset := by omega
  obtain ⟨pieces,hp,hfill,-,hpub,hcont,hall⟩ := replay_spec hr ho.1 ho.2
  simp only [if_neg hout, hx, Bool.false_eq_true, ↓reduceIte, hp, hfill, Option.some.injEq, Prod.mk.injEq] at h
  obtain ⟨rfl,rfl,rfl⟩ := h
  exact ⟨rfl,by rw [hx],_,rfl,rfl,hpub,hcont,hall⟩

theorem idsValid_subscribe (h : b.IdsValid) (answers : Bool) :
    IdsValid { b with nextSubscriberId := b.nextSubscriberId + 1,
                      subscribers := b.subscribers ++ [⟨b.nextSubscriberId + 1,answers⟩] } := by
  constructor
  · simp only [map_append, map_cons, map_nil]
    rw [nodup_append]
    refine ⟨h.1,by simp,?_⟩
    intro x hx y hy
    have := h.2 x hx
    simp only [mem_singleton] at hy
    omega
  · intro id hid
    simp only [map_append, map_cons, map_nil, mem_append, mem_singleton] at hid
    rcases hid with hid | rfl
    · exact (h.2 id hid).trans (Nat.le_succ _)
    · exact Nat.le_refl _

theorem idsValid_removeSubscriber (h : b.IdsValid) (id : ℕ) : (b.removeSubscriber id).IdsValid := h.of_sublist filter_sublist

end OutputBroadcaster
end Unpeel.Session
