import Unpeel.Foundation.Runs
import Unpeel.Session.Broadcaster

/-! # What the broadcaster delivers

The broadcaster with the lifetime stream it has published so far, the offset each
subscriber was accepted at, and what each receiver has taken from its channel. The
operations come in any order, and receivers read and hang up at any time.
-/
namespace Unpeel.Session
open Runs OutputBroadcaster List Function

structure Broadcast where
  base : ℕ
  broadcaster : OutputBroadcaster
  channels : Channels
  published : List UInt8
  /-- How much had been published when the Session exited. -/
  exitedAt : Option ℕ
  since : ℕ → Option ℕ
  received : ℕ → List SessionOutputChunk

inductive BroadcastEvent where
  | broadcastChunk (data : List UInt8)
  | subscribe (offset : ℕ) (answersQueries : Bool)
  | removeSubscriber (id : ℕ)
  | releaseRecent
  | markExited
  | receive (id : ℕ)
  | hangUp (id : ℕ)

def startBroadcast (base : ℕ) : Broadcast where
  base := base
  broadcaster := .atOffset base
  channels := fun _ => ⟨[],0,false⟩
  published := []
  exitedAt := none
  since := fun _ => none
  received := fun _ => []

def broadcastStep (s : Broadcast) : BroadcastEvent → Option Broadcast
  | .broadcastChunk data =>
    let (broadcaster,channels) := s.broadcaster.broadcastChunk s.channels data
    some { s with broadcaster := broadcaster, channels := channels, published := s.published ++ data }
  | .subscribe offset answersQueries =>
    match s.broadcaster.subscribe s.channels offset answersQueries with
    | none => some s
    | some (broadcaster,channels,id) => some { s with
        broadcaster := broadcaster
        channels := channels
        since := Function.update s.since id (some offset)
        received := Function.update s.received id [] }
  | .removeSubscriber id => some { s with broadcaster := s.broadcaster.removeSubscriber id }
  | .releaseRecent => some { s with broadcaster := s.broadcaster.releaseRecent }
  | .markExited =>
    let (broadcaster,channels) := s.broadcaster.markExited s.channels
    some { s with
      broadcaster := broadcaster
      channels := channels
      exitedAt := if s.broadcaster.exited then s.exitedAt else some s.published.length }
  | .receive id =>
    let ch := s.channels id
    match ch.queue with
    | [] => none
    | chunk :: rest => some { s with
        channels := Function.update s.channels id
          { ch with queue := rest, buffered := ch.buffered - min chunk.data.length ch.buffered }
        received := Function.update s.received id (s.received id ++ [chunk]) }
  | .hangUp id => some { s with
      channels := Function.update s.channels id { s.channels id with receiver := false } }

def Broadcast.delivered (s : Broadcast) (id : ℕ) : List SessionOutputChunk :=
  s.received id ++ (s.channels id).queue

/-- The chunks are the lifetime stream from `offset`, as far as they go, each with
its own end; after the exited chunk there is none, and before it all that was
published up to the exit. -/
structure StreamFrom (s : Broadcast) (offset : ℕ) (chunks : List SessionOutputChunk) : Prop where
  stream : ∃ pre, pre ++ chunksData chunks <+: s.published ∧ s.base + pre.length = offset
  offsets : Contiguous offset chunks
  exit : ∀ xs c ys, chunks = xs ++ c :: ys → c.exited = true →
    ys = [] ∧ ∃ n, s.exitedAt = some n ∧ s.base + n ≤ offset + (chunksData xs).length

/-- What the broadcaster promises: every subscriber finds the stream from where it
was accepted, and it is accepted from the oldest retained byte on. -/
structure DeliverySafe (s : Broadcast) : Prop where
  streams : ∀ id offset, s.since id = some offset → StreamFrom s offset (s.delivered id)
  refuses : ∃ old, s.published = old ++ recentData s.broadcaster.recent ∧
    ∀ offset answersQueries, s.broadcaster.subscribe s.channels offset answersQueries = none ↔
      offset ∉ Set.Icc (s.base + old.length) (s.base + s.published.length)

structure Current (s : Broadcast) (offset : ℕ) (chunks : List SessionOutputChunk) : Prop where
  stream : ∃ pre, s.published = pre ++ chunksData chunks ∧ s.base + pre.length = offset
  offsets : Contiguous offset chunks
  running : ∀ c ∈ chunks, c.exited = false

section Streams
variable {s t : Broadcast} {offset : ℕ} {chunks : List SessionOutputChunk}

theorem StreamFrom.mono (h : StreamFrom s offset chunks) (hbase : t.base = s.base)
    (hpub : s.published <+: t.published) (hexit : ∀ n, s.exitedAt = some n → t.exitedAt = some n) :
    StreamFrom t offset chunks where
  stream := by
    obtain ⟨pre,hpre,ho⟩ := h.stream
    exact ⟨pre,hpre.trans hpub,hbase ▸ ho⟩
  offsets := h.offsets
  exit := by
    intro xs c ys he hc
    obtain ⟨hys,n,hn,hle⟩ := h.exit xs c ys he hc
    exact ⟨hys,n,hexit n hn,hbase ▸ hle⟩

theorem Current.streamFrom (h : Current s offset chunks) : StreamFrom s offset chunks where
  stream := by
    obtain ⟨pre,hpre,ho⟩ := h.stream
    exact ⟨pre,hpre ▸ prefix_rfl,ho⟩
  offsets := h.offsets
  exit := by
    intro xs c ys he hc
    have hrun := h.running c (by simp [he])
    rw [hc] at hrun
    cases hrun

theorem Current.length (h : Current s offset chunks) :
    offset + (chunksData chunks).length = s.base + s.published.length := by
  obtain ⟨pre,hpre,rfl⟩ := h.stream
  rw [hpre, length_append, Nat.add_assoc]

theorem Current.push (h : Current s offset chunks) (hbase : t.base = s.base) {data : List UInt8}
    (hpub : t.published = s.published ++ data) {nextOffset : ℕ}
    (hnext : nextOffset = s.base + s.published.length + data.length) :
    Current t offset (chunks ++ [⟨data,nextOffset,false,true⟩]) where
  stream := by
    obtain ⟨pre,hpre,ho⟩ := h.stream
    exact ⟨pre,by simp [hpub, hpre],hbase ▸ ho⟩
  offsets := by
    rw [contiguous_append]
    refine ⟨h.offsets,?_,trivial⟩
    rw [h.length]
    exact hnext
  running := by
    intro c hc
    rcases mem_append.mp hc with hc | hc
    · exact h.running c hc
    · rw [mem_singleton.mp hc]

/-- A current subscriber that is told of the exit has everything from before it. -/
theorem Current.close (h : Current s offset chunks) (hbase : t.base = s.base)
    (hpub : t.published = s.published) {n : ℕ} (hexit : t.exitedAt = some n) (hn : n ≤ s.published.length)
    {nextOffset : ℕ} (hnext : nextOffset = s.base + s.published.length) :
    StreamFrom t offset (chunks ++ [⟨[],nextOffset,true,true⟩]) where
  stream := by
    obtain ⟨pre,hpre,ho⟩ := h.stream
    exact ⟨pre,by simp [hpub, hpre],hbase ▸ ho⟩
  offsets := by
    rw [contiguous_append]
    refine ⟨h.offsets,?_,trivial⟩
    rw [h.length]
    exact hnext
  exit := by
    intro xs c ys he hc
    rcases eq_nil_or_concat ys with rfl | ⟨zs,z,rfl⟩
    · obtain ⟨rfl,-⟩ := append_inj' he rfl
      have hlen := h.length
      exact ⟨rfl,n,hexit,by omega⟩
    · -- then `c` stands among the chunks from before the exit
      rw [concat_eq_append, ← cons_append, ← append_assoc] at he
      obtain ⟨hchunks,-⟩ := append_inj' he rfl
      have hrun := h.running c (by simp [hchunks])
      rw [hc] at hrun
      cases hrun

end Streams

structure DeliveryInv (s : Broadcast) : Prop where
  ring : RingValid s.base s.published s.broadcaster
  ids : s.broadcaster.IdsValid
  issued : ∀ id offset, s.since id = some offset → id ≤ s.broadcaster.nextSubscriberId
  streams : ∀ id offset, s.since id = some offset → StreamFrom s offset (s.delivered id)
  live : ∀ id, s.broadcaster.Connected id → ∃ offset, s.since id = some offset ∧ Current s offset (s.delivered id)
  exited : s.broadcaster.exited = s.exitedAt.isSome
  exitedAt : ∀ n, s.exitedAt = some n → n ≤ s.published.length ∧ s.broadcaster.subscribers = []

theorem DeliveryInv.start (base : ℕ) : DeliveryInv (startBroadcast base) where
  ring := ringValid_atOffset base
  ids := idsValid_atOffset base
  issued := by simp [startBroadcast]
  streams := by simp [startBroadcast]
  live := by simp [startBroadcast, Connected, atOffset]
  exited := rfl
  exitedAt := by simp [startBroadcast]

theorem subscribe_eq_none {b : OutputBroadcaster} {chs : Channels} {offset : ℕ} {answers : Bool} :
    b.subscribe chs offset answers = none ↔ offset < b.oldestAvailable ∨ b.nextOffset < offset := by
  unfold subscribe
  split_ifs with h1 h2 <;> simp [h1]

theorem DeliveryInv.safe {s : Broadcast} (h : DeliveryInv s) : DeliverySafe s where
  streams := h.streams
  refuses := by
    obtain ⟨old,hold,hfrom⟩ := h.ring.suffix
    have hend : s.base + old.length + (recentData s.broadcaster.recent).length = s.broadcaster.nextOffset := by
      rw [h.ring.next, hold, length_append, Nat.add_assoc]
    refine ⟨old,hold,fun offset answers => ?_⟩
    rw [subscribe_eq_none, oldestAvailable_of_recentFrom hfrom hend, h.ring.next, Set.mem_Icc]
    omega

/-- Offering a chunk to all subscribers: a channel gets it at its end or not at all, and
not at all only if the subscriber is dropped. -/
theorem delivered_retain {s : Broadcast} (h : s.broadcaster.IdsValid) (chunk : SessionOutputChunk) (id : ℕ) :
    (s.received id ++ ((retainSubscribers chunk s.broadcaster.subscribers s.channels).2 id).queue = s.delivered id ∧
      id ∉ (retainSubscribers chunk s.broadcaster.subscribers s.channels).1.map (·.id)) ∨
    (s.received id ++ ((retainSubscribers chunk s.broadcaster.subscribers s.channels).2 id).queue =
      s.delivered id ++ [chunk] ∧ s.broadcaster.Connected id) := by
  by_cases hid : s.broadcaster.Connected id
  · obtain ⟨hch,hkept⟩ := retainSubscribers_mem chunk s.channels h.1 hid
    rw [hch, hkept, enqueueOutputChunk_queue]
    by_cases hsent : (enqueueOutputChunk (s.channels id) chunk).2 = true
    · rw [if_pos hsent]
      exact Or.inr ⟨(append_assoc _ _ _).symm,hid⟩
    · rw [if_neg hsent]
      exact Or.inl ⟨rfl,hsent⟩
  · rw [retainSubscribers_other hid]
    exact Or.inl ⟨rfl,fun hmem => hid (((retainSubscribers_sublist _ _ _).map _).subset hmem)⟩

namespace DeliveryInv
variable {s : Broadcast}

theorem broadcastChunk (h : DeliveryInv s) {data : List UInt8} (hd : data ≠ []) :
    DeliveryInv { s with broadcaster := (s.broadcaster.broadcastChunk s.channels data).1
                         channels := (s.broadcaster.broadcastChunk s.channels data).2
                         published := s.published ++ data } := by
  have hring := ringValid_broadcastChunk h.ring s.channels data
  have hids := idsValid_broadcastChunk h.ids s.channels data
  simp only [OutputBroadcaster.broadcastChunk, if_neg hd] at hring hids ⊢
  have hnext : s.broadcaster.nextOffset + data.length = s.base + s.published.length + data.length := by
    rw [h.ring.next]
  constructor
  case ring => exact hring
  case ids => exact hids
  case issued => exact h.issued
  case streams =>
    intro id offset hsince
    unfold Broadcast.delivered
    obtain ⟨hsame,-⟩ | ⟨hmore,hid⟩ := delivered_retain h.ids
      ⟨data,s.broadcaster.nextOffset + data.length,false,true⟩ id
    · rw [hsame]
      exact (h.streams id offset hsince).mono rfl (prefix_append _ _) fun _ hn => hn
    · rw [hmore]
      obtain ⟨offset',hsince',hcur⟩ := h.live id hid
      obtain rfl : offset' = offset := Option.some.inj (hsince'.symm.trans hsince)
      apply Current.streamFrom
      refine hcur.push ?_ ?_ hnext <;> rfl
  case live =>
    intro id hid
    unfold Broadcast.delivered
    obtain ⟨-,hgone⟩ | ⟨hmore,hconn⟩ := delivered_retain h.ids
      ⟨data,s.broadcaster.nextOffset + data.length,false,true⟩ id
    · exact absurd hid hgone
    · rw [hmore]
      obtain ⟨offset,hsince,hcur⟩ := h.live id hconn
      refine ⟨offset,hsince,hcur.push ?_ ?_ hnext⟩ <;> rfl
  case exited => exact h.exited
  case exitedAt =>
    intro n hn
    obtain ⟨hle,hsubs⟩ := h.exitedAt n hn
    rw [hsubs, length_append]
    exact ⟨by omega,rfl⟩

theorem markExited (h : DeliveryInv s) :
    DeliveryInv { s with
      broadcaster := (s.broadcaster.markExited s.channels).1
      channels := (s.broadcaster.markExited s.channels).2
      exitedAt := if s.broadcaster.exited then s.exitedAt else some s.published.length } := by
  have hkeep : ∀ n, s.exitedAt = some n →
      (if s.broadcaster.exited then s.exitedAt else some s.published.length) = some n := by
    intro n hn
    rw [h.exited, hn]
    rfl
  have hsome : ∃ n, (if s.broadcaster.exited then s.exitedAt else some s.published.length) = some n ∧
      n ≤ s.published.length := by
    cases he : s.exitedAt with
    | none =>
      rw [h.exited, he]
      exact ⟨_,rfl,le_rfl⟩
    | some n => exact ⟨n,he ▸ hkeep n he,(h.exitedAt n he).1⟩
  simp only [OutputBroadcaster.markExited]
  constructor
  case ring => exact ⟨h.ring.next,h.ring.bytes,h.ring.bound,h.ring.suffix⟩
  case ids => exact h.ids.of_sublist (nil_sublist _)
  case issued => exact h.issued
  case streams =>
    intro id offset hsince
    unfold Broadcast.delivered
    obtain ⟨hsame,-⟩ | ⟨hmore,hid⟩ := delivered_retain h.ids s.broadcaster.exitChunk id
    · rw [hsame]
      exact (h.streams id offset hsince).mono rfl prefix_rfl hkeep
    · rw [hmore]
      obtain ⟨offset',hsince',hcur⟩ := h.live id hid
      obtain rfl : offset' = offset := Option.some.inj (hsince'.symm.trans hsince)
      obtain ⟨n,hn,hle⟩ := hsome
      refine hcur.close ?_ ?_ hn hle h.ring.next <;> rfl
  case live => simp [Connected]
  case exited =>
    obtain ⟨n,hn,-⟩ := hsome
    rw [hn]
    rfl
  case exitedAt =>
    intro n hn
    obtain ⟨m,hm,hle⟩ := hsome
    obtain rfl : m = n := Option.some.inj (hm.symm.trans hn)
    exact ⟨hle,rfl⟩

/-- Operations on the subscribers' list and the ring only, that drop what they drop. -/
theorem shrink (h : DeliveryInv s) {b : OutputBroadcaster} (hring : RingValid s.base s.published b)
    (hsubs : b.subscribers.Sublist s.broadcaster.subscribers)
    (hnext : b.nextSubscriberId = s.broadcaster.nextSubscriberId) (hexited : b.exited = s.broadcaster.exited) :
    DeliveryInv { s with broadcaster := b } where
  ring := hring
  ids := by
    refine ⟨h.ids.1.sublist (hsubs.map _),fun id hid => ?_⟩
    rw [hnext]
    exact h.ids.2 id ((hsubs.map _).subset hid)
  issued := by
    intro id offset hsince
    dsimp only
    rw [hnext]
    exact h.issued id offset hsince
  streams := fun id offset hsince => (h.streams id offset hsince).mono rfl prefix_rfl fun _ hn => hn
  live := by
    intro id hid
    obtain ⟨offset,hsince,hcur⟩ := h.live id ((hsubs.map _).subset hid)
    exact ⟨offset,hsince,hcur.stream,hcur.offsets,hcur.running⟩
  exited := hexited.trans h.exited
  exitedAt := by
    intro n hn
    obtain ⟨hle,hnil⟩ := h.exitedAt n hn
    exact ⟨hle,List.sublist_nil.mp (hnil ▸ hsubs)⟩

/-- What receivers do changes nothing of what was delivered. -/
theorem redeliver (h : DeliveryInv s) {channels : Channels} {received : ℕ → List SessionOutputChunk}
    (hd : ∀ id, received id ++ (channels id).queue = s.delivered id) :
    DeliveryInv { s with channels := channels, received := received } where
  ring := h.ring
  ids := h.ids
  issued := h.issued
  streams := by
    intro id offset hsince
    have hdel : Broadcast.delivered { s with channels := channels, received := received } id = s.delivered id :=
      hd id
    rw [hdel]
    exact (h.streams id offset hsince).mono rfl prefix_rfl fun _ hn => hn
  live := by
    intro id hid
    have hdel : Broadcast.delivered { s with channels := channels, received := received } id = s.delivered id :=
      hd id
    rw [hdel]
    obtain ⟨offset,hsince,hcur⟩ := h.live id hid
    exact ⟨offset,hsince,hcur.stream,hcur.offsets,hcur.running⟩
  exited := h.exited
  exitedAt := h.exitedAt

/-- A subscriber with a new id, that is listed only while the Session runs. -/
theorem welcome (h : DeliveryInv s) {subs : List OutputStreamSubscriber} {ch : Channel} {offset : ℕ} (answers : Bool)
    (hsubs : subs = s.broadcaster.subscribers ∨ s.broadcaster.exited = false ∧
      subs = s.broadcaster.subscribers ++ [⟨s.broadcaster.nextSubscriberId + 1,answers⟩])
    (hstream : StreamFrom s offset ch.queue) (hcur : s.broadcaster.exited = false → Current s offset ch.queue) :
    DeliveryInv { s with
      broadcaster := { s.broadcaster with
        nextSubscriberId := s.broadcaster.nextSubscriberId + 1, subscribers := subs }
      channels := Function.update s.channels (s.broadcaster.nextSubscriberId + 1) ch
      since := Function.update s.since (s.broadcaster.nextSubscriberId + 1) (some offset)
      received := Function.update s.received (s.broadcaster.nextSubscriberId + 1) [] } := by
  have hnew (id : ℕ) (hid : id ≠ s.broadcaster.nextSubscriberId + 1) :
      Function.update s.received (s.broadcaster.nextSubscriberId + 1) [] id ++
        (Function.update s.channels (s.broadcaster.nextSubscriberId + 1) ch id).queue = s.delivered id := by
    rw [update_of_ne hid, update_of_ne hid]
    rfl
  constructor
  case ring => exact ⟨h.ring.next,h.ring.bytes,h.ring.bound,h.ring.suffix⟩
  case ids =>
    rcases hsubs with rfl | ⟨-,rfl⟩
    · exact ⟨h.ids.1,fun id hid => (h.ids.2 id hid).trans (Nat.le_succ _)⟩
    · exact idsValid_subscribe h.ids answers
  case issued =>
    intro id offset' hsince
    by_cases hid : id = s.broadcaster.nextSubscriberId + 1
    · exact hid.le
    · dsimp only at hsince
      rw [update_of_ne hid] at hsince
      exact (h.issued id offset' hsince).trans (Nat.le_succ _)
  case streams =>
    intro id offset' hsince
    unfold Broadcast.delivered
    dsimp only at hsince ⊢
    by_cases hid : id = s.broadcaster.nextSubscriberId + 1
    · subst hid
      rw [update_self, Option.some.injEq] at hsince
      subst hsince
      rw [update_self, update_self, nil_append]
      exact hstream.mono rfl prefix_rfl fun _ hn => hn
    · rw [update_of_ne hid] at hsince
      rw [hnew id hid]
      exact (h.streams id offset' hsince).mono rfl prefix_rfl fun _ hn => hn
  case live =>
    intro id hconn
    unfold Broadcast.delivered
    dsimp only
    by_cases hid : id = s.broadcaster.nextSubscriberId + 1
    · subst hid
      rw [update_self, update_self, update_self, nil_append]
      rcases hsubs with rfl | ⟨hrun,-⟩
      · -- the old subscribers have smaller ids
        have hle := h.ids.2 _ hconn
        omega
      · have hc := hcur hrun
        exact ⟨offset,rfl,hc.stream,hc.offsets,hc.running⟩
    · have hold : s.broadcaster.Connected id := by
        rcases hsubs with rfl | ⟨-,rfl⟩
        · exact hconn
        · simpa [Connected, hid] using hconn
      obtain ⟨offset',hsince,hc⟩ := h.live id hold
      rw [update_of_ne hid, hnew id hid]
      exact ⟨offset',hsince,hc.stream,hc.offsets,hc.running⟩
  case exited => exact h.exited
  case exitedAt =>
    intro n hn
    obtain ⟨hle,hnil⟩ := h.exitedAt n hn
    refine ⟨hle,?_⟩
    rcases hsubs with rfl | ⟨hrun,-⟩
    · exact hnil
    · rw [h.exited, show s.exitedAt = some n from hn] at hrun
      cases hrun

/-- What `subscribe` gives the subscriber is the stream from its offset. -/
theorem subscribe (h : DeliveryInv s) {offset id : ℕ} {answers : Bool} {b : OutputBroadcaster} {channels : Channels}
    (hsub : s.broadcaster.subscribe s.channels offset answers = some (b,channels,id)) :
    DeliveryInv { s with broadcaster := b, channels := channels
                         since := Function.update s.since id (some offset)
                         received := Function.update s.received id [] } := by
  have hin : ¬(offset < s.broadcaster.oldestAvailable ∨ s.broadcaster.nextOffset < offset) := by
    rw [← subscribe_eq_none, hsub]
    exact Option.some_ne_none _
  obtain ⟨pieces,hp,hfill,hlen,hpub,hcont,hout⟩ := replay_spec h.ring (Nat.not_lt.mp (not_or.mp hin).1)
    (Nat.not_lt.mp (not_or.mp hin).2)
  have hcur : Current s offset pieces := ⟨hpub,hcont,fun c hc => (hout c hc).2.1⟩
  simp only [OutputBroadcaster.subscribe, if_neg hin, hp, hfill] at hsub
  by_cases hexited : s.broadcaster.exited = true
  · rw [if_pos hexited, Option.some.injEq, Prod.mk.injEq, Prod.mk.injEq] at hsub
    obtain ⟨rfl,rfl,rfl⟩ := hsub
    obtain ⟨n,hn⟩ : ∃ n, s.exitedAt = some n := Option.isSome_iff_exists.mp (h.exited ▸ hexited)
    have hroom : (enqueueOutputChunk ⟨pieces,(chunksData pieces).length,true⟩ s.broadcaster.exitChunk).1.queue =
        pieces ++ [s.broadcaster.exitChunk] := by
      simp [enqueueOutputChunk, Nat.not_lt.mpr hlen]
    refine h.welcome answers (Or.inl rfl) ?_ fun hrun => by simp [hexited] at hrun
    rw [hroom]
    exact hcur.close rfl rfl hn (h.exitedAt n hn).1 h.ring.next
  · rw [if_neg hexited, Option.some.injEq, Prod.mk.injEq, Prod.mk.injEq] at hsub
    obtain ⟨rfl,rfl,rfl⟩ := hsub
    exact h.welcome answers (Or.inr ⟨Bool.eq_false_of_not_eq_true hexited,rfl⟩) hcur.streamFrom fun _ => hcur

theorem step (h : DeliveryInv s) {event : BroadcastEvent} {t : Broadcast}
    (ht : broadcastStep s event = some t) : DeliveryInv t := by
  cases event with
  | broadcastChunk data =>
    simp only [broadcastStep, Option.some.injEq] at ht
    subst ht
    by_cases hd : data = []
    · subst hd
      simpa [OutputBroadcaster.broadcastChunk] using h
    · exact h.broadcastChunk hd
  | subscribe offset answers =>
    cases hsub : s.broadcaster.subscribe s.channels offset answers with
    | none =>
      simp only [broadcastStep, hsub, Option.some.injEq] at ht
      exact ht ▸ h
    | some r =>
      simp only [broadcastStep, hsub, Option.some.injEq] at ht
      subst ht
      exact h.subscribe hsub
  | removeSubscriber id =>
    cases ht
    exact h.shrink ⟨h.ring.next,h.ring.bytes,h.ring.bound,h.ring.suffix⟩ filter_sublist rfl rfl
  | releaseRecent =>
    cases ht
    exact h.shrink (ringValid_releaseRecent h.ring) (List.Sublist.refl _) rfl rfl
  | markExited =>
    cases ht
    exact h.markExited
  | receive id =>
    cases hq : (s.channels id).queue with
    | nil => simp [broadcastStep, hq] at ht
    | cons chunk rest =>
      simp only [broadcastStep, hq, Option.some.injEq] at ht
      subst ht
      apply h.redeliver
      intro id'
      by_cases hid : id' = id
      · subst hid
        simp [Broadcast.delivered, hq]
      · simp [Broadcast.delivered, update_of_ne hid]
  | hangUp id =>
    cases ht
    apply h.redeliver
    intro id'
    by_cases hid : id' = id
    · subst hid
      simp [Broadcast.delivered]
    · simp [Broadcast.delivered, update_of_ne hid]

end DeliveryInv

/-- In every run, from any lifetime offset, every subscriber finds the stream from
where it was accepted. -/
theorem broadcaster_delivers (base : ℕ) (events : List BroadcastEvent) :
    Always broadcastStep DeliverySafe (startBroadcast base) events :=
  always_of_invariant (fun _ _ _ hs ht => hs.step ht) (fun _ hs => hs.safe) (DeliveryInv.start base) events

end Unpeel.Session
