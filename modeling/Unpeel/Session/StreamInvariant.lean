import Unpeel.Session.StreamCarry
import Unpeel.Session.Frames

/-! # What every streaming client of a Session is owed

A client that asked for the output from an offset on has been sent, or will be
sent from its outbox and its channel, exactly the published bytes from there. A
subscriber that fell too far behind is cut off and keeps a proper prefix. The
handlers take a client out of the table and put it back, or close it.
-/
namespace Unpeel.Session
open Function

def Client.subscriber (c : Client) : Option ℕ :=
  match c.state with
  | .streamOut id _ _ => some id
  | _ => none

/-- A client between two calls of its handlers: nothing was sent during the
handshake, and the pump leaves no batch behind. -/
def Client.Settled (c : Client) : Prop :=
  match c.state with
  | .handshake _ => c.outbuf = [] ∧ c.outPos = 0 ∧ c.stream.sent = []
  | .streamIn _ => True
  | .streamOut _ pending closing => pending = none ∧ closing = false

namespace SessionIo

/-- The published output from an offset on, `base` being the first offset. -/
def streamFrom (s : SessionIo) (base since : ℕ) : List UInt8 := s.journal.drop (since - base)

def removeClient (s : SessionIo) (token : ℕ) : SessionIo :=
  { s with clients := Function.update s.clients token none }

/-- Subscriber `id` is served through client `c`. -/
structure Serves (base : ℕ) (s : SessionIo) (id : ℕ) (c : Client) : Prop where
  receiver : (s.channels id).receiver = true
  issued : id ≤ s.broadcaster.nextSubscriberId
  low : base ≤ c.stream.since
  high : c.stream.since ≤ base + s.journal.length
  flight : ∃ data, InFlight c.stream.since data c (s.channels id) ∧
    data <+: s.streamFrom base c.stream.since ∧
    (s.broadcaster.Connected id ↔ data = s.streamFrom base c.stream.since)

def Alone (s : SessionIo) (id token : ℕ) : Prop :=
  ∀ u d, u ≠ token → s.clients u = some d → d.subscriber ≠ some id

/-- The client may stand in the Session's table: it is served, and nobody else
has its subscription. -/
structure Fits (base : ℕ) (s : SessionIo) (c : Client) : Prop where
  below : c.token < s.nextToken
  settled : c.Settled
  serves : ∀ id, c.subscriber = some id → Serves base s id c
  own : ∀ id, c.subscriber = some id → s.Alone id c.token

structure Good (base : ℕ) (s : SessionIo) : Prop where
  ring : RingValid base s.journal s.broadcaster
  ids : s.broadcaster.IdsValid
  live : s.broadcaster.exited = false
  offset : s.outputOffset = s.broadcaster.nextOffset
  scanner : s.queryScanner.WellFormed
  token : ∀ token c, s.clients token = some c → c.token = token
  fits : ∀ token c, s.clients token = some c → Fits base s c

variable {base : ℕ} {s t : SessionIo}

theorem Serves.congr {id : ℕ} {c : Client} (h : Serves base s id c) (hch : t.channels id = s.channels id)
    (hn : s.broadcaster.nextSubscriberId ≤ t.broadcaster.nextSubscriberId)
    (hc : t.broadcaster.Connected id ↔ s.broadcaster.Connected id) (hj : t.journal = s.journal) :
    Serves base t id c where
  receiver := by rw [hch]; exact h.receiver
  issued := h.issued.trans hn
  low := h.low
  high := by rw [hj]; exact h.high
  flight := by
    simp only [streamFrom, hch, hj, hc]
    exact h.flight

structure SameOutput (s t : SessionIo) : Prop where
  broadcaster : t.broadcaster = s.broadcaster
  channels : t.channels = s.channels
  journal : t.journal = s.journal
  outputOffset : t.outputOffset = s.outputOffset
  nextToken : t.nextToken = s.nextToken
  clients : t.clients = s.clients
  queryScanner : t.queryScanner = s.queryScanner

theorem SameOutput.fits (h : SameOutput s t) {c : Client} (hf : Fits base s c) : Fits base t c where
  below := h.nextToken ▸ hf.below
  settled := hf.settled
  serves := fun id hid => (hf.serves id hid).congr (by rw [h.channels]) (by rw [h.broadcaster])
    (by rw [h.broadcaster]) h.journal
  own := fun id hid token d ht hd => hf.own id hid token d ht (h.clients ▸ hd)

theorem SameOutput.good (h : SameOutput s t) (hg : Good base s) : Good base t where
  ring := by rw [h.broadcaster, h.journal]; exact hg.ring
  ids := by rw [h.broadcaster]; exact hg.ids
  live := by rw [h.broadcaster]; exact hg.live
  offset := by rw [h.broadcaster, h.outputOffset]; exact hg.offset
  scanner := by rw [h.queryScanner]; exact hg.scanner
  token := by rw [h.clients]; exact hg.token
  fits := fun token c hc => h.fits (hg.fits token c (h.clients ▸ hc))

theorem OnlyInput.sameOutput (h : OnlyInput s t) : SameOutput s t := by
  obtain ⟨_,_,_,_,_,_,rfl⟩ := h
  exact ⟨rfl,rfl,rfl,rfl,rfl,rfl,rfl⟩

theorem sameOutput_dispatchWrite {writeId : Option WriteId} {data : List UInt8}
    {results : List WriteResult} {r : Except String Bool}
    (h : s.dispatchWrite writeId data results = some (t,r)) : SameOutput s t := by
  cases dispatchWrite_outcome h <;> exact ⟨rfl,rfl,rfl,rfl,rfl,rfl,rfl⟩

section Table
variable {b : OutputBroadcaster}
variable {token : ℕ}

theorem Good.remove (h : Good base s) (token : ℕ) : Good base (s.removeClient token) where
  ring := h.ring
  ids := h.ids
  live := h.live
  offset := h.offset
  scanner := h.scanner
  token := by
    intro u c hc
    simp only [removeClient, update_apply] at hc
    split at hc
    · cases hc
    · exact h.token u c hc
  fits := by
    intro u c hc
    simp only [removeClient, update_apply] at hc
    split at hc
    · cases hc
    · have hf := h.fits u c hc
      refine ⟨hf.below,hf.settled,fun id hid => (hf.serves id hid).congr rfl (Nat.le_refl _) Iff.rfl rfl,?_⟩
      intro id hid v d hv hd
      simp only [removeClient, update_apply] at hd
      split at hd
      · cases hd
      · exact hf.own id hid v d hv hd

theorem removeClient_of_ne {u : ℕ} (h : u ≠ token) : (s.removeClient token).clients u = s.clients u := update_of_ne h ..

theorem Good.takes (h : Good base s) {c : Client} (hc : s.clients token = some c) :
    Good base (s.removeClient c.token) ∧ Fits base s c :=
  ⟨h.remove _,h.fits token c hc⟩

/-- A client that fits goes back into the table. -/
theorem Good.insert {c : Client} (h : Good base (s.removeClient c.token)) (hf : Fits base s c) :
    Good base { s with clients := Function.update s.clients c.token (some c) } where
  ring := h.ring
  ids := h.ids
  live := h.live
  offset := h.offset
  scanner := h.scanner
  token := by
    intro u d hd
    by_cases hu : u = c.token
    · subst hu
      cases (update_self c.token (some c) s.clients).symm.trans hd
      rfl
    · replace hd := (update_of_ne hu ..).symm.trans hd
      exact h.token u d ((removeClient_of_ne hu).trans hd)
  fits := by
    intro u d hd
    by_cases hu : u = c.token
    · subst hu
      cases (update_self c.token (some c) s.clients).symm.trans hd
      refine ⟨hf.below,hf.settled,fun id hid => (hf.serves id hid).congr rfl (Nat.le_refl _) Iff.rfl rfl,?_⟩
      intro id hid v e hv he
      exact hf.own id hid v e hv ((update_of_ne hv ..).symm.trans he)
    · replace hd := (update_of_ne hu ..).symm.trans hd
      have hd' := (removeClient_of_ne hu).trans hd
      have hfd := h.fits u d hd'
      have htok := h.token u d hd'
      refine ⟨hfd.below,hfd.settled,fun id hid => (hfd.serves id hid).congr rfl (Nat.le_refl _) Iff.rfl rfl,?_⟩
      intro id hid v e hv he
      by_cases hvc : v = c.token
      · subst hvc
        cases (update_self c.token (some c) s.clients).symm.trans he
        exact fun hce => hf.own id hce u d hu hd hid
      · exact hfd.own id hid v e hv
          ((removeClient_of_ne hvc).trans ((update_of_ne hvc ..).symm.trans he))

theorem connected_removeSubscriber {i id : ℕ} (h : i ≠ id) : (b.removeSubscriber id).Connected i ↔ b.Connected i := by
  simp only [OutputBroadcaster.Connected, OutputBroadcaster.removeSubscriber, List.mem_map,
    List.mem_filter, bne_iff_ne]
  constructor
  · rintro ⟨x,⟨hx,_⟩,he⟩
    exact ⟨x,hx,he⟩
  · rintro ⟨x,hx,rfl⟩
    exact ⟨x,⟨hx,h⟩,rfl⟩

theorem ringValid_removeSubscriber {journal : List UInt8}
    (h : RingValid base journal b) (id : ℕ) : RingValid base journal (b.removeSubscriber id) :=
  ⟨h.next,h.bytes,h.bound,h.suffix⟩

/-- With a client out of the table, the broadcaster and the channels may change
in what concerns its subscription. -/
theorem Good.retune {id : ℕ} (h : Good base (s.removeClient token)) (ha : s.Alone id token)
    {chs : Channels} (hring : RingValid base s.journal b) (hids : b.IdsValid)
    (hlive : b.exited = false) (hoff : b.nextOffset = s.broadcaster.nextOffset)
    (hnext : s.broadcaster.nextSubscriberId ≤ b.nextSubscriberId) (hch : ∀ i, i ≠ id → chs i = s.channels i)
    (hcon : ∀ i, i ≠ id → (b.Connected i ↔ s.broadcaster.Connected i)) :
    Good base (removeClient { s with broadcaster := b, channels := chs } token) where
  ring := hring
  ids := hids
  live := hlive
  offset := h.offset.trans hoff.symm
  scanner := h.scanner
  token := h.token
  fits := by
    intro u d hd
    have hu : u ≠ token := by
      rintro rfl
      simp [removeClient] at hd
    have hfd := h.fits u d hd
    refine ⟨hfd.below,hfd.settled,?_,hfd.own⟩
    intro i hi
    have hne : i ≠ id := by
      rintro rfl
      exact ha u d hu ((removeClient_of_ne hu).symm.trans hd) hi
    exact (hfd.serves i hi).congr (hch i hne) hnext (hcon i hne) rfl

theorem Good.close {c : Client} (h : Good base (s.removeClient c.token)) (hf : Fits base s c) :
    Good base (s.closeClient c) := by
  unfold closeClient
  cases hs : c.state with
  | handshake buf | streamIn buf => exact h
  | streamOut id p cl =>
    exact h.retune (hf.own id (by simp [Client.subscriber, hs])) (ringValid_removeSubscriber h.ring id)
      (OutputBroadcaster.idsValid_removeSubscriber h.ids id) h.live rfl (Nat.le_refl _)
      (fun i hi => update_of_ne hi ..) (fun i hi => connected_removeSubscriber hi)

theorem Good.settle {c : Client} (h : Good base (s.removeClient c.token)) (hf : Fits base s c)
    (keep : Bool) : Good base (s.settleClient c keep) := by
  unfold settleClient
  split
  · exact h.insert hf
  · exact h.close hf

theorem Client.subscriber_streamOut {c : Client} {id : ℕ} {p : Option SessionOutputChunk} {cl : Bool}
    (h : c.state = .streamOut id p cl) : c.subscriber = some id := by
  simp [Client.subscriber, h]

end Table

section Text

structure SameText (s t : SessionIo) : Prop where
  journal : t.journal = s.journal
  queryScanner : t.queryScanner = s.queryScanner
  nextOffset : t.broadcaster.nextOffset = s.broadcaster.nextOffset

theorem SameOutput.text {s t : SessionIo} (h : SameOutput s t) : SameText s t :=
  ⟨h.journal,h.queryScanner,by rw [h.broadcaster]⟩

theorem OnlyClientIo.text {s t : SessionIo} (h : OnlyClientIo s t) : SameText s t := by
  obtain ⟨_,⟨_,_,_,_,_,_,rfl⟩,⟨_,_,_,_,rfl,ho⟩⟩ := h
  exact ⟨rfl,rfl,ho⟩

end Text
end SessionIo
end Unpeel.Session
