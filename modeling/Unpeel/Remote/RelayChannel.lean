import Mathlib.Data.List.Nodup
import Unpeel.Foundation.Increasing
import Unpeel.Foundation.Runs
import Unpeel.Remote.RelayCrypto

/-! # The end-to-end channel through the relay

Both ends and everything that was ever sealed. The cipher is ideal: it opens what
some seal has made, under that key and nonce, and nothing else. The network
delivers any bytes to either side at any time.
-/
namespace Unpeel.Remote
open BigEndian Runs CryptoSession

structure SealedBox where
  sender : Side
  counter : ℕ
  key : Bytes
  nonce : Bytes
  ciphertext : Bytes
  plaintext : Bytes

/-- Both ends of a channel, everything that was ever sealed, and what each side
has accepted. -/
structure Channel where
  session : Side → CryptoSession
  boxes : List SealedBox
  accepted : Side → List SealedBox

namespace Channel

def sealedBy (s : Channel) (side : Side) : List SealedBox := s.boxes.filter (·.sender = side)

def boxOf (s : Channel) (key nonce ciphertext : Bytes) : Option SealedBox :=
  s.boxes.find? (fun b => b.key = key ∧ b.nonce = nonce ∧ b.ciphertext = ciphertext)

end Channel

def connect (deriveKey : Bytes → Bytes → String → Bytes) (e2eKey shared clientSalt hostSalt : Bytes) :
    Except CryptoError Channel := do
  let host ← CryptoSession.new deriveKey e2eKey shared clientSalt hostSalt .host
  let client ← CryptoSession.new deriveKey e2eKey shared clientSalt hostSalt .client
  .ok ⟨fun side => match side with | .host => host | .client => client,[],fun _ => []⟩

/-- A side seals, the cipher answering with any ciphertext or failing; or the
network hands it any bytes. -/
inductive ChannelEvent where
  | sealFrame (side : Side) (plaintext : Bytes) (ciphertext : Option Bytes)
  | openFrame (side : Side) (frame : Bytes)

def channelStep (s : Channel) : ChannelEvent → Option Channel
  | .sealFrame side plaintext ciphertext =>
    let (session,result) := (s.session side).sealFrame (fun _ _ _ => ciphertext) plaintext
    match result, ciphertext with
    | .ok _, some body => some { s with
        session := Function.update s.session side session
        boxes := s.boxes ++ [⟨side,session.sendCounter,session.sendKey,
          nonce session.sendTag session.sendCounter,body,plaintext⟩] }
    | _, _ => some { s with session := Function.update s.session side session }
  | .openFrame side frame =>
    let session := s.session side
    let found := s.boxOf session.receiveKey (nonce session.receiveTag (readBe (frame.take 8))) (frame.drop 8)
    let (session,result) := session.openFrame (fun _ _ _ => found.map SealedBox.plaintext) frame
    match result, found with
    | .ok _, some box => some { s with
        session := Function.update s.session side session
        accepted := Function.update s.accepted side (s.accepted side ++ [box]) }
    | _, _ => some { s with session := Function.update s.session side session }

structure ChannelSafe (s : Channel) : Prop where
  delivered : ∀ side, ((s.accepted side).map SealedBox.plaintext).Sublist
    ((s.sealedBy side.other).map SealedBox.plaintext)
  rejects : ∀ side, (s.session side).RejectsQuietly
  nonces : (s.boxes.map (fun b => (b.key,b.nonce))).Nodup

/-- The counters of the boxes of a side increase up to its send counter, and the
accepted boxes are picked by increasing counters. -/
structure ChannelInv (s : Channel) : Prop where
  sendTag : ∀ side, (s.session side).sendTag = side.tag
  receiveTag : ∀ side, (s.session side).receiveTag = side.other.tag
  bound : ∀ side, (s.session side).sendCounter < 2 ^ 64
  named : ∀ b ∈ s.boxes, b.nonce = nonce b.sender.tag b.counter
  counted : ∀ b ∈ s.boxes, b.counter ≤ (s.session b.sender).sendCounter
  increasing : ∀ side, Increasing SealedBox.counter (s.sealedBy side)
  picked : ∀ side, (s.accepted side).Sublist (s.sealedBy side.other)
  received : ∀ side, ∀ b ∈ s.accepted side, b.counter ≤ (s.session side).lastReceived
  nonces : (s.boxes.map SealedBox.nonce).Nodup

namespace ChannelInv
variable {s t : Channel}
variable {side : Side}

theorem safe (h : ChannelInv s) : ChannelSafe s where
  delivered side := (h.picked side).map _
  rejects side := rejectsQuietly _
  nonces := by
    apply List.Nodup.of_map Prod.snd
    rw [List.map_map]
    exact h.nonces

/-- One session moves on within what the boxes say of it. -/
theorem setSession (h : ChannelInv s) {session : CryptoSession}
    (hst : session.sendTag = (s.session side).sendTag) (hrt : session.receiveTag = (s.session side).receiveTag)
    (hsend : (s.session side).sendCounter ≤ session.sendCounter) (hbound : session.sendCounter < 2 ^ 64)
    (hlast : (s.session side).lastReceived ≤ session.lastReceived) :
    ChannelInv { s with session := Function.update s.session side session } where
  sendTag k := by
    by_cases hk : k = side
    · subst hk
      simpa [hst] using h.sendTag k
    · simpa [hk] using h.sendTag k
  receiveTag k := by
    by_cases hk : k = side
    · subst hk
      simpa [hrt] using h.receiveTag k
    · simpa [hk] using h.receiveTag k
  bound k := by
    by_cases hk : k = side
    · subst hk
      simpa using hbound
    · simpa [hk] using h.bound k
  named := h.named
  counted b hb := by
    by_cases hk : b.sender = side
    · have hc := h.counted b hb
      rw [hk] at hc ⊢
      simpa using hc.trans hsend
    · simpa [hk] using h.counted b hb
  increasing := h.increasing
  picked := h.picked
  received k b hb := by
    by_cases hk : k = side
    · subst hk
      simpa using (h.received k b hb).trans hlast
    · simpa [hk] using h.received k b hb
  nonces := h.nonces

/-- A new box carries a counter its sender has not used. -/
theorem addBox (h : ChannelInv s) {box : SealedBox} (hnonce : box.nonce = nonce box.sender.tag box.counter)
    (hbound : box.counter ≤ (s.session box.sender).sendCounter)
    (hfresh : ∀ b ∈ s.boxes, b.sender = box.sender → b.counter < box.counter) :
    ChannelInv { s with boxes := s.boxes ++ [box] } where
  sendTag := h.sendTag
  receiveTag := h.receiveTag
  bound := h.bound
  named b hb := by
    rcases List.mem_append.mp hb with hb | hb
    · exact h.named b hb
    · rw [List.mem_singleton.mp hb]
      exact hnonce
  counted b hb := by
    rcases List.mem_append.mp hb with hb | hb
    · exact h.counted b hb
    · rw [List.mem_singleton.mp hb]
      exact hbound
  increasing side := by
    unfold Channel.sealedBy
    rw [List.filter_append]
    by_cases hs : box.sender = side
    · rw [List.filter_cons_of_pos (by simpa using hs), List.filter_nil]
      apply (h.increasing side).snoc
      intro b hb
      obtain ⟨hmem,hsender⟩ := List.mem_filter.mp hb
      exact hfresh b hmem ((of_decide_eq_true hsender).trans hs.symm)
    · rw [List.filter_cons_of_neg (by simpa using hs), List.filter_nil, List.append_nil]
      exact h.increasing side
  picked side := by
    unfold Channel.sealedBy
    rw [List.filter_append]
    exact (h.picked side).trans (List.sublist_append_left _ _)
  received := h.received
  nonces := by
    simp only [List.map_append, List.map_cons, List.map_nil]
    refine List.Nodup.append h.nonces (List.nodup_singleton _) ?_
    rw [List.disjoint_singleton]
    intro hmem
    obtain ⟨b,hb,hbn⟩ := List.mem_map.mp hmem
    have hb64 := (h.counted b hb).trans_lt (h.bound b.sender)
    have hbox64 := hbound.trans_lt (h.bound box.sender)
    obtain ⟨hsender,hcounter⟩ := nonce_inj hb64 hbox64 (by rw [← h.named b hb, hbn, hnonce])
    exact Nat.ne_of_lt (hfresh b hb hsender) hcounter

/-- The box that opens a frame is the other side's, and newer than those accepted. -/
theorem accept (h : ChannelInv s) {box : SealedBox} {counter : ℕ} (hmem : box ∈ s.boxes)
    (hnonce : box.nonce = nonce (s.session side).receiveTag counter) (h64 : counter < 2 ^ 64)
    (hlast : (s.session side).lastReceived < counter) :
    ChannelInv { s with
      session := Function.update s.session side { s.session side with lastReceived := counter }
      accepted := Function.update s.accepted side (s.accepted side ++ [box]) } := by
  have hbox64 := (h.counted box hmem).trans_lt (h.bound box.sender)
  obtain ⟨hsender,hcounter⟩ := nonce_inj hbox64 h64 (by rw [← h.named box hmem, hnonce, h.receiveTag side])
  have hin : box ∈ s.sealedBy side.other := List.mem_filter.mpr ⟨hmem,decide_eq_true hsender⟩
  have hnew : ∀ b ∈ s.accepted side, b.counter < box.counter := by
    intro b hb
    have := h.received side b hb
    omega
  have hs : ChannelInv { s with
      session := Function.update s.session side { s.session side with lastReceived := counter } } :=
    h.setSession rfl rfl le_rfl (h.bound side) (Nat.le_of_lt hlast)
  exact { hs with
    picked := by
      intro k
      change (Function.update s.accepted side (s.accepted side ++ [box]) k).Sublist (s.sealedBy k.other)
      by_cases hk : k = side
      · subst hk
        rw [Function.update_self]
        exact (h.increasing _).pick (h.picked k) hin hnew
      · rw [Function.update_of_ne hk]
        exact h.picked k
    received := by
      intro k b hb
      by_cases hk : k = side
      · subst hk
        simp only [Function.update_self, List.mem_append, List.mem_singleton] at hb ⊢
        rcases hb with hb | rfl
        · exact ((h.received k b hb).trans_lt hlast).le
        · exact hcounter.le
      · simp only [Function.update_of_ne hk] at hb ⊢
        exact h.received k b hb }

theorem sealFrame (h : ChannelInv s) {plaintext : Bytes} {ciphertext : Option Bytes}
    (hs : channelStep s (.sealFrame side plaintext ciphertext) = some t) : ChannelInv t := by
  simp only [channelStep] at hs
  rcases (s.session side).sealFrame_cases (fun _ _ _ => ciphertext) plaintext with ⟨error,-,he⟩ | ⟨hlt,he⟩
  · rw [he] at hs
    cases hs
    exact h.setSession rfl rfl le_rfl (h.bound side) le_rfl
  · have hcounted : ChannelInv { s with
        session := Function.update s.session side
          { s.session side with sendCounter := (s.session side).sendCounter + 1 } } :=
      h.setSession rfl rfl (Nat.le_succ _) hlt le_rfl
    rw [he] at hs
    cases ciphertext with
    | none =>
      cases hs
      exact hcounted
    | some body =>
      cases hs
      apply hcounted.addBox
      · rw [h.sendTag side]
      · simp
      · intro b hb hsender
        have hc := h.counted b hb
        rw [hsender] at hc
        exact Nat.lt_succ_of_le hc

theorem openFrame (h : ChannelInv s) {frame : Bytes}
    (hs : channelStep s (.openFrame side frame) = some t) : ChannelInv t := by
  simp only [channelStep] at hs
  generalize hfound : s.boxOf (s.session side).receiveKey
    (nonce (s.session side).receiveTag (readBe (frame.take 8))) (frame.drop 8) = found at hs
  rcases (s.session side).openFrame_cases (fun _ _ _ => found.map SealedBox.plaintext) frame with
    ⟨error,he⟩ | ⟨plaintext,hlen,hlast,hc,he⟩
  · rw [he] at hs
    cases hs
    exact h.setSession rfl rfl le_rfl (h.bound side) le_rfl
  · rw [he] at hs
    cases found with
    | none => cases hc
    | some box =>
      cases hs
      have hbox := List.find?_some hfound
      have h64 := readBe_lt (frame.take 8)
      rw [List.length_take, min_eq_left hlen] at h64
      simp only [decide_eq_true_eq] at hbox
      exact h.accept (List.mem_of_find?_eq_some hfound) hbox.2.1 h64 hlast

theorem step {a : ChannelEvent} (h : ChannelInv s) (hs : channelStep s a = some t) : ChannelInv t := by
  cases a with
  | sealFrame side plaintext ciphertext => exact h.sealFrame hs
  | openFrame side frame => exact h.openFrame hs

end ChannelInv

/-- Keys and salts of the right lengths make a channel on which nothing has been
sealed. -/
theorem connect_ok (deriveKey : Bytes → Bytes → String → Bytes) (e2eKey shared : Vector UInt8 32)
    (clientSalt hostSalt : Vector UInt8 16) :
    ∃ start, connect deriveKey e2eKey.toList shared.toList clientSalt.toList hostSalt.toList = .ok start ∧
      ChannelInv start := by
  have hlen : ¬(e2eKey.toList.length ≠ 32 ∨ shared.toList.length ≠ 32 ∨ clientSalt.toList.length ≠ 16 ∨
      hostSalt.toList.length ≠ 16) := by simp
  refine ⟨_,by simp only [connect, CryptoSession.new, if_neg hlen]; rfl,?_⟩
  constructor
  · intro side
    cases side <;> rfl
  · intro side
    cases side <;> rfl
  · intro side
    cases side <;> exact Nat.two_pow_pos 64
  · exact fun b hb => absurd hb List.not_mem_nil
  · exact fun b hb => absurd hb List.not_mem_nil
  · exact fun side => increasing_nil
  · exact fun side => List.Sublist.refl _
  · exact fun side b hb => absurd hb List.not_mem_nil
  · exact List.nodup_nil

/-- Whatever the network does with the frames, in every run each side accepts, in
order and once, plaintexts the other side has sealed, what is rejected leaves no
trace, and no nonce is used twice under a key. -/
theorem channel_is_safe (deriveKey : Bytes → Bytes → String → Bytes) (e2eKey shared : Vector UInt8 32)
    (clientSalt hostSalt : Vector UInt8 16) (events : List ChannelEvent) :
    ∃ start, connect deriveKey e2eKey.toList shared.toList clientSalt.toList hostSalt.toList = .ok start ∧
      Always channelStep ChannelSafe start events := by
  obtain ⟨start,hstart,hinv⟩ := connect_ok deriveKey e2eKey shared clientSalt hostSalt
  exact ⟨start,hstart,
    always_of_invariant (J := ChannelInv) (fun _ _ _ h hs => h.step hs) (fun _ h => h.safe) hinv events⟩

end Unpeel.Remote
