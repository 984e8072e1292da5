import Mathlib.Data.List.Perm.Subperm
import Unpeel.Remote.PunchSession

/-! # What an established path rests on

As long as no nonce is drawn by both peers, whose nonce it is tells a probe from an
answer: an answer of the peer carries one of our own, a probe of the peer does not.
-/
namespace Unpeel.Remote
open BigEndian Runs

variable {session : PunchSession}

section Steps
variable (mac : Vector UInt8 32 → Bytes → Vector UInt8 32) (path : PathKey)

structure Admitted (side : ProbeDirection) (nowMs : ℕ) (bytes : Bytes) : Prop where
  length : bytes.length = probeLen
  direction : bytes.getD 5 0 = side.flipped.byte
  tag : bytes.drop 38 = probeTag mac path (bytes.take 38)
  window : max nowMs (timestampOf bytes) - min nowMs (timestampOf bytes) ≤ probeTimeWindowMs

/-- All that a datagram can do: nothing, establish the path, or get an answer. -/
theorem handleDatagram_cases (session : PunchSession) (side : ProbeDirection) (clock nowMs : ℕ)
    (bytes : Bytes) (addr : SocketAddr) :
    session.handleDatagram mac path side clock nowMs bytes addr = (session,none) ∨
    (Admitted mac path side nowMs bytes ∧ nonceOf bytes ∈ session.outgoingNonces ∧
      ∃ rtt, session.handleDatagram mac path side clock nowMs bytes addr =
        ({ session with state := .established addr, rtt := rtt },none)) ∨
    (Admitted mac path side nowMs bytes ∧ nonceOf bytes ∉ session.outgoingNonces ∧
      nonceOf bytes ∉ session.seenNonces ∧
      session.handleDatagram mac path side clock nowMs bytes addr =
        ({ session with seenNonces := nonceOf bytes :: session.seenNonces },
          some (addr,encodeProbe mac path side nowMs (nonceOf bytes)))) := by
  unfold PunchSession.handleDatagram
  dsimp only
  split
  swap
  · exact Or.inl rfl
  split
  · exact Or.inl rfl
  next probe hprobe =>
  obtain ⟨hlen,hdir,htag,hwin,rfl⟩ := verifyProbe_some hprobe
  have hadm : Admitted mac path side nowMs bytes := ⟨hlen,hdir,htag,hwin⟩
  split
  · next hown =>
    split
    · exact Or.inr (Or.inl ⟨hadm,hown,_,rfl⟩)
    · exact Or.inl rfl
  · next hown =>
    split
    · exact Or.inl rfl
    · next hseen => exact Or.inr (Or.inr ⟨hadm,hown,hseen,rfl⟩)

theorem tick_cases (session : PunchSession) (side : ProbeDirection) (clock nowMs : ℕ)
    (draws : List (Option (Vector UInt8 8))) :
    session.tick mac path side clock nowMs draws = (session,[]) ∨
    session.tick mac path side clock nowMs draws = ({ session with state := .timedOut },[]) ∨
    ∃ sends : List (SocketAddr × Bytes), ∃ inFlight,
      (∀ send ∈ sends, ∃ draw ∈ draws, send.2 = randomNonce draw) ∧
      session.tick mac path side clock nowMs draws =
        ({ session with outgoingNonces := session.outgoingNonces ++ sends.map Prod.snd, inFlight := inFlight },
          sends.map (fun send => (send.1,encodeProbe mac path side nowMs send.2))) := by
  unfold PunchSession.tick
  split
  · exact Or.inl rfl
  split
  · exact Or.inr (Or.inl rfl)
  refine Or.inr (Or.inr ⟨session.peers.zip (draws.map randomNonce),_,?_,rfl⟩)
  intro send hsend
  obtain ⟨draw,hdraw,he⟩ := List.mem_map.mp (List.of_mem_zip hsend).2
  exact ⟨draw,hdraw,he.symm⟩

theorem handleDatagram_own (side : ProbeDirection) (clock nowMs timestampMs : ℕ)
    {nonce : Bytes} (addr : SocketAddr) (hn : nonce.length = 8) (ht : timestampMs < 2 ^ 64)
    (hw : max nowMs timestampMs - min nowMs timestampMs ≤ probeTimeWindowMs)
    (hown : nonce ∈ session.outgoingNonces) (hs : session.state = .probing) :
    ∃ rtt, session.handleDatagram mac path side clock nowMs
      (encodeProbe mac path side.flipped timestampMs nonce) addr =
        ({ session with state := .established addr, rtt := rtt },none) := by
  unfold PunchSession.handleDatagram
  rw [if_pos ⟨encodeProbe_length _ _ hn,encodeProbe_direction _ _ _⟩,
    verifyProbe_encodeProbe hn ht hw List.not_mem_nil]
  dsimp only
  rw [if_pos hown, if_pos hs]
  exact ⟨_,rfl⟩

theorem randomNonce_length (draw : Option (Vector UInt8 8)) : (randomNonce draw).length = 8 := by
  simp [randomNonce]

end Steps

theorem update_field {γ : Type*} (f : PunchSession → γ) {session : ProbeDirection → PunchSession}
    {side : ProbeDirection} {new : PunchSession} (h : f new = f (session side)) (side' : ProbeDirection) :
    f (Function.update session side new side') = f (session side') := by
  by_cases he : side' = side
  · subst he
    simpa using h
  · rw [Function.update_of_ne he]

namespace Punch

variable {side : ProbeDirection}

theorem mem_probesBy {s : Punch} {d : Datagram} :
    d ∈ s.probesBy side ↔ d ∈ s.sent ∧ d.sender = side ∧ d.answers = none := by
  simp [probesBy]

theorem mem_answersBy {s : Punch} {d : Datagram} :
    d ∈ s.answersBy side ↔ d ∈ s.sent ∧ d.sender = side ∧ d.answers ≠ none := by
  simp [answersBy]

/-- The answer `answer` is one to the probe `probe`, in its time. -/
structure Answers (answer probe : Datagram) : Prop where
  bytes : answer.answers = some probe.bytes
  nonce : nonceOf answer.bytes = nonceOf probe.bytes
  window : max (timestampOf answer.bytes) (timestampOf probe.bytes) -
    min (timestampOf answer.bytes) (timestampOf probe.bytes) ≤ probeTimeWindowMs

def Confirmed (s : Punch) (side : ProbeDirection) : Prop :=
  ∃ answer ∈ s.answersBy side.flipped, ∃ probe ∈ s.probesBy side, Answers answer probe

theorem Confirmed.mono {s t : Punch} (h : s.Confirmed side) (hsub : s.sent ⊆ t.sent) :
    t.Confirmed side := by
  obtain ⟨answer,ha,probe,hp,hans⟩ := h
  rw [mem_answersBy] at ha
  rw [mem_probesBy] at hp
  exact ⟨answer,mem_answersBy.mpr ⟨hsub ha.1,ha.2⟩,probe,mem_probesBy.mpr ⟨hsub hp.1,hp.2⟩,hans⟩

end Punch

structure PunchInv (mac : Vector UInt8 32 → Bytes → Vector UInt8 32) (path : PathKey) (s : Punch) : Prop where
  encoded : ∀ d ∈ s.sent, ∃ timestampMs nonce, nonce.length = 8 ∧
    d.bytes = encodeProbe mac path d.sender timestampMs nonce
  probes : ∀ d ∈ s.sent, d.answers = none → nonceOf d.bytes ∈ (s.session d.sender).outgoingNonces
  answers : ∀ d ∈ s.sent, d.answers ≠ none → nonceOf d.bytes ∈ (s.session d.sender).seenNonces ∧
    ∃ probe ∈ s.probesBy d.sender.flipped, Punch.Answers d probe
  once : ∀ side, ((s.answersBy side).map (fun d => nonceOf d.bytes)).Nodup
  disjoint : ∀ side, ∀ nonce ∈ (s.session side).outgoingNonces,
    nonce ∉ (s.session side.flipped).outgoingNonces
  established : ∀ side addr, (s.session side).state = .established addr → s.Confirmed side

namespace PunchInv
variable {mac : Vector UInt8 32 → Bytes → Vector UInt8 32} {path : PathKey} {s : Punch}
variable {side : ProbeDirection} {bytes : Bytes}
variable {d : Datagram} {nowMs : ℕ}

theorem start (candidates : ProbeDirection → List SocketAddr) (clock : ProbeDirection → ℕ) :
    PunchInv mac path (startPunch candidates clock) where
  encoded := by simp [startPunch]
  probes := by simp [startPunch]
  answers := by simp [startPunch]
  once := by simp [startPunch, Punch.answersBy]
  disjoint := by simp [startPunch, PunchSession.new]
  established := by simp [startPunch, PunchSession.new]

theorem answer_nonce (h : PunchInv mac path s) (hd : d ∈ s.sent) (ha : d.answers ≠ none) :
    nonceOf d.bytes ∈ (s.session d.sender.flipped).outgoingNonces := by
  obtain ⟨probe,hprobe,hans⟩ := (h.answers d hd ha).2
  obtain ⟨hmem,hsender,hnone⟩ := Punch.mem_probesBy.mp hprobe
  have hp := h.probes probe hmem hnone
  rw [hsender] at hp
  rw [hans.nonce]
  exact hp

theorem admitted_sent (h : PunchInv mac path s)
    (hadm : Admitted mac path side nowMs bytes) (hun : Unforged mac path s bytes) :
    ∃ d ∈ s.sent, d.sender = side.flipped ∧ d.bytes = bytes := by
  obtain ⟨d,hd,htake⟩ := hun hadm.tag
  obtain ⟨timestampMs,nonce,hn,he⟩ := h.encoded d hd
  have hdrop : d.bytes.drop 38 = bytes.drop 38 := by
    rw [hadm.tag, ← htake, he, encodeProbe_drop _ _ hn, encodeProbe_take _ _ hn]
  have hbytes : d.bytes = bytes := by
    rw [← List.take_append_drop 38 d.bytes, htake, hdrop, List.take_append_drop]
  refine ⟨d,hd,?_,hbytes⟩
  apply ProbeDirection.byte_inj
  rw [← hadm.direction, ← hbytes, he]
  exact (encodeProbe_direction d.sender timestampMs nonce).symm

theorem noEcho (h : PunchInv mac path s) {e : Datagram}
    (hd : d ∈ s.answersBy side) (he : e ∈ s.answersBy side.flipped) : d.answers ≠ some e.bytes := by
  intro heq
  obtain ⟨hmem,rfl,hda⟩ := Punch.mem_answersBy.mp hd
  obtain ⟨he,hes,hea⟩ := Punch.mem_answersBy.mp he
  obtain ⟨-,probe,-,hans⟩ := h.answers d hmem hda
  -- `d` carries the nonce of `e`: the one is of the peer's, the other one of ours
  have hbytes : e.bytes = probe.bytes := Option.some.inj (heq.symm.trans hans.bytes)
  have hpeer := h.answer_nonce hmem hda
  have hours := h.answer_nonce he hea
  rw [hes, ProbeDirection.flipped_flipped, hbytes, ← hans.nonce] at hours
  exact h.disjoint _ _ hours hpeer

theorem finite (h : PunchInv mac path s) (side : ProbeDirection) :
    (s.answersBy side).length ≤ (s.probesBy side.flipped).length := by
  have hsub : (s.answersBy side).map (fun d => nonceOf d.bytes) ⊆
      (s.probesBy side.flipped).map (fun d => nonceOf d.bytes) := by
    intro nonce hnonce
    obtain ⟨d,hd,rfl⟩ := List.mem_map.mp hnonce
    obtain ⟨hmem,rfl,hda⟩ := Punch.mem_answersBy.mp hd
    obtain ⟨-,probe,hprobe,hans⟩ := h.answers d hmem hda
    exact List.mem_map.mpr ⟨probe,hprobe,hans.nonce.symm⟩
  simpa using ((h.once side).subperm hsub).length_le

theorem length (h : PunchInv mac path s) (hd : d ∈ s.answersBy side) (hb : d.answers = some bytes) :
    d.bytes.length = bytes.length := by
  obtain ⟨hmem,rfl,hda⟩ := Punch.mem_answersBy.mp hd
  obtain ⟨-,probe,hprobe,hans⟩ := h.answers d hmem hda
  obtain ⟨_,_,hn,he⟩ := h.encoded d hmem
  obtain ⟨_,_,hn',he'⟩ := h.encoded probe (Punch.mem_probesBy.mp hprobe).1
  have hbytes : bytes = probe.bytes := Option.some.inj (hb.symm.trans hans.bytes)
  rw [hbytes, he, he', encodeProbe_length _ _ hn, encodeProbe_length _ _ hn']

theorem safe (h : PunchInv mac path s) : PunchSafe s where
  established := by
    intro side addr hs
    obtain ⟨answer,ha,probe,hp,hans⟩ := h.established side addr hs
    exact ⟨answer,ha,probe,hp,hans.bytes,hans.nonce,hans.window⟩
  once := h.once
  noEcho := fun _ _ hd _ he => h.noEcho hd he
  finite := h.finite
  length := fun _ _ hd _ hb => h.length hd hb

/-- Steps that send nothing and draw nothing. -/
theorem reframe (h : PunchInv mac path s) {session : ProbeDirection → PunchSession}
    (hout : ∀ side, (session side).outgoingNonces = (s.session side).outgoingNonces)
    (hseen : ∀ side, (session side).seenNonces = (s.session side).seenNonces)
    (hest : ∀ side addr, (session side).state = .established addr → s.Confirmed side) :
    PunchInv mac path ⟨session,s.sent⟩ where
  encoded := h.encoded
  probes := by
    intro d hd ha
    dsimp only
    rw [hout]
    exact h.probes d hd ha
  answers := by
    intro d hd ha
    dsimp only
    rw [hseen]
    exact h.answers d hd ha
  once := h.once
  disjoint := by
    intro side
    dsimp only
    rw [hout, hout]
    exact h.disjoint side
  established := hest

/-- A tick that sends probes. -/
theorem sendProbes (h : PunchInv mac path s) {nonces : List Bytes} (nowMs : ℕ)
    (hlen : ∀ nonce ∈ nonces, nonce.length = 8)
    (hfresh : ∀ nonce ∈ nonces, nonce ∉ (s.session side.flipped).outgoingNonces)
    (hout : session.outgoingNonces = (s.session side).outgoingNonces ++ nonces)
    (hseen : session.seenNonces = (s.session side).seenNonces) (hstate : session.state = (s.session side).state) :
    PunchInv mac path ⟨Function.update s.session side session,
      s.sent ++ nonces.map (fun nonce => ⟨side,none,encodeProbe mac path side nowMs nonce⟩)⟩ := by
  have hO (side' : ProbeDirection) (nonce : Bytes) :
      nonce ∈ (Function.update s.session side session side').outgoingNonces ↔
        nonce ∈ (s.session side').outgoingNonces ∨ side' = side ∧ nonce ∈ nonces := by
    by_cases he : side' = side
    · subst he
      simp [hout]
    · simp [he]
  have hsub : s.sent ⊆
      s.sent ++ nonces.map (fun nonce => ⟨side,none,encodeProbe mac path side nowMs nonce⟩) :=
    List.subset_append_left _ _
  constructor
  case encoded =>
    intro d hd
    rcases List.mem_append.mp hd with hd | hd
    · exact h.encoded d hd
    · obtain ⟨nonce,hn,rfl⟩ := List.mem_map.mp hd
      exact ⟨nowMs,nonce,hlen nonce hn,rfl⟩
  case probes =>
    intro d hd ha
    rw [hO]
    rcases List.mem_append.mp hd with hd | hd
    · exact Or.inl (h.probes d hd ha)
    · obtain ⟨nonce,hn,rfl⟩ := List.mem_map.mp hd
      rw [nonceOf_encodeProbe side nowMs (hlen nonce hn)]
      exact Or.inr ⟨rfl,hn⟩
  case answers =>
    intro d hd ha
    rcases List.mem_append.mp hd with hd | hd
    · obtain ⟨hs,probe,hp,hans⟩ := h.answers d hd ha
      rw [Punch.mem_probesBy] at hp
      rw [update_field PunchSession.seenNonces hseen]
      exact ⟨hs,probe,Punch.mem_probesBy.mpr ⟨hsub hp.1,hp.2⟩,hans⟩
    · obtain ⟨nonce,-,rfl⟩ := List.mem_map.mp hd
      exact absurd rfl ha
  case once =>
    intro side'
    have hans : Punch.answersBy ⟨Function.update s.session side session,
        s.sent ++ nonces.map (fun nonce => ⟨side,none,encodeProbe mac path side nowMs nonce⟩)⟩ side' =
        s.answersBy side' := by
      simp [Punch.answersBy, List.filter_append, List.filter_map, Function.comp_def]
    rw [hans]
    exact h.once side'
  case disjoint =>
    intro side' nonce hn hn'
    rw [hO] at hn hn'
    rcases hn with hn | ⟨rfl,hn⟩
    · rcases hn' with hn' | ⟨rfl,hn'⟩
      · exact h.disjoint side' nonce hn hn'
      · exact hfresh nonce hn' (by rw [ProbeDirection.flipped_flipped]; exact hn)
    · rcases hn' with hn' | ⟨he,-⟩
      · exact hfresh nonce hn hn'
      · exact side'.flipped_ne he
  case established =>
    intro side' addr hs
    rw [update_field PunchSession.state hstate] at hs
    exact (h.established side' addr hs).mono hsub

/-- A new answer to a probe of the peer. -/
theorem addAnswer (h : PunchInv mac path s)
    {answer probe : Datagram} (hprobe : probe ∈ s.probesBy side.flipped) (hans : Punch.Answers answer probe)
    (henc : ∃ timestampMs nonce, nonce.length = 8 ∧ answer.bytes = encodeProbe mac path side timestampMs nonce)
    (hside : answer.sender = side) (hnew : nonceOf answer.bytes ∉ (s.session side).seenNonces)
    (hout : session.outgoingNonces = (s.session side).outgoingNonces)
    (hseen : session.seenNonces = nonceOf answer.bytes :: (s.session side).seenNonces)
    (hstate : session.state = (s.session side).state) :
    PunchInv mac path ⟨Function.update s.session side session,s.sent ++ [answer]⟩ := by
  have hO := update_field PunchSession.outgoingNonces hout
  have hS (side' : ProbeDirection) :
      (s.session side').seenNonces ⊆ (Function.update s.session side session side').seenNonces := by
    by_cases he : side' = side
    · subst he
      simp [hseen]
    · simp [Function.update_of_ne he]
  have hsub : s.sent ⊆ s.sent ++ [answer] := List.subset_append_left _ _
  have hsome : answer.answers ≠ none := by simp [hans.bytes]
  have hprobe' := Punch.mem_probesBy.mp hprobe
  constructor
  case encoded =>
    intro d hd
    rcases List.mem_append.mp hd with hd | hd
    · exact h.encoded d hd
    · rw [List.mem_singleton.mp hd, hside]
      exact henc
  case probes =>
    intro d hd ha
    rw [hO]
    rcases List.mem_append.mp hd with hd | hd
    · exact h.probes d hd ha
    · rw [List.mem_singleton.mp hd] at ha
      exact absurd ha hsome
  case answers =>
    intro d hd ha
    rcases List.mem_append.mp hd with hd | hd
    · obtain ⟨hs,p,hp,hpa⟩ := h.answers d hd ha
      rw [Punch.mem_probesBy] at hp
      exact ⟨hS _ hs,p,Punch.mem_probesBy.mpr ⟨hsub hp.1,hp.2⟩,hpa⟩
    · rw [List.mem_singleton.mp hd, hside]
      refine ⟨?_,probe,Punch.mem_probesBy.mpr ⟨hsub hprobe'.1,hprobe'.2⟩,hans⟩
      simp [hseen]
  case once =>
    intro side'
    by_cases he : side' = side
    · subst he
      have happ : Punch.answersBy ⟨Function.update s.session side' session,s.sent ++ [answer]⟩ side' =
          s.answersBy side' ++ [answer] := by
        simp [Punch.answersBy, List.filter_append, hside, hsome]
      rw [happ, List.map_append, List.map_singleton, List.nodup_append]
      refine ⟨h.once side',List.nodup_singleton _,?_⟩
      -- every nonce answered so far is among those seen
      intro nonce hn nonce' hn' heq
      obtain ⟨d,hd,rfl⟩ := List.mem_map.mp hn
      obtain ⟨hmem,rfl,hda⟩ := Punch.mem_answersBy.mp hd
      rw [List.mem_singleton.mp hn'] at heq
      exact hnew (heq ▸ (h.answers d hmem hda).1)
    · have hsame : Punch.answersBy ⟨Function.update s.session side session,s.sent ++ [answer]⟩ side' =
          s.answersBy side' := by
        simp [Punch.answersBy, List.filter_append, hside, Ne.symm he]
      rw [hsame]
      exact h.once side'
  case disjoint =>
    intro side'
    rw [hO, hO]
    exact h.disjoint side'
  case established =>
    intro side' addr hs
    rw [update_field PunchSession.state hstate] at hs
    exact (h.established side' addr hs).mono hsub

/-- A datagram that gets an answer was a probe: the nonce of an answer is ours. -/
theorem sendAnswer (h : PunchInv mac path s) (hnow : nowMs < 2 ^ 64)
    (hadm : Admitted mac path side nowMs bytes) (hun : Unforged mac path s bytes)
    (hout : nonceOf bytes ∉ (s.session side).outgoingNonces) (hseen : nonceOf bytes ∉ (s.session side).seenNonces) :
    PunchInv mac path ⟨Function.update s.session side { s.session side with seenNonces := nonceOf bytes :: (s.session side).seenNonces },
      s.sent ++ [⟨side,some bytes,encodeProbe mac path side nowMs (nonceOf bytes)⟩]⟩ := by
  obtain ⟨d,hd,hds,rfl⟩ := h.admitted_sent hadm hun
  have hprobe : d.answers = none := by
    by_contra ha
    have hours := h.answer_nonce hd ha
    rw [hds, ProbeDirection.flipped_flipped] at hours
    exact hout hours
  have hn8 : (nonceOf d.bytes).length = 8 := by
    simp [nonceOf, slice, hadm.length, probeLen]
  have hnonce : nonceOf (encodeProbe mac path side nowMs (nonceOf d.bytes)) = nonceOf d.bytes :=
    nonceOf_encodeProbe side nowMs hn8
  have htime : timestampOf (encodeProbe mac path side nowMs (nonceOf d.bytes)) = nowMs :=
    timestampOf_encodeProbe side _ hnow
  have hans : Punch.Answers ⟨side,some d.bytes,encodeProbe mac path side nowMs (nonceOf d.bytes)⟩ d := by
    refine ⟨rfl,hnonce,?_⟩
    rw [htime]
    exact hadm.window
  refine h.addAnswer (Punch.mem_probesBy.mpr ⟨hd,hds,hprobe⟩) hans ⟨nowMs,nonceOf d.bytes,hn8,rfl⟩ rfl ?_
    rfl ?_ rfl
  · rw [hnonce]
    exact hseen
  · rw [hnonce]

theorem confirm (h : PunchInv mac path s) (hadm : Admitted mac path side nowMs bytes) (hun : Unforged mac path s bytes)
    (hout : nonceOf bytes ∈ (s.session side).outgoingNonces) : s.Confirmed side := by
  obtain ⟨d,hd,hds,rfl⟩ := h.admitted_sent hadm hun
  have hanswer : d.answers ≠ none := by
    intro ha
    have htheirs := h.probes d hd ha
    rw [hds] at htheirs
    exact h.disjoint side _ hout htheirs
  obtain ⟨-,probe,hprobe,hans⟩ := h.answers d hd hanswer
  rw [hds, ProbeDirection.flipped_flipped] at hprobe
  exact ⟨d,Punch.mem_answersBy.mpr ⟨hd,hds,hanswer⟩,probe,hprobe,hans⟩

theorem step (h : PunchInv mac path s) {event : PunchEvent} (hok : FreshNonces s event) {t : Punch}
    (ht : punchStep mac path s event = some t) : PunchInv mac path t := by
  cases event with
  | tick side clock now draws =>
    simp only [punchStep, Option.some.injEq] at ht
    subst ht
    obtain he | he | ⟨sends,inFlight,hsends,he⟩ :=
      tick_cases mac path (s.session side) side clock now.toNat draws
    · rw [he]
      simp only [List.map_nil, List.append_nil, Function.update_eq_self]
      exact h
    · rw [he]
      simp only [List.map_nil, List.append_nil]
      refine h.reframe (update_field PunchSession.outgoingNonces rfl)
        (update_field PunchSession.seenNonces rfl) fun side' addr hs => ?_
      by_cases hside : side' = side
      · subst hside
        simp at hs
      · rw [Function.update_of_ne hside] at hs
        exact h.established side' addr hs
    · have hdrawn : ∀ nonce ∈ sends.map Prod.snd, ∃ draw ∈ draws, nonce = randomNonce draw := by
        intro nonce hn
        obtain ⟨send,hsend,rfl⟩ := List.mem_map.mp hn
        exact hsends send hsend
      have hsent : (sends.map (fun send => (send.1,encodeProbe mac path side now.toNat send.2))).map
          (fun send => (⟨side,none,send.2⟩ : Datagram)) =
          (sends.map Prod.snd).map (fun nonce => ⟨side,none,encodeProbe mac path side now.toNat nonce⟩) := by
        simp [List.map_map, Function.comp_def]
      rw [he]
      rw [hsent]
      refine h.sendProbes now.toNat ?_ ?_ rfl rfl rfl
      · intro nonce hn
        obtain ⟨draw,-,rfl⟩ := hdrawn nonce hn
        exact randomNonce_length draw
      · intro nonce hn
        obtain ⟨draw,hdraw,rfl⟩ := hdrawn nonce hn
        exact hok draw hdraw
  | deliver side clock now bytes addr =>
    simp only [punchStep, Option.ite_none_right_eq_some, Option.some.injEq] at ht
    obtain ⟨hun,rfl⟩ := ht
    obtain he | ⟨hadm,hout,rtt,he⟩ | ⟨hadm,hout,hseen,he⟩ :=
      handleDatagram_cases mac path (s.session side) side clock now.toNat bytes addr
    · rw [he]
      simp only [Option.toList_none, List.map_nil, List.append_nil, Function.update_eq_self]
      exact h
    · rw [he]
      simp only [Option.toList_none, List.map_nil, List.append_nil]
      refine h.reframe (update_field PunchSession.outgoingNonces rfl)
        (update_field PunchSession.seenNonces rfl) fun side' addr hs => ?_
      by_cases hside : side' = side
      · subst hside
        exact h.confirm hadm hun hout
      · rw [Function.update_of_ne hside] at hs
        exact h.established side' addr hs
    · rw [he]
      exact h.sendAnswer now.toNat_lt hadm hun hout hseen

end PunchInv

/-- While no nonce is drawn by both, every established path rests on an answer of
the peer, and what the two send each other dies out. -/
theorem punch_is_safe (mac : Vector UInt8 32 → Bytes → Vector UInt8 32) (path : PathKey)
    (candidates : ProbeDirection → List SocketAddr) (clock : ProbeDirection → ℕ) (events : List PunchEvent)
    (h : Guarded (punchStep mac path) FreshNonces (startPunch candidates clock) events) :
    Always (punchStep mac path) PunchSafe (startPunch candidates clock) events := by
  have hstart : PunchInv mac path (startPunch candidates clock) := PunchInv.start candidates clock
  refine always_of_guarded ?_ ?_ hstart h
  · intro s event t hs hok ht
    exact hs.step hok ht
  · intro s hs
    exact hs.safe

def checksum (key : Vector UInt8 32) (bytes : Bytes) : Vector UInt8 32 :=
  Vector.replicate 32 (bytes.foldl (fun acc b => 31 * acc + b) key[0])

def samplePath : PathKey := ⟨Vector.replicate 32 7,Vector.replicate 16 9⟩

def roundTrip : List PunchEvent :=
  let nonce := Vector.replicate 8 3
  [.tick .controllerToHost 0 1000 [some nonce],
    .deliver .hostToController 0 1010 (encodeProbe checksum samplePath .controllerToHost 1000 nonce.toList) 5,
    .deliver .controllerToHost 20 1020 (encodeProbe checksum samplePath .hostToController 1010 nonce.toList) 6]

theorem roundTrip_is_safe :
    (run (punchStep checksum samplePath) (startPunch (fun _ => [8]) (fun _ => 0)) roundTrip).map
      (fun s => (s.session .controllerToHost).state) = some (.established 6) ∧
    Always (punchStep checksum samplePath) PunchSafe (startPunch (fun _ => [8]) (fun _ => 0)) roundTrip := by
  refine ⟨by decide +kernel,punch_is_safe checksum samplePath (fun _ => [8]) (fun _ => 0) roundTrip ?_⟩
  intro t ht
  exact ⟨by simp [FreshNonces, startPunch, PunchSession.new],fun u hu => ⟨trivial,fun v hv => ⟨trivial,trivial⟩⟩⟩

def zeroNonces (mac : Vector UInt8 32 → Bytes → Vector UInt8 32) (path : PathKey) : List PunchEvent :=
  [.tick .controllerToHost 0 1000 [none],.tick .hostToController 0 1000 [none],
    .deliver .controllerToHost 0 1010 (encodeProbe mac path .hostToController 1000 (randomNonce none)) 6]

/-- The Controller takes the Host's probe for the answer to its own: its path is
established while nobody has answered anything. -/
theorem zeroNonces_establish : ¬ ∃ mac path,
    Always (punchStep mac path) PunchSafe (startPunch (fun _ => [8]) (fun _ => 0)) (zeroNonces mac path) := by
  rintro ⟨mac,path,h⟩
  let probe (side : ProbeDirection) := encodeProbe mac path side 1000 (randomNonce none)
  obtain ⟨s,hs,hsent,hout,hstate⟩ : ∃ s, run (punchStep mac path) (startPunch (fun _ => [8]) (fun _ => 0))
        ((zeroNonces mac path).take 2) = some s ∧
      s.sent = [⟨.controllerToHost,none,probe .controllerToHost⟩,⟨.hostToController,none,probe .hostToController⟩] ∧
      (s.session .controllerToHost).outgoingNonces = [randomNonce none] ∧
      (s.session .controllerToHost).state = .probing := ⟨_,rfl,rfl,rfl,rfl⟩
  have hun : Unforged mac path s (probe .hostToController) := by
    intro _
    exact ⟨⟨.hostToController,none,probe .hostToController⟩,by simp [hsent],rfl⟩
  obtain ⟨rtt,hr⟩ : ∃ rtt, (s.session .controllerToHost).handleDatagram mac path .controllerToHost 0
      (1010 : UInt64).toNat (probe .hostToController) 6 =
        ({ s.session .controllerToHost with state := .established 6, rtt := rtt },none) :=
    handleDatagram_own mac path .controllerToHost 0 1010 1000 6 (randomNonce_length none)
      (by decide) (by decide) (hout ▸ List.mem_singleton_self _) hstate
  obtain ⟨t,ht,htsent,htstate⟩ : ∃ t, punchStep mac path s
      (.deliver .controllerToHost 0 1010 (probe .hostToController) 6) = some t ∧ t.sent = s.sent ∧
      (t.session .controllerToHost).state = .established 6 := by
    simp only [punchStep]
    rw [if_pos hun, hr]
    exact ⟨_,rfl,by simp,by simp⟩
  have hrun : run (punchStep mac path) (startPunch (fun _ => [8]) (fun _ => 0)) (zeroNonces mac path) = some t :=
    run_append.mpr ⟨s,hs,run_cons.mpr ⟨t,ht,rfl⟩⟩
  have hsafe := always_iff.mp h (zeroNonces mac path) [] t (List.append_nil _).symm hrun
  obtain ⟨answer,hanswer,-⟩ := hsafe.established .controllerToHost 6 htstate
  simp [Punch.answersBy, htsent, hsent] at hanswer

end Unpeel.Remote
