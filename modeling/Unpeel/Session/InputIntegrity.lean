import Unpeel.Session.InputLedger

/-! # Whole units of terminal input

Frames go through the queue, which can stop in the middle of a unit; a `Write`
and the replies to queries go to the PTY directly. Input stays whole as long as
these do not come while a unit is half written.
-/
namespace Unpeel.Session
open Runs List

namespace Accounted
variable {base : ℕ} {w : InputLedger}
variable {t : SessionIo}

theorem intact (h : Accounted base w) : InputIntact w := by
  refine ⟨w.delivered ++ w.queue,?_,h.frames,h.writes,h.replies⟩
  rw [h.accepted, h.pending, append_assoc, take_append_drop, unitBytes_append]

/-- An event without input. -/
theorem keeps (h : Accounted base w) (hg : t.Good base) (hk : w.session.Keeps t) :
    Accounted base { w with session := t } where
  good := hg
  accepted := hk.pty ▸ h.accepted
  pending := hk.pendingInput ▸ h.pending
  within := h.within
  queued := h.queued
  frames := h.frames
  writes := h.writes
  replies := h.replies
  streams := by
    intro token buf hp
    rcases hk.phase token with he | ho | ⟨hh,_⟩
    · exact h.streams token buf (he.symm.trans hp)
    · rw [ho] at hp
      cases hp
    · rw [hh] at hp
      cases hp
  fresh := by
    intro token ht
    apply h.fresh token
    rcases ht with hp | hn
    · rcases hk.phase token with he | ho | ⟨_,hn⟩
      · exact .inl (he.symm.trans hp)
      · rw [ho] at hp
        cases hp
      · exact .inr hn
    · exact .inr (hk.nextToken.trans hn)

theorem flow_units (h : Accounted base w) {units : List InputUnit} {out : List UInt8}
    (ha : t.pty.accepted = w.session.pty.accepted ++ out)
    (hp : out ++ t.pendingInput = w.session.pendingInput ++ unitBytes units) :
    (w.flow t units).delivered ++ (w.flow t units).queue = w.delivered ++ w.queue ++ units ∧
    t.pty.accepted = unitBytes (w.flow t units).delivered ++
      (unitBytes (w.flow t units).queue).take (w.flow t units).taken ∧
    t.pendingInput = (unitBytes (w.flow t units).queue).drop (w.flow t units).taken ∧
    (w.flow t units).taken ≤ (unitBytes (w.flow t units).queue).length := by
  have hlen : t.pty.accepted.length - w.session.pty.accepted.length = out.length := by
    rw [ha, length_append]
    omega
  -- the bytes still to come, counted from the part the PTY had
  have hall : (unitBytes (w.queue ++ units)).drop w.taken = out ++ t.pendingInput := by
    rw [hp, h.pending, unitBytes_append, drop_append_of_le_length h.within]
  obtain ⟨h1,h2,h3⟩ := advance_bytes (w.taken + out.length) (w.queue ++ units)
  have hu := advance_units (w.taken + out.length) (w.queue ++ units)
  simp only [InputLedger.flow, hlen]
  refine ⟨by rw [append_assoc, hu, append_assoc],?_,?_,h3⟩
  · rw [unitBytes_append, append_assoc, h1, ha, h.accepted, append_assoc, take_add, hall,
      take_left, unitBytes_append, take_append_of_le_length h.within]
  · rw [h2, ← drop_drop, hall, drop_left]

theorem unitsOf_queue (h : Accounted base w) {source : InputSource} (hs : ∀ token, source ≠ .stream token) :
    unitsOf source w.queue = [] := by
  have hnone : w.queue.filter (fun u => u.source = source) = [] := by
    rw [filter_eq_nil_iff]
    intro u hu he
    obtain ⟨token,ht⟩ := h.queued u hu
    exact hs token ((of_decide_eq_true he).symm.trans ht)
  rw [unitsOf, hnone, map_nil]

/-- Units past the queue, while the PTY has no part of a queued unit. -/
theorem direct (h : Accounted base w) (source : InputSource) (data : List (List UInt8))
    (hg : t.Good base) (hk : data.flatten ≠ [] → w.taken = 0)
    (ha : t.pty.accepted = w.session.pty.accepted ++ data.flatten)
    (hp : t.pendingInput = w.session.pendingInput) (hc : t.clients = w.session.clients)
    (hn : t.nextToken = w.session.nextToken) (hs : ∀ token, source ≠ .stream token) :
    Accounted base { w.direct t (unitsFrom source data) with
      writes := w.writes ++ if source = .write then data else []
      replies := w.replies ++ if source = .reply then data else [] } := by
  have hphase : t.phase = w.session.phase := by
    funext token
    rw [SessionIo.phase, hc]
    rfl
  have hof : ∀ origin, unitsOf origin (w.delivered ++ unitsFrom source data ++ w.queue) =
      unitsOf origin w.delivered ++ ((if source = origin then data else []) ++ unitsOf origin w.queue) := by
    intro origin
    rw [unitsOf_append, unitsOf_append, unitsOf_unitsFrom, append_assoc]
  have hlast : ∀ origin, (∀ token, origin ≠ .stream token) →
      unitsOf origin (w.delivered ++ unitsFrom source data ++ w.queue) =
        unitsOf origin (w.delivered ++ w.queue) ++ if source = origin then data else [] := by
    intro origin ho
    rw [hof, unitsOf_append, h.unitsOf_queue ho, append_nil, append_nil]
  refine ⟨hg,?_,hp.trans h.pending,h.within,h.queued,?_,?_,?_,?_,?_⟩
  · show t.pty.accepted = unitBytes (w.delivered ++ unitsFrom source data) ++ (unitBytes w.queue).take w.taken
    rw [ha, h.accepted, unitBytes_append, unitBytes_unitsFrom]
    by_cases hd : data.flatten = []
    · simp [hd]
    · simp [hk hd]
  · intro token
    show unitsOf _ (w.delivered ++ unitsFrom source data ++ w.queue) = _
    rw [hof, if_neg (hs token), nil_append, ← unitsOf_append]
    exact h.frames token
  · show unitsOf _ (w.delivered ++ unitsFrom source data ++ w.queue) = _
    rw [hlast _ (by simp), h.writes]
  · show unitsOf _ (w.delivered ++ unitsFrom source data ++ w.queue) = _
    rw [hlast _ (by simp), h.replies]
  · intro token buf hph
    exact h.streams token buf (hphase ▸ hph)
  · intro token ht
    refine h.fresh token (ht.imp (fun hh => hphase ▸ hh) (fun hh => ?_))
    exact hn ▸ hh

/-- Bytes come in on a connection, the frames they complete join the queue, and
the PTY takes what it takes. -/
theorem receive (h : Accounted base w) (token : ℕ) (frames : List (List UInt8))
    (bytes out : List UInt8) (hg : t.Good base) (ha : t.pty.accepted = w.session.pty.accepted ++ out)
    (hp : out ++ t.pendingInput = w.session.pendingInput ++ frames.flatten)
    (hf : (parseInput (w.received token ++ bytes)).1 = (parseInput (w.received token)).1 ++ frames)
    (hs : ∀ buf, t.phase token = .streamIn buf → (parseInput (w.received token ++ bytes)).2 = (buf,false))
    (hn : t.phase token = .handshake ∨ t.nextToken ≤ token → w.received token ++ bytes = [])
    (hk : ∀ k, k ≠ token → t.phase k = w.session.phase k ∨ t.phase k = .other ∨
      t.phase k = .handshake ∧ w.session.nextToken ≤ k) (hnext : w.session.nextToken ≤ t.nextToken) :
    Accounted base { w.flow t (unitsFrom (.stream token) frames) with
      received := Function.update w.received token (w.received token ++ bytes) } := by
  have hp' : out ++ t.pendingInput =
      w.session.pendingInput ++ unitBytes (unitsFrom (.stream token) frames) := by
    rw [hp, unitBytes_unitsFrom]
  obtain ⟨hu,h1,h2,h3⟩ := h.flow_units ha hp'
  have hof : ∀ origin, unitsOf origin ((w.flow t (unitsFrom (.stream token) frames)).delivered ++
      (w.flow t (unitsFrom (.stream token) frames)).queue) =
      unitsOf origin (w.delivered ++ w.queue) ++ if .stream token = origin then frames else [] := by
    intro origin
    rw [hu, unitsOf_append, unitsOf_unitsFrom]
  refine ⟨hg,h1,h2,h3,?_,?_,?_,?_,?_,?_⟩
  · intro u hm
    have hmem : u ∈ w.queue ++ unitsFrom (.stream token) frames := by
      rw [← advance_units (w.taken + (t.pty.accepted.length - w.session.pty.accepted.length))
        (w.queue ++ unitsFrom (.stream token) frames)]
      exact mem_append_right _ hm
    rcases mem_append.mp hmem with hq | hq
    · exact h.queued u hq
    · obtain ⟨_,_,rfl⟩ := mem_map.mp hq
      exact ⟨token,rfl⟩
  · intro k
    refine (hof (.stream k)).trans ?_
    by_cases hkt : k = token
    · subst hkt
      simp [hf, h.frames]
    · simp [hkt, Ne.symm hkt, h.frames]
  · refine (hof .write).trans ?_
    rw [h.writes, if_neg (by simp), append_nil]
    rfl
  · refine (hof .reply).trans ?_
    rw [h.replies, if_neg (by simp), append_nil]
    rfl
  · intro k buf hph
    show (parseInput (Function.update w.received token (w.received token ++ bytes) k)).2 = _
    by_cases hkt : k = token
    · subst hkt
      rw [Function.update_self]
      exact hs buf hph
    · rw [Function.update_of_ne hkt]
      rcases hk k hkt with he | ho | ⟨hh,_⟩
      · exact h.streams k buf (he.symm.trans hph)
      · exact absurd (ho.symm.trans hph) (by simp)
      · exact absurd (hh.symm.trans hph) (by simp)
  · intro k hph
    show Function.update w.received token (w.received token ++ bytes) k = []
    by_cases hkt : k = token
    · subst hkt
      rw [Function.update_self]
      exact hn hph
    · rw [Function.update_of_ne hkt]
      apply h.fresh k
      rcases hph with hh | hle
      · rcases hk k hkt with he | ho | ⟨_,hn⟩
        · exact .inl (he.symm.trans hh)
        · exact absurd (ho.symm.trans hh) (by simp)
        · exact .inr hn
      · exact .inr (hnext.trans hle)

/-- A readable client: its frames are completed, in order, by what was read. -/
theorem clientReadable (h : Accounted base w) {now token : ℕ} {reads later : List ReadResult}
    {command : Option SessionHostCommand} {socket : List WriteResult} {writes : List (List WriteResult)}
    (hd : (arrival w.session now token reads later command socket).DropsNothing)
    (hw : (w.session.writeFrames writes
      (arrival w.session now token reads later command socket).frames).2 = true) :
    Accounted base
      { w.flow (w.session.clientReadable now token reads later command socket writes)
          (unitsFrom (.stream token) (arrival w.session now token reads later command socket).frames) with
        received := Function.update w.received token
          (w.received token ++ (arrival w.session now token reads later command socket).bytes) } := by
  have hg := h.good.clientReadable now token reads later command socket writes
  have hcase := clientReadable_arrival h.good now token reads later command socket writes
  have hbelow : w.session.phase token ≠ .other → token < w.session.nextToken := by
    intro hne
    cases hc : w.session.clients token with
    | none => simp [SessionIo.phase, hc] at hne
    | some c => exact h.good.token token c hc ▸ (h.good.fits token c hc).below
  cases ha : arrival w.session now token reads later command socket with
  | none =>
    rw [ha] at hcase
    have hk : w.session.Keeps _ := hcase
    have hkept := h.keeps hg hk
    refine h.receive token _ _ [] hg (by simp [hk.pty]) (by simp [Arrival.frames, hk.pendingInput])
      (by simp [Arrival.bytes, Arrival.frames]) ?_ ?_ (fun k _ => hk.phase k) hk.nextToken
    · simpa [Arrival.bytes] using hkept.streams token
    · simpa [Arrival.bytes] using hkept.fresh token
  | refused rest =>
    rw [ha] at hcase hd
    obtain ⟨hhand,hk,hother⟩ := hcase
    have hnil : w.received token = [] := h.fresh token (.inl hhand)
    have hempty : (parseInput ([] : List UInt8)).1 = [] := by decide
    refine h.receive token _ _ [] hg (by simp [hk.pty]) (by simp [Arrival.frames, hk.pendingInput])
      ?_ ?_ ?_ (fun k _ => hk.phase k) hk.nextToken
    · have hrest : (parseInput rest).1 = [] := hd
      simp [hnil, Arrival.bytes, Arrival.frames, hrest, hempty]
    · intro buf hb
      exact absurd (hother.symm.trans hb) (by simp)
    · rintro (hb | hle)
      · exact absurd (hother.symm.trans hb) (by simp)
      · exact absurd (hbelow (by simp [hhand])) (Nat.not_lt.mpr (hk.nextToken.trans hle))
  | input c buf rs opening =>
    rw [ha] at hcase hd hw
    obtain ⟨hs,htok,hphase,he⟩ := hcase
    obtain ⟨hin,hcl,hkeep⟩ := clientInput_frames w.session hs rs writes opening
    obtain ⟨out,hacc,hpend⟩ := writeFrames_moves hw
    rw [← hin] at hacc hpend
    have hstate : (w.session.clientInput c rs writes).2.1.state =
        .streamIn (parseInput (readInput rs buf).1).2.1 := by rw [hcl]
    have htoken : (w.session.clientInput c rs writes).2.1.token = token := by rw [hcl]; exact htok
    obtain ⟨hpty,hpending,hnext,hph⟩ := SessionIo.settleClient_streamIn
      (w.session.clientInput c rs writes).1 hstate (w.session.clientInput c rs writes).2.2
    have hone := (w.session.onlyInput_clientInput c rs writes).sameOutput
    have hself : (w.session.clientInput c rs writes).1.phase = w.session.phase := by
      funext k
      rw [SessionIo.phase, hone.clients]
      rfl
    rw [htoken, hself] at hph
    rw [he] at hg ⊢
    -- the whole stream so far, parsed at once
    have hgot : buf ++ (readInput rs buf).1.drop buf.length = (readInput rs buf).1 := by
      obtain ⟨more,hm⟩ := readInput_append rs buf
      rw [← hm, drop_left]
    have hparse : parseInput (w.received token ++ (Arrival.input c buf rs opening).bytes) =
        ((parseInput (w.received token)).1 ++ (parseInput (readInput rs buf).1).1,
          (parseInput (readInput rs buf).1).2) := by
      cases opening with
      | true =>
        have hnil : w.received token = [] := h.fresh token (.inl hphase)
        have hempty : (parseInput ([] : List UInt8)).1 = [] := by decide
        simp [hnil, Arrival.bytes, hgot, hempty]
      | false =>
        have hrest := h.streams token buf hphase
        simp only [Arrival.bytes, Bool.false_eq_true, ↓reduceIte, nil_append]
        rw [parseInput_append hrest, hgot]
    have hframes : (Arrival.input c buf rs opening).frames = (parseInput (readInput rs buf).1).1 := by
      simp only [Arrival.frames]
      split
      · next hv => exact (hd hv).symm
      · rfl
    refine h.receive token _ _ out hg (by rw [hpty]; exact hacc) (by rw [hpending]; exact hpend)
      (by rw [hparse, hframes]) ?_ ?_ (fun k hk => .inl (by rw [hph, if_neg hk]))
      (by rw [hnext, hone.nextToken])
    · intro rest hrest
      rw [hph, if_pos rfl] at hrest
      rw [hparse]
      split at hrest <;> cases hrest
      next hk =>
      rw [← hkeep hk]
    · rintro (hb | hle)
      · rw [hph, if_pos rfl] at hb
        split at hb <;> cases hb
      · have hlt := hbelow (by rw [hphase]; split <;> simp)
        rw [hnext, hone.nextToken] at hle
        omega

end Accounted

/-- One event that meets the conditions keeps the account. -/
theorem inputLedgerStep_accounted {base : ℕ} {w v : InputLedger} {a : SessionEvent} (h : Accounted base w)
    (hok : PtyTakesInput w a ∧ KeepsUnits w a) (hst : inputLedgerStep w a = some v) : Accounted base v := by
  have quiet : ∀ {t : SessionIo}, sessionStep w.session a = some t → LeavesNothingBehind w.session a →
      w.session.Keeps t → Accounted base { w with session := t } :=
    fun ht hl hk => h.keeps (sessionStep_good h.good hl ht) hk
  cases a with
  | commitHandoff now sockets => cases hst
  | accept now fd => exact Option.some.inj hst ▸ quiet rfl trivial (SessionIo.keeps_acceptClient _ _ _)
  | clientWritable now token socket =>
    exact Option.some.inj hst ▸ quiet rfl trivial (SessionIo.keeps_clientWritable h.good _ _ _)
  | flush now sockets =>
    exact Option.some.inj hst ▸ quiet rfl trivial (SessionIo.keeps_flushStreamClients _ _ _)
  | journalDrained => exact Option.some.inj hst ▸ quiet rfl trivial (SessionIo.keeps_journalDrained _)
  | idleTick now => exact Option.some.inj hst ▸ quiet rfl trivial (SessionIo.keeps_idleTick _ _)
  | abandonHandoff now sockets =>
    exact Option.some.inj hst ▸ quiet rfl trivial (SessionIo.keeps_abandonHandoff _ _ _)
  | clientReadable now token reads later command socket writes =>
    exact Option.some.inj hst ▸ h.clientReadable hok.2 hok.1
  | ptyWritable results =>
    cases Option.some.inj hst
    obtain ⟨out,ha,hp⟩ := drainPendingInput_moves hok.1
    have hone := (w.session.onlyInput_drainPendingInput results).sameOutput
    have hphase : (w.session.drainPendingInput results).1.phase = w.session.phase := by
      funext k
      rw [SessionIo.phase, hone.clients]
      rfl
    have hnone := h.receive 0 [] [] out (hone.good h.good) ha
      (by simpa using hp) (by simp) (by simpa [hphase] using h.streams 0)
      (by simpa [hphase, hone.nextToken] using h.fresh 0) (fun k _ => .inl (by rw [hphase])) hone.nextToken.ge
    simp only [unitsFrom, map_nil, append_nil, Function.update_eq_self] at hnone
    exact hnone
  | write writeId data results =>
    obtain ⟨⟨t,r⟩,hw,hv⟩ := Option.map_eq_some_iff.mp hst
    have hg := (SessionIo.sameOutput_dispatchWrite hw).good h.good
    cases SessionIo.dispatchWrite_outcome hw with
    | refused message hval | known id hval hc => exact hv ▸ h
    | failed id taken rest message hval hc hfail => exact absurd hfail (hok.1 taken rest)
    | delivered id rest hval hc hall =>
      have hd := h.direct .write [data] hg (by simpa using hok.2 ⟨id,hval,hc⟩)
        (by simp) rfl rfl rfl (by simp)
      subst hv
      simp only [unitsFrom, map_cons, map_nil, ↓reduceIte, reduceCtorEq, append_nil] at hd
      exact hd
  | ptyReadable now cursor replies bytes backlog =>
    obtain ⟨t,ht,rfl⟩ := Option.map_eq_some_iff.mp hst
    have hg := sessionStep_good h.good (a := .ptyReadable now cursor replies bytes backlog) trivial ht
    simp only [sessionStep] at ht
    split at ht
    · cases ht
    obtain ⟨out,hout,ha,hp,hc,hn⟩ := ptyReadable_replies ht
    rw [hok.1 out hout] at ha
    have hd := h.direct .reply (repliesTo w.session cursor bytes) hg
      (fun hne => hok.2 (fun hnil => hne (by rw [hnil]; rfl))) ha hp hc hn (by simp)
    simp only [reduceCtorEq, ↓reduceIte, append_nil] at hd
    exact hd

def inputLedgerOf (s : SessionIo) : InputLedger := ⟨s,fun _ => [],[],[],[],[],0⟩

theorem accounted_launched (darkMode : Bool) (base now : ℕ) :
    Accounted base (inputLedgerOf (launched ⟨[]⟩ darkMode base now)) where
  good := good_launched _ _ _ now
  accepted := rfl
  pending := rfl
  within := Nat.le_refl _
  queued := fun u hu => by cases hu
  frames := fun _ => rfl
  writes := rfl
  replies := rfl
  streams := fun token buf h => by cases h
  fresh := fun _ _ => rfl

/-- While the PTY takes what it is given, input stays whole in every run in which
nothing is written past a unit the PTY has a part of, and no connection is closed
together with frames it has sent. -/
theorem input_units_whole (darkMode : Bool) (base now : ℕ) (events : List SessionEvent)
    (hpty : Guarded inputLedgerStep PtyTakesInput (inputLedgerOf (launched ⟨[]⟩ darkMode base now)) events)
    (hunits : Guarded inputLedgerStep KeepsUnits (inputLedgerOf (launched ⟨[]⟩ darkMode base now)) events) :
    Always inputLedgerStep InputIntact (inputLedgerOf (launched ⟨[]⟩ darkMode base now)) events :=
  always_of_guarded (fun _ _ _ => inputLedgerStep_accounted) (fun _ => Accounted.intact)
    (accounted_launched darkMode base now) (hpty.and hunits)

/-- A connection that opens its input stream with the frame `ab` behind the line. -/
def sendsFrame (writes : List (List WriteResult)) : SessionEvent :=
  .clientReadable 0 0 [.data [10,0,0,0,2,97,98]] [] (some .streamInput) [.ok 1] writes

/-- The PTY is full after one byte and takes the other before the `Write`. -/
theorem input_units_whole_after_drain :
    Always inputLedgerStep InputIntact (inputLedgerOf (launched ⟨[]⟩ false 0 0))
      [.accept 0 7,sendsFrame [[.ok 1,.wouldBlock]],.ptyWritable [.ok 1],.write none [120] [.ok 1]] := by
  refine input_units_whole false 0 0 _ ?_ ?_
  · intro t ht
    cases ht
    refine ⟨trivial,?_⟩
    intro t ht
    cases ht
    refine ⟨rfl,?_⟩
    intro t ht
    cases ht
    refine ⟨rfl,?_⟩
    intro t ht
    cases ht
    exact ⟨by simp [PtyTakesInput, writeAll],trivial⟩
  · intro t ht
    cases ht
    refine ⟨trivial,?_⟩
    intro t ht
    cases ht
    refine ⟨fun hv => absurd hv (by decide),?_⟩
    intro t ht
    cases ht
    refine ⟨trivial,?_⟩
    intro t ht
    cases ht
    exact ⟨fun _ _ => by decide,trivial⟩

/-- The PTY has taken half of the frame when the `Write` comes: it receives `axb`. -/
theorem write_tears_a_frame :
    ¬ Always inputLedgerStep InputIntact (inputLedgerOf (launched ⟨[]⟩ false 0 0))
      [.accept 0 7,sendsFrame [[.ok 1,.wouldBlock]],.write none [120] [.ok 1]] := by
  intro h
  obtain ⟨units,hbytes,hstream,hwrite,hreply⟩ := ((h.2 _ rfl).2 _ rfl).2 _ rfl
  have hbytes : unitBytes units = [97,120,98] := hbytes.symm.trans (by decide)
  have hzero : unitsOf (.stream 0) units = [[97,98]] := (hstream 0).trans (by decide)
  have hother : ∀ token, token ≠ 0 → unitsOf (.stream token) units = [] := by
    intro token ht
    refine (hstream token).trans ?_
    show (parseInput (Function.update (fun _ => []) 0 ([] ++ [0,0,0,2,97,98]) token)).1 = []
    rw [Function.update_of_ne ht]
    rfl
  have hwrite : unitsOf .write units = [[120]] := hwrite
  have hreply : unitsOf .reply units = [] := hreply
  -- the first unit would have to be the frame or the data of the `Write`
  cases units with
  | nil => simp [unitBytes] at hbytes
  | cons u us =>
    obtain ⟨source,bytes⟩ := u
    cases source with
    | reply => simp [unitsOf] at hreply
    | write =>
      have hb : bytes = [120] := by
        simp only [unitsOf, decide_true, filter_cons_of_pos, map_cons, List.cons.injEq] at hwrite
        exact hwrite.1
      rw [hb] at hbytes
      exact absurd (List.cons.inj hbytes).1 (by decide)
    | stream token =>
      by_cases ht : token = 0
      · have hb : bytes = [97,98] := by
          subst ht
          simp only [unitsOf, decide_true, filter_cons_of_pos, map_cons, List.cons.injEq] at hzero
          exact hzero.1
        rw [hb] at hbytes
        exact absurd (List.cons.inj (List.cons.inj hbytes).2).1 (by decide)
      · have hn := hother token ht
        simp [unitsOf] at hn

end Unpeel.Session
