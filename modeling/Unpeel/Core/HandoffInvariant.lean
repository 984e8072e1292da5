import Unpeel.Core.HandoffTimer

/-! # The leaving core while a handoff is under way

What a failed handoff may leave of a Session, and what holds of every Session
until the old core has decided.
-/
namespace Unpeel.Core
open Session Session.OutputQueryScanner

/-- The Session has published what its scanner let through of the reads of the
old core, and nothing else. -/
structure Published (h0 h : CoreSession) (reads : List PtyRead) : Prop where
  journal : h.io.journal = h0.io.journal ++ (h0.io.queryScanner.scanReads reads).out
  scanner : h.io.queryScanner = (h0.io.queryScanner.scanReads reads).scanner
  nextOffset : h.io.broadcaster.nextOffset =
    h0.io.broadcaster.nextOffset + (h0.io.queryScanner.scanReads reads).out.length

variable {event : SessionEvent} {io : SessionIo}

namespace Published
variable {h0 h : CoreSession} {reads : List PtyRead}

theorem refl (h : CoreSession) : Published h h [] := ⟨by simp [scanReads],rfl,rfl⟩

theorem sameText (hp : Published h0 h reads) (ht : SessionIo.SameText h.io io) :
    Published h0 { h with io := io } reads :=
  ⟨ht.journal.trans hp.journal,ht.queryScanner.trans hp.scanner,ht.nextOffset.trans hp.nextOffset⟩

theorem hostStep {unread : List UInt8} {more : List PtyRead}
    (hp : Published h0 h reads) (hs : Core.hostStep h.io unread event = some (io,more)) :
    Published h0 { h with io := io } (reads ++ more) := by
  obtain ⟨hc,hstep,rfl,_,_⟩ := hostStep_some hs
  obtain ⟨hj,hq,_,ho⟩ := sessionStep_text hc hstep
  rw [hp.scanner] at hj hq ho
  refine ⟨?_,?_,?_⟩
  · rw [scanReads_append]
    exact hj.trans (by rw [hp.journal, List.append_assoc])
  · rw [scanReads_append]
    exact hq
  · rw [scanReads_append]
    refine ho.trans ?_
    rw [hp.nextOffset, List.length_append, Nat.add_assoc]

end Published

/-- A Session after a failed handoff: it is read again, its jobs are those it
had, and every byte of its child is published once by the old core or waits to be. -/
structure Resumed (h0 : CoreSession) (s : Takeover) (slot : ℕ) : Prop where
  jobs : s.timer.SameJobs slot
  output : readBytes (s.terminals slot).oldReads ++ (s.terminals slot).unread = (s.terminals slot).output
  session : ∃ h, s.sessions slot = some h ∧ Published h0 h (s.terminals slot).oldReads ∧
    (∀ error, s.old = .returned error → h.io.ptyReadInterest = true)

structure HarmlessFor (s : Takeover) (slot : ℕ) (h : CoreSession) : Prop where
  reads : h.io.ptyReadInterest = true ∨ (slot ∈ s.paused ∧ h.io.ended = false)
  jobs : slot ∈ s.paused → h.jobSeed.jobs = s.timer.undisturbed slot
  retiring : s.old.retiringSlot = some slot → s.timer.undisturbed.after s.timer.earlier slot = []
  untaken : (s.terminals slot).taken = []

/-- The old core gives up where that is harmless, and the new core reads nothing
after it. -/
def LeavesAlone (s : Takeover) : TakeoverAction → Prop
  | .fails _ => ∀ slot h, s.sessions slot = some h → HarmlessFor s slot h
  | .newServes slot event => s.old.GaveUp → (s.sessions slot).isSome → ∀ io, s.adopted slot = some io →
      event.ptyReads io = []
  | _ => True

structure Quiet (table : List (Option CoreSession)) (s : Takeover) : Prop where
  session : ∀ slot h0, table[slot]?.join = some h0 → ∃ h, s.sessions slot = some h ∧ Published h0 h []
  unread : ∀ slot, (s.terminals slot).oldReads = []
  output : ∀ slot, (s.terminals slot).taken ++ (s.terminals slot).unread = (s.terminals slot).output
  exporting : ∀ slots, s.old = .exporting slots → ∀ slot ∈ slots, slot ∈ s.paused
  nodup : (s.paused ++ s.old.unpaused).Nodup
  dropped : ∀ slot ∈ s.paused, s.timer.Dropped slot
  dropping : ∀ slot, s.old.retiringSlot = some slot → s.timer.Dropping slot
  untouched : ∀ slot, slot ∉ s.paused → s.old.retiringSlot ≠ some slot → s.timer.Untouched slot

structure HandoffInv (table : List (Option CoreSession)) (s : Takeover) : Prop where
  hosted : ∀ slot h, s.sessions slot = some h → ∃ h0, table[slot]?.join = some h0
  quiet : s.old.Deciding → Quiet table s
  resumed : s.old.GaveUp → ∀ slot h0, table[slot]?.join = some h0 → s.timer.Kept slot ∧ Resumed h0 s slot

variable {slot : ℕ}

namespace HandoffInv
variable {table : List (Option CoreSession)} {s t : Takeover}

theorem congr (h : HandoffInv table s) (ho : t.old = s.old) (hs : t.sessions = s.sessions)
    (hp : t.paused = s.paused) (ht : t.timer = s.timer) (hterm : t.terminals = s.terminals) :
    HandoffInv table t := by
  rcases s with ⟨old,sessions,paused,exports,timer,terminals,toNew,toOld,new,adopted⟩
  subst ho hs hp ht hterm
  obtain ⟨h1,h2,h3⟩ := h
  refine ⟨h1,fun hd => ?_,fun hg slot h0 hh => ?_⟩
  · obtain ⟨q1,q2,q3,q4,q5,q6,q7,q8⟩ := h2 hd
    exact ⟨q1,q2,q3,q4,q5,q6,q7,q8⟩
  · obtain ⟨hk,r1,r2,r3⟩ := h3 hg slot h0 hh
    exact ⟨hk,r1,r2,r3⟩

theorem moves {timer : Timer} (h : HandoffInv table s) (hm : s.timer.Moves timer) :
    HandoffInv table { s with timer := timer } where
  hosted := h.hosted
  quiet := fun hd => { h.quiet hd with
    dropped := fun slot hs => ((h.quiet hd).dropped slot hs).moves hm
    dropping := fun slot hs => ((h.quiet hd).dropping slot hs).moves hm
    untouched := fun slot hs hr => ((h.quiet hd).untouched slot hs hr).moves hm }
  resumed := fun hg slot h0 hh => by
    obtain ⟨hk,hr⟩ := h.resumed hg slot h0 hh
    exact ⟨hk.moves hm,(hk.moves hm).sameJobs,hr.output,hr.session⟩

/-- A change of one terminal that keeps what the invariant says of its bytes. -/
theorem terminal (terminal : Terminal) (h : HandoffInv table s)
    (hr : terminal.oldReads = (s.terminals slot).oldReads)
    (hd : s.old.Deciding → terminal.taken ++ terminal.unread = terminal.output)
    (hg : s.old.GaveUp → ∀ h0, table[slot]?.join = some h0 →
      readBytes terminal.oldReads ++ terminal.unread = terminal.output) :
    HandoffInv table { s with terminals := Function.update s.terminals slot terminal } where
  hosted := h.hosted
  quiet := fun hdec => by
    have hq := h.quiet hdec
    refine { hq with unread := fun k => ?_, output := fun k => ?_ }
    · dsimp only
      rw [Function.update_apply]
      split
      · exact hr.trans (hq.unread slot)
      · exact hq.unread k
    · dsimp only
      rw [Function.update_apply]
      split
      · exact hd hdec
      · exact hq.output k
  resumed := fun hgave k h0 hh => by
    obtain ⟨hk,hres⟩ := h.resumed hgave k h0 hh
    by_cases he : k = slot
    · subst he
      refine ⟨hk,hres.jobs,?_,?_⟩
      · simpa using hg hgave h0 hh
      · simpa [hr] using hres.session
    · refine ⟨hk,hres.jobs,?_,?_⟩
      · simpa [he] using hres.output
      · simpa [he] using hres.session

theorem childWrites (h : HandoffInv table s) (slot : ℕ) (bytes : List UInt8) :
    HandoffInv table { s with
      terminals := Function.update s.terminals slot
        { s.terminals slot with unread := (s.terminals slot).unread ++ bytes
                                output := (s.terminals slot).output ++ bytes } } := by
  refine h.terminal _ rfl (fun hd => ?_) (fun hg h0 hh => ?_)
  · dsimp only
    rw [← List.append_assoc, (h.quiet hd).output slot]
  · dsimp only
    rw [← List.append_assoc, (h.resumed hg slot h0 hh).2.output]

theorem unread_eq {unread bytes : List UInt8} (h : bytes <+: unread) :
    bytes ++ unread.drop bytes.length = unread := by
  obtain ⟨rest,rfl⟩ := h
  simp

theorem serveNew (h : HandoffInv table s)
    (hok : LeavesAlone s (.newServes slot event)) (hs : s.serveNew slot event = some t) :
    HandoffInv table t := by
  unfold Takeover.serveNew at hs
  split at hs
  · cases hs
  next io hio =>
  obtain ⟨⟨io',reads⟩,hr,rfl⟩ := Option.map_eq_some_iff.mp hs
  obtain ⟨_,_,hreads,hb,_⟩ := hostStep_some hr
  refine HandoffInv.congr (s := { s with terminals := Function.update s.terminals slot _ })
    (h.terminal { s.terminals slot with
      unread := (s.terminals slot).unread.drop (readBytes reads).length
      taken := (s.terminals slot).taken ++ readBytes reads } rfl (fun hd => ?_) (fun hg h0 hh => ?_))
    rfl rfl rfl rfl rfl
  · dsimp only
    rw [List.append_assoc, unread_eq hb, (h.quiet hd).output slot]
  · have hres := (h.resumed hg slot h0 hh).2
    obtain ⟨c,hc,_⟩ := hres.session
    have hn : reads = [] := hreads.trans (hok hg (by simp [hc]) io hio)
    subst hn
    exact hres.output

theorem serveOld (h : HandoffInv table s) (hg : s.old.GaveUp)
    (hs : s.serveOld slot event = some t) : HandoffInv table t := by
  unfold Takeover.serveOld at hs
  split at hs
  · cases hs
  next c hc =>
  obtain ⟨⟨io,reads⟩,hr,rfl⟩ := Option.map_eq_some_iff.mp hs
  obtain ⟨_,_,_,hb,_⟩ := hostStep_some hr
  refine ⟨fun k d hd => ?_,fun hd => absurd hd id,fun _ k h0 hh => ?_⟩
  · simp only [Takeover.setIo, Function.update_apply] at hd
    split at hd
    · next hk => exact hk ▸ h.hosted slot c hc
    · exact h.hosted k d hd
  · obtain ⟨hk,hres⟩ := h.resumed hg k h0 hh
    refine ⟨hk,hres.jobs,?_,?_⟩
    · dsimp only
      rw [Function.update_apply]
      split
      · next he =>
        subst he
        rw [readBytes, List.map_append, List.flatten_append, List.append_assoc]
        show readBytes _ ++ (readBytes reads ++ _) = _
        rw [unread_eq hb]
        exact hres.output
      · exact hres.output
    · obtain ⟨d,hd,hp,_⟩ := hres.session
      by_cases he : k = slot
      · subst he
        obtain rfl : c = d := Option.some.inj (hc.symm.trans hd)
        refine ⟨{ c with io := io },by simp [Takeover.setIo, hc],?_,fun error he => by cases he⟩
        simpa using hp.hostStep hr
      · refine ⟨d,by simpa [Takeover.setIo, he] using hd,?_,fun error he => by cases he⟩
        simpa [he] using hp

end HandoffInv

namespace Quiet
variable {table : List (Option CoreSession)} {s : Takeover}

theorem inv (h : Quiet table s) (hd : s.old.Deciding)
    (hh : ∀ slot h, s.sessions slot = some h → ∃ h0, table[slot]?.join = some h0) : HandoffInv table s :=
  ⟨hh,fun _ => h,fun hg => absurd hg hd.not_gaveUp⟩

theorem flushed {slots : List ℕ} (h : Quiet table s) (ho : s.old = .quiescing (slot :: slots)) :
    Quiet table { s with old := .retiring slot slots, timer := s.timer.send [.remove slot] } := by
  have hn := h.nodup
  rw [ho] at hn
  have hslot : slot ∉ s.paused := fun hm => (List.nodup_append.mp hn).2.2 slot hm slot (by simp [OldPhase.unpaused]) rfl
  have hr : s.old.retiringSlot = none := by rw [ho]; rfl
  have other : ∀ k, k ≠ slot → [TimerMsg.remove slot].filter (·.slot = k) = [] := by
    intro k hk
    simp [TimerMsg.slot, Ne.symm hk]
  refine { h with exporting := fun _ he => (by cases he), nodup := hn, dropped := ?_, dropping := ?_, untouched := ?_ }
  · intro k hk
    exact (h.dropped k hk).send (other k (fun he => hslot (he ▸ hk)))
  · intro k hk
    obtain rfl : slot = k := Option.some.inj hk
    have hu := h.untouched slot hslot (by simp [hr])
    exact .inl ⟨hu.jobs,by rw [Timer.about_send, hu.about]; simp [TimerMsg.slot]⟩
  · intro k hk hne
    have hks : k ≠ slot := fun he => hne (by rw [he]; rfl)
    exact (h.untouched k hk (by simp [hr])).send (other k hks)

theorem retired {slots : List ℕ} (h : Quiet table s) (ho : s.old = .retiring slot slots)
    (hsent : s.timer.sent = []) :
    Quiet table { s with old := Takeover.quiesce (s.paused ++ [slot]) slots, paused := s.paused ++ [slot] } := by
  have hr : s.old.retiringSlot = some slot := by rw [ho]; rfl
  have hdrop : s.timer.Dropped slot := by
    rcases h.dropping slot hr with ⟨_,ha⟩ | hd
    · simp [Timer.about, hsent] at ha
    · exact hd
  refine { h with exporting := ?_, nodup := ?_, dropped := ?_, dropping := ?_, untouched := ?_ }
  · intro l hl k hk
    cases slots with
    | nil =>
      cases hl
      exact hk
    | cons a as => cases hl
  · have hn := h.nodup
    rw [ho] at hn
    rw [OldPhase.quiesce_unpaused]
    simpa [OldPhase.unpaused] using hn
  · intro k hk
    rcases List.mem_append.mp hk with hk | hk
    · exact h.dropped k hk
    · exact List.mem_singleton.mp hk ▸ hdrop
  · intro k hk
    rw [OldPhase.quiesce_retiringSlot] at hk
    cases hk
  · intro k hk _
    obtain ⟨hp,hs⟩ := not_or.mp (fun hm => hk (List.mem_append.mpr hm))
    refine h.untouched k hp (fun he => hs ?_)
    rw [hr] at he
    simp [Option.some.inj he]

theorem later {phase : OldPhase} (h : Quiet table s) (hr : s.old.retiringSlot = none)
    (hr' : phase.retiringSlot = none) (hu : phase.unpaused = [])
    (he : ∀ slots, phase = .exporting slots → ∀ slot ∈ slots, slot ∈ s.paused) :
    Quiet table { s with old := phase } :=
  { h with
    exporting := he
    nodup := by
      dsimp only
      rw [hu, List.append_nil]
      exact (List.nodup_append.mp h.nodup).1
    dropping := fun slot hs => by
      rw [hr'] at hs
      cases hs
    untouched := fun slot hs _ => h.untouched slot hs (by simp [hr]) }

theorem setIo {h : CoreSession} (hq : Quiet table s)
    (hs : s.sessions slot = some h) (ht : SessionIo.SameText h.io io) : Quiet table (s.setIo slot io) where
  session := fun k h0 hh => by
    obtain ⟨c,hc,hp⟩ := hq.session k h0 hh
    by_cases hk : k = slot
    · subst hk
      obtain rfl : h = c := Option.some.inj (hs.symm.trans hc)
      exact ⟨{ h with io := io },by simp [Takeover.setIo, hs],hp.sameText ht⟩
    · exact ⟨c,by simpa [Takeover.setIo, hk] using hc,hp⟩
  unread := hq.unread
  output := hq.output
  exporting := hq.exporting
  nodup := hq.nodup
  dropped := hq.dropped
  dropping := hq.dropping
  untouched := hq.untouched

end Quiet
end Unpeel.Core
