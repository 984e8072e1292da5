import Unpeel.Core.Slots

/-! # Slots that are reused once they are vacated

The invariant of the slots, and what each operation makes of it.
-/
namespace Unpeel.Core
open List Function

namespace Slots

/-- The journal sends no message any more: no chunk of it is queued, and its batch
cannot fail. -/
def Silent (s : Slots) (id : ℕ) : Prop :=
  (∀ len, .chunk id len ∉ s.journalQueue) ∧ ∀ j, s.journals id = some j → j.pending = 0 ∨ j.error = true

/-- Messages act on their own Session, and a Session keeps its jobs but for those
that ended by themselves. -/
structure SlotsHold (s : Slots) : Prop where
  jobs : ∀ slot session, s.sessions slot = some session → ∀ job ∈ session.jobs, job ∉ s.retired →
    job ∈ s.jobs.after s.timerQueue slot
  misdirected : s.misdirected = []

/-- A slot that is used again is rid of its former owners: none of them still has
to retire its jobs, no control message for the slot is on its way, and none of
their journals can still send one. -/
def Vacated (s : Slots) (slot : ℕ) : Prop :=
  (∀ d ∈ s.teardowns, d.slot ≠ slot) ∧ (∀ c ∈ s.control, c.slot ≠ slot) ∧
  ∀ id, s.pressureSlot id = slot → s.Silent id

end Slots

def ReusesVacated (s : Slots) : SlotEvent → Prop
  | .register _ _ accepted => accepted = true → ∀ slot rest, s.freeSlots = slot :: rest → s.Vacated slot
  | _ => True

namespace Slots
variable {s t : Slots}
variable {id : ℕ} {session : Hosted}
variable {queue : List JournalMsg}

/-- What ties slots, journals and messages together while slots are vacated
before they are used again. -/
structure Settled (s : Slots) : Prop extends SlotsHold s where
  free : ∀ k ∈ s.freeSlots, k < s.len ∧ s.sessions k = none
  freeNodup : s.freeSlots.Nodup
  bound : ∀ k h, s.sessions k = some h → k < s.len
  own : ∀ k h, s.sessions k = some h →
    s.pressureSlot h.journal = k ∧ h.journal < s.nextJournal ∧ h.journal ∉ s.waiting
  waitingNodup : s.waiting.Nodup
  waitingBound : ∀ id ∈ s.waiting, id < s.nextJournal
  idle : ∀ id, id ∈ s.waiting ∨ s.nextJournal ≤ id → s.Silent id
  others : ∀ k h, s.sessions k = some h → ∀ id, id ≠ h.journal → s.pressureSlot id = k → s.Silent id
  placed : ∀ id, s.Silent id ∨ s.pressureSlot id < s.len
  control : ∀ c ∈ s.control, c.slot < s.len ∧ ∀ h, s.sessions c.slot = some h → c.issuer = h.journal
  teardowns : ∀ d ∈ s.teardowns, d.slot < s.len ∧ s.sessions d.slot = none

theorem Silent.mono {id : ℕ} (h : s.Silent id) (hj : t.journals id = s.journals id)
    {extra : List JournalMsg} (hq : t.journalQueue = s.journalQueue ++ extra)
    (he : ∀ len, .chunk id len ∉ extra) : t.Silent id := by
  refine ⟨fun len hm => ?_,fun j hs => h.2 j (hj ▸ hs)⟩
  rw [hq, mem_append] at hm
  exact hm.elim (h.1 len) (he len)

theorem Settled.launch (h : Settled s) :
    Settled { s with nextJournal := s.nextJournal + 1, waiting := s.waiting ++ [s.nextJournal],
                     journalQueue := s.journalQueue ++ [.open s.nextJournal] } := by
  have hsil : ∀ id, s.Silent id → Silent { s with
      nextJournal := s.nextJournal + 1, waiting := s.waiting ++ [s.nextJournal],
      journalQueue := s.journalQueue ++ [.open s.nextJournal] } id :=
    fun id hid => hid.mono rfl rfl (by simp)
  refine { h with own := ?_, waitingNodup := ?_, waitingBound := ?_, idle := ?_, others := ?_, placed := ?_ }
  · intro k session hk
    obtain ⟨h1,h2,h3⟩ := h.own k session hk
    refine ⟨h1,Nat.lt_succ_of_lt h2,fun hm => ?_⟩
    rcases mem_append.mp hm with hm | hm
    · exact h3 hm
    · exact absurd (mem_singleton.mp hm) h2.ne
  · rw [nodup_append]
    refine ⟨h.waitingNodup,by simp,?_⟩
    rintro a ha b hb rfl
    exact absurd (mem_singleton.mp hb) (h.waitingBound a ha).ne
  · intro id hm
    rcases mem_append.mp hm with hm | hm
    · exact Nat.lt_succ_of_lt (h.waitingBound id hm)
    · rw [mem_singleton.mp hm]
      exact Nat.lt_succ_self _
  · intro id hid
    apply hsil
    apply h.idle
    rcases hid with hm | hle
    · rcases mem_append.mp hm with hm | hm
      · exact .inl hm
      · exact .inr (mem_singleton.mp hm).ge
    · exact .inr (Nat.le_of_succ_le hle)
  · exact fun k session hk id hne hp => hsil id (h.others k session hk id hne hp)
  · exact fun id => (h.placed id).imp_left (hsil id)

theorem takeSlot_spec (h : Settled s) :
    s.sessions s.takeSlot.1 = none ∧ s.takeSlot.1 ∉ s.takeSlot.2 ∧ s.takeSlot.2.Nodup ∧
    (∀ k ∈ s.takeSlot.2, k ∈ s.freeSlots) := by
  unfold takeSlot
  have hfree := h.free
  have hn := h.freeNodup
  cases hf : s.freeSlots with
  | nil =>
    refine ⟨?_,by simp,by simp,by simp⟩
    cases hk : s.sessions s.len with
    | none => rfl
    | some session => exact absurd (h.bound _ _ hk) (Nat.lt_irrefl _)
  | cons slot rest =>
    rw [hf] at hfree hn
    exact ⟨(hfree slot (by simp)).2,(nodup_cons.mp hn).1,(nodup_cons.mp hn).2,fun k hk => by simp [hk]⟩

theorem Settled.vacated_fresh (h : Settled s) : s.Vacated s.len := by
  refine ⟨fun d hd he => ?_,fun c hc he => ?_,fun id he => ?_⟩
  · exact absurd (he ▸ (h.teardowns d hd).1) (Nat.lt_irrefl _)
  · exact absurd (he ▸ (h.control c hc).1) (Nat.lt_irrefl _)
  · exact (h.placed id).resolve_right (fun hlt => absurd (he ▸ hlt) (Nat.lt_irrefl _))

theorem Settled.assign (h : Settled s) (hid : id ∈ s.waiting) {k : ℕ} (hk : s.sessions k = some session) (slot : ℕ) :
    session.journal ≠ id ∧ Function.update s.pressureSlot id slot session.journal = k := by
  obtain ⟨h1,_,h3⟩ := h.own k session hk
  have hne : session.journal ≠ id := fun he => h3 (he ▸ hid)
  exact ⟨hne,by rw [update_of_ne hne, h1]⟩

theorem Settled.register_accepted (h : Settled s) (hid : id ∈ s.waiting) (kinds : List JobKind)
    (hv : s.Vacated s.takeSlot.1) : Settled (s.register id kinds true) := by
  obtain ⟨hnone,hout,hnodup,hsub⟩ := takeSlot_spec h
  simp only [Slots.register, ↓reduceIte]
  generalize hslot : s.takeSlot.1 = slot at *
  generalize s.takeSlot.2 = rest at *
  have hlt : slot < max s.len (slot + 1) := by omega
  -- the sessions of the other slots
  have hother : ∀ {k : ℕ} {session : Hosted}, k ≠ slot →
      Function.update s.sessions slot (some ⟨id,kinds.map (HostTimerJob.mk id)⟩) k = some session →
      s.sessions k = some session := by
    intro k session hne hk
    rwa [update_of_ne hne] at hk
  have hself : ∀ {session : Hosted},
      Function.update s.sessions slot (some ⟨id,kinds.map (HostTimerJob.mk id)⟩) slot = some session →
      session = ⟨id,kinds.map (HostTimerJob.mk id)⟩ := by
    intro session hk
    rw [update_self] at hk
    exact (Option.some.inj hk).symm
  constructor
  · constructor
    · intro k session hk job hj hr
      rw [JobTable.after_add]
      by_cases hks : k = slot
      · subst hks
        rw [if_pos rfl, mem_append]
        rw [hself hk] at hj
        exact .inr hj
      · rw [if_neg hks]
        exact h.jobs k session (hother hks hk) job hj hr
    · exact h.misdirected
  · intro k hk
    have hks : k ≠ slot := fun he => hout (he ▸ hk)
    obtain ⟨h1,h2⟩ := h.free k (hsub k hk)
    exact ⟨lt_max_of_lt_left h1,by show Function.update _ _ _ _ = _; rw [update_of_ne hks, h2]⟩
  · exact hnodup
  · intro k session hk
    by_cases hks : k = slot
    · exact hks ▸ hlt
    · exact lt_max_of_lt_left (h.bound k session (hother hks hk))
  · intro k session hk
    by_cases hks : k = slot
    · subst hks
      rw [hself hk]
      exact ⟨update_self ..,h.waitingBound id hid,h.waitingNodup.not_mem_erase⟩
    · have hk' := hother hks hk
      obtain ⟨_,h2,h3⟩ := h.own k session hk'
      exact ⟨(h.assign hid hk' slot).2,h2,fun hm => h3 (mem_of_mem_erase hm)⟩
  · exact h.waitingNodup.erase id
  · exact fun x hx => h.waitingBound x (mem_of_mem_erase hx)
  · exact fun x hx => h.idle x (hx.imp_left mem_of_mem_erase)
  · intro k session hk x hne hp
    by_cases hks : k = slot
    · subst hks
      rw [hself hk] at hne
      have hp' : s.pressureSlot x = k := (update_of_ne hne _ _).symm.trans hp
      exact hv.2.2 x hp'
    · have hx : x ≠ id := by
        rintro rfl
        exact hks ((update_self x slot s.pressureSlot).symm.trans hp).symm
      exact h.others k session (hother hks hk) x hne ((update_of_ne hx _ _).symm.trans hp)
  · intro x
    by_cases hx : x = id
    · subst hx
      right
      show Function.update s.pressureSlot x slot x < _
      rw [update_self]
      exact hlt
    · refine (h.placed x).imp (fun hs => hs) (fun hp => ?_)
      show Function.update s.pressureSlot id slot x < _
      rw [update_of_ne hx]
      exact lt_max_of_lt_left hp
  · intro c hc
    obtain ⟨h1,h2⟩ := h.control c hc
    exact ⟨lt_max_of_lt_left h1,fun session hk => h2 session (hother (hv.2.1 c hc) hk)⟩
  · intro d hd
    obtain ⟨h1,h2⟩ := h.teardowns d hd
    refine ⟨lt_max_of_lt_left h1,?_⟩
    show Function.update s.sessions slot _ d.slot = none
    rw [update_of_ne (hv.1 d hd), h2]

theorem Settled.register_refused (h : Settled s) (hid : id ∈ s.waiting) (kinds : List JobKind) :
    Settled (s.register id kinds false) := by
  obtain ⟨hnone,hout,hnodup,hsub⟩ := takeSlot_spec h
  have hsil : ∀ x, s.Silent x → (s.register id kinds false).Silent x :=
    fun x hx => hx.mono rfl rfl (by simp)
  simp only [Slots.register, Bool.false_eq_true, ↓reduceIte] at hsil ⊢
  generalize s.takeSlot.1 = slot at *
  generalize s.takeSlot.2 = rest at *
  have hlt : slot < max s.len (slot + 1) := by omega
  refine { h with free := ?_, freeNodup := ?_, bound := ?_, own := ?_, waitingNodup := ?_, waitingBound := ?_,
                  idle := ?_, others := ?_, placed := ?_, control := ?_, teardowns := ?_ }
  · intro k hk
    rcases mem_cons.mp hk with rfl | hk
    · exact ⟨hlt,hnone⟩
    · obtain ⟨h1,h2⟩ := h.free k (hsub k hk)
      exact ⟨lt_max_of_lt_left h1,h2⟩
  · exact nodup_cons.mpr ⟨hout,hnodup⟩
  · exact fun k session hk => lt_max_of_lt_left (h.bound k session hk)
  · intro k session hk
    obtain ⟨_,h2,h3⟩ := h.own k session hk
    exact ⟨(h.assign hid hk slot).2,h2,fun hm => h3 (mem_of_mem_erase hm)⟩
  · exact h.waitingNodup.erase id
  · exact fun x hx => h.waitingBound x (mem_of_mem_erase hx)
  · exact fun x hx => hsil x (h.idle x (hx.imp_left mem_of_mem_erase))
  · intro k session hk x hne hp
    have hx : x ≠ id := by
      rintro rfl
      have hks : slot = k := (update_self x slot s.pressureSlot).symm.trans hp
      rw [hks] at hnone
      exact absurd (hnone.symm.trans hk) (by simp)
    exact hsil x (h.others k session hk x hne ((update_of_ne hx _ _).symm.trans hp))
  · intro x
    by_cases hx : x = id
    · subst hx
      right
      show Function.update s.pressureSlot x slot x < _
      rw [update_self]
      exact hlt
    · refine (h.placed x).imp (hsil x) (fun hp => ?_)
      show Function.update s.pressureSlot id slot x < _
      rw [update_of_ne hx]
      exact lt_max_of_lt_left hp
  · exact fun c hc => ⟨lt_max_of_lt_left (h.control c hc).1,(h.control c hc).2⟩
  · exact fun d hd => ⟨lt_max_of_lt_left (h.teardowns d hd).1,(h.teardowns d hd).2⟩

theorem Settled.ne_of_silent (h : Settled s) {k : ℕ} (hk : s.sessions k = some session)
    (hid : id ∈ s.waiting ∨ s.nextJournal ≤ id) : id ≠ session.journal := by
  obtain ⟨_,h2,h3⟩ := h.own k session hk
  rintro rfl
  exact hid.elim h3 (fun hle => absurd h2 (Nat.not_lt.mpr hle))

theorem Settled.publish (h : Settled s) {slot len : ℕ} (hk : s.sessions slot = some session) :
    Settled { s with journalQueue := s.journalQueue ++ [.chunk session.journal len] } := by
  have hsil : ∀ id, id ≠ session.journal → s.Silent id →
      Silent { s with journalQueue := s.journalQueue ++ [.chunk session.journal len] } id :=
    fun id hne hs => hs.mono rfl rfl (by simp [hne])
  refine { h with idle := ?_, others := ?_, placed := ?_ }
  · exact fun id hid => hsil id (h.ne_of_silent hk hid) (h.idle id hid)
  · intro k other hk' id hne hp
    refine hsil id ?_ (h.others k other hk' id hne hp)
    rintro rfl
    have hks : slot = k := (h.own slot session hk).1.symm.trans hp
    subst hks
    exact hne (by rw [Option.some.inj (hk.symm.trans hk')])
  · intro id
    by_cases hid : id = session.journal
    · exact .inr (by rw [hid, (h.own slot session hk).1]; exact h.bound slot session hk)
    · exact (h.placed id).imp_left (hsil id hid)

theorem Settled.endSession (h : Settled s) (slot held : ℕ) (spawned : Bool) :
    Settled (s.endSession slot held spawned) := by
  unfold Slots.endSession
  cases hk : s.sessions slot with
  | none => exact h
  | some session =>
    have hgone : ∀ {k : ℕ} {other : Hosted}, Function.update s.sessions slot none k = some other →
        k ≠ slot ∧ s.sessions k = some other := by
      intro k other hk'
      by_cases hks : k = slot
      · subst hks
        simp at hk'
      · exact ⟨hks,by rwa [update_of_ne hks] at hk'⟩
    have hstill : ∀ k, s.sessions k = none → Function.update s.sessions slot none k = none := by
      intro k hn
      by_cases hks : k = slot
      · simp [hks]
      · rw [update_of_ne hks, hn]
    have hsil : ∀ id, id ≠ session.journal → s.Silent id → ∀ extra : List SessionTeardown,
        Silent { s with
          sessions := Function.update s.sessions slot none
          freeSlots := slot :: s.freeSlots
          journalQueue := s.journalQueue ++ if held = 0 then [] else [.chunk session.journal held]
          teardowns := s.teardowns ++ extra } id := by
      intro id hne hs extra
      refine hs.mono rfl rfl (fun len hm => ?_)
      split at hm
      · cases hm
      · simp [hne] at hm
    obtain ⟨hown,_,_⟩ := h.own slot session hk
    refine { h with jobs := ?_, free := ?_, freeNodup := ?_, bound := ?_, own := ?_, idle := ?_, others := ?_,
                    placed := ?_, control := ?_, teardowns := ?_ }
    · exact fun k other hk' => h.jobs k other (hgone hk').2
    · intro k hm
      rcases mem_cons.mp hm with rfl | hm
      · exact ⟨h.bound k session hk,update_self ..⟩
      · exact ⟨(h.free k hm).1,hstill k (h.free k hm).2⟩
    · refine nodup_cons.mpr ⟨fun hm => ?_,h.freeNodup⟩
      exact absurd ((h.free slot hm).2.symm.trans hk) (by simp)
    · exact fun k other hk' => h.bound k other (hgone hk').2
    · exact fun k other hk' => h.own k other (hgone hk').2
    · exact fun id hid => hsil id (h.ne_of_silent hk hid) (h.idle id hid) _
    · intro k other hk' id hne hp
      refine hsil id ?_ (h.others k other (hgone hk').2 id hne hp) _
      rintro rfl
      exact (hgone hk').1 (hp.symm.trans hown)
    · intro id
      by_cases hid : id = session.journal
      · exact .inr (by rw [hid, hown]; exact h.bound slot session hk)
      · exact (h.placed id).imp_left (fun hs => hsil id hid hs _)
    · exact fun c hc => ⟨(h.control c hc).1,fun other hk' => (h.control c hc).2 other (hgone hk').2⟩
    · intro d hd
      rcases mem_append.mp hd with hd | hd
      · exact ⟨(h.teardowns d hd).1,hstill d.slot (h.teardowns d hd).2⟩
      · split at hd
        · cases mem_singleton.mp hd
          exact ⟨h.bound slot session hk,update_self ..⟩
        · cases hd

theorem mem_if_singleton {b : Bool} {c x : Control} (h : c ∈ if b = true then [x] else []) : c = x := by
  cases b with
  | true => exact mem_singleton.mp h
  | false => cases h

/-- The writer works on a journal that is not silent, so its messages are for the
Session that owns the slot. -/
theorem Settled.writes (h : Settled s) (hid : ¬s.Silent id)
    (hq : ∀ msg ∈ queue, msg ∈ s.journalQueue) (journal : Option JournalSession) (extra : List Control)
    (he : ∀ c ∈ extra, c.slot = s.pressureSlot id ∧ c.issuer = id) :
    Settled { s with journalQueue := queue, journals := Function.update s.journals id journal,
                     control := s.control ++ extra } := by
  have hsil : ∀ x, s.Silent x → Silent { s with
      journalQueue := queue, journals := Function.update s.journals id journal,
      control := s.control ++ extra } x := by
    intro x hx
    have hne : x ≠ id := fun heq => hid (heq ▸ hx)
    refine ⟨fun len hm => hx.1 len (hq _ hm),fun j hj => hx.2 j ?_⟩
    exact (update_of_ne hne _ _).symm.trans hj
  refine { h with idle := ?_, others := ?_, placed := ?_, control := ?_ }
  · exact fun x hx => hsil x (h.idle x hx)
  · exact fun k session hk x hne hp => hsil x (h.others k session hk x hne hp)
  · exact fun x => (h.placed x).imp_left (hsil x)
  · intro c hc
    rcases mem_append.mp hc with hc | hc
    · exact h.control c hc
    · obtain ⟨hs,hi⟩ := he c hc
      rw [hs, hi]
      refine ⟨(h.placed id).resolve_left hid,fun session hk => ?_⟩
      by_contra hne
      exact hid (h.others _ session hk id hne rfl)

theorem Settled.calm (h : Settled s) {journals : ℕ → Option JournalSession}
    (hs : ∀ id, s.Silent id → Silent { s with journalQueue := queue, journals := journals } id) :
    Settled { s with journalQueue := queue, journals := journals } :=
  { h with
    idle := fun id hid => hs id (h.idle id hid)
    others := fun k session hk id hne hp => hs id (h.others k session hk id hne hp)
    placed := fun id => (h.placed id).imp_left (hs id) }

theorem Settled.receive (h : Settled s) {msg : JournalMsg} {rest : List JournalMsg}
    (hq : s.journalQueue = msg :: rest) (drained written : Bool) :
    Settled (journalReceive { s with journalQueue := rest } drained written msg) := by
  have hsub : ∀ m ∈ rest, m ∈ s.journalQueue := by
    intro m hm
    rw [hq]
    exact mem_cons_of_mem _ hm
  -- a journal whose table entry becomes one without a batch
  have hset : ∀ (id : ℕ) (journal : Option JournalSession),
      (∀ j, journal = some j → j.pending = 0 ∨ j.error = true) →
      Settled { s with journalQueue := rest, journals := Function.update s.journals id journal } := by
    intro id journal hj
    refine h.calm (fun x hx => ⟨fun len hm => hx.1 len (hsub _ hm),fun j hjx => ?_⟩)
    by_cases hxi : x = id
    · subst hxi
      exact hj j ((update_self x journal s.journals).symm.trans hjx)
    · exact hx.2 j ((update_of_ne hxi _ _).symm.trans hjx)
  cases msg with
  | «open» id => exact hset id (some ⟨0,false⟩) (by simp)
  | close id => exact hset id none (by simp)
  | chunk id len =>
    have hid : ¬s.Silent id := fun hs => hs.1 len (by rw [hq]; exact mem_cons_self)
    simp only [journalReceive]
    cases hj : s.journals id with
    | none => exact h.calm (fun x hx => ⟨fun len hm => hx.1 len (hsub _ hm),hx.2⟩)
    | some j =>
      dsimp only
      split
      · have hw := h.writes hid hsub (s.journals id)
          (if drained = true then [.journalDrained (s.pressureSlot id) id] else [])
          (fun c hc => by cases mem_if_singleton hc; exact ⟨rfl,rfl⟩)
        rwa [update_eq_self] at hw
      · rw [append_assoc]
        refine h.writes hid hsub _ _ (fun c hc => ?_)
        rcases mem_append.mp hc with hc | hc
        · cases mem_if_singleton hc
          exact ⟨rfl,rfl⟩
        · cases mem_if_singleton hc
          exact ⟨rfl,rfl⟩

theorem Settled.journalDue (h : Settled s) {id : ℕ} {written : Bool}
    (ht : s.journalDue id written = some t) : Settled t := by
  unfold Slots.journalDue at ht
  cases hj : s.journals id with
  | none => simp [hj] at ht
  | some j =>
    simp only [hj] at ht
    split at ht
    · cases ht
    · next hp =>
      have hid : ¬s.Silent id := fun hs => hp (by simpa using hs.2 j hj)
      cases Option.some.inj ht
      refine h.writes hid (fun _ hm => hm) _ _ (fun c hc => ?_)
      cases mem_if_singleton hc
      exact ⟨rfl,rfl⟩

theorem Settled.controlReceive (h : Settled s) {c : Control} {rest : List Control} (hc : s.control = c :: rest)
    (held : ℕ) (spawned : Bool) : Settled (controlReceive { s with control := rest } held spawned c) := by
  have hrest : Settled { s with control := rest } :=
    { h with control := fun d hd => h.control d (by rw [hc]; exact mem_cons_of_mem _ hd) }
  -- the Session in the slot is the issuer
  have hnotice : Slots.notice { s with control := rest } c = { s with control := rest } := by
    unfold Slots.notice
    cases hk : s.sessions c.slot with
    | none => rfl
    | some session =>
      have hi := (h.control c (by rw [hc]; exact mem_cons_self)).2 session hk
      simp only [hi, ↓reduceIte]
  cases c with
  | journalDrained slot issuer =>
    show Settled (Slots.notice _ _)
    rw [hnotice]
    exact hrest
  | journalFailed slot issuer =>
    show Settled (Slots.endSession (Slots.notice _ _) slot held spawned)
    rw [hnotice]
    exact hrest.endSession slot held spawned

theorem Settled.teardown (h : Settled s) {index : ℕ} {d : SessionTeardown}
    (hd : s.teardowns[index]? = some d) :
    Settled (if d.closed then
        { s with teardowns := s.teardowns.eraseIdx index, timerQueue := s.timerQueue ++ [.remove d.slot] }
      else
        { s with teardowns := s.teardowns.set index { d with closed := true },
                 journalQueue := s.journalQueue ++ [.close d.journal] }) := by
  have hmem : d ∈ s.teardowns := mem_of_getElem? hd
  split
  · refine { h with jobs := ?_, teardowns := ?_ }
    · intro k session hk job hj hr
      have hks : k ≠ d.slot := by
        rintro rfl
        exact absurd ((h.teardowns d hmem).2.symm.trans hk) (by simp)
      rw [JobTable.after_remove, if_neg hks]
      exact h.jobs k session hk job hj hr
    · exact fun e he => h.teardowns e ((eraseIdx_sublist ..).subset he)
  · have hsil : ∀ id, s.Silent id → Silent { s with
        teardowns := s.teardowns.set index { d with closed := true },
        journalQueue := s.journalQueue ++ [.close d.journal] } id :=
      fun id hid => hid.mono rfl rfl (by simp)
    refine { h with idle := ?_, others := ?_, placed := ?_, teardowns := ?_ }
    · exact fun id hid => hsil id (h.idle id hid)
    · exact fun k session hk id hne hp => hsil id (h.others k session hk id hne hp)
    · exact fun id => (h.placed id).imp_left (hsil id)
    · intro e he
      rcases mem_or_eq_of_mem_set he with he | rfl
      · exact h.teardowns e he
      · exact h.teardowns d hmem

end Slots
end Unpeel.Core
