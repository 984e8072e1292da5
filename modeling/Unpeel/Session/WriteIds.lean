import Unpeel.Foundation.SpacedLog
import Unpeel.Session.WriteInterest

/-! # Write ids over the life of a Session

The window of applied ids makes a retry of a `Write` harmless: an id comes back
only after 256 others. The window belongs to the runtime of one core and is not
part of a handoff, so the new core takes a retry for a new write.
-/
namespace Unpeel.Session
open Runs SpacedLog List

namespace RecentWriteIds

structure Remembers (ids : RecentWriteIds) (log : List WriteId) : Prop where
  order : ids.order = log.rtake writeIdHistory
  seen : ∀ id, ids.contains id = true ↔ id ∈ ids.order

theorem remembers_empty : empty.Remembers [] := ⟨by simp [empty],by simp [empty, contains]⟩

theorem evict_order (order seen : List WriteId) :
    (evict order seen).order = order.rtake writeIdHistory := by
  induction order generalizing seen with
  | nil => simp [evict]
  | cons oldest order ih =>
    unfold evict
    split
    · next h =>
      rw [ih]
      simp only [List.rtake, length_cons] at h ⊢
      rw [show order.length + 1 - writeIdHistory = order.length - writeIdHistory + 1 by omega,
        drop_succ_cons]
    · next h =>
      simp only [List.rtake, length_cons] at h ⊢
      rw [show order.length + 1 - writeIdHistory = 0 by omega, drop_zero]

theorem evict_seen {order seen : List WriteId} (hn : order.Nodup) (h : ∀ id, id ∈ seen ↔ id ∈ order)
    (id : WriteId) : id ∈ (evict order seen).seen ↔ id ∈ (evict order seen).order := by
  induction order generalizing seen with
  | nil => exact h id
  | cons oldest order ih =>
    unfold evict
    split
    · apply ih (nodup_cons.mp hn).2
      intro x
      have hx : x = oldest → x ∉ order := by
        rintro rfl
        exact (nodup_cons.mp hn).1
      simp only [mem_filter, h x, mem_cons, bne_iff_ne]
      constructor
      · rintro ⟨hxo,hne⟩
        exact hxo.resolve_left hne
      · intro hxo
        exact ⟨.inr hxo,fun he => hx he hxo⟩
    · exact h id

/-- A recorded id that was not in the window is its newest entry. -/
theorem Remembers.recordApplied {ids : RecentWriteIds} {log : List WriteId} (h : ids.Remembers log)
    (hn : ids.order.Nodup) {id : WriteId} (hid : ids.contains id = false) :
    (ids.recordApplied id).Remembers (log ++ [id]) := by
  have hnew : id ∉ ids.order := by
    intro hm
    rw [(h.seen id).mpr hm] at hid
    cases hid
  have hnodup : (ids.order ++ [id]).Nodup := by
    rw [nodup_append]
    refine ⟨hn,by simp,?_⟩
    rintro a ha b hb rfl
    cases mem_singleton.mp hb
    exact hnew ha
  have hseen : ∀ x, x ∈ id :: ids.seen ↔ x ∈ ids.order ++ [id] := by
    intro x
    have := h.seen x
    simp only [contains, contains_iff_mem] at this
    simp [this, or_comm]
  simp only [RecentWriteIds.recordApplied, hid]
  refine ⟨?_,fun x => ?_⟩
  · show (evict (ids.order ++ [id]) (id :: ids.seen)).order = _
    rw [evict_order, h.order, rtake_concat_window]
  · show (evict (ids.order ++ [id]) (id :: ids.seen)).contains x = true ↔ _
    simp only [contains, contains_iff_mem]
    exact evict_seen hnodup hseen x

end RecentWriteIds

/-- A Session with the record of its writes: the ids that earlier cores applied,
those this core applied, each with the oldest first, and the ids whose last
attempt the PTY failed. -/
structure WriteLedger where
  session : SessionIo
  earlier : List WriteId
  own : List WriteId
  failed : List WriteId

namespace WriteLedger

def applied (w : WriteLedger) : List WriteId := w.earlier ++ w.own

/-- The ids a window kept over the handoffs would still hold, and the window of
this core does not. -/
def forgotten (w : WriteLedger) : List WriteId := w.earlier.rtake (writeIdHistory - w.own.length)

/-- The entry of a `Write` with an id that counts. -/
def enter (w : WriteLedger) (t : SessionIo) (id : WriteId) : Except String Bool → WriteLedger
  | .ok true => { w with session := t, own := w.own ++ [id], failed := w.failed.filter (· != id) }
  | .ok false => { w with session := t }
  | .error _ => { w with session := t, failed := id :: w.failed }

end WriteLedger

def ledgerStep (w : WriteLedger) : SessionEvent → Option WriteLedger
  | .write writeId data results =>
    (w.session.dispatchWrite writeId data results).map (fun r =>
      match validateWriteId writeId with
      | .ok (some id) => w.enter r.1 id r.2
      | _ => { w with session := r.1 })
  | .commitHandoff now sockets =>
    (w.session.commitHandoff now sockets).map (fun t => ⟨t,w.earlier ++ w.own,[],w.failed⟩)
  | a => (sessionStep w.session a).map (fun t => { w with session := t })

/-- An id is delivered again only after 256 others, and a write that failed can
be delivered by a retry. -/
structure InputIdempotent (w : WriteLedger) : Prop where
  once : Spaced writeIdHistory w.applied
  retry : ∀ id ∈ w.failed, ∀ data results rest, writeAll results data = some (data,true,rest) →
    ∃ t, w.session.dispatchWrite (some id) data results = some (t,.ok true) ∧
      t.pty.accepted = w.session.pty.accepted ++ data

/-- A `Write` that the PTY takes in full does not carry an id that an earlier
core applied and a kept window would still hold. -/
def RetriesOnOneCore (w : WriteLedger) : SessionEvent → Prop
  | .write writeId data results => ∀ id rest, validateWriteId writeId = .ok (some id) →
      writeAll results data = some (data,true,rest) → id ∉ w.forgotten
  | _ => True

structure Recorded (w : WriteLedger) : Prop where
  window : w.session.recentWriteIds.Remembers w.own
  once : Spaced writeIdHistory w.applied
  failed : ∀ id ∈ w.failed, validateWriteId (some id) = .ok (some id) ∧
    w.session.recentWriteIds.contains id = false

namespace Recorded
variable {w : WriteLedger}
variable {id : WriteId}

theorem idempotent (h : Recorded w) : InputIdempotent w := by
  refine ⟨h.once,fun id hid data results rest hw => ?_⟩
  obtain ⟨hv,hc⟩ := h.failed id hid
  simp [SessionIo.dispatchWrite, hv, hc, hw]

theorem order_nodup (h : Recorded w) : w.session.recentWriteIds.order.Nodup := by
  rw [h.window.order]
  have hn := h.once.rtake_nodup
  rw [WriteLedger.applied, rtake_append] at hn
  exact (nodup_append.mp hn).2.1

/-- An id is in the window over all cores if it is forgotten or in the window of
this one. -/
theorem mem_window (h : Recorded w) (id : WriteId) :
    id ∈ w.applied.rtake writeIdHistory ↔
      id ∈ w.forgotten ∨ w.session.recentWriteIds.contains id = true := by
  rw [WriteLedger.applied, rtake_append, mem_append, h.window.seen, h.window.order,
    WriteLedger.forgotten]

theorem forgotten_fresh (h : Recorded w) (hid : id ∈ w.forgotten) :
    w.session.recentWriteIds.contains id = false := by
  have hn := h.once.rtake_nodup
  rw [WriteLedger.applied, rtake_append] at hn
  rw [← Bool.not_eq_true, h.window.seen, h.window.order]
  intro hm
  exact (nodup_append.mp hn).2.2 id hid id hm rfl

theorem sameIds (h : Recorded w) {t : SessionIo}
    (ht : t.recentWriteIds = w.session.recentWriteIds) : Recorded { w with session := t } :=
  ⟨ht ▸ h.window,h.once,by rw [ht]; exact h.failed⟩

theorem validateWriteId_some {writeId : Option WriteId}
    (h : validateWriteId writeId = .ok (some id)) : validateWriteId (some id) = .ok (some id) := by
  cases writeId with
  | none => simp [validateWriteId] at h
  | some i =>
    have hi : i = id := by
      simp only [validateWriteId] at h
      split_ifs at h
      · cases h
      · simpa using h
    exact hi ▸ h

/-- A delivery keeps the record exactly when its id is not forgotten. -/
theorem deliver (h : Recorded w) (hc : w.session.recentWriteIds.contains id = false)
    (hf : id ∉ w.forgotten) {t : SessionIo} (ht : t.recentWriteIds = w.session.recentWriteIds.recordApplied id) :
    Recorded (w.enter t id (.ok true)) := by
  have hw : (w.session.recentWriteIds.recordApplied id).Remembers (w.own ++ [id]) :=
    h.window.recordApplied h.order_nodup hc
  have hnew : id ∉ w.applied.rtake writeIdHistory := by
    rw [h.mem_window, hc]
    simpa using hf
  refine ⟨ht ▸ hw,?_,?_⟩
  · show Spaced writeIdHistory (w.earlier ++ (w.own ++ [id]))
    rw [← append_assoc]
    exact spaced_concat.mpr ⟨h.once,hnew⟩
  · intro x hx
    obtain ⟨hx,hne⟩ := mem_filter.mp hx
    refine ⟨(h.failed x hx).1,?_⟩
    show t.recentWriteIds.contains x = false
    -- the window after the record holds only `id` and what it held before
    have hold : x ∉ w.session.recentWriteIds.order := by
      intro hm
      have := (h.window.seen x).mpr hm
      rw [(h.failed x hx).2] at this
      cases this
    rw [ht, ← Bool.not_eq_true, hw.seen, hw.order, rtake_append, mem_append, not_or]
    constructor
    · intro hm
      apply hold
      rw [h.window.order]
      have hle : w.own.length - writeIdHistory ≤ w.own.length - (writeIdHistory - [id].length) := by omega
      exact (drop_sublist_drop_left w.own hle).subset hm
    · intro hm
      have := mem_singleton.mp (drop_subset _ _ hm)
      simp [this] at hne

end Recorded

open SessionIo in
theorem OnlyClientIo.recentWriteIds {s t : SessionIo} (h : OnlyClientIo s t) :
    t.recentWriteIds = s.recentWriteIds := by
  obtain ⟨_,⟨_,_,_,_,_,_,rfl⟩,⟨_,_,_,_,rfl,_⟩⟩ := h
  rfl

open SessionIo in
theorem ptyReadable_recentWriteIds {s t : SessionIo} {now : ℕ} {cursor : ℕ × ℕ}
    {replies : List WriteResult} {bytes : List UInt8} {backlog : ℕ}
    (h : s.ptyReadable now cursor replies bytes backlog = some t) :
    t.recentWriteIds = s.recentWriteIds := by
  obtain ⟨u,hu,rfl⟩ := Option.map_eq_some_iff.mp h
  refine (OnlyClientIo.recentWriteIds (onlyInput_applyJournalBackpressure u backlog).io).trans ?_
  unfold processPtyBytes at hu
  simp only [Option.bind_eq_bind, Option.bind_eq_some_iff] at hu
  obtain ⟨reply,_,hu⟩ := hu
  cases Option.some.inj hu
  split <;> rfl

open SessionIo in
/-- Writes and committed handoffs are the only events that touch the window. -/
theorem ledgerStep_recorded {w v : WriteLedger} {a : SessionEvent} (h : Recorded w)
    (hok : RetriesOnOneCore w a) (hst : ledgerStep w a = some v) : Recorded v := by
  have same : ∀ {o : Option SessionIo}, (∀ t, o = some t → t.recentWriteIds = w.session.recentWriteIds) →
      o.map (fun t => { w with session := t }) = some v → Recorded v := by
    intro o ho hv
    obtain ⟨t,ht,rfl⟩ := Option.map_eq_some_iff.mp hv
    exact h.sameIds (ho t ht)
  have io : ∀ {t : SessionIo}, OnlyClientIo w.session t →
      (some t).map (fun t => { w with session := t }) = some v → Recorded v := by
    intro t ht hv
    exact same (fun u hu => Option.some.inj hu ▸ OnlyClientIo.recentWriteIds ht) hv
  cases a with
  | write writeId data results =>
    obtain ⟨⟨t,r⟩,hw,hv⟩ := Option.map_eq_some_iff.mp hst
    cases dispatchWrite_outcome hw with
    | refused message hval =>
      simp only [hval] at hv
      exact hv ▸ h
    | known id hval hc =>
      simp only [hval, WriteLedger.enter] at hv
      exact hv ▸ h
    | delivered id rest hval hc hall =>
      cases id with
      | none =>
        simp only [hval] at hv
        exact hv ▸ h.sameIds rfl
      | some id =>
        simp only [hval] at hv
        exact hv ▸ h.deliver (by simpa using hc) (hok id rest hval hall) rfl
    | failed id taken rest message hval hc _ =>
      cases id with
      | none =>
        simp only [hval] at hv
        exact hv ▸ h.sameIds rfl
      | some id =>
        simp only [hval, WriteLedger.enter] at hv
        refine hv ▸ ⟨h.window,h.once,fun x hx => ?_⟩
        rcases mem_cons.mp hx with rfl | hx
        · exact ⟨Recorded.validateWriteId_some hval,by simpa using hc⟩
        · exact h.failed x hx
  | commitHandoff now sockets =>
    obtain ⟨t,ht,rfl⟩ := Option.map_eq_some_iff.mp hst
    obtain ⟨_,hids,_⟩ := commitHandoff_input ht
    refine ⟨hids ▸ RecentWriteIds.remembers_empty,?_,fun id hid => ⟨(h.failed id hid).1,?_⟩⟩
    · simpa [WriteLedger.applied] using h.once
    · rw [hids]
      rfl
  | ptyReadable now cursor replies bytes backlog =>
    refine same (fun t ht => ?_) hst
    simp only [sessionStep] at ht
    split at ht
    · cases ht
    · exact ptyReadable_recentWriteIds ht
  | accept now fd => exact io (onlyClients_acceptClient _ _ _).io hst
  | clientReadable now token reads later command socket writes =>
    exact io (onlyClientIo_clientReadable _ _ _ _ _ _ _ _) hst
  | clientWritable now token socket => exact io (onlyClients_clientWritable _ _ _ _).io hst
  | flush now sockets => exact io (onlyClients_flushStreamClients _ _ _).io hst
  | ptyWritable results => exact io (onlyInput_drainPendingInput _ _).io hst
  | journalDrained => exact io (onlyInput_journalDrained _).io hst
  | idleTick now => exact io (onlyClients_idleTick _ _).io hst
  | abandonHandoff now sockets => exact io (onlyClientIo_abandonHandoff _ _ _) hst

theorem ledgerStep_retries {w v : WriteLedger} {a : SessionEvent} (h : Recorded w)
    (hst : ledgerStep w a = some v) (hv : InputIdempotent v) : RetriesOnOneCore w a := by
  cases a with
  | write writeId data results =>
    intro id rest hval hall hmem
    have hwin := (h.mem_window id).mpr (.inl hmem)
    have hfresh : w.session.recentWriteIds.contains id = false := h.forgotten_fresh hmem
    simp only [ledgerStep, SessionIo.dispatchWrite, hval, Option.any_some, hfresh, Bool.false_eq_true,
      ↓reduceIte, hall, Option.map_some, Option.some.injEq] at hst
    subst hst
    have hs : Spaced writeIdHistory (w.earlier ++ (w.own ++ [id])) := hv.once
    rw [← append_assoc] at hs
    exact hs.not_mem hwin
  | _ => trivial

def ledgerOf (s : SessionIo) : WriteLedger := ⟨s,[],[],[]⟩

/-- Over a run with any number of handoffs, writes are idempotent exactly when
no retry that the PTY takes carries an id an earlier core applied. -/
theorem input_idempotent_iff (pty : PtyMaster) (darkMode : Bool) (base now : ℕ)
    (events : List SessionEvent) :
    Always ledgerStep InputIdempotent (ledgerOf (launched pty darkMode base now)) events ↔
      Guarded ledgerStep RetriesOnOneCore (ledgerOf (launched pty darkMode base now)) events :=
  always_iff_guarded (fun _ _ _ => ledgerStep_recorded) (fun _ => Recorded.idempotent)
    (fun _ _ _ => ledgerStep_retries)
    ⟨RecentWriteIds.remembers_empty,spaced_nil _,fun _ h => by cases h⟩ events

/-- A write is confirmed, the Session moves, and the same write is retried: its
bytes reach the PTY twice. -/
theorem retry_after_handoff_is_applied_again :
    ¬ Always ledgerStep InputIdempotent (ledgerOf (launched ⟨[]⟩ false 0 0))
      [.write (some [1]) [97] [.ok 1],.commitHandoff 0 (fun _ => []),.write (some [1]) [97] [.ok 1]] := by
  intro h
  have h1 : Always ledgerStep InputIdempotent ⟨{ launched ⟨[]⟩ false 0 0 with
      pty := ⟨[97]⟩, recentWriteIds := ⟨[[1]],[[1]]⟩ },[],[[1]],[]⟩ _ := h.2 _ rfl
  have hcommit : (SessionIo.commitHandoff { launched ⟨[]⟩ false 0 0 with
      pty := ⟨[97]⟩, recentWriteIds := ⟨[[1]],[[1]]⟩ } 0 (fun _ => [])).isSome := by decide
  obtain ⟨t,ht⟩ := Option.isSome_iff_exists.mp hcommit
  have h2 := h1.2 ⟨t,[[1]],[],[]⟩ (by simp only [ledgerStep, ht]; rfl)
  obtain ⟨_,hids,_⟩ := SessionIo.commitHandoff_input ht
  have hw : t.dispatchWrite (some [1]) [97] [.ok 1] = some
      ({ t with pty := ⟨t.pty.accepted ++ [97]⟩, recentWriteIds := ⟨[[1]],[[1]]⟩ },.ok true) := by
    simp [SessionIo.dispatchWrite, hids, validateWriteId, writeIdMaxBytes, writeAll, RecentWriteIds.contains,
      RecentWriteIds.empty, RecentWriteIds.recordApplied, RecentWriteIds.evict, writeIdHistory]
  have h3 := h2.2 _ (by simp only [ledgerStep, hw]; rfl)
  have := h3.once [] [] [] [1] rfl
  exact absurd this (by decide)

end Unpeel.Session
