import Unpeel.Session.StreamHandoff

/-! # Write interest and the input queue

The poller watches the PTY for writability while input waits in the queue, and
only then. The interest is set at the end of a pass over the queue, so a pass
that leaves early can break this, and so does a Session that is adopted with
input already queued.
-/
namespace Unpeel.Session
open Runs

namespace SessionIo
variable {s : SessionIo}
variable {t : SessionIo} {sockets : ℕ → List WriteResult}

theorem commitHandoff_input {now : ℕ} (h : s.commitHandoff now sockets = some t) :
    t.pty = s.pty ∧ t.recentWriteIds = .empty ∧ t.pendingInput = s.pendingInput ∧
    t.ptyReadInterest = true ∧ t.ptyWriteInterest = false ∧ t.poller = some (true,false) := by
  obtain ⟨_,_,rfl⟩ := commitHandoff_some h
  have hpause : (s.pauseForHandoff now sockets).pty = s.pty ∧
      (s.pauseForHandoff now sockets).pendingInput = s.pendingInput := by
    obtain ⟨_,_,_,_,hp,_⟩ := onlyClients_pauseForHandoff s now sockets
    rw [hp]
    unfold setPtyInterest
    split <;> exact ⟨rfl,rfl⟩
  obtain ⟨_,_,_,_,hr,_⟩ := onlyClients_register (rebuildFromHandoff
    (s.pauseForHandoff now sockets).handoffExport (s.pauseForHandoff now sockets).journal) now
  rw [hr]
  exact ⟨hpause.1,rfl,hpause.2,rfl,rfl,rfl⟩

def tookInput (s : SessionIo) (n : ℕ) : SessionIo :=
  { s with pty := ⟨s.pty.accepted ++ s.pendingInput.take n⟩, pendingInput := s.pendingInput.drop n }

/-- A pass over the queue: nothing to do, all taken, a hard error, a queue that
has grown too long, or the rest waits for writability. -/
theorem drainPendingInput_eq (s : SessionIo) (results : List WriteResult) :
    s.drainPendingInput results =
      if s.pendingInput = [] then (s,true)
      else if s.pendingInput.length ≤ room results then
        (setPtyInterest (s.tookInput (room results)) s.ptyReadInterest false,true)
      else if refusesWithError results then (s.tookInput (room results),false)
      else if pendingPtyInputMaxBytes < s.pendingInput.length - room results then
        ({ s.tookInput (room results) with pendingInput := [] },false)
      else (setPtyInterest (s.tookInput (room results)) s.ptyReadInterest true,true) := by
  unfold drainPendingInput
  by_cases hp : s.pendingInput = []
  · simp [hp]
  simp only [hp, ↓reduceIte, drainLoop_eq, tookInput]
  by_cases hl : s.pendingInput.length ≤ room results
  · simp only [hl, ↓reduceIte, reduceCtorEq]
    rfl
  cases hr : refusesWithError results with
  | true => simp [hl]
  | false =>
    by_cases hm : pendingPtyInputMaxBytes < s.pendingInput.length - room results
    · simp [hl, hm]
    · simp [hl, hm]

def WriteInterestMatches (s : SessionIo) : Prop :=
  ∃ read write, s.poller = some (read,write) ∧ (write = true ↔ s.pendingInput ≠ [])

structure Watched (s : SessionIo) : Prop where
  poller : s.poller = some (s.ptyReadInterest,s.ptyWriteInterest)
  queued : s.ptyWriteInterest = true ↔ s.pendingInput ≠ []

theorem Watched.matches (h : Watched s) : WriteInterestMatches s :=
  ⟨_,_,h.poller,h.queued⟩

theorem setPtyInterest_poller (h : s.poller = some (s.ptyReadInterest,s.ptyWriteInterest)) (read write : Bool) :
    (s.setPtyInterest read write).poller = some (read,write) ∧ (s.setPtyInterest read write).ptyReadInterest = read ∧
    (s.setPtyInterest read write).ptyWriteInterest = write ∧ (s.setPtyInterest read write).pendingInput = s.pendingInput := by
  unfold setPtyInterest
  split
  · next he => exact ⟨by rw [h, he.1, he.2],he.1,he.2,rfl⟩
  · exact ⟨rfl,rfl,rfl,rfl⟩

theorem watched_setPtyInterest (h : s.poller = some (s.ptyReadInterest,s.ptyWriteInterest)) (read : Bool) {write : Bool}
    (hw : write = true ↔ s.pendingInput ≠ []) : Watched (s.setPtyInterest read write) := by
  obtain ⟨h1,h2,h3,h4⟩ := setPtyInterest_poller h read write
  exact ⟨by rw [h1, h2, h3],by rw [h3, h4]; exact hw⟩

theorem Watched.onlyClients (h : Watched s) (g : OnlyClients s t) : Watched t := by
  obtain ⟨_,_,_,_,rfl,_⟩ := g
  exact ⟨h.poller,h.queued⟩

/-- A write of `data` behind the queue does not leave its pass early in a way
that the interest does not show: no hard error while nothing is watched, and no
dropped queue while something is. -/
def SettlesInterest (s : SessionIo) (results : List WriteResult) (data : List UInt8) : Prop :=
  room results < (s.pendingInput ++ data).length →
    if refusesWithError results then s.pendingInput ≠ []
    else pendingPtyInputMaxBytes < (s.pendingInput ++ data).length - room results → s.pendingInput = []

/-- A write keeps the match exactly when its pass settles the interest. -/
theorem Watched.writePtyInput {s : SessionIo} (h : Watched s) (results : List WriteResult)
    (data : List UInt8) :
    (s.SettlesInterest results data → Watched (s.writePtyInput results data).1) ∧
    (WriteInterestMatches (s.writePtyInput results data).1 → s.SettlesInterest results data) := by
  have hmatch : ∀ u : SessionIo, WriteInterestMatches u → u.poller = s.poller →
      (s.pendingInput ≠ [] ↔ u.pendingInput ≠ []) := by
    rintro u ⟨read,write,hp,hw⟩ hu
    rw [hu, h.poller, Option.some.injEq, Prod.mk.injEq] at hp
    rw [← h.queued, ← hw, hp.2]
  have hkeep : ∀ u : SessionIo, u.poller = s.poller → u.ptyReadInterest = s.ptyReadInterest →
      u.ptyWriteInterest = s.ptyWriteInterest → (s.pendingInput ≠ [] ↔ u.pendingInput ≠ []) → Watched u := by
    intro u hu hr hw hp
    exact ⟨by rw [hu, hr, hw]; exact h.poller,by rw [hw, ← hp]; exact h.queued⟩
  have hset : ∀ (n : ℕ) (write : Bool),
      (write = true ↔ (s.pendingInput ++ data).drop n ≠ []) →
      Watched (setPtyInterest (tookInput { s with pendingInput := s.pendingInput ++ data } n)
        s.ptyReadInterest write) :=
    fun n write hw => watched_setPtyInterest
      (s := tookInput { s with pendingInput := s.pendingInput ++ data } n) h.poller s.ptyReadInterest hw
  have hdrop : (s.pendingInput ++ data).drop (room results) = [] ↔
      (s.pendingInput ++ data).length ≤ room results := List.drop_eq_nil_iff
  unfold SessionIo.writePtyInput SettlesInterest
  rw [drainPendingInput_eq]
  by_cases hnil : s.pendingInput ++ data = []
  · have hp := (List.append_eq_nil_iff.mp hnil).1
    rw [if_pos hnil, hnil]
    exact ⟨fun _ => hkeep _ rfl rfl rfl (by simp [hp]),fun _ hlt => by simp at hlt⟩
  rw [if_neg hnil]
  by_cases hfit : (s.pendingInput ++ data).length ≤ room results
  · rw [if_pos hfit]
    exact ⟨fun _ => hset _ false (by simp [hdrop.mpr hfit]),fun _ hlt => by omega⟩
  have hrest : (s.pendingInput ++ data).drop (room results) ≠ [] := mt hdrop.mp hfit
  rw [if_neg hfit]
  cases hr : refusesWithError results with
  | true =>
    refine ⟨fun hok => hkeep _ rfl rfl rfl ?_,fun hm _ => (hmatch _ hm rfl).mpr hrest⟩
    exact ⟨fun _ => hrest,fun _ => hok (by omega)⟩
  | false =>
    by_cases hmax : pendingPtyInputMaxBytes < (s.pendingInput ++ data).length - room results
    · rw [if_pos hmax]
      refine ⟨fun hok => hkeep _ rfl rfl rfl ?_,fun hm _ _ => ?_⟩
      · simp [hok (by omega) hmax]
      · have := hmatch _ hm rfl
        simpa using this
    · rw [if_neg hmax]
      exact ⟨fun _ => hset _ true (by simp [hrest]),fun _ _ hlt => absurd hlt hmax⟩

theorem Watched.setRead (h : Watched s) (read : Bool) :
    Watched (s.setPtyInterest read s.ptyWriteInterest) :=
  watched_setPtyInterest h.poller read h.queued

theorem Watched.applyJournalBackpressure {s : SessionIo} (h : Watched s) (backlog : ℕ) :
    Watched (s.applyJournalBackpressure backlog) := by
  unfold SessionIo.applyJournalBackpressure
  split
  · exact h.setRead false
  · exact h

theorem Watched.journalDrained {s : SessionIo} (h : Watched s) : Watched s.journalDrained := by
  unfold SessionIo.journalDrained
  split
  · exact h.setRead true
  · exact h

theorem Watched.ptyReadable {s t : SessionIo} (h : Watched s) {now : ℕ} {cursor : ℕ × ℕ}
    {replies : List WriteResult} {bytes : List UInt8} {backlog : ℕ}
    (ht : s.ptyReadable now cursor replies bytes backlog = some t) : Watched t := by
  obtain ⟨u,hu,rfl⟩ := Option.map_eq_some_iff.mp ht
  apply Watched.applyJournalBackpressure
  unfold processPtyBytes at hu
  simp only [Option.bind_eq_bind, Option.bind_eq_some_iff] at hu
  obtain ⟨reply,_,hu⟩ := hu
  cases Option.some.inj hu
  have hreply : Watched { s with
      queryScanner := (s.queryScanner.scan bytes s.interceptProbes).scanner,
      pty := ⟨s.pty.accepted ++ reply⟩ } := ⟨h.poller,h.queued⟩
  split
  · exact hreply
  · exact ⟨hreply.poller,hreply.queued⟩

theorem Watched.resumeAfterHandoff {s : SessionIo} (h : Watched s) : Watched s.resumeAfterHandoff := by
  have hoff : Watched { s with handingOff := false } := ⟨h.poller,h.queued⟩
  unfold SessionIo.resumeAfterHandoff
  dsimp only
  split
  · exact hoff
  · exact hoff.setRead true

theorem Watched.pauseForHandoff (h : Watched s) (now : ℕ) (sockets : ℕ → List WriteResult) :
    Watched (s.pauseForHandoff now sockets) := by
  have hoff : Watched { s with handingOff := true } := ⟨h.poller,h.queued⟩
  exact (hoff.setRead false).onlyClients (onlyClients_pauseForHandoff s now sockets)

theorem Watched.exportHandoff {s : SessionIo} (h : Watched s) (now : ℕ) (sockets : ℕ → List WriteResult) :
    Watched (s.exportHandoff now sockets).1 := by
  have hp := h.pauseForHandoff now sockets
  unfold SessionIo.exportHandoff
  dsimp only
  split
  · exact h
  · split
    · have hoff : Watched { s.pauseForHandoff now sockets with handingOff := false } := ⟨hp.poller,hp.queued⟩
      exact hoff.setRead true
    · exact ⟨hp.poller,hp.queued⟩

theorem commitHandoff_matches {now : ℕ} (h : s.commitHandoff now sockets = some t) :
    (s.pendingInput = [] → Watched t) ∧ (WriteInterestMatches t → s.pendingInput = []) := by
  obtain ⟨_,_,hq,hr,hw,hp⟩ := commitHandoff_input h
  constructor
  · intro hnil
    exact ⟨by rw [hp, hr, hw],by rw [hw, hq, hnil]; simp⟩
  · rintro ⟨read,write,hp',hm⟩
    rw [hp, Option.some.injEq, Prod.mk.injEq] at hp'
    rw [← hp'.2, hq] at hm
    simpa using hm

end SessionIo

/-- What can happen on the input side of a hosted Session, with what the kernel
answers. A committed handoff goes on with the Session the new core registers. -/
inductive InputEvent where
  | writePtyInput (results : List WriteResult) (data : List UInt8)
  | drainPendingInput (results : List WriteResult)
  | ptyReadable (now : ℕ) (cursor : ℕ × ℕ) (replies : List WriteResult) (bytes : List UInt8) (backlog : ℕ)
  | applyJournalBackpressure (backlog : ℕ)
  | journalDrained
  | exportHandoff (now : ℕ) (sockets : ℕ → List WriteResult)
  | resumeAfterHandoff
  | commitHandoff (now : ℕ) (sockets : ℕ → List WriteResult)

def inputStep (s : SessionIo) : InputEvent → Option SessionIo
  | .writePtyInput results data => some (s.writePtyInput results data).1
  | .drainPendingInput results => some (s.drainPendingInput results).1
  | .ptyReadable now cursor replies bytes backlog => s.ptyReadable now cursor replies bytes backlog
  | .applyJournalBackpressure backlog => some (s.applyJournalBackpressure backlog)
  | .journalDrained => some s.journalDrained
  | .exportHandoff now sockets => some (s.exportHandoff now sockets).1
  | .resumeAfterHandoff => some s.resumeAfterHandoff
  | .commitHandoff now sockets => s.commitHandoff now sockets

open SessionIo in
/-- A pass over the queue settles the interest, and a Session moves to the new
core with an empty queue. -/
def KeepsInterest (s : SessionIo) : InputEvent → Prop
  | .writePtyInput results data => s.SettlesInterest results data
  | .drainPendingInput results => s.SettlesInterest results []
  | .commitHandoff _ _ => s.pendingInput = []
  | _ => True

open SessionIo in
theorem drainPendingInput_eq_write (s : SessionIo) (results : List WriteResult) :
    s.drainPendingInput results = s.writePtyInput results [] := by
  simp [SessionIo.writePtyInput]

open SessionIo in
theorem inputStep_watched {s t : SessionIo} {a : InputEvent} (h : Watched s) (hok : KeepsInterest s a)
    (hst : inputStep s a = some t) : Watched t := by
  cases a with
  | writePtyInput results data => exact Option.some.inj hst ▸ (h.writePtyInput results data).1 hok
  | drainPendingInput results =>
    cases Option.some.inj hst
    rw [drainPendingInput_eq_write]
    exact (h.writePtyInput results []).1 hok
  | ptyReadable now cursor replies bytes backlog => exact h.ptyReadable hst
  | applyJournalBackpressure backlog => exact Option.some.inj hst ▸ h.applyJournalBackpressure backlog
  | journalDrained => exact Option.some.inj hst ▸ h.journalDrained
  | exportHandoff now sockets => exact Option.some.inj hst ▸ h.exportHandoff now sockets
  | resumeAfterHandoff => exact Option.some.inj hst ▸ h.resumeAfterHandoff
  | commitHandoff now sockets => exact (commitHandoff_matches hst).1 hok

open SessionIo in
theorem inputStep_keepsInterest {s t : SessionIo} {a : InputEvent} (h : Watched s)
    (hst : inputStep s a = some t) (hm : WriteInterestMatches t) : KeepsInterest s a := by
  cases a with
  | writePtyInput results data =>
    cases Option.some.inj hst
    exact (h.writePtyInput results data).2 hm
  | drainPendingInput results =>
    cases Option.some.inj hst
    rw [drainPendingInput_eq_write] at hm
    exact (h.writePtyInput results []).2 hm
  | commitHandoff now sockets => exact (commitHandoff_matches hst).2 hm
  | _ => trivial

open SessionIo in
/-- Write interest matches the queue in every state of a run exactly when every
pass over the queue settles it and no Session moves with input queued. -/
theorem write_interest_matches_iff (pty : PtyMaster) (darkMode : Bool) (base now : ℕ)
    (events : List InputEvent) :
    Always inputStep WriteInterestMatches (launched pty darkMode base now) events ↔
      Guarded inputStep KeepsInterest (launched pty darkMode base now) events :=
  always_iff_guarded (fun _ _ _ => inputStep_watched) (fun _ => Watched.matches)
    (fun _ _ _ => inputStep_keepsInterest) ⟨rfl,by simp [launched, register, SessionIo.new]⟩ events

open SessionIo in
/-- A key is queued because the PTY is full, and then the Session moves: the new
core holds the key and does not watch for writability. -/
theorem adopted_input_is_not_watched :
    ¬ Always inputStep WriteInterestMatches (launched ⟨[]⟩ false 0 0)
      [.writePtyInput [.wouldBlock] [97],.commitHandoff 0 (fun _ => [])] := by
  intro h
  have hcommit : (commitHandoff ((launched ⟨[]⟩ false 0 0).writePtyInput [.wouldBlock] [97]).1 0
      (fun _ => [])).isSome := by decide
  obtain ⟨t,ht⟩ := Option.isSome_iff_exists.mp hcommit
  have hq := (commitHandoff_matches ht).2 ((h.2 _ rfl).2 t ht)
  exact absurd hq (by decide)

end Unpeel.Session
