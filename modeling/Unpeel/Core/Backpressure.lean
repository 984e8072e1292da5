import Unpeel.Foundation.Runs
import Unpeel.Session.SessionIo

/-! # Journal backpressure

The reactor and the journal writer share a backlog counter and a paused flag.
Each atomic operation, each message taken and each message sent is a step of its
own. The reactor decides to pause on a backlog it has loaded before, and the
writer wakes it only if it sees the flag, so the two can miss each other.
-/
namespace Unpeel.Core
open Runs Session

/-- The longest chunk a read of the PTY publishes: a full buffer behind a held
sequence. -/
def publishMaxBytes : ℕ :=
  sessionOutputReadBufferBytes + (OutputQueryScanner.queryScanMaxSequenceBytes + 1)

inductive ReactorAt where
  | idle
  /-- The chunk is counted and not yet sent. -/
  | added (len : ℕ)
  /-- The backlog is loaded. -/
  | loaded (backlog : ℕ)
  /-- The flag is set and the interest not yet. -/
  | stored
  deriving DecidableEq, Repr

inductive WriterAt where
  | idle
  | took (len : ℕ)
  | subbed (remaining : ℕ)
  /-- The flag was set and the remaining backlog is low. -/
  | tested
  | cleared
  deriving DecidableEq, Repr

structure Pressure where
  backlog : ℕ
  paused : Bool
  ptyReadInterest : Bool
  handingOff : Bool
  ended : Bool
  reactor : ReactorAt
  writer : WriterAt
  /-- The lengths of the chunks in the writer's queue. -/
  queue : List ℕ
  /-- `JournalDrained` messages on their way. -/
  drained : ℕ
  deriving DecidableEq, Repr

inductive PressureEvent where
  | fetchAdd (len : ℕ)
  | sendChunk
  | loadBacklog
  | storePaused
  | setInterest
  | journalDrained
  | exportHandoff (accepted : Bool)
  | resumeAfterHandoff
  | finish
  | recvChunk
  | fetchSub
  | loadPaused
  | clearPaused
  | sendDrained
  deriving DecidableEq, Repr

namespace Pressure

def start : Pressure := ⟨0,false,true,false,false,.idle,.idle,[],0⟩

/-- The reactor can start on something else: it is not inside another call, not
blocked in a handoff, and the Session has not ended. -/
def Free (s : Pressure) : Prop := s.reactor = .idle ∧ s.handingOff = false ∧ s.ended = false

instance (s : Pressure) : Decidable s.Free := inferInstanceAs (Decidable (_ ∧ _ ∧ _))

end Pressure

open Pressure in
/-- One step. The first events are those of `publish_chunk`, of
`apply_journal_backpressure` and of the reactor's other calls, the last five those
of the writer's `Chunk` arm. -/
def pressureStep (s : Pressure) : PressureEvent → Option Pressure
  | .fetchAdd len =>
    if s.Free ∧ 0 < len ∧ len ≤ publishMaxBytes then
      some { s with backlog := s.backlog + len, reactor := .added len }
    else none
  | .sendChunk =>
    match s.reactor with
    | .added len => some { s with queue := s.queue ++ [len], reactor := .idle }
    | _ => none
  | .loadBacklog => if s.Free then some { s with reactor := .loaded s.backlog } else none
  | .storePaused =>
    match s.reactor with
    | .loaded backlog =>
      if journalBacklogHighBytes < backlog ∧ s.ptyReadInterest = true then
        some { s with paused := true, reactor := .stored }
      else some { s with reactor := .idle }
    | _ => none
  | .setInterest =>
    match s.reactor with
    | .stored => some { s with ptyReadInterest := false, reactor := .idle }
    | _ => none
  | .journalDrained =>
    if s.reactor = .idle ∧ s.handingOff = false ∧ 0 < s.drained then
      some { s with drained := s.drained - 1,
                    ptyReadInterest := s.ptyReadInterest || !s.ended }
    else none
  | .exportHandoff accepted =>
    if s.Free then
      some (if accepted then { s with handingOff := true, ptyReadInterest := false }
        else { s with ptyReadInterest := true })
    else none
  | .resumeAfterHandoff =>
    if s.reactor = .idle then
      some { s with handingOff := false, ptyReadInterest := s.ptyReadInterest || !s.ended }
    else none
  | .finish => if s.Free then some { s with ended := true } else none
  | .recvChunk =>
    match s.writer, s.queue with
    | .idle, len :: queue => some { s with writer := .took len, queue := queue }
    | _, _ => none
  | .fetchSub =>
    match s.writer with
    | .took len => some { s with backlog := s.backlog - len, writer := .subbed (s.backlog - len) }
    | _ => none
  | .loadPaused =>
    match s.writer with
    | .subbed remaining =>
      if s.paused ∧ remaining < journalBacklogLowBytes then some { s with writer := .tested }
      else some { s with writer := .idle }
    | _ => none
  | .clearPaused =>
    match s.writer with
    | .tested => some { s with paused := false, writer := .cleared }
    | _ => none
  | .sendDrained =>
    match s.writer with
    | .cleared => some { s with writer := .idle, drained := s.drained + 1 }
    | _ => none

namespace Pressure
variable {s t : Pressure}

def unsubtracted (s : Pressure) : List ℕ :=
  match s.writer with
  | .took len => len :: s.queue
  | _ => s.queue

def reachesLow (backlog : ℕ) : List ℕ → Bool
  | [] => false
  | len :: queue => decide (backlog - len < journalBacklogLowBytes) || reachesLow (backlog - len) queue

/-- The writer is going to send `JournalDrained`, for a chunk it has or for one in
its queue. -/
def willDrain (s : Pressure) : Bool :=
  match s.writer with
  | .tested => true
  | .cleared => true
  | .subbed remaining =>
    s.paused && (decide (remaining < journalBacklogLowBytes) || reachesLow s.backlog s.unsubtracted)
  | _ => s.paused && reachesLow s.backlog s.unsubtracted

/-- A live Session that is paused for its backlog, and not for a handoff, is going
to be woken. -/
def NotFrozen (s : Pressure) : Prop :=
  s.ptyReadInterest = false → s.handingOff = false → s.ended = false →
    s.willDrain = true ∨ 0 < s.drained

/-- Once the flag is set the writer finds it: it has a chunk to subtract, or it
has subtracted down to the low mark and not looked at the flag, or it is past that
look; or a wakeup is on its way. -/
def Catches (s : Pressure) : Prop :=
  0 < s.drained ∨ s.writer = .tested ∨ s.writer = .cleared ∨
  (∃ remaining < journalBacklogLowBytes, s.writer = .subbed remaining) ∨ s.unsubtracted ≠ []

def unsent (s : Pressure) : ℕ :=
  match s.reactor with
  | .added len => len
  | _ => 0

def Pausing (s : Pressure) : Prop :=
  s.reactor = .stored ∨ s.ptyReadInterest = false ∧ s.handingOff = false ∧ s.ended = false

def Caught (s : Pressure) : Prop :=
  s.Catches ∧ (s.paused = true ∨ s.writer = .cleared ∨ 0 < s.drained)

structure Balanced (s : Pressure) : Prop where
  account : s.backlog = s.unsubtracted.sum + s.unsent
  chunk : s.unsent < journalBacklogLowBytes
  pause : s.Pausing → s.Caught

theorem reachesLow_of_ne_nil {queue : List ℕ} {backlog rest : ℕ} (h : queue ≠ [])
    (hb : backlog = queue.sum + rest) (hr : rest < journalBacklogLowBytes) :
    reachesLow backlog queue = true := by
  induction queue generalizing backlog with
  | nil => exact absurd rfl h
  | cons len queue ih =>
    rw [List.sum_cons] at hb
    simp only [reachesLow, Bool.or_eq_true, decide_eq_true_eq]
    by_cases hq : queue = []
    · left
      subst hq
      simp only [List.sum_nil] at hb
      omega
    · exact .inr (ih hq (by omega))

theorem Balanced.notFrozen (h : Balanced s) : NotFrozen s := by
  intro hi hh he
  obtain ⟨hc,hp⟩ := h.pause (.inr ⟨hi,hh,he⟩)
  by_cases hd : 0 < s.drained
  · exact .inr hd
  left
  have hlow : s.unsubtracted ≠ [] → reachesLow s.backlog s.unsubtracted = true :=
    fun hq => reachesLow_of_ne_nil hq h.account h.chunk
  unfold willDrain
  cases hw : s.writer with
  | tested | cleared => rfl
  | idle =>
    have hq : s.unsubtracted ≠ [] := by simpa [Catches, hd, hw] using hc
    have hp : s.paused = true := by simpa [hw, hd] using hp
    simp [hp, hlow hq]
  | took len =>
    have hq : s.unsubtracted ≠ [] := by simp [unsubtracted, hw]
    have hp : s.paused = true := by simpa [hw, hd] using hp
    simp [hp, hlow hq]
  | subbed remaining =>
    have hp : s.paused = true := by simpa [hw, hd] using hp
    have hcase : remaining < journalBacklogLowBytes ∨ s.unsubtracted ≠ [] := by
      simpa [Catches, hd, hw] using hc
    rcases hcase with hr | hq
    · simp [hp, hr]
    · simp [hp, hlow hq]

theorem low_pos : 0 < journalBacklogLowBytes := by decide

theorem Balanced.reactorStep (h : Balanced s) (hw : t.writer = s.writer) (hq : t.queue = s.queue)
    (hd : t.drained = s.drained) (hf : t.paused = s.paused)
    (hacc : t.backlog + s.unsent = s.backlog + t.unsent) (hc : t.unsent < journalBacklogLowBytes)
    (hp : t.Pausing → s.Pausing) : Balanced t := by
  have hu : t.unsubtracted = s.unsubtracted := by simp only [unsubtracted, hw, hq]
  refine ⟨?_,hc,fun ht => ?_⟩
  · have := h.account
    rw [hu]
    omega
  · have hs := h.pause (hp ht)
    simpa only [Caught, Catches, hd, hw, hu, hf] using hs

theorem Balanced.writerStep (h : Balanced s) (hr : t.reactor = s.reactor)
    (hi : t.ptyReadInterest = s.ptyReadInterest) (hh : t.handingOff = s.handingOff) (he : t.ended = s.ended)
    (hacc : t.backlog = t.unsubtracted.sum + s.unsent) (hc : s.Caught → t.Caught) : Balanced t := by
  have hu : t.unsent = s.unsent := by simp only [unsent, hr]
  refine ⟨hu ▸ hacc,hu ▸ h.chunk,fun hp => hc (h.pause ?_)⟩
  simpa only [Pausing, hr, hi, hh, he] using hp

theorem not_pausing_of_idle (hr : s.reactor = .idle)
    (hi : s.ptyReadInterest = true ∨ s.handingOff = true ∨ s.ended = true) : ¬s.Pausing := by
  rintro (hs | ⟨h1,h2,h3⟩)
  · rw [hr] at hs
    cases hs
  · simp [h1, h2, h3] at hi

/-- A chunk joins the queue. -/
theorem Balanced.sendChunk (h : Balanced s) {len : ℕ} (hr : s.reactor = .added len) :
    Balanced { s with queue := s.queue ++ [len], reactor := .idle } := by
  have hacc := h.account
  have hu : unsubtracted { s with queue := s.queue ++ [len], reactor := .idle } = s.unsubtracted ++ [len] := by
    simp only [unsubtracted]
    split <;> rfl
  refine ⟨?_,low_pos,?_⟩
  · rw [hu, List.sum_append]
    simpa [unsent, hr] using hacc
  · rintro (hs | hp)
    · cases hs
    · obtain ⟨hc,hf⟩ := h.pause (.inr hp)
      refine ⟨?_,hf⟩
      unfold Catches
      rw [hu]
      simp

/-- The writer subtracts a chunk: another one is left, or the low mark is
reached. -/
theorem Balanced.fetchSub (h : Balanced s) {len : ℕ} (hw : s.writer = .took len) :
    Balanced { s with backlog := s.backlog - len, writer := .subbed (s.backlog - len) } := by
  have hacc := h.account
  have hu : s.unsubtracted = len :: s.queue := by simp only [unsubtracted, hw]
  rw [hu, List.sum_cons] at hacc
  refine h.writerStep rfl rfl rfl rfl ?_ ?_
  · show s.backlog - len = s.queue.sum + s.unsent
    omega
  · rintro ⟨_,hf⟩
    have hf' : s.paused = true ∨ 0 < s.drained := by simpa [hw] using hf
    refine ⟨?_,hf'.imp_right .inr⟩
    by_cases hq : s.queue = []
    · refine .inr (.inr (.inr (.inl ⟨s.backlog - len,?_,rfl⟩)))
      have := h.chunk
      simp only [hq, List.sum_nil] at hacc
      omega
    · exact .inr (.inr (.inr (.inr hq)))

/-- The writer looks at the flag. -/
theorem Balanced.loadPaused (h : Balanced s) {remaining : ℕ} (hw : s.writer = .subbed remaining) :
    Balanced (if s.paused ∧ remaining < journalBacklogLowBytes then { s with writer := .tested }
      else { s with writer := .idle }) := by
  have hacc := h.account
  have hu : s.unsubtracted = s.queue := by simp only [unsubtracted, hw]
  rw [hu] at hacc
  split
  · exact h.writerStep rfl rfl rfl rfl hacc (fun hc => ⟨.inr (.inl rfl),by simpa [hw] using hc.2.imp_right (·)⟩)
  · next hno =>
    refine h.writerStep rfl rfl rfl rfl hacc ?_
    rintro ⟨hc,hf⟩
    have hf' : s.paused = true ∨ 0 < s.drained := by simpa [hw] using hf
    refine ⟨?_,hf'.imp_right .inr⟩
    rcases hf' with hp | hd
    · have hc' : 0 < s.drained ∨ remaining < journalBacklogLowBytes ∨ s.queue ≠ [] := by
        simpa [Catches, hw, hu] using hc
      rcases hc' with hd | hlow | hq
      · exact .inl hd
      · exact absurd ⟨hp,hlow⟩ hno
      · exact .inr (.inr (.inr (.inr hq)))
    · exact .inl hd

end Pressure

def PausesInTime (s : Pressure) : PressureEvent → Prop
  | .storePaused => ∀ backlog, s.reactor = .loaded backlog → journalBacklogHighBytes < backlog →
      s.ptyReadInterest = true → s.Catches
  | _ => True

open Pressure in
theorem pressureStep_balanced {s t : Pressure} {a : PressureEvent} (h : Balanced s) (hok : PausesInTime s a)
    (hst : pressureStep s a = some t) : Balanced t := by
  have hacc := h.account
  cases a with
  | fetchAdd len =>
    simp only [pressureStep] at hst
    split at hst
    swap
    · cases hst
    next hc =>
    obtain ⟨⟨hr,hh,he⟩,_,hlen⟩ := hc
    cases Option.some.inj hst
    refine h.reactorStep rfl rfl rfl rfl ?_ (hlen.trans_lt (by decide)) ?_
    · simp [unsent, hr]
    · rintro (hs | hp)
      · cases hs
      · exact .inr hp
  | sendChunk =>
    simp only [pressureStep] at hst
    split at hst
    · next len hr => exact Option.some.inj hst ▸ h.sendChunk hr
    · cases hst
  | loadBacklog =>
    simp only [pressureStep] at hst
    split at hst <;> cases hst
    next hc =>
    refine h.reactorStep rfl rfl rfl rfl (by simp [unsent, hc.1]) low_pos ?_
    rintro (hs | hp)
    · cases hs
    · exact .inr hp
  | storePaused =>
    simp only [pressureStep] at hst
    split at hst
    swap
    · cases hst
    next backlog hr =>
    split at hst
    · next hc =>
      cases Option.some.inj hst
      have hcatch := hok backlog hr hc.1 hc.2
      refine ⟨?_,low_pos,fun _ => ⟨hcatch,.inl rfl⟩⟩
      simpa only [unsent, hr, unsubtracted] using hacc
    · cases Option.some.inj hst
      refine h.reactorStep rfl rfl rfl rfl (by simp [unsent, hr]) low_pos ?_
      rintro (hs | hp)
      · cases hs
      · exact .inr hp
  | setInterest =>
    simp only [pressureStep] at hst
    split at hst <;> cases hst
    next hr =>
    exact h.reactorStep rfl rfl rfl rfl (by simp [unsent, hr]) low_pos (fun _ => .inl hr)
  | journalDrained =>
    simp only [pressureStep] at hst
    split at hst <;> cases hst
    next hc =>
    refine ⟨?_,?_,fun hp => absurd hp (not_pausing_of_idle hc.1 ?_)⟩
    · exact hacc
    · exact h.chunk
    · cases s.ended <;> simp
  | exportHandoff accepted =>
    simp only [pressureStep] at hst
    split at hst <;> cases hst
    next hc =>
    cases accepted with
    | true =>
      exact h.reactorStep rfl rfl rfl rfl rfl h.chunk
        (fun hp => absurd hp (not_pausing_of_idle hc.1 (.inr (.inl rfl))))
    | false =>
      exact h.reactorStep rfl rfl rfl rfl rfl h.chunk
        (fun hp => absurd hp (not_pausing_of_idle hc.1 (.inl rfl)))
  | resumeAfterHandoff =>
    simp only [pressureStep] at hst
    split at hst <;> cases hst
    next hr =>
    refine h.reactorStep rfl rfl rfl rfl rfl h.chunk (fun hp => absurd hp (not_pausing_of_idle hr ?_))
    cases s.ended <;> simp
  | finish =>
    simp only [pressureStep] at hst
    split at hst <;> cases hst
    next hc =>
    exact h.reactorStep rfl rfl rfl rfl rfl h.chunk
      (fun hp => absurd hp (not_pausing_of_idle hc.1 (.inr (.inr rfl))))
  | recvChunk =>
    simp only [pressureStep] at hst
    split at hst <;> cases hst
    next len queue hw hq =>
    refine h.writerStep rfl rfl rfl rfl ?_ ?_
    · simpa [unsubtracted, hw, hq] using hacc
    · rintro ⟨hc,hf⟩
      have hf' : s.paused = true ∨ 0 < s.drained := by simpa [hw] using hf
      exact ⟨.inr (.inr (.inr (.inr (by simp [unsubtracted])))),hf'.imp_right .inr⟩
  | fetchSub =>
    simp only [pressureStep] at hst
    split at hst
    · next len hw => exact Option.some.inj hst ▸ h.fetchSub hw
    · cases hst
  | loadPaused =>
    simp only [pressureStep] at hst
    split at hst
    swap
    · cases hst
    next remaining hw =>
    have hl := h.loadPaused hw
    split at hst
    · next hc =>
      rw [if_pos hc] at hl
      exact Option.some.inj hst ▸ hl
    · next hc =>
      rw [if_neg hc] at hl
      exact Option.some.inj hst ▸ hl
  | clearPaused =>
    simp only [pressureStep] at hst
    split at hst <;> cases hst
    next hw =>
    refine h.writerStep rfl rfl rfl rfl ?_ (fun _ => ⟨.inr (.inr (.inl rfl)),.inr (.inl rfl)⟩)
    simpa [unsubtracted, hw] using hacc
  | sendDrained =>
    simp only [pressureStep] at hst
    split at hst <;> cases hst
    next hw =>
    refine h.writerStep rfl rfl rfl rfl ?_
      (fun _ => ⟨.inl (Nat.succ_pos _),.inr (.inr (Nat.succ_pos _))⟩)
    simpa [unsubtracted, hw] using hacc

theorem balanced_start : Pressure.start.Balanced :=
  ⟨rfl,Pressure.low_pos,fun h => absurd h (Pressure.not_pausing_of_idle rfl (.inl rfl))⟩

/-- In every interleaving in which the flag is only set while the writer can still
find it, a paused Session is always going to be woken. -/
theorem backpressure_never_freezes (events : List PressureEvent)
    (h : Guarded pressureStep PausesInTime Pressure.start events) :
    Always pressureStep Pressure.NotFrozen Pressure.start events :=
  always_of_guarded (fun _ _ _ => pressureStep_balanced) (fun _ => Pressure.Balanced.notFrozen)
    balanced_start h

/-- Sixty-five full reads of the PTY are published, which is more than the high
mark, and the backlog is loaded. -/
def fillsJournal : List PressureEvent :=
  (List.replicate 65 [.fetchAdd sessionOutputReadBufferBytes,.sendChunk]).flatten ++ [.loadBacklog]

def emptiesJournal : List PressureEvent :=
  (List.replicate 65 [.recvChunk,.fetchSub,.loadPaused]).flatten

def filled : Pressure :=
  ⟨4259840,false,true,false,false,.loaded 4259840,.idle,List.replicate 65 65536,0⟩

theorem run_fillsJournal : run pressureStep Pressure.start fillsJournal = some filled := by decide +kernel

theorem run_emptiesJournal : run pressureStep filled emptiesJournal = some
    { filled with backlog := 0, queue := [] } := by decide +kernel

/-- The flag is set while the chunks are still queued. -/
theorem backpressure_never_freezes_on_full_queue :
    Always pressureStep Pressure.NotFrozen Pressure.start (fillsJournal ++ [.storePaused,.setInterest]) := by
  refine backpressure_never_freezes _ ?_
  have hfill : Guarded pressureStep PausesInTime Pressure.start fillsJournal := by
    refine guarded_of_forall (fun a ha s => ?_) _
    cases a with
    | storePaused => exact absurd ha (by decide +kernel)
    | _ => trivial
  refine Guarded.append hfill run_fillsJournal ?_
  intro t ht
  refine ⟨fun _ _ _ _ => .inr (.inr (.inr (.inr (by decide)))),?_⟩
  intro u hu
  exact ⟨trivial,trivial⟩

/-- The writer empties the queue between the load of the backlog and the store of
the flag: the Session is paused and nothing will wake it. -/
theorem lost_wakeup_freezes :
    ¬Always pressureStep Pressure.NotFrozen Pressure.start
      (fillsJournal ++ (emptiesJournal ++ [.storePaused,.setInterest])) := by
  intro h
  have hend : run pressureStep Pressure.start
      (fillsJournal ++ (emptiesJournal ++ [.storePaused,.setInterest])) =
      some ⟨0,true,false,false,false,.idle,.idle,[],0⟩ :=
    run_append.mpr ⟨_,run_fillsJournal,run_append.mpr ⟨_,run_emptiesJournal,rfl⟩⟩
  have hn := always_iff.mp h _ [] _ (List.append_nil _).symm hend rfl rfl rfl
  exact absurd hn (by decide)

end Unpeel.Core
