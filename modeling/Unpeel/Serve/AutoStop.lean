import Mathlib.Algebra.Order.Group.Nat
import Mathlib.Data.Finset.Basic
import Unpeel.Foundation.History
import Unpeel.Foundation.Runs
import Unpeel.Manifest.Record

/-! # Stopping idle Sessions

The sweep keeps an idle clock for each row and hands a row that has been idle for the
cutoff to a worker that stops it. Which stops are under way is kept in a set, and that
set, like the clocks, only holds rows of the current list.
-/
namespace Unpeel.Serve
open Runs Manifest List

inductive Status where
  | starting
  | busy
  | idle
  | attention
  | exited
deriving DecidableEq

structure SessionRow where
  id : Text
  running : Bool
  status : Status
  resumable : Bool
  pinned : Bool
  unread : Bool
  activityAt : ℕ
deriving DecidableEq

structure Outcome where
  sessionId : Text
  error : Option Text
deriving DecidableEq

inductive SweepEvent where
  | stopped (sessionId : Text)
  | failed (sessionId error : Text)
  | skipped (sessionId : Text) (reason : String)
deriving DecidableEq

def retryDelayMs : ℕ := 60000

structure Sweeper where
  startedAtMs : ℕ
  idleSinceMs : Text → Option ℕ
  skipReasons : Text → Option String
  issued : Finset Text
  retryAfterMs : Text → Option ℕ

def observedIdleSince (existing : Option ℕ) (lifecycleAt nowMs : ℕ) : ℕ :=
  let observed := min lifecycleAt nowMs
  match existing with
  | some anchor => max anchor observed
  | none => if lifecycleAt = 0 then nowMs else observed

def outcomeEvent (outcome : Outcome) : SweepEvent :=
  match outcome.error with
  | some error => .failed outcome.sessionId error
  | none => .stopped outcome.sessionId

namespace Sweeper

def attemptBlocked (s : Sweeper) (sessionId : Text) (nowMs : ℕ) : Bool :=
  decide (sessionId ∈ s.issued) || (s.retryAfterMs sessionId).any fun retryAt => nowMs < retryAt

def stoppedRetryDue (s : Sweeper) (row : SessionRow) (nowMs : ℕ) : Bool :=
  !row.running && row.resumable && !row.pinned && decide (row.id ∉ s.issued) &&
    (s.retryAfterMs row.id).any fun retryAt => retryAt ≤ nowMs

def applyOutcome (nowMs : ℕ) (s : Sweeper) (outcome : Outcome) : Sweeper :=
  { s with
    issued := s.issued.erase outcome.sessionId
    retryAfterMs := Function.update s.retryAfterMs outcome.sessionId
      -- `saturating_add`
      (outcome.error.map fun _ => min (nowMs + retryDelayMs) (2 ^ 64 - 1)) }

def observe (startedAtMs nowMs : ℕ) (idleSinceMs : Text → Option ℕ) (row : SessionRow) : Text → Option ℕ :=
  Function.update idleSinceMs row.id
    (if row.running = true ∧ row.status = .idle then
      match idleSinceMs row.id with
      | some idleSince => some (observedIdleSince (some idleSince) row.activityAt nowMs)
      | none => some (max (observedIdleSince none row.activityAt nowMs) startedAtMs)
    else none)

def prune (s : Sweeper) (rows : List SessionRow) : Sweeper :=
  let live := fun id => rows.any (·.id = id)
  { s with
    idleSinceMs := fun id => if live id then s.idleSinceMs id else none
    skipReasons := fun id => if live id then s.skipReasons id else none
    issued := s.issued.filter (live · = true)
    retryAfterMs := fun id => if live id then s.retryAfterMs id else none }

def blockedBy (s : Sweeper) (unread : List Text) (thresholdMs nowMs : ℕ) (row : SessionRow) : Option String :=
  let unread := row.unread || unread.contains row.id
  if row.status = .attention ∧ unread = true then
    some "unread attention (waiting on the user; never auto-stopped unseen)"
  else if row.status ≠ .idle then some "not idle"
  else if row.resumable = false then some "no resumable conversation (plain shells are never auto-stopped)"
  else if row.pinned = true then some "pinned"
  else if s.attemptBlocked row.id nowMs then some "stop attempt pending or in retry backoff"
  else match s.idleSinceMs row.id with
    | some idleSince => if nowMs - idleSince < thresholdMs then some "idle for less than the cutoff" else none
    | none => some "idle clock not started"

def nextDue (s : Sweeper) (unread : List Text) (thresholdMs nowMs : ℕ) :
    List SessionRow → Option SessionRow × List (Text × String)
  | [] => (none,[])
  | row :: rows =>
    if s.stoppedRetryDue row nowMs then (some row,[])
    else if row.running = false then nextDue s unread thresholdMs nowMs rows
    else match s.blockedBy unread thresholdMs nowMs row with
      | none => (some row,[])
      | some reason =>
        let (due,skips) := nextDue s unread thresholdMs nowMs rows
        (due,(row.id,reason) :: skips)

def reportSkip : Sweeper × List SweepEvent → Text × String → Sweeper × List SweepEvent
  | (s,events),(id,reason) =>
    if s.skipReasons id ≠ some reason then
      ({ s with skipReasons := Function.update s.skipReasons id (some reason) },events ++ [.skipped id reason])
    else (s,events)

/-- The sweeper after the outcomes are drained, the clocks observed and the rows that
are gone forgotten. -/
def swept (s : Sweeper) (outcomes : List Outcome) (rows : List SessionRow) (nowMs : ℕ) : Sweeper :=
  let drained := outcomes.foldl (applyOutcome nowMs) s
  prune { drained with idleSinceMs := rows.foldl (observe drained.startedAtMs nowMs) drained.idleSinceMs } rows

/-- `Sweeper::step` with the outcomes that have arrived; the row that it hands to
`stop_session` comes with the events. -/
def step (s : Sweeper) (outcomes : List Outcome) (rows : List SessionRow) (unread : List Text)
    (minutes nowMs : ℕ) : Sweeper × List SweepEvent × Option SessionRow :=
  let events := outcomes.map outcomeEvent
  let pruned := s.swept outcomes rows nowMs
  if pruned.issued ≠ ∅ ∨ minutes = 0 then (pruned,events,none)
  else
    let (due,skips) := pruned.nextDue unread (minutes * 60000) nowMs rows
    let (reported,events) := skips.foldl reportSkip (pruned,events)
    match due with
    | none => (reported,events,none)
    | some row =>
      ({ reported with
          skipReasons := Function.update reported.skipReasons row.id none
          issued := insert row.id reported.issued },events,some row)

end Sweeper

/-- One call of `step`: what it was given and the row it handed to a worker. -/
structure Sweep where
  rows : List SessionRow
  minutes : ℕ
  nowMs : ℕ
  handed : Option SessionRow

/-- The sweeper, the outcomes on their way, the workers in `stop_session`, and the
sweeps so far. -/
structure AutoStop where
  sweeper : Sweeper
  outcomes : List Outcome
  workers : List Text
  history : List Sweep

inductive AutoStopEvent where
  | step (rows : List SessionRow) (unread : List Text) (minutes nowMs : ℕ) (spawned : Bool)
  | finish (sessionId : Text) (error : Option Text)

def autoStopStep (s : AutoStop) : AutoStopEvent → Option AutoStop
  | .step rows unread minutes nowMs spawned =>
    if s.history.any (fun sweep => nowMs < sweep.nowMs) then none
    else
      let (sweeper,_,handed) := s.sweeper.step s.outcomes rows unread minutes nowMs
      some
        { sweeper := sweeper
          outcomes := []
          workers := s.workers ++ (if spawned then handed.toList.map SessionRow.id else [])
          history := s.history ++ [⟨rows,minutes,nowMs,handed⟩] }
  | .finish sessionId error =>
    if s.workers.contains sessionId then
      some { s with workers := s.workers.erase sessionId, outcomes := s.outcomes ++ [⟨sessionId,error⟩] }
    else none

def startAutoStop (startedAtMs : ℕ) : AutoStop :=
  ⟨⟨startedAtMs,fun _ => none,fun _ => none,∅,fun _ => none⟩,[],[],[]⟩

/-- The row with this id was running and idle, with a lifecycle stamp of at most `limit`. -/
def ReportedIdle (rows : List SessionRow) (id : Text) (limit : ℕ) : Prop :=
  ∃ row ∈ rows, row.id = id ∧ row.running = true ∧ row.status = .idle ∧ row.activityAt ≤ limit

/-- A running row that is handed over is unpinned and resumable, and every sweep of the
last `minutes` has seen it idle, with no stamp newer than that. -/
def HandedRightly (before : List Sweep) (sweep : Sweep) : Prop :=
  ∀ row ∈ sweep.handed, row.running = true →
    row ∈ sweep.rows ∧ row.pinned = false ∧ row.resumable = true ∧
    sweep.minutes * 60000 ≤ sweep.nowMs ∧
    ∀ seen ∈ before ++ [sweep], sweep.nowMs < seen.nowMs + sweep.minutes * 60000 →
      ReportedIdle seen.rows row.id (sweep.nowMs - sweep.minutes * 60000)

structure AutoStopSafe (s : AutoStop) : Prop where
  workers : s.workers.length ≤ 1
  handed : Throughout HandedRightly s.history

def ClocksStartAfter (last startedAtMs nowMs : ℕ) (idleSinceMs : Text → Option ℕ) : List SessionRow → Prop
  | [] => True
  | row :: rows =>
    (row.running = true → row.status = .idle → idleSinceMs row.id = none →
      last ≤ max (observedIdleSince none row.activityAt nowMs) startedAtMs) ∧
    ClocksStartAfter last startedAtMs nowMs (Sweeper.observe startedAtMs nowMs idleSinceMs row) rows

instance decidableClocksStartAfter (last startedAtMs nowMs : ℕ) :
    ∀ (idleSinceMs : Text → Option ℕ) (rows : List SessionRow),
      Decidable (ClocksStartAfter last startedAtMs nowMs idleSinceMs rows)
  | _,[] => isTrue trivial
  | idleSinceMs,row :: rows =>
    let _ := decidableClocksStartAfter last startedAtMs nowMs (Sweeper.observe startedAtMs nowMs idleSinceMs row) rows
    inferInstanceAs (Decidable (_ ∧ _))

/-- The list has the rows of the Sessions that are being stopped, and a row that has
become idle, or has come back, has a stamp from after the last sweep. -/
def RowsKeepUp (s : AutoStop) : AutoStopEvent → Prop
  | .step rows _ _ nowMs _ =>
    (∀ id ∈ s.workers, id ∈ rows.map SessionRow.id) ∧
    ∀ last ∈ s.history.getLast?,
      ClocksStartAfter last.nowMs s.sweeper.startedAtMs nowMs s.sweeper.idleSinceMs rows
  | .finish _ _ => True

instance (s : AutoStop) : ∀ a : AutoStopEvent, Decidable (RowsKeepUp s a)
  | .step _ _ _ _ _ => inferInstanceAs (Decidable (_ ∧ _))
  | .finish _ _ => isTrue trivial

theorem ReportedIdle.mono {rows : List SessionRow} {id : Text} {limit more : ℕ} (h : ReportedIdle rows id limit)
    (hle : limit ≤ more) : ReportedIdle rows id more := by
  obtain ⟨row,hrow,hid,hrunning,hidle,hstamp⟩ := h
  exact ⟨row,hrow,hid,hrunning,hidle,Nat.le_trans hstamp hle⟩

namespace Sweeper
variable {s : Sweeper} {rows : List SessionRow} {unread : List Text} {nowMs : ℕ}

theorem drain_spec (outcomes : List Outcome) :
    (outcomes.foldl (applyOutcome nowMs) s).startedAtMs = s.startedAtMs ∧
    (outcomes.foldl (applyOutcome nowMs) s).idleSinceMs = s.idleSinceMs ∧
    ∀ id, id ∈ (outcomes.foldl (applyOutcome nowMs) s).issued ↔
      id ∈ s.issued ∧ id ∉ outcomes.map Outcome.sessionId := by
  induction outcomes generalizing s with
  | nil => simp
  | cons outcome outcomes ih =>
    obtain ⟨hstarted,hidle,hissued⟩ := @ih (s.applyOutcome nowMs outcome)
    refine ⟨hstarted,hidle,fun id => ?_⟩
    rw [foldl_cons, hissued]
    simp only [applyOutcome, Finset.mem_erase, map_cons, mem_cons, not_or]
    tauto

theorem live_iff {id : Text} : rows.any (·.id = id) = true ↔ id ∈ rows.map SessionRow.id := by
  simp only [any_eq_true, decide_eq_true_eq, mem_map]

theorem swept_issued (outcomes : List Outcome) (id : Text) :
    id ∈ (s.swept outcomes rows nowMs).issued ↔
      (id ∈ s.issued ∧ id ∉ outcomes.map Outcome.sessionId) ∧ id ∈ rows.map SessionRow.id := by
  simp only [swept, prune, Finset.mem_filter, (drain_spec outcomes).2.2, live_iff]

theorem blockedBy_eq_none {thresholdMs : ℕ} {row : SessionRow} (h : s.blockedBy unread thresholdMs nowMs row = none) :
    row.pinned = false ∧ row.resumable = true ∧
      ∃ idleSince, s.idleSinceMs row.id = some idleSince ∧ thresholdMs ≤ nowMs - idleSince := by
  unfold blockedBy at h
  dsimp only at h
  split_ifs at h with hattention hidle hresumable hpinned hblocked
  split at h
  · next idleSince hsince =>
    split_ifs at h with hlt
    exact ⟨by simpa using hpinned,by simpa using hresumable,idleSince,hsince,Nat.le_of_not_lt hlt⟩
  · cases h

theorem nextDue_spec {thresholdMs : ℕ} {row : SessionRow}
    (h : (s.nextDue unread thresholdMs nowMs rows).1 = some row) :
    row ∈ rows ∧ (row.running = true → s.blockedBy unread thresholdMs nowMs row = none) := by
  induction rows with
  | nil => cases h
  | cons first rows ih =>
    simp only [nextDue] at h
    split at h
    · next hretry =>
      cases h
      refine ⟨mem_cons_self,fun hrunning => ?_⟩
      simp [stoppedRetryDue, hrunning] at hretry
    · split at h
      · obtain ⟨hmem,hblocked⟩ := ih h
        exact ⟨mem_cons_of_mem _ hmem,hblocked⟩
      · split at h
        · next hnone =>
          cases h
          exact ⟨mem_cons_self,fun _ => hnone⟩
        · obtain ⟨hmem,hblocked⟩ := ih h
          exact ⟨mem_cons_of_mem _ hmem,hblocked⟩

theorem reportSkip_spec (skips : List (Text × String)) (events : List SweepEvent) :
    (skips.foldl reportSkip (s,events)).1.startedAtMs = s.startedAtMs ∧
    (skips.foldl reportSkip (s,events)).1.idleSinceMs = s.idleSinceMs ∧
    (skips.foldl reportSkip (s,events)).1.issued = s.issued := by
  induction skips generalizing s events with
  | nil => exact ⟨rfl,rfl,rfl⟩
  | cons skip skips ih =>
    rw [foldl_cons]
    simp only [reportSkip]
    split
    · exact ih _
    · exact ih _

/-- What a sweep does: it hands nothing over, or the first row that is due while no stop
is under way. -/
theorem step_cases (s : Sweeper) (outcomes : List Outcome) (rows : List SessionRow) (unread : List Text)
    (minutes nowMs : ℕ) :
    ∃ after events handed, s.step outcomes rows unread minutes nowMs = (after,events,handed) ∧
      after.startedAtMs = (s.swept outcomes rows nowMs).startedAtMs ∧
      after.idleSinceMs = (s.swept outcomes rows nowMs).idleSinceMs ∧
      (handed = none ∧ after.issued = (s.swept outcomes rows nowMs).issued ∨
        ∃ row, handed = some row ∧ (s.swept outcomes rows nowMs).issued = ∅ ∧ after.issued = {row.id} ∧
          row ∈ rows ∧ minutes ≠ 0 ∧
          (row.running = true → (s.swept outcomes rows nowMs).blockedBy unread (minutes * 60000) nowMs row = none)) := by
  unfold step
  simp only
  split
  · exact ⟨_,_,_,rfl,rfl,rfl,.inl ⟨rfl,rfl⟩⟩
  · next hfree =>
    rw [not_or, not_not] at hfree
    obtain ⟨hstarted,hidle,hissued⟩ := @reportSkip_spec (s.swept outcomes rows nowMs)
      ((s.swept outcomes rows nowMs).nextDue unread (minutes * 60000) nowMs rows).2 (outcomes.map outcomeEvent)
    split
    · exact ⟨_,_,_,rfl,hstarted,hidle,.inl ⟨rfl,hissued⟩⟩
    · next row hdue =>
      obtain ⟨hmem,hblocked⟩ := nextDue_spec hdue
      refine ⟨_,_,_,rfl,hstarted,hidle,.inr ⟨row,rfl,hfree.1,?_,hmem,hfree.2,hblocked⟩⟩
      rw [hissued.trans hfree.1]
      rfl

end Sweeper

/-- Every sweep later than the clock of a row has seen the row idle, with no stamp newer
than the clock. -/
def ClocksSeen (history : List Sweep) (idleSinceMs : Text → Option ℕ) : Prop :=
  ∀ id idleSince, idleSinceMs id = some idleSince →
    ∀ seen ∈ history, idleSince < seen.nowMs → ReportedIdle seen.rows id idleSince

/-- The clocks while the rows of a sweep are observed one by one. -/
theorem ClocksSeen.observe {history : List Sweep} {all rows : List SessionRow} {startedAtMs nowMs : ℕ}
    (hlast : ∀ seen ∈ history, ∃ last ∈ history.getLast?, seen.nowMs ≤ last.nowMs)
    {idleSinceMs : Text → Option ℕ} (h : ClocksSeen history idleSinceMs) (hall : rows ⊆ all) (done : List Text)
    (hdone : ∀ id ∈ done, ∀ idleSince, idleSinceMs id = some idleSince → idleSince < nowMs → ReportedIdle all id idleSince)
    (hstart : ∀ last ∈ history.getLast?, ClocksStartAfter last.nowMs startedAtMs nowMs idleSinceMs rows) :
    ClocksSeen history (rows.foldl (Sweeper.observe startedAtMs nowMs) idleSinceMs) ∧
      ∀ id ∈ done ++ rows.map SessionRow.id, ∀ idleSince,
        rows.foldl (Sweeper.observe startedAtMs nowMs) idleSinceMs id = some idleSince → idleSince < nowMs →
          ReportedIdle all id idleSince := by
  induction rows generalizing idleSinceMs done with
  | nil => exact ⟨h,by simpa using hdone⟩
  | cons row rows ih =>
    have hmem : row ∈ all := hall mem_cons_self
    have hrest : rows ⊆ all := fun r hr => hall (mem_cons_of_mem _ hr)
    have hclock (idleSince : ℕ) (hsome : Sweeper.observe startedAtMs nowMs idleSinceMs row row.id = some idleSince) :
        (row.running = true ∧ row.status = .idle) ∧ (row.activityAt ≤ idleSince ∨ nowMs ≤ idleSince) ∧
          ((∃ old, idleSinceMs row.id = some old ∧ old ≤ idleSince) ∨
            ∀ last ∈ history.getLast?, last.nowMs ≤ idleSince) := by
      rw [Sweeper.observe, Function.update_self] at hsome
      split_ifs at hsome with hidle
      refine ⟨hidle,?_⟩
      split at hsome
      · next old hold =>
        cases hsome
        exact ⟨by simp only [observedIdleSince]; omega,.inl ⟨old,hold,le_max_left _ _⟩⟩
      · next hnone =>
        cases hsome
        refine ⟨?_,.inr fun last hl => (hstart last hl).1 hidle.1 hidle.2 hnone⟩
        simp only [observedIdleSince]
        split <;> omega
    have hother (id : Text) (hne : id ≠ row.id) : Sweeper.observe startedAtMs nowMs idleSinceMs row id = idleSinceMs id :=
      Function.update_of_ne hne _ _
    have hnext := @ih (Sweeper.observe startedAtMs nowMs idleSinceMs row) ?_ hrest (done ++ [row.id]) ?_
      fun last hl => (hstart last hl).2
    · simpa using hnext
    · intro id idleSince hsome seen hseen hlt
      by_cases hid : id = row.id
      · subst hid
        obtain ⟨-,-,⟨old,hold,hle⟩ | hafter⟩ := hclock idleSince hsome
        · exact (h row.id old hold seen hseen (by omega)).mono hle
        · obtain ⟨last,hl,hle⟩ := hlast seen hseen
          have := hafter last hl
          omega
      · exact h id idleSince (hother id hid ▸ hsome) seen hseen hlt
    · intro id hid idleSince hsome hlt
      by_cases he : id = row.id
      · subst he
        obtain ⟨hidle,hstamp,-⟩ := hclock idleSince hsome
        exact ⟨row,hmem,rfl,hidle.1,hidle.2,by omega⟩
      · refine hdone id ?_ idleSince (hother id he ▸ hsome) hlt
        simpa [he] using hid

structure AutoStopInv (s : AutoStop) : Prop where
  ordered : ∀ seen ∈ s.history, ∃ last ∈ s.history.getLast?, seen.nowMs ≤ last.nowMs
  clocks : ClocksSeen s.history s.sweeper.idleSinceMs
  handed : Throughout HandedRightly s.history
  single : s.workers.length + s.outcomes.length ≤ 1
  working : ∀ id ∈ s.workers, id ∈ s.sweeper.issued ∧ id ∉ s.outcomes.map Outcome.sessionId

namespace AutoStopInv
variable {s t : AutoStop}
variable {rows : List SessionRow} {unread : List Text} {minutes : ℕ} {spawned : Bool}
variable {nowMs : ℕ}

theorem start (startedAtMs : ℕ) : AutoStopInv (startAutoStop startedAtMs) where
  ordered := by simp [startAutoStop]
  clocks := by simp [ClocksSeen, startAutoStop]
  handed := throughout_nil
  single := by simp [startAutoStop]
  working := by simp [startAutoStop]

theorem safe (h : AutoStopInv s) : AutoStopSafe s := ⟨by have := h.single; omega,h.handed⟩

theorem swept_clocks (h : AutoStopInv s)
    (hok : RowsKeepUp s (.step rows unread minutes nowMs spawned)) (handed : Option SessionRow) :
    ClocksSeen (s.history ++ [⟨rows,minutes,nowMs,handed⟩]) (s.sweeper.swept s.outcomes rows nowMs).idleSinceMs := by
  obtain ⟨hstarted,hidle,-⟩ := @Sweeper.drain_spec s.sweeper nowMs s.outcomes
  have hobserved := h.clocks.observe h.ordered (List.Subset.refl rows) [] (by simp) hok.2
  rw [← hstarted, ← hidle] at hobserved
  intro id idleSince hsome seen hseen hlt
  simp only [Sweeper.swept, Sweeper.prune] at hsome
  split_ifs at hsome with hlive
  rcases mem_append.mp hseen with hseen | hseen
  · exact hobserved.1 id idleSince hsome seen hseen hlt
  · rw [mem_singleton.mp hseen] at hlt ⊢
    exact hobserved.2 id (Sweeper.live_iff.mp hlive) idleSince hsome hlt

theorem idle_of_free (h : AutoStopInv s) (hok : RowsKeepUp s (.step rows unread minutes nowMs spawned))
    (hfree : (s.sweeper.swept s.outcomes rows nowMs).issued = ∅) : s.workers = [] := by
  refine eq_nil_iff_forall_not_mem.mpr fun id hid => ?_
  have hissued := (@Sweeper.swept_issued s.sweeper rows nowMs s.outcomes id).mpr ⟨h.working id hid,hok.1 id hid⟩
  rw [hfree] at hissued
  exact Finset.notMem_empty id hissued

theorem handedRightly (h : AutoStopInv s)
    (hok : RowsKeepUp s (.step rows unread minutes nowMs spawned)) {row : SessionRow}
    (hmem : row ∈ rows) (hminutes : minutes ≠ 0) (hdue : row.running = true →
      (s.sweeper.swept s.outcomes rows nowMs).blockedBy unread (minutes * 60000) nowMs row = none) :
    HandedRightly s.history ⟨rows,minutes,nowMs,some row⟩ := by
  intro r hr hrunning
  cases hr
  obtain ⟨hpinned,hresumable,idleSince,hsome,hle⟩ := Sweeper.blockedBy_eq_none (hdue hrunning)
  refine ⟨hmem,hpinned,hresumable,by dsimp only; omega,fun seen hseen hrecent => ?_⟩
  have hreported := h.swept_clocks hok (some row) row.id idleSince hsome seen hseen (by dsimp only at hrecent; omega)
  exact hreported.mono (by dsimp only; omega)

theorem sweep (h : AutoStopInv s) {rows : List SessionRow} {unread : List Text} {minutes nowMs : ℕ} {spawned : Bool}
    (hok : RowsKeepUp s (.step rows unread minutes nowMs spawned))
    (hs : autoStopStep s (.step rows unread minutes nowMs spawned) = some t) : AutoStopInv t := by
  simp only [autoStopStep] at hs
  by_cases hpast : s.history.any (fun sweep => nowMs < sweep.nowMs) = true
  · rw [if_pos hpast] at hs
    cases hs
  rw [if_neg hpast, Option.some.injEq] at hs
  subst hs
  obtain ⟨after,events,handed,hstep,-,hidle,hcases⟩ :=
    s.sweeper.step_cases s.outcomes rows unread minutes nowMs
  rw [hstep]
  constructor
  case ordered =>
    intro seen hseen
    refine ⟨_,getLast?_concat,?_⟩
    rcases mem_append.mp hseen with hseen | hseen
    · by_contra hlt
      exact hpast (any_eq_true.mpr ⟨seen,hseen,by simpa using hlt⟩)
    · rw [mem_singleton.mp hseen]
  case clocks =>
    rw [hidle]
    exact h.swept_clocks hok handed
  case handed =>
    obtain ⟨rfl,-⟩ | ⟨row,rfl,-,-,hmem,hminutes,hdue⟩ := hcases
    · exact h.handed.snoc fun row hrow => by cases hrow
    · exact h.handed.snoc (h.handedRightly hok hmem hminutes hdue)
  case single =>
    have hsingle := h.single
    obtain ⟨rfl,-⟩ | ⟨row,rfl,hfree,-⟩ := hcases
    · simp only [Option.toList_none, map_nil, append_nil, ite_self, length_nil]
      omega
    · rw [h.idle_of_free hok hfree]
      cases spawned <;> simp
  case working =>
    intro id hid
    refine ⟨?_,by simp⟩
    obtain ⟨rfl,hissued⟩ | ⟨row,rfl,hfree,hissued,-⟩ := hcases
    · dsimp only
      rw [hissued, Sweeper.swept_issued]
      have hworker : id ∈ s.workers := by simpa using hid
      exact ⟨h.working id hworker,hok.1 id hworker⟩
    · dsimp only at hid ⊢
      rw [h.idle_of_free hok hfree] at hid
      cases spawned <;> simp_all

theorem finish (h : AutoStopInv s) {sessionId : Text} {error : Option Text}
    (hs : autoStopStep s (.finish sessionId error) = some t) : AutoStopInv t := by
  simp only [autoStopStep] at hs
  split_ifs at hs with hworker
  rw [Option.some.injEq] at hs
  subst hs
  have hmem : sessionId ∈ s.workers := contains_iff_mem.mp hworker
  have hlength := length_erase_of_mem hmem
  have hpos := length_pos_of_mem hmem
  have hsingle := h.single
  refine ⟨h.ordered,h.clocks,h.handed,?_,?_⟩
  · dsimp only
    rw [hlength, length_append, length_singleton]
    omega
  · intro id hid
    have hnil : s.workers.erase sessionId = [] := eq_nil_of_length_eq_zero (by omega)
    rw [hnil] at hid
    cases hid

theorem step {a : AutoStopEvent} (h : AutoStopInv s) (hok : RowsKeepUp s a) (hs : autoStopStep s a = some t) :
    AutoStopInv t := by
  cases a with
  | step rows unread minutes nowMs spawned => exact h.sweep hok hs
  | finish sessionId error => exact h.finish hs

end AutoStopInv

/-- In every run of sweeps and workers in which the rows keep up with them, one stop is
under way at a time, and a running row is handed over only after it was seen idle for
the whole cutoff. -/
theorem auto_stop_is_safe (startedAtMs : ℕ) (events : List AutoStopEvent)
    (hok : Guarded autoStopStep RowsKeepUp (startAutoStop startedAtMs) events) :
    Always autoStopStep AutoStopSafe (startAutoStop startedAtMs) events :=
  always_of_guarded (J := AutoStopInv) (fun _ _ _ h hok hs => h.step hok hs) (fun _ => AutoStopInv.safe)
    (AutoStopInv.start startedAtMs) hok

def idleRow (id : Text) (activityAt : ℕ) : SessionRow := ⟨id,true,.idle,true,false,false,activityAt⟩

def watchedRows : List AutoStopEvent :=
  [.step [idleRow ['a'] 0,idleRow ['b'] 0] [] 30 0 true,
   .step [idleRow ['a'] 0,idleRow ['b'] 0] [] 30 1800000 true,
   .finish ['a'] none,
   .step [idleRow ['b'] 0] [] 30 1800001 true]

theorem watchedRows_are_safe : Always autoStopStep AutoStopSafe (startAutoStop 0) watchedRows :=
  auto_stop_is_safe 0 watchedRows (by decide)

def vanishingRow : List AutoStopEvent :=
  [.step [idleRow ['a'] 0,idleRow ['b'] 0] [] 30 0 true,
   .step [idleRow ['a'] 0,idleRow ['b'] 0] [] 30 1800000 true,
   .step [idleRow ['b'] 0] [] 30 1800001 true]

def returningRow : List AutoStopEvent :=
  [.step [idleRow ['a'] 1] [] 30 1 true,.step [] [] 30 1800000 true,.step [idleRow ['a'] 1] [] 30 1800001 true]

/-- Two workers at once, and a row that is stopped although it was not there a
millisecond before. -/
theorem rows_lag_behind :
    ¬Always autoStopStep AutoStopSafe (startAutoStop 0) vanishingRow ∧
      ¬Always autoStopStep AutoStopSafe (startAutoStop 0) returningRow := by
  constructor
  · intro h
    have hend := h.last rfl
    exact absurd hend.workers (by decide)
  · intro h
    have hend := h.last rfl
    obtain ⟨-,-,-,-,hseen⟩ := hend.handed (_ :: _ :: []) _ [] rfl (idleRow ['a'] 1) rfl rfl
    obtain ⟨row,hrow,-⟩ := hseen ⟨[],30,1800000,none⟩ (by simp) (by decide)
    cases hrow

end Unpeel.Serve
