import Unpeel.Foundation.Runs
import Unpeel.Session.ProgramStatus

/-! # How the manifest follows the program status

The Host applies the events of the terminal in batches. After a batch that changed a record
it looks at the summary: a new state or kind goes to the manifest at once, anything else may
wait for the next idle tick.
-/
namespace Unpeel.Session
open Manifest Runs

def programStatusCoalesce : ℕ := 500000000

/-- What the scanner finds; a report is given with what `parse_report` makes of its body. -/
inductive StreamEvent where
  | report (parsed : Option Report)
  | promptStart
  | fullReset
deriving DecidableEq

/-- `published` is empty until this core knows what the manifest holds. -/
structure ProgramStatusTracker where
  store : ProgramStatusStore
  published : Option (Option ProgramStatusSummary)
  dirty : Bool
  lastWrite : Option ℕ
deriving DecidableEq

structure ProgramStatusIo where
  tracker : ProgramStatusTracker
  programStatus : Option ProgramStatusSummary
  reported : List Text
deriving DecidableEq

def edge (summary : Option ProgramStatusSummary) : Option (ProgramState × Option BlockedKind) :=
  summary.map fun summary => (summary.state,summary.kind)

namespace ProgramStatusStore

def applyEvent (store : ProgramStatusStore) (owner : Option ProcessOwner) (nowMs : ℕ) :
    StreamEvent → ProgramStatusStore × Bool
  | .report none => (store,false)
  | .report (some report) => store.apply report owner nowMs
  | .promptStart => store.dropTransient
  | .fullReset => store.reset

def applyEvents (store : ProgramStatusStore) (owner : Option ProcessOwner) (nowMs : ℕ) :
    List StreamEvent → ProgramStatusStore × Bool
  | [] => (store,false)
  | event :: events =>
    let (store,changed) := store.applyEvent owner nowMs event
    let (store,changed') := store.applyEvents owner nowMs events
    (store,changed || changed')

end ProgramStatusStore

namespace ProgramStatusIo
open ProgramStatusStore

inductive Action where
  | batch (events : List StreamEvent) (owner : Option ProcessOwner) (nowMs instant : ℕ)
  | sweep (isAlive : ProcessOwner → Bool) (instant : ℕ)

def publishProgramStatus (io : ProgramStatusIo) (force : Bool) (instant : ℕ) : ProgramStatusIo :=
  let tracker := io.tracker
  let summary := tracker.store.summary
  if tracker.published = some summary then { io with tracker := { tracker with dirty := false } }
  else
    let stateEdge := tracker.published.all fun published => edge summary ≠ edge published
    if !stateEdge && !force && tracker.lastWrite.any fun written => instant - written < programStatusCoalesce then
      { io with tracker := { tracker with dirty := true } }
    else
      { io with
        tracker := { tracker with dirty := false, lastWrite := some instant, published := some summary }
        programStatus := summary }

def reportedBy (events : List StreamEvent) : List Text :=
  events.filterMap fun
    | .report (some (.set id _)) => some id
    | _ => none

def applyProgramStatusEvents (io : ProgramStatusIo) (events : List StreamEvent) (owner : Option ProcessOwner)
    (nowMs instant : ℕ) : ProgramStatusIo :=
  let (store,changed) := io.tracker.store.applyEvents owner nowMs events
  let io := { io with tracker := { io.tracker with store := store }, reported := io.reported ++ reportedBy events }
  if changed then publishProgramStatus io false instant else io

def departing (store : ProgramStatusStore) (isAlive : ProcessOwner → Bool) : ProgramStatusStore × Bool :=
  if store.hasOwnedTransient then store.sweepDeparted isAlive else (store,false)

def adopt (io : ProgramStatusIo) : ProgramStatusIo :=
  match io.tracker.published with
  | some _ => io
  | none =>
    let tracker := { io.tracker with published := some io.programStatus, dirty := io.tracker.dirty || io.tracker.store.records.isEmpty }
    { io with tracker := tracker }

def setStore (io : ProgramStatusIo) (store : ProgramStatusStore) : ProgramStatusIo :=
  { io with tracker := { io.tracker with store := store } }

def sweepProgramStatus (io : ProgramStatusIo) (isAlive : ProcessOwner → Bool) (instant : ℕ) : ProgramStatusIo :=
  let io := io.adopt
  let (store,departed) := departing io.tracker.store isAlive
  let io := io.setStore store
  if departed || io.tracker.dirty then io.publishProgramStatus true instant else io

def step (io : ProgramStatusIo) : Action → Option ProgramStatusIo
  | .batch events owner nowMs instant => some (io.applyProgramStatusEvents events owner nowMs instant)
  | .sweep isAlive instant => some (io.sweepProgramStatus isAlive instant)

def start (programStatus : Option ProgramStatusSummary) : ProgramStatusIo := ⟨⟨.empty,none,false,none⟩,programStatus,[]⟩

end ProgramStatusIo

namespace ProgramStatusStore
variable {store : ProgramStatusStore} {reported : List Text} {event : StreamEvent}

section Events
variable {store' : ProgramStatusStore}

def Repeats (store : ProgramStatusStore) : StreamEvent → Prop
  | .report none => True
  | .report (some (.set id record)) => store.Repeated id record
  | .report (some (.clear id)) => ∀ entry ∈ store.records, entry.1 ≠ id ∧ ¬Ancestor id entry.1
  | .promptStart => ∀ entry ∈ store.records, entry.2.record.state.isTransient = false
  | .fullReset => store.records = []

def topReport (store : ProgramStatusStore) : StreamEvent → Option Text
  | .report (some (.set id record)) => if store.topUrgency = some record.state.urgency then some id else none
  | _ => none

theorem filter_changed (store : ProgramStatusStore) (keep : Text × StoredRecord → Bool) :
    decide ((store.records.filter keep).length ≠ store.records.length) = false ↔ ∀ entry ∈ store.records, keep entry = true := by
  rw [decide_eq_false_iff_not, not_not, List.length_filter_eq_length_iff]

theorem filter_unchanged {keep : Text × StoredRecord → Bool} (h : ∀ entry ∈ store.records, keep entry = true) :
    { store with records := store.records.filter keep } = store := by
  rw [List.filter_eq_self.mpr h]

/-- An event changes no record exactly if it says what the records say. -/
theorem applyEvent_changed (store : ProgramStatusStore) (owner : Option ProcessOwner) (nowMs : ℕ) (event : StreamEvent) :
    (store.applyEvent owner nowMs event).2 = false ↔ store.Repeats event := by
  cases event with
  | report parsed =>
    cases parsed with
    | none => exact ⟨fun _ => trivial,fun _ => rfl⟩
    | some report =>
      cases report with
      | set id record =>
        constructor
        · intro hsame
          by_contra hchanged
          have := apply_set_of_not_repeated hchanged owner nowMs
          exact absurd (hsame.symm.trans this) Bool.false_ne_true
        · intro hrep
          show (store.apply _ _ _).2 = _
          rw [apply_set_of_repeated hrep]
      | clear id =>
        show decide ((if id = [] then [] else _ : List (Text × StoredRecord)).length ≠ _) = false ↔ _
        split
        · rename_i hid
          subst hid
          rw [decide_eq_false_iff_not, not_not]
          constructor
          · intro hlength entry hentry
            rw [List.eq_nil_of_length_eq_zero hlength.symm] at hentry
            exact absurd hentry List.not_mem_nil
          · intro hnone
            cases hrecords : store.records with
            | nil => rfl
            | cons entry rest =>
              have hentry : entry ∈ store.records := by rw [hrecords]; exact List.mem_cons_self
              obtain ⟨hne,hnot⟩ := hnone entry hentry
              exact absurd ⟨hne,.inl rfl⟩ hnot
        · rename_i hid
          rw [filter_changed]
          refine forall₂_congr fun entry _ => ?_
          rw [Bool.not_eq_true', ← Bool.not_eq_true, under_eq_true hid, not_or]
  | promptStart =>
    show decide _ = false ↔ _
    rw [filter_changed]
    exact forall₂_congr fun entry _ => by rw [Bool.not_eq_true']
  | fullReset =>
    show decide (store.records ≠ []) = false ↔ store.records = []
    rw [decide_eq_false_iff_not, not_not]

/-- Such an event leaves at most another record speaking. -/
theorem Sound.applyEvent_repeats (h : Sound reported store) (hrep : store.Repeats event) (owner : Option ProcessOwner)
    (nowMs : ℕ) :
    (store.applyEvent owner nowMs event).1.said = store.said ∧
      (store.applyEvent owner nowMs event).1.topUrgency = store.topUrgency ∧
      (store.applyEvent owner nowMs event).1.speaker = (store.topReport event).or store.speaker := by
  have hsame : ∀ {next : ProgramStatusStore}, next = store →
      next.said = store.said ∧ next.topUrgency = store.topUrgency ∧ next.speaker = none.or store.speaker := by
    rintro _ rfl
    exact ⟨rfl,rfl,rfl⟩
  have hunchanged := (applyEvent_changed store owner nowMs event).mpr hrep
  cases event with
  | report parsed =>
    cases parsed with
    | none => exact hsame rfl
    | some report =>
      cases report with
      | set id record =>
        obtain ⟨hsaid,htop,hspeaker⟩ := h.apply_repeated hrep owner nowMs
        refine ⟨hsaid,htop,hspeaker.trans ?_⟩
        dsimp only [topReport]
        split <;> rfl
      | clear id =>
        apply hsame
        show { store with records := if id = [] then [] else _ } = store
        have hlength : decide ((if id = [] then [] else _ : List (Text × StoredRecord)).length ≠ _) = false := hunchanged
        split
        · rename_i hid
          rw [if_pos hid, decide_eq_false_iff_not, not_not] at hlength
          rw [← List.eq_nil_of_length_eq_zero hlength.symm]
        · rename_i hid
          rw [if_neg hid] at hlength
          exact filter_unchanged ((filter_changed store _).mp hlength)
  | promptStart =>
    exact hsame (filter_unchanged ((filter_changed store _).mp hunchanged))
  | fullReset =>
    apply hsame
    show { store with records := [] } = store
    rw [← show store.records = [] from hrep]

theorem repeats_congr (h : store'.said = store.said) (event : StreamEvent) :
    store'.Repeats event ↔ store.Repeats event := by
  have hall : ∀ P : Text → ProgramRecord → Prop,
      (∀ entry ∈ store'.records, P entry.1 entry.2.record) ↔ ∀ entry ∈ store.records, P entry.1 entry.2.record := by
    intro P
    have hsaid : ∀ s : ProgramStatusStore, (∀ x ∈ s.said, P x.1 x.2.1) ↔ ∀ entry ∈ s.records, P entry.1 entry.2.record :=
      fun s => List.forall_mem_map
    rw [← hsaid, ← hsaid, h]
  cases event with
  | report parsed =>
    cases parsed with
    | none => exact Iff.rfl
    | some report =>
      cases report with
      | set id record =>
        have hget : ∀ s : ProgramStatusStore, (s.get id).map (·.record) = ((s.said.find? (·.1 = id)).map (·.2)).map (·.1) := by
          intro s
          rw [← get_said, Option.map_map]
          rfl
        show (store'.get id).map _ = _ ↔ (store.get id).map _ = _
        rw [hget, hget, h]
      | clear id => exact hall fun key _ => key ≠ id ∧ ¬Ancestor id key
  | promptStart => exact hall fun _ record => record.state.isTransient = false
  | fullReset =>
    have hnil : ∀ s : ProgramStatusStore, s.records = [] ↔ s.said = [] := fun s => List.map_eq_nil_iff.symm
    show store'.records = [] ↔ store.records = []
    rw [hnil, hnil, h]

theorem topReport_congr (h : store'.topUrgency = store.topUrgency) (event : StreamEvent) :
    store'.topReport event = store.topReport event := by
  unfold topReport
  rw [h]

theorem Sound.applyEvent (h : Sound reported store) (owner : Option ProcessOwner) (nowMs : ℕ) (event : StreamEvent) :
    Sound (reported ++ ProgramStatusIo.reportedBy [event]) (store.applyEvent owner nowMs event).1 := by
  have hnone : reported ++ [] = reported := List.append_nil reported
  cases event with
  | report parsed =>
    cases parsed with
    | none =>
      show Sound (reported ++ []) store
      rw [hnone]
      exact h
    | some report =>
      cases report with
      | set id record => exact h.apply (.set id record) owner nowMs
      | clear id =>
        show Sound (reported ++ []) _
        rw [hnone]
        exact h.apply (.clear id) owner nowMs
  | promptStart =>
    show Sound (reported ++ []) _
    rw [hnone]
    exact h.filter _
  | fullReset =>
    show Sound (reported ++ []) _
    rw [hnone]
    exact h.cleared

end Events

section Batches
variable {events : List StreamEvent}

def lastTopReport (store : ProgramStatusStore) (events : List StreamEvent) : Option Text :=
  (events.filterMap store.topReport).getLast?

def Recast (store : ProgramStatusStore) (events : List StreamEvent) : Prop :=
  (∀ event ∈ events, store.Repeats event) ∧ ∃ id, store.lastTopReport events = some id ∧ store.speaker ≠ some id

theorem Sound.applyEvents (h : Sound reported store) (owner : Option ProcessOwner) (nowMs : ℕ) (events : List StreamEvent) :
    Sound (reported ++ ProgramStatusIo.reportedBy events) (store.applyEvents owner nowMs events).1 := by
  induction events generalizing store reported with
  | nil =>
    show Sound (reported ++ []) store
    rw [List.append_nil]
    exact h
  | cons event events ih =>
    have hsplit : ProgramStatusIo.reportedBy (event :: events) = ProgramStatusIo.reportedBy [event] ++ ProgramStatusIo.reportedBy events := by
      unfold ProgramStatusIo.reportedBy
      rw [← List.filterMap_append]
      rfl
    rw [hsplit, ← List.append_assoc]
    exact ih (h.applyEvent owner nowMs event)

theorem getLast?_or {α : Type*} (a : Option α) (rest : List α) : (a.toList ++ rest).getLast? = rest.getLast?.or a := by
  rw [List.getLast?_append]
  cases a <;> rfl

/-- A batch of repetitions: the last one of the most urgent speaks. -/
theorem Sound.applyEvents_repeats (h : Sound reported store) (hrep : ∀ event ∈ events, store.Repeats event)
    (owner : Option ProcessOwner) (nowMs : ℕ) :
    (store.applyEvents owner nowMs events).1.said = store.said ∧
      (store.applyEvents owner nowMs events).1.speaker = (store.lastTopReport events).or store.speaker := by
  induction events generalizing store reported with
  | nil => exact ⟨rfl,rfl⟩
  | cons event events ih =>
    obtain ⟨hsaid,htop,hspeaker⟩ := h.applyEvent_repeats (hrep event List.mem_cons_self) owner nowMs
    obtain ⟨hsaid',hspeaker'⟩ := ih (h.applyEvent owner nowMs event)
      fun later hlater => (repeats_congr hsaid later).mpr (hrep later (List.mem_cons_of_mem _ hlater))
    refine ⟨hsaid'.trans hsaid,hspeaker'.trans ?_⟩
    have hlast : store.lastTopReport (event :: events) = (store.lastTopReport events).or (store.topReport event) := by
      unfold lastTopReport
      rw [← getLast?_or, List.filterMap_cons]
      cases store.topReport event <;> rfl
    have hsame : (store.applyEvent owner nowMs event).1.lastTopReport events = store.lastTopReport events := by
      unfold lastTopReport
      rw [funext (topReport_congr htop)]
    rw [hsame, hspeaker, hlast, Option.or_assoc]

theorem applyEvents_changed (h : Sound reported store) (owner : Option ProcessOwner) (nowMs : ℕ)
    (hsame : (store.applyEvents owner nowMs events).2 = false) : ∀ event ∈ events, store.Repeats event := by
  induction events generalizing store reported with
  | nil => exact fun _ hmem => absurd hmem List.not_mem_nil
  | cons event events ih =>
    obtain ⟨hfirst,hrest⟩ := Bool.or_eq_false_iff.mp hsame
    have hrep := (applyEvent_changed store owner nowMs event).mp hfirst
    intro later hlater
    rcases List.mem_cons.mp hlater with rfl | hlater
    · exact hrep
    · have := ih (h.applyEvent owner nowMs event) hrest later hlater
      exact (repeats_congr (h.applyEvent_repeats hrep owner nowMs).1 later).mp this

theorem Sound.summary_of_unchanged (h : Sound reported store) (hok : ¬store.Recast events) (owner : Option ProcessOwner)
    (nowMs : ℕ) (hsame : (store.applyEvents owner nowMs events).2 = false) :
    (store.applyEvents owner nowMs events).1.summary = store.summary := by
  have hrep := applyEvents_changed h owner nowMs hsame
  obtain ⟨hsaid,hspeaker⟩ := h.applyEvents_repeats hrep owner nowMs
  apply h.summary_congr (h.applyEvents owner nowMs events) hsaid
  rw [hspeaker]
  cases hlast : store.lastTopReport events with
  | none => rfl
  | some id =>
    by_contra hother
    exact hok ⟨hrep,id,hlast,fun heq => hother heq.symm⟩

end Batches

end ProgramStatusStore

namespace ProgramStatusIo
open ProgramStatusStore
variable {io next : ProgramStatusIo}

section Publishing
variable {store : ProgramStatusStore}

def Current (io : ProgramStatusIo) : Prop :=
  io.tracker.published = some io.programStatus ∧ edge io.programStatus = edge io.tracker.store.summary ∧
    (io.tracker.dirty = false → io.programStatus = io.tracker.store.summary)

structure Follows (io : ProgramStatusIo) : Prop where
  sound : Sound io.reported io.tracker.store
  published : Current io ∨ (io.tracker.published = none ∧ io.tracker.store.records = [])

theorem publish_store (io : ProgramStatusIo) (force : Bool) (instant : ℕ) :
    (io.publishProgramStatus force instant).tracker.store = io.tracker.store ∧
      (io.publishProgramStatus force instant).reported = io.reported := by
  unfold publishProgramStatus
  dsimp only
  split
  · exact ⟨rfl,rfl⟩
  · split <;> exact ⟨rfl,rfl⟩

def Written (io : ProgramStatusIo) : Prop := io.tracker.published = none ∨ io.tracker.published = some io.programStatus

theorem current_publish (h : Written io) (force : Bool) (instant : ℕ) :
    Current (io.publishProgramStatus force instant) := by
  unfold publishProgramStatus
  dsimp only
  split
  · rename_i hsame
    have hwritten : io.tracker.published = some io.programStatus := by
      rcases h with h | h
      · exact absurd (h.symm.trans hsame) nofun
      · exact h
    have hsummary : io.programStatus = io.tracker.store.summary := Option.some.inj (hwritten.symm.trans hsame)
    exact ⟨hwritten,congrArg edge hsummary,fun _ => hsummary⟩
  · split
    · rename_i hwait
      obtain ⟨⟨hedge,-⟩,-⟩ : (_ ∧ _) ∧ _ := by simpa only [Bool.and_eq_true] using hwait
      rcases h with h | h
      · rw [h] at hedge
        exact absurd hedge Bool.false_ne_true
      · rw [h, Option.all_some, Bool.not_eq_true', decide_eq_false_iff_not, not_not] at hedge
        exact ⟨h,hedge.symm,nofun⟩
    · exact ⟨rfl,rfl,fun _ => rfl⟩

theorem manifest_publish (h : Written io) (instant : ℕ) :
    (io.publishProgramStatus true instant).programStatus = io.tracker.store.summary := by
  unfold publishProgramStatus
  dsimp only
  split
  · rename_i hsame
    rcases h with h | h
    · exact absurd (h.symm.trans hsame) nofun
    · exact Option.some.inj (h.symm.trans hsame)
  · rw [Bool.not_true, Bool.and_false, Bool.false_and, if_neg Bool.false_ne_true]

theorem summary_of_nil (h : store.records = []) : store.summary = none := by
  unfold summary
  rw [h]
  rfl

theorem Follows.written (h : Follows io) : Written io := by
  rcases h.published with hcurrent | ⟨hnone,-⟩
  · exact .inr hcurrent.1
  · exact .inl hnone

theorem follows_start (programStatus : Option ProgramStatusSummary) : Follows (start programStatus) :=
  ⟨sound_empty,.inr ⟨rfl,rfl⟩⟩

theorem Follows.batch (h : Follows io) {events : List StreamEvent} (hok : ¬io.tracker.store.Recast events)
    (owner : Option ProcessOwner) (nowMs instant : ℕ) :
    Follows (io.applyProgramStatusEvents events owner nowMs instant) := by
  have hsound := h.sound.applyEvents owner nowMs events
  unfold applyProgramStatusEvents
  dsimp only
  split
  · obtain ⟨hstore,hreported⟩ := publish_store
      ⟨⟨(io.tracker.store.applyEvents owner nowMs events).1,io.tracker.published,io.tracker.dirty,io.tracker.lastWrite⟩,
        io.programStatus,io.reported ++ reportedBy events⟩ false instant
    refine ⟨?_,.inl ?_⟩
    · rw [hstore, hreported]
      exact hsound
    · apply current_publish
      exact h.written
  · rename_i hsame
    have hsummary := h.sound.summary_of_unchanged hok owner nowMs (Bool.eq_false_iff.mpr hsame)
    refine ⟨hsound,?_⟩
    rcases h.published with ⟨hwritten,hedge,hclean⟩ | ⟨hnone,hempty⟩
    · refine .inl ⟨hwritten,?_,?_⟩
      · show edge _ = edge (summary _)
        rw [hsummary]
        exact hedge
      · intro hdirty
        rw [hsummary]
        exact hclean hdirty
    · refine .inr ⟨hnone,?_⟩
      -- no record came, or the batch would have changed one
      have hsaid := (h.sound.applyEvents_repeats (applyEvents_changed h.sound owner nowMs (Bool.eq_false_iff.mpr hsame))
        owner nowMs).1
      rw [said, said, hempty] at hsaid
      exact List.map_eq_nil_iff.mp hsaid

theorem Follows.adopt (h : Follows io) :
    io.adopt.tracker.store = io.tracker.store ∧ io.adopt.reported = io.reported ∧
      io.adopt.tracker.published = some io.adopt.programStatus ∧
      (io.adopt.tracker.dirty = false → io.adopt.programStatus = io.tracker.store.summary) := by
  unfold ProgramStatusIo.adopt
  rcases h.published with ⟨hwritten,-,hclean⟩ | ⟨hnone,hempty⟩
  · rw [hwritten]
    exact ⟨rfl,rfl,hwritten,hclean⟩
  · rw [hnone]
    refine ⟨rfl,rfl,rfl,fun hdirty => ?_⟩
    have hall : (io.tracker.dirty || io.tracker.store.records.isEmpty) = false := hdirty
    rw [hempty, List.isEmpty_nil, Bool.or_true] at hall
    cases hall

theorem departing_spec {reported : List Text} (h : Sound reported store) (isAlive : ProcessOwner → Bool) :
    Sound reported (departing store isAlive).1 ∧
      ((departing store isAlive).2 = false → (departing store isAlive).1 = store) := by
  unfold departing
  split
  · refine ⟨h.filter _,fun hsame => ?_⟩
    exact filter_unchanged ((filter_changed store _).mp hsame)
  · exact ⟨h,fun _ => rfl⟩

theorem Follows.sweep (h : Follows io) (isAlive : ProcessOwner → Bool) (instant : ℕ) :
    Follows (io.sweepProgramStatus isAlive instant) ∧
      (io.sweepProgramStatus isAlive instant).programStatus =
        (io.sweepProgramStatus isAlive instant).tracker.store.summary := by
  obtain ⟨hstore,hreported,hwritten,hclean⟩ := h.adopt
  obtain ⟨hsound,hsame⟩ := departing_spec h.sound isAlive
  rw [← hstore, ← hreported] at hsound
  rw [← hstore] at hsame hclean
  unfold sweepProgramStatus
  dsimp only
  split
  · obtain ⟨hkept,hkept'⟩ := publish_store (io.adopt.setStore (departing io.adopt.tracker.store isAlive).1) true instant
    refine ⟨⟨?_,.inl ?_⟩,?_⟩
    · rw [hkept, hkept']
      exact hsound
    · apply current_publish
      exact .inr hwritten
    · rw [hkept]
      apply manifest_publish
      exact .inr hwritten
  · rename_i hquiet
    obtain ⟨hstay,hdirty⟩ := Bool.or_eq_false_iff.mp (Bool.eq_false_iff.mpr hquiet)
    have hsummary : io.adopt.programStatus = (departing io.adopt.tracker.store isAlive).1.summary := by
      rw [hsame hstay]
      exact hclean hdirty
    exact ⟨⟨hsound,.inl ⟨hwritten,congrArg edge hsummary,fun _ => hsummary⟩⟩,hsummary⟩

end Publishing

section Specification

def ReportedLater (reported : List Text) (id other : Text) : Prop :=
  ∃ earlier later, reported = earlier ++ other :: later ∧ id ∈ earlier ∧ id ∉ later ∧ other ∉ later

/-- The summary is that of the most urgent record, of the latest one among equals, with its
own App or that of the nearest ancestor that has one. -/
def Summarizes (reported : List Text) (store : ProgramStatusStore) : Option ProgramStatusSummary → Prop
  | none => store.records = []
  | some summary => ∃ id stored inherited, (id,stored) ∈ store.records ∧
      (∀ other ∈ store.records, other ≠ (id,stored) →
        other.2.record.state.urgency < stored.record.state.urgency ∨
          (other.2.record.state.urgency = stored.record.state.urgency ∧ ReportedLater reported other.1 id)) ∧
      store.NearestApp id inherited ∧
      summary = ⟨stored.record.state,stored.record.kind,stored.record.progress,stored.record.app.or inherited,
        stored.record.title,stored.record.msg,if id = [] then none else some id,stored.changedAt⟩

theorem summarizes_summary {store : ProgramStatusStore} {reported : List Text} (h : Sound reported store) :
    Summarizes reported store store.summary := by
  unfold summary
  cases hbest : mostUrgent store.records with
  | none => exact mostUrgent_eq_none.mp hbest
  | some best =>
    obtain ⟨hmem,hall⟩ := mostUrgent_spec hbest
    refine ⟨best.1,best.2,store.inheritedApp best.1,hmem,?_,nearestApp_inheritedApp store best.1,rfl⟩
    intro other hother hne
    rcases hall other hother with hless | ⟨hequal,hseq⟩
    · exact .inl hless
    · refine .inr ⟨hequal,?_⟩
      apply (h.numbered other hother).later (h.numbered best hmem)
      apply lt_of_le_of_ne hseq
      intro heq
      have hnumber := h.numbered other hother
      rw [heq] at hnumber
      have hid : other.1 = best.1 := hnumber.inj (h.numbered best hmem)
      exact hne (List.inj_on_of_nodup_map h.ids hother hmem hid)

/-- The store is bounded, its summary is as it should be, and a report to clear an id removes
that record and those below it. -/
def StoreSpec (io : ProgramStatusIo) : Prop :=
  io.tracker.store.records.length ≤ maxRecords ∧ Summarizes io.reported io.tracker.store io.tracker.store.summary ∧
    ∀ id owner nowMs entry, entry ∈ (io.tracker.store.apply (.clear id) owner nowMs).1.records ↔
      entry ∈ io.tracker.store.records ∧ entry.1 ≠ id ∧ ¬Ancestor id entry.1

def PublishedBy (io : ProgramStatusIo) (action : Action) : Prop :=
  ∀ next, step io action = some next →
    match action with
    | .sweep _ _ => next.programStatus = next.tracker.store.summary
    | .batch _ _ _ _ => edge next.tracker.published.join = edge next.tracker.store.summary ∧
        ∀ published, next.tracker.published = some published → next.programStatus = published

def NotRecast (io : ProgramStatusIo) : Action → Prop
  | .batch events _ _ _ => ¬io.tracker.store.Recast events
  | .sweep _ _ => True

theorem Follows.step (h : Follows io) {action : Action} (hok : NotRecast io action)
    (hnext : step io action = some next) : Follows next := by
  cases action with
  | batch events owner nowMs instant =>
    cases hnext
    exact h.batch hok owner nowMs instant
  | sweep isAlive instant =>
    cases hnext
    exact (h.sweep isAlive instant).1

theorem Follows.publishedBy (h : Follows io) {action : Action} (hok : NotRecast io action) : PublishedBy io action := by
  intro next hnext
  cases action with
  | batch events owner nowMs instant =>
    cases hnext
    rcases (h.batch hok owner nowMs instant).published with ⟨hwritten,hedge,-⟩ | ⟨hnone,hempty⟩
    · refine ⟨?_,fun published hpublished => ?_⟩
      · rw [hwritten]
        exact hedge
      · rw [hwritten] at hpublished
        exact Option.some.inj hpublished
    · refine ⟨?_,fun published hpublished => ?_⟩
      · rw [hnone, summary_of_nil hempty]
        rfl
      · rw [hnone] at hpublished
        cases hpublished
  | sweep isAlive instant =>
    cases hnext
    exact (h.sweep isAlive instant).2

end Specification

/-- Where no batch only repeats what the records say and has another record speak, the
manifest follows the store. -/
theorem published_status_follows_the_store (programStatus : Option ProgramStatusSummary) (actions : List Action)
    (h : Guarded step NotRecast (start programStatus) actions) :
    Guarded step PublishedBy (start programStatus) actions ∧ Always step StoreSpec (start programStatus) actions := by
  have hstep : ∀ io action next, Follows io → NotRecast io action → step io action = some next → Follows next :=
    fun io action next hs hok hnext => hs.step hok hnext
  constructor
  · exact Guarded.mono hstep (fun io action hs hok => hs.publishedBy hok) (follows_start programStatus) h
  · refine always_of_guarded hstep ?_ (follows_start programStatus) h
    intro io hs
    exact ⟨hs.sound.bounded,summarizes_summary hs.sound,fun id owner nowMs entry => mem_clear⟩

section Permissions

def waits (id : String) (kind : BlockedKind) : StreamEvent :=
  .report (some (.set id.toList ⟨.blocked,some kind,none,none,none,none⟩))

def askedAgain : List Action :=
  [.batch [waits "build" .permission,waits "deploy" .question] none 1 1,.batch [waits "build" .permission] none 2 2,
   .sweep (fun _ => true) 3]

/-- The second batch makes the first part speak, and nothing is published for it. -/
theorem repeated_report_is_not_published :
    ¬∀ programStatus actions, Guarded step PublishedBy (start programStatus) actions := by
  intro h
  have hrun : ∃ first second last, step (start none) (askedAgain.get ⟨0,by decide⟩) = some first ∧
      step first (askedAgain.get ⟨1,by decide⟩) = some second ∧ step second (askedAgain.get ⟨2,by decide⟩) = some last ∧
      last.programStatus.bind (·.kind) = some .question ∧ last.tracker.store.summary.bind (·.kind) = some .permission :=
    ⟨_,_,_,rfl,rfl,rfl,by decide +kernel,by decide +kernel⟩
  obtain ⟨first,second,last,hfirst,hsecond,hlast,hmanifest,hsummary⟩ := hrun
  have hpublished : last.programStatus = last.tracker.store.summary :=
    ((((h none askedAgain first hfirst).2 second hsecond).2 last hlast).1) last hlast
  rw [hpublished, hsummary] at hmanifest
  exact absurd (Option.some.inj hmanifest) (by decide)

instance (store : ProgramStatusStore) (event : StreamEvent) : Decidable (store.Repeats event) :=
  decidable_of_iff _ (store.applyEvent_changed none 0 event)

instance (io : ProgramStatusIo) : (action : Action) → Decidable (NotRecast io action)
  | .batch events _ _ _ =>
    decidable_of_iff (¬((∀ event ∈ events, io.tracker.store.Repeats event) ∧
      ∃ id ∈ io.tracker.store.lastTopReport events, io.tracker.store.speaker ≠ some id)) Iff.rfl
  | .sweep _ _ => inferInstanceAs (Decidable True)

def builds (id : String) (state : ProgramState) (progress : Option ℕ) : StreamEvent :=
  .report (some (.set id.toList ⟨state,none,progress,none,none,none⟩))

/-- One program works, another waits for the user and says so twice, and the first goes on
and is done. -/
def asksBesides : List Action :=
  [.batch [builds "build" .working (some 10)] none 1 1,.batch [waits "deploy" .permission] none 2 2,
    .batch [waits "deploy" .permission] none 3 3,.batch [builds "build" .working (some 80)] none 4 4,
    .batch [.report (some (.clear "deploy".toList))] none 5 5,.batch [builds "build" .done none] none 6 6,.sweep (fun _ => true) 7]

theorem working_goes_on_behind_the_question :
    (List.range 8).map (fun n => (run step (start none) (asksBesides.take n)).bind fun io => edge io.programStatus) =
      [none,some (.working,none),some (.blocked,some .permission),some (.blocked,some .permission),
        some (.blocked,some .permission),some (.working,none),some (.done,none),some (.done,none)] ∧
    Guarded step PublishedBy (start none) asksBesides :=
  ⟨by decide +kernel,(published_status_follows_the_store none asksBesides (by decide +kernel)).1⟩

end Permissions

end ProgramStatusIo

end Unpeel.Session
