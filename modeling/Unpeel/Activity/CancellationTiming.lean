import Unpeel.Activity.CancellationFence
import Unpeel.Foundation.Runs

/-! # When the marker of a cancellation is read

Hooks come over HTTP, the marker is written by a timer of another process, and the Host
reads it when it gets to it. The status should not tell when that was.
-/
namespace Unpeel.Activity
open Runs Manifest

inductive MarkerEvent where
  | record (cancelledAt submittedAt : Option ℕ)
  | read
  | hook (event : HookEvent) (toolName : Option Text) (now : ℕ) (launchedAtUnixMs : Option ℕ)

/-- The marker of one runtime generation on disk and the entry of its Session. `unread` is
the entry of an engine that has got the same hooks and not read the marker. -/
structure MarkerRun where
  marker : Option Cancellation
  clock : ℕ
  entry : Entry
  unread : Entry

section Schedule
variable (generation : ℕ)

def startMarkers : MarkerRun :=
  ⟨none,0,{ runtimeLaunchGeneration := generation },{ runtimeLaunchGeneration := generation }⟩

def markerStep (s : MarkerRun) : MarkerEvent → Option MarkerRun
  | .record cancelledAt submittedAt => some { s with marker := recordIn s.marker generation cancelledAt submittedAt }
  | .read => some { s with entry := (s.entry.syncCancellation s.marker generation).1 }
  | .hook event toolName now launchedAtUnixMs =>
    if s.clock ≤ now then
      some { s with
        clock := now
        entry := (s.entry.applyHookEventForRuntime event toolName now (some generation) generation launchedAtUnixMs).1
        unread :=
          (s.unread.applyHookEventForRuntime event toolName now (some generation) generation launchedAtUnixMs).1 }
    else none

def MarkerRun.statusOf (s : MarkerRun) (e : Entry) : Option HookState × Bool :=
  ((e.syncCancellation s.marker generation).1.hookOwnedState,(e.syncCancellation s.marker generation).1.isCompleted)

def MarkerRun.status (s : MarkerRun) : Option HookState × Bool := s.statusOf generation s.entry

def ReadsAlike (s : MarkerRun) : Prop := s.status generation = s.statusOf generation s.unread

end Schedule

def MarkerRun.openedLate (s : MarkerRun) (marker : Cancellation) : Bool :=
  s.unread.lastTurnStartedAt.any (Fence.late marker.cancelledAt marker.submittedAt)

/-- With a late opening hook, either no fence is up, or the hook waits behind the fence of
the marker and the turn still runs, or the hooks alone leave nothing but a turn at rest.
Without one, some hook was let in. -/
def Timely (s : MarkerRun) : Prop :=
  ∀ marker, s.marker = some marker →
    if s.openedLate marker then
      s.entry.cancelledAt = none ∨
        if s.entry.cancelledAt = some marker.cancelledAt ∧ s.entry.pendingOpener.isSome then s.unread.state = some .busy
        else s.entry.hookSeen = true ∧ s.unread.state = some .idle ∧ s.unread.completed = false
    else s.unread.hookSeen = true → s.entry.hookSeen = true

instance : DecidablePred Timely := fun s =>
  match h : s.marker with
  | none => isTrue fun _ hmarker => (nomatch h.symm.trans hmarker)
  | some marker =>
    decidable_of_iff (if s.openedLate marker then
        s.entry.cancelledAt = none ∨
          if s.entry.cancelledAt = some marker.cancelledAt ∧ s.entry.pendingOpener.isSome then s.unread.state = some .busy
          else s.entry.hookSeen = true ∧ s.unread.state = some .idle ∧ s.unread.completed = false
      else s.unread.hookSeen = true → s.entry.hookSeen = true)
      ⟨fun hm known hknown => by cases h.symm.trans hknown; exact hm,fun hall => hall marker h⟩

namespace Fence

structure Unread (u : Fence) (clock : ℕ) : Prop where
  cancelledAt : u.cancelledAt = none
  lastCancelledAt : u.lastCancelledAt = none
  pending : u.pending = none
  wf : u.view.Wf
  seen : u.seen = false → u.view = {}
  opened : u.lastTurn ≠ none → u.view.state ≠ none
  clock : ∀ turn, u.lastTurn = some turn → turn ≤ clock

structure Follows (f u : Fence) (marker : Option Cancellation) : Prop where
  wf : f.view.Wf
  unseen : f.seen = false → f.view = {}
  seen : f.seen = true → u.seen = true
  tracks : f.cancelledAt = none → f.pending = none ∧ f.view = u.view ∧ f.lastTurn = u.lastTurn ∧ f.seen = u.seen
  rests : ∀ cancelled, f.cancelledAt = some cancelled →
    f.view.completed = false ∧ (f.seen = true → f.view.state = some .idle)
  raised : ∀ cancelled, f.cancelledAt = some cancelled → ∃ last, f.lastCancelledAt = some last ∧ cancelled ≤ last
  turn : ∀ turn, f.lastTurn = some turn → ∃ later, u.lastTurn = some later ∧ turn ≤ later
  waits : ∀ time, f.pending = some time →
    u.lastTurn = some time ∧ f.cancelledAt = f.lastCancelledAt ∧ ∀ cancelled, f.cancelledAt = some cancelled → cancelled ≤ time
  older : ∀ cancelled last, f.cancelledAt = some cancelled → f.lastCancelledAt = some last → cancelled < last →
    ∃ submitted turn, f.submittedAt = some submitted ∧ last < submitted ∧ f.lastTurn = some turn ∧ submitted ≤ turn
  file : ∀ last, f.lastCancelledAt = some last → ∃ m, marker = some m ∧ last ≤ m.cancelledAt ∧
    (last = m.cancelledAt → ∀ submitted, f.submittedAt = some submitted → ∃ known, m.submittedAt = some known ∧
      known ≤ submitted)
  passed : ∀ m, marker = some m → f.cancelledAt = none → f.lastCancelledAt = some m.cancelledAt →
    u.lastTurn.any (late m.cancelledAt m.submittedAt) = true

end Fence

structure Cancellation.Wf (marker : Cancellation) (generation : ℕ) : Prop where
  runtimeGeneration : marker.runtimeGeneration = generation
  submitted : ∀ submitted, marker.submittedAt = some submitted → marker.cancelledAt < submitted

namespace Cancellation
variable {m : Cancellation} {generation : ℕ}

theorem submit_cases (m : Cancellation) (submittedAt : Option ℕ) :
    m.submit submittedAt = m ∨ ∃ submitted, m.cancelledAt < submitted ∧
      m.submit submittedAt = { m with submittedAt := some (min (m.submittedAt.getD submitted) submitted) } := by
  unfold submit
  cases hkept : submittedAt.filter (m.cancelledAt < ·) with
  | none => exact .inl rfl
  | some submitted =>
    have hlater := (Option.filter_eq_some_iff.mp hkept).2
    exact .inr ⟨submitted,by simpa using hlater,rfl⟩

theorem Wf.submit (h : m.Wf generation) (submittedAt : Option ℕ) : (m.submit submittedAt).Wf generation := by
  rcases m.submit_cases submittedAt with heq | ⟨submitted,hlater,heq⟩
  · rwa [heq]
  · rw [heq]
    refine ⟨h.runtimeGeneration,fun earliest hearliest => ?_⟩
    cases hearliest
    cases hknown : m.submittedAt with
    | none => simpa using hlater
    | some known => exact lt_min (h.submitted known hknown) hlater

def Extends (m m' : Cancellation) : Prop :=
  m.cancelledAt < m'.cancelledAt ∨ m.cancelledAt = m'.cancelledAt ∧
    ∀ known, m.submittedAt = some known → ∃ earlier, m'.submittedAt = some earlier ∧ earlier ≤ known

theorem submit_extends (m : Cancellation) (submittedAt : Option ℕ) : m.Extends (m.submit submittedAt) := by
  rcases m.submit_cases submittedAt with heq | ⟨submitted,-,heq⟩
  · rw [heq]
    exact .inr ⟨rfl,fun known hknown => ⟨known,hknown,le_rfl⟩⟩
  · rw [heq]
    refine .inr ⟨rfl,fun known hknown => ⟨_,rfl,?_⟩⟩
    rw [hknown]
    exact min_le_left _ _

theorem submit_cancelledAt (m : Cancellation) (submittedAt : Option ℕ) :
    (m.submit submittedAt).cancelledAt = m.cancelledAt := by
  rcases m.submit_cases submittedAt with heq | ⟨submitted,-,heq⟩ <;> rw [heq]

theorem fresh_wf (generation cancelled : ℕ) : Wf ⟨generation,cancelled,none⟩ generation :=
  ⟨rfl,fun _ hno => (nomatch hno)⟩

end Cancellation

theorem recordIn_some {m : Cancellation} {generation : ℕ} (h : m.Wf generation) (cancelledAt submittedAt : Option ℕ) :
    ∃ m', recordIn (some m) generation cancelledAt submittedAt = some m' ∧ m'.Wf generation ∧ m.Extends m' := by
  have hcurrent : (some m).any (generation < ·.runtimeGeneration) = false := by simp [h.runtimeGeneration]
  have hkept : (some m).filter (·.runtimeGeneration = generation) = some m := by simp [h.runtimeGeneration]
  unfold recordIn
  rw [hcurrent, hkept]
  cases cancelledAt with
  | none => exact ⟨_,rfl,h.submit submittedAt,m.submit_extends submittedAt⟩
  | some cancelled =>
    by_cases hold : cancelled ≤ m.cancelledAt
    · exact ⟨_,if_pos hold,h.submit submittedAt,m.submit_extends submittedAt⟩
    · refine ⟨_,if_neg hold,(Cancellation.fresh_wf generation cancelled).submit submittedAt,.inl ?_⟩
      rw [Cancellation.submit_cancelledAt]
      exact Nat.lt_of_not_le hold

theorem recordIn_none (generation : ℕ) (cancelledAt submittedAt : Option ℕ) :
    ∀ m', recordIn none generation cancelledAt submittedAt = some m' → m'.Wf generation := by
  intro m' hm
  cases cancelledAt with
  | none => cases hm
  | some cancelled =>
    cases hm
    exact (Cancellation.fresh_wf generation cancelled).submit submittedAt

namespace Fence
variable {f u : Fence} {marker : Option Cancellation} {generation clock time : ℕ} {event : HookEvent}
  {toolName : Option Text}
variable {cancelled : ℕ}
variable {submittedAt : Option ℕ}

theorem late_iff :
    late cancelled submittedAt time = true ↔
      ∃ submitted, submittedAt = some submitted ∧ cancelled < submitted ∧ submitted ≤ time := by
  simp [late, Option.any_eq_true]

theorem accept_opener (f : Fence) (h : startsTurn event = true) (toolName : Option Text) (time : ℕ) :
    f.accept event toolName time =
      { f with seen := true, view := ⟨some .busy,false,f.view.nativeCancelled⟩, lastTurn := some time } := by
  cases event with
  | start | userPromptSubmit => rfl
  | _ => cases h

theorem hook_open (h : f.cancelledAt = none) (event : HookEvent) (toolName : Option Text) (time : ℕ) :
    f.hook event toolName time = if f.view.nativeCancelled ∧ ¬startsTurn event then f
      else { f with view := { f.view with nativeCancelled := false } }.accept event toolName time := by
  unfold hook
  split
  · rfl
  · dsimp only
    split
    · rfl
    · next cancelled hcancelled => cases h.symm.trans hcancelled

theorem hook_lost (h : f.cancelledAt = some cancelled) (hevent : startsTurn event = false) :
    f.hook event toolName time = f := by
  unfold hook
  split
  · rfl
  · next hnative =>
    have hopen : f.view.nativeCancelled = false := by simpa [hevent] using hnative
    dsimp only
    split
    · next hnone => cases hnone.symm.trans h
    · rw [if_neg (by simp [hevent]), if_neg (by simp [hevent]), ← hopen]

theorem hook_opener_cases {cancelled : ℕ} (h : f.cancelledAt = some cancelled) (hevent : startsTurn event = true)
    (toolName : Option Text) (time : ℕ) :
    (late cancelled f.submittedAt time = true ∧ f.hook event toolName time = { f with
      seen := true, view := ⟨some .busy,false,false⟩, cancelledAt := none, pending := none, lastTurn := some time }) ∨
    (late cancelled f.submittedAt time = false ∧ cancelled ≤ time ∧ f.hook event toolName time =
      { f with view := { f.view with nativeCancelled := false }, pending := some time }) ∨
    (late cancelled f.submittedAt time = false ∧ time < cancelled ∧ f.hook event toolName time =
      { f with view := { f.view with nativeCancelled := false } }) := by
  unfold hook
  rw [if_neg (by simp [hevent])]
  dsimp only
  split
  · next hnone => cases hnone.symm.trans h
  · next known hknown =>
    cases hknown.symm.trans h
    by_cases hlate : late cancelled f.submittedAt time = true
    · rw [if_pos ⟨hevent,hlate⟩, accept_opener _ hevent]
      exact .inl ⟨hlate,rfl⟩
    · rw [if_neg (fun hno => hlate hno.2)]
      by_cases hwaits : cancelled ≤ time
      · rw [if_pos ⟨hevent,hwaits⟩]
        exact .inr (.inl ⟨by simpa using hlate,hwaits,rfl⟩)
      · rw [if_neg (fun hno => hwaits hno.2)]
        exact .inr (.inr ⟨by simpa using hlate,Nat.lt_of_not_le hwaits,rfl⟩)

theorem accept_state_ne_none {v : View} (h : v.state ≠ none) (event : HookEvent) (toolName : Option Text) :
    (v.accept event toolName).state ≠ none := by
  unfold View.accept
  split_ifs
  · exact h
  · exact h
  · cases event <;> simp [h]

theorem Unread.hook (h : u.Unread clock) (htime : clock ≤ time) (event : HookEvent) (toolName : Option Text) :
    (u.hook event toolName time).Unread time ∧ (u.hook event toolName time).seen = true ∧
    (u.hook event toolName time).lastTurn = if startsTurn event then some time else u.lastTurn := by
  rw [hook_open h.cancelledAt]
  by_cases hnative : u.view.nativeCancelled = true ∧ ¬startsTurn event = true
  · rw [if_pos hnative, if_neg hnative.2]
    refine ⟨⟨h.cancelledAt,h.lastCancelledAt,h.pending,h.wf,h.seen,h.opened,fun turn hturn => ?_⟩,?_,rfl⟩
    · exact (h.clock turn hturn).trans htime
    · by_contra hseen
      have hempty := h.seen (by simpa using hseen)
      rw [hempty] at hnative
      cases hnative.1
  · rw [if_neg hnative]
    have hopen : View.Wf { u.view with nativeCancelled := false } := ⟨h.wf.completed,fun hno => (nomatch hno)⟩
    refine ⟨⟨h.cancelledAt,h.lastCancelledAt,h.pending,hopen.accept rfl event toolName,fun hno => (nomatch hno),?_,?_⟩,
      rfl,rfl⟩
    · intro hturn
      cases hstarts : startsTurn event with
      | true =>
        rw [accept_opener _ hstarts]
        exact fun hno => (nomatch hno)
      | false =>
        refine accept_state_ne_none (v := { u.view with nativeCancelled := false }) ?_ event toolName
        apply h.opened
        simpa [accept, hstarts] using hturn
    · intro turn hturn
      simp only [accept] at hturn
      split at hturn
      · cases hturn
        exact le_rfl
      · exact (h.clock turn hturn).trans htime

theorem Unread.late_hook (h : u.Unread clock) (htime : clock ≤ time)
    (hlate : u.lastTurn.any (late cancelled submittedAt) = true) (event : HookEvent) (toolName : Option Text) :
    (u.hook event toolName time).lastTurn.any (late cancelled submittedAt) = true := by
  obtain ⟨-,-,hturn⟩ := h.hook htime event toolName
  rw [hturn]
  split
  · obtain ⟨turn,hsome,hturnLate⟩ := (Option.any_eq_true _ _).mp hlate
    obtain ⟨submitted,hsubmitted,hafter,hle⟩ := late_iff.mp hturnLate
    exact late_iff.mpr ⟨submitted,hsubmitted,hafter,hle.trans ((h.clock turn hsome).trans htime)⟩
  · exact hlate

theorem Follows.of_tracked (hu : u.Unread clock) (hcancelled : f.cancelledAt = none) (hpending : f.pending = none)
    (hview : f.view = u.view) (hturn : f.lastTurn = u.lastTurn) (hseen : f.seen = u.seen)
    (hfile : ∀ last, f.lastCancelledAt = some last → ∃ m, marker = some m ∧ last ≤ m.cancelledAt ∧
      (last = m.cancelledAt → ∀ submitted, f.submittedAt = some submitted → ∃ known, m.submittedAt = some known ∧
        known ≤ submitted))
    (hpassed : ∀ m, marker = some m → f.lastCancelledAt = some m.cancelledAt →
      u.lastTurn.any (late m.cancelledAt m.submittedAt) = true) : f.Follows u marker where
  wf := hview ▸ hu.wf
  unseen := by rw [hview, hseen]; exact hu.seen
  seen := fun h => hseen ▸ h
  tracks := fun _ => ⟨hpending,hview,hturn,hseen⟩
  rests := fun _ h => (nomatch hcancelled.symm.trans h)
  raised := fun _ h => (nomatch hcancelled.symm.trans h)
  turn := fun turn h => ⟨turn,hturn ▸ h,le_rfl⟩
  waits := fun _ h => (nomatch hpending.symm.trans h)
  older := fun _ _ h => (nomatch hcancelled.symm.trans h)
  file := hfile
  passed := fun m hm _ hlast => hpassed m hm hlast

theorem Follows.hook_tracked (h : f.Follows u marker) (hu : u.Unread clock) (htime : clock ≤ time)
    (hcancelled : f.cancelledAt = none) (event : HookEvent) (toolName : Option Text) :
    (f.hook event toolName time).Follows (u.hook event toolName time) marker := by
  obtain ⟨hpending,hview,hturn,hseen⟩ := h.tracks hcancelled
  have hpassed (m : Cancellation) (hm : marker = some m) (hlast : f.lastCancelledAt = some m.cancelledAt) :=
    hu.late_hook htime (h.passed m hm hcancelled hlast) event toolName
  obtain ⟨hunread,-,-⟩ := hu.hook htime event toolName
  rw [hook_open hu.cancelledAt] at hunread hpassed ⊢
  rw [hook_open hcancelled, hview]
  by_cases hnative : u.view.nativeCancelled = true ∧ ¬startsTurn event = true
  · rw [if_pos hnative] at hunread hpassed ⊢
    rw [if_pos hnative]
    exact .of_tracked hunread hcancelled hpending hview hturn hseen h.file hpassed
  · rw [if_neg hnative] at hunread hpassed ⊢
    rw [if_neg hnative]
    refine .of_tracked hunread hcancelled hpending rfl ?_ rfl h.file hpassed
    unfold accept
    rw [hturn]

theorem Follows.hook_lost (h : f.Follows u marker) (hu : u.Unread clock) (htime : clock ≤ time) {cancelled : ℕ}
    (hcancelled : f.cancelledAt = some cancelled) (hevent : startsTurn event = false) :
    (f.hook event toolName time).Follows (u.hook event toolName time) marker := by
  obtain ⟨-,hseen,hturn⟩ := hu.hook htime event toolName
  rw [hevent] at hturn
  have hsame : (u.hook event toolName time).lastTurn = u.lastTurn := hturn
  rw [Fence.hook_lost hcancelled hevent]
  exact { h with
    seen := fun _ => hseen
    tracks := fun hno => (nomatch hcancelled.symm.trans hno)
    turn := hsame ▸ h.turn
    waits := hsame ▸ h.waits
    passed := fun _ _ hno => (nomatch hcancelled.symm.trans hno) }

theorem Follows.older_late (h : f.Follows u marker) (hu : u.Unread clock) (htime : clock ≤ time) {last : ℕ}
    (hcancelled : f.cancelledAt = some cancelled) (hlast : f.lastCancelledAt = some last) (holder : cancelled < last) :
    late cancelled f.submittedAt time = true := by
  obtain ⟨submitted,turn,hsubmitted,hafter,hturn,hle⟩ := h.older cancelled last hcancelled hlast holder
  obtain ⟨later,hlater,hturnLe⟩ := h.turn turn hturn
  have hclock := hu.clock later hlater
  exact late_iff.mpr ⟨submitted,hsubmitted,by omega,by omega⟩

theorem Follows.late_marker (h : f.Follows u marker)
    (hlate : late cancelled f.submittedAt time = true) {m : Cancellation} (hm : marker = some m)
    (hwf : m.Wf generation) (hlast : f.lastCancelledAt = some m.cancelledAt) :
    late m.cancelledAt m.submittedAt time = true := by
  obtain ⟨submitted,hsubmitted,hafter,hle⟩ := late_iff.mp hlate
  obtain ⟨m',hm',-,hfile⟩ := h.file m.cancelledAt hlast
  cases hm.symm.trans hm'
  obtain ⟨known,hknown,hearlier⟩ := hfile rfl submitted hsubmitted
  exact late_iff.mpr ⟨known,hknown,hwf.submitted known hknown,hearlier.trans hle⟩

theorem Wf.clear {v : View} (h : v.Wf) : View.Wf { v with nativeCancelled := false } :=
  ⟨h.completed,fun hno => (nomatch hno)⟩

theorem Follows.hook_opener (h : f.Follows u marker) (hu : u.Unread clock) (htime : clock ≤ time)
    (hmarker : ∀ m, marker = some m → m.Wf generation) (hcancelled : f.cancelledAt = some cancelled)
    (hevent : startsTurn event = true) (toolName : Option Text) :
    (f.hook event toolName time).Follows (u.hook event toolName time) marker := by
  obtain ⟨hunread,hseen,hturn⟩ := hu.hook htime event toolName
  rw [if_pos hevent] at hturn
  obtain ⟨last,hlast,hle⟩ := h.raised cancelled hcancelled
  have hfenced : ∀ known, f.cancelledAt = some known → known = cancelled := fun known hknown =>
    Option.some.inj (hknown.symm.trans hcancelled)
  have hsooner : ∀ turn, f.lastTurn = some turn → ∃ later, (u.hook event toolName time).lastTurn = some later ∧
      turn ≤ later := by
    intro turn hf
    obtain ⟨later,hlater,hturnLe⟩ := h.turn turn hf
    exact ⟨time,hturn,hturnLe.trans ((hu.clock later hlater).trans htime)⟩
  have hclear : f.seen = false → { f.view with nativeCancelled := false } = ({} : View) := by
    intro hunseen
    rw [h.unseen hunseen]
  rcases hook_opener_cases hcancelled hevent toolName time with ⟨hlate,heq⟩ | ⟨hearly,hwaits,heq⟩ | ⟨hearly,hbefore,heq⟩
  · -- the fence opens and both turn to work
    have hview : (u.hook event toolName time).view = ⟨some .busy,false,false⟩ := by
      rw [hook_open hu.cancelledAt, if_neg (by simp [hevent]), accept_opener _ hevent]
    rw [heq]
    refine .of_tracked hunread rfl rfl hview.symm hturn.symm hseen.symm h.file fun m hm hlast => ?_
    rw [hturn]
    exact h.late_marker hlate hm (hmarker m hm) hlast
  · -- the hook waits
    have hsame : cancelled = last := by
      by_contra hne
      rw [h.older_late hu htime hcancelled hlast (by omega)] at hearly
      cases hearly
    rw [heq]
    exact { h with
      wf := Wf.clear h.wf
      unseen := hclear
      seen := fun _ => hseen
      tracks := fun hno => (nomatch hcancelled.symm.trans hno)
      turn := hsooner
      waits := by
        intro waiting hwaiting
        cases hwaiting
        refine ⟨hturn,?_,fun known hknown => ?_⟩
        · exact hcancelled.trans (hsame ▸ hlast.symm)
        · rw [hfenced known hknown]
          exact hwaits
      passed := fun _ _ hno => (nomatch hcancelled.symm.trans hno) }
  · -- no other hook can have waited
    rw [heq]
    exact { h with
      wf := Wf.clear h.wf
      unseen := hclear
      seen := fun _ => hseen
      tracks := fun hno => (nomatch hcancelled.symm.trans hno)
      turn := hsooner
      waits := by
        intro waiting hwaiting
        obtain ⟨hu',-,hafter⟩ := h.waits waiting hwaiting
        have := hafter cancelled hcancelled
        have := hu.clock waiting hu'
        omega
      passed := fun _ _ hno => (nomatch hcancelled.symm.trans hno) }

theorem Follows.hook (h : f.Follows u marker) (hu : u.Unread clock) (htime : clock ≤ time)
    (hmarker : ∀ m, marker = some m → m.Wf generation) (event : HookEvent) (toolName : Option Text) :
    (f.hook event toolName time).Follows (u.hook event toolName time) marker := by
  cases hcancelled : f.cancelledAt with
  | none => exact h.hook_tracked hu htime hcancelled event toolName
  | some cancelled =>
    cases hevent : startsTurn event with
    | false => exact h.hook_lost hu htime hcancelled hevent
    | true => exact h.hook_opener hu htime hmarker hcancelled hevent toolName

theorem Follows.record (h : f.Follows u marker) (hmarker : ∀ m, marker = some m → m.Wf generation)
    (cancelledAt submittedAt : Option ℕ) : f.Follows u (recordIn marker generation cancelledAt submittedAt) := by
  cases marker with
  | none =>
    have hnone : f.lastCancelledAt = none := by
      cases hlast : f.lastCancelledAt with
      | none => rfl
      | some last =>
        obtain ⟨m,hm,-⟩ := h.file last hlast
        cases hm
    exact { h with
      file := fun last hlast => (nomatch hnone.symm.trans hlast)
      passed := fun m _ _ hlast => (nomatch hnone.symm.trans hlast) }
  | some m =>
    obtain ⟨m',hm',hwf,hextends⟩ := recordIn_some (hmarker m rfl) cancelledAt submittedAt
    rw [hm']
    exact { h with
      file := by
        intro last hlast
        obtain ⟨known,hknown,hle,hfile⟩ := h.file last hlast
        cases hknown
        refine ⟨m',rfl,?_,fun hsame submitted hsubmitted => ?_⟩
        · rcases hextends with hlater | ⟨hsame,-⟩ <;> omega
        · rcases hextends with hlater | ⟨hcancelled,hearlier⟩
          · omega
          · obtain ⟨known,hknown,hknownLe⟩ := hfile (by omega) submitted hsubmitted
            obtain ⟨earlier,hsome,hearlierLe⟩ := hearlier known hknown
            exact ⟨earlier,hsome,hearlierLe.trans hknownLe⟩
      passed := by
        intro known hknown hnone hlast
        cases hknown
        rcases hextends with hlater | ⟨hcancelled,hearlier⟩
        · obtain ⟨known,hknown,hle,-⟩ := h.file m'.cancelledAt hlast
          cases hknown
          omega
        · have hlate := h.passed m rfl hnone (hlast.trans (by rw [hcancelled]))
          obtain ⟨turn,hturn,hturnLate⟩ := (Option.any_eq_true _ _).mp hlate
          obtain ⟨submitted,hsubmitted,-,hle⟩ := late_iff.mp hturnLate
          obtain ⟨earlier,hsome,hearlierLe⟩ := hearlier submitted hsubmitted
          rw [hturn]
          exact late_iff.mpr ⟨earlier,hsome,hwf.submitted earlier hsome,hearlierLe.trans hle⟩ }

variable {cancelled : ℕ} {submittedAt : Option ℕ}

theorem read_started (hnew : f.lastCancelledAt.all (· < cancelled) = true)
    (hlate : f.lastTurn.any (late cancelled submittedAt) = true) :
    f.read cancelled submittedAt =
      { f with lastCancelledAt := some cancelled, pending := none, submittedAt := submittedAt } := by
  unfold read cancel
  rw [if_pos hnew]
  rw [if_pos hlate]

theorem read_raised (hnew : f.lastCancelledAt.all (· < cancelled) = true)
    (hlate : f.lastTurn.any (late cancelled submittedAt) = false) :
    f.read cancelled submittedAt = { f with
      lastCancelledAt := some cancelled, pending := none, submittedAt := submittedAt, cancelledAt := some cancelled
      view := { f.view with completed := false, state := if f.seen then some .idle else f.view.state } } := by
  unfold read cancel
  rw [if_pos hnew]
  rw [if_neg (by simp [hlate])]

theorem read_known (hold : f.lastCancelledAt = some cancelled) (hpending : f.pending = none) :
    f.read cancelled submittedAt = { f with submittedAt := submittedAt } := by
  have hnew : ¬f.lastCancelledAt.all (· < cancelled) = true := by simp [hold]
  unfold read cancel
  rw [if_neg hnew]
  dsimp only
  rw [hpending]

theorem read_waiting (hold : f.lastCancelledAt = some cancelled) (hpending : f.pending = some time) :
    f.read cancelled submittedAt =
      { f with submittedAt := submittedAt, pending := none }.hook .userPromptSubmit none time := by
  have hnew : ¬f.lastCancelledAt.all (· < cancelled) = true := by simp [hold]
  unfold read cancel
  rw [if_neg hnew]
  dsimp only
  rw [hpending]

structure Sound (f : Fence) : Prop where
  wf : f.view.Wf
  unseen : f.seen = false → f.view = {}

theorem Sound.hook (h : f.Sound) (event : HookEvent) (toolName : Option Text) (time : ℕ) :
    (f.hook event toolName time).Sound := by
  have hclear : f.seen = false → { f.view with nativeCancelled := false } = ({} : View) := by
    intro hunseen
    rw [h.unseen hunseen]
  cases hcancelled : f.cancelledAt with
  | none =>
    rw [hook_open hcancelled]
    split
    · exact h
    · exact ⟨(Wf.clear h.wf).accept rfl event toolName,fun hno => (nomatch hno)⟩
  | some cancelled =>
    cases hevent : startsTurn event with
    | false => rwa [Fence.hook_lost hcancelled hevent]
    | true =>
      rcases hook_opener_cases hcancelled hevent toolName time with ⟨-,heq⟩ | ⟨-,-,heq⟩ | ⟨-,-,heq⟩
      · rw [heq]
        exact ⟨⟨fun hno => (nomatch hno),fun hno => (nomatch hno)⟩,fun hno => (nomatch hno)⟩
      · rw [heq]
        exact ⟨Wf.clear h.wf,hclear⟩
      · rw [heq]
        exact ⟨Wf.clear h.wf,hclear⟩

theorem Sound.cancel (h : f.Sound) (cancelled : ℕ) (submittedAt : Option ℕ) : (f.cancel cancelled submittedAt).Sound := by
  unfold Fence.cancel
  split
  · dsimp only
    split
    · exact ⟨h.wf,h.unseen⟩
    · refine ⟨⟨fun hno => (nomatch hno),fun hnative => ⟨?_,rfl⟩⟩,fun hunseen => ?_⟩
      · dsimp only
        split
        · rfl
        · exact (h.wf.nativeCancelled hnative).1
      · have hview := h.unseen hunseen
        have hstill : f.seen = false := hunseen
        simp [hview, hstill]
  · exact h

theorem Sound.read (h : f.Sound) (cancelled : ℕ) (submittedAt : Option ℕ) : (f.read cancelled submittedAt).Sound := by
  have hcancel := h.cancel cancelled submittedAt
  unfold Fence.read
  dsimp only
  split
  · exact ⟨hcancel.wf,hcancel.unseen⟩
  · refine Sound.hook ?_ _ _ _
    exact ⟨hcancel.wf,hcancel.unseen⟩

theorem Follows.sound (h : f.Follows u marker) : f.Sound := ⟨h.wf,h.unseen⟩

/-- The condition of `Timely` on the two fences. -/
def InTime (f u : Fence) (m : Cancellation) : Prop :=
  if u.lastTurn.any (late m.cancelledAt m.submittedAt) then
    f.cancelledAt = none ∨
      if f.cancelledAt = some m.cancelledAt ∧ f.pending.isSome then u.view.state = some .busy
      else f.seen = true ∧ u.view.state = some .idle ∧ u.view.completed = false
  else u.seen = true → f.seen = true

theorem Follows.new_or_known {m : Cancellation} (h : f.Follows u (some m)) :
    f.lastCancelledAt.all (· < m.cancelledAt) = true ∨ f.lastCancelledAt = some m.cancelledAt := by
  cases hlast : f.lastCancelledAt with
  | none => exact .inl rfl
  | some last =>
    obtain ⟨known,hknown,hle,-⟩ := h.file last hlast
    cases hknown
    rcases Nat.lt_or_eq_of_le hle with hlt | heq
    · exact .inl (by simpa using hlt)
    · exact .inr (by rw [heq])

section Read
variable {m : Cancellation}

theorem Follows.read_started (h : f.Follows u (some m)) (hnew : f.lastCancelledAt.all (· < m.cancelledAt) = true)
    (hlate : f.lastTurn.any (late m.cancelledAt m.submittedAt) = true) :
    (f.read m.cancelledAt m.submittedAt).Follows u (some m) := by
  obtain ⟨turn,hturn,hturnLate⟩ := (Option.any_eq_true _ _).mp hlate
  obtain ⟨submitted,hsubmitted,hafter,hle⟩ := late_iff.mp hturnLate
  rw [Fence.read_started hnew hlate]
  exact { h with
    tracks := fun hnone => ⟨rfl,(h.tracks hnone).2⟩
    raised := by
      intro cancelled hcancelled
      obtain ⟨last,hlast,hle⟩ := h.raised cancelled hcancelled
      rw [hlast, Option.all_some, decide_eq_true_eq] at hnew
      exact ⟨m.cancelledAt,rfl,by omega⟩
    waits := fun _ hno => (nomatch hno)
    older := by
      intro cancelled last hcancelled hlast hlt
      cases hlast
      exact ⟨submitted,turn,hsubmitted,hafter,hturn,hle⟩
    file := by
      intro last hlast
      cases hlast
      exact ⟨m,rfl,le_rfl,fun _ submitted hsubmitted => ⟨submitted,hsubmitted,le_rfl⟩⟩
    passed := by
      intro known hknown hnone _
      cases hknown
      rw [← (h.tracks hnone).2.2.1]
      exact hlate }

theorem Follows.read_raised (h : f.Follows u (some m)) (hnew : f.lastCancelledAt.all (· < m.cancelledAt) = true)
    (hlate : f.lastTurn.any (late m.cancelledAt m.submittedAt) = false) :
    (f.read m.cancelledAt m.submittedAt).Follows u (some m) := by
  have hsound := h.sound.read m.cancelledAt m.submittedAt
  rw [Fence.read_raised hnew hlate] at hsound ⊢
  exact {
    wf := hsound.wf
    unseen := hsound.unseen
    seen := h.seen
    tracks := fun hno => (nomatch hno)
    rests := fun _ _ => ⟨rfl,fun hseen => if_pos hseen⟩
    raised := fun cancelled hcancelled => ⟨m.cancelledAt,rfl,(Option.some.inj hcancelled).ge⟩
    turn := h.turn
    waits := fun _ hno => (nomatch hno)
    older := by
      intro cancelled last hcancelled hlast hlt
      cases hcancelled
      cases hlast
      omega
    file := by
      intro last hlast
      cases hlast
      exact ⟨m,rfl,le_rfl,fun _ submitted hsubmitted => ⟨submitted,hsubmitted,le_rfl⟩⟩
    passed := fun _ _ hno => (nomatch hno) }

theorem Follows.read_known (h : f.Follows u (some m)) (hwf : m.Wf generation)
    (hold : f.lastCancelledAt = some m.cancelledAt) (hpending : f.pending = none) :
    (f.read m.cancelledAt m.submittedAt).Follows u (some m) := by
  rw [Fence.read_known hold hpending]
  exact { h with
    older := by
      intro cancelled last hcancelled hlast hlt
      obtain ⟨submitted,turn,hsubmitted,hafter,hturn,hle⟩ := h.older cancelled last hcancelled hlast hlt
      obtain ⟨known,hknown,-,hfile⟩ := h.file last hlast
      cases hknown
      cases hold.symm.trans hlast
      obtain ⟨earlier,hearlier,hearlierLe⟩ := hfile rfl submitted hsubmitted
      exact ⟨earlier,turn,hearlier,hwf.submitted earlier hearlier,hturn,hearlierLe.trans hle⟩
    file := by
      intro last hlast
      cases hold.symm.trans hlast
      exact ⟨m,rfl,le_rfl,fun _ submitted hsubmitted => ⟨submitted,hsubmitted,le_rfl⟩⟩ }

theorem Follows.read_waiting_eq (h : f.Follows u (some m)) (hold : f.lastCancelledAt = some m.cancelledAt)
    (hpending : f.pending = some time) :
    (late m.cancelledAt m.submittedAt time = true ∧ f.read m.cancelledAt m.submittedAt = { f with
      seen := true, view := ⟨some .busy,false,false⟩, cancelledAt := none, submittedAt := m.submittedAt, pending := none
      lastTurn := some time }) ∨
    (late m.cancelledAt m.submittedAt time = false ∧ f.read m.cancelledAt m.submittedAt =
      { f with view := { f.view with nativeCancelled := false }, submittedAt := m.submittedAt }) := by
  obtain ⟨-,hfence,hafter⟩ := h.waits time hpending
  have hcancelled : f.cancelledAt = some m.cancelledAt := hfence.trans hold
  rw [Fence.read_waiting hold hpending]
  rcases hook_opener_cases (f := { f with submittedAt := m.submittedAt, pending := none }) hcancelled
      (show startsTurn .userPromptSubmit = true from rfl) none time with ⟨hlate,heq⟩ | ⟨hearly,-,heq⟩ | ⟨-,hbefore,-⟩
  · exact .inl ⟨hlate,heq⟩
  · exact .inr ⟨hearly,by rw [heq, hpending]⟩
  · have := hafter _ hcancelled
    omega

theorem Wf.eq_busy {v : View} (h : v.Wf) (hstate : v.state = some .busy) : v = ⟨some .busy,false,false⟩ := by
  obtain ⟨state,completed,nativeCancelled⟩ := v
  cases hstate
  cases completed with
  | true => cases h.completed rfl
  | false =>
    cases nativeCancelled with
    | true => cases (h.nativeCancelled rfl).1
    | false => rfl

theorem Follows.read_waiting (h : f.Follows u (some m)) (hu : u.Unread clock) (hintime : f.InTime u m)
    (hold : f.lastCancelledAt = some m.cancelledAt) (hpending : f.pending = some time) :
    (f.read m.cancelledAt m.submittedAt).Follows u (some m) := by
  obtain ⟨hturn,hfence,hafter⟩ := h.waits time hpending
  have hcancelled : f.cancelledAt = some m.cancelledAt := hfence.trans hold
  have hfile : ∀ last, f.lastCancelledAt = some last → ∃ known, some m = some known ∧ last ≤ known.cancelledAt ∧
      (last = known.cancelledAt → ∀ submitted, m.submittedAt = some submitted → ∃ earlier,
        known.submittedAt = some earlier ∧ earlier ≤ submitted) := by
    intro last hlast
    cases hold.symm.trans hlast
    exact ⟨m,rfl,le_rfl,fun _ submitted hsubmitted => ⟨submitted,hsubmitted,le_rfl⟩⟩
  rcases h.read_waiting_eq hold hpending with ⟨hlate,heq⟩ | ⟨hearly,heq⟩
  · have hlast : u.lastTurn.any (late m.cancelledAt m.submittedAt) = true := by rw [hturn]; exact hlate
    have hbusy : u.view.state = some .busy := by
      unfold InTime at hintime
      rw [if_pos hlast, if_pos ⟨hcancelled,by simp [hpending]⟩] at hintime
      exact hintime.resolve_left fun hno => (nomatch hcancelled.symm.trans hno)
    have hseen : u.seen = true := by
      by_contra hno
      rw [hu.seen (by simpa using hno)] at hbusy
      cases hbusy
    rw [heq]
    refine .of_tracked hu rfl rfl (Wf.eq_busy hu.wf hbusy).symm hturn.symm hseen.symm hfile fun known hknown _ => ?_
    cases hknown
    exact hlast
  · rw [heq]
    exact { h with
      wf := Wf.clear h.wf
      unseen := fun hunseen => by rw [h.unseen hunseen]
      tracks := fun hno => (nomatch hcancelled.symm.trans hno)
      older := by
        intro cancelled last hsome hlast hlt
        cases hcancelled.symm.trans hsome
        cases hold.symm.trans hlast
        omega
      file := hfile
      passed := fun _ _ hno => (nomatch hcancelled.symm.trans hno) }

theorem Follows.read (h : f.Follows u (some m)) (hu : u.Unread clock) (hwf : m.Wf generation) (hintime : f.InTime u m) :
    (f.read m.cancelledAt m.submittedAt).Follows u (some m) := by
  rcases h.new_or_known with hnew | hold
  · cases hlate : f.lastTurn.any (late m.cancelledAt m.submittedAt) with
    | true => exact h.read_started hnew hlate
    | false => exact h.read_raised hnew hlate
  · cases hpending : f.pending with
    | none => exact h.read_known hwf hold hpending
    | some time => exact h.read_waiting hu hintime hold hpending

theorem Unread.read_shown (hu : u.Unread clock) (m : Cancellation) :
    (u.read m.cancelledAt m.submittedAt).view.shown =
      if u.lastTurn.any (late m.cancelledAt m.submittedAt) then u.view.shown
      else (if u.seen then some .idle else none,false) := by
  have hnew : u.lastCancelledAt.all (· < m.cancelledAt) = true := by rw [hu.lastCancelledAt]; rfl
  cases hlate : u.lastTurn.any (late m.cancelledAt m.submittedAt) with
  | true =>
    rw [Fence.read_started hnew hlate]
    rfl
  | false =>
    rw [Fence.read_raised hnew hlate]
    cases hseen : u.seen with
    | true => rfl
    | false =>
      have hview := hu.seen hseen
      simp [View.shown, hview]

theorem Follows.rest_shown (h : f.Follows u marker) (hcancelled : f.cancelledAt = some cancelled) :
    f.view.shown = (if f.seen then some .idle else none,false) := by
  obtain ⟨hcompleted,hidle⟩ := h.rests cancelled hcancelled
  unfold View.shown
  rw [hcompleted]
  cases hseen : f.seen with
  | true => rw [hidle hseen]; rfl
  | false => rw [h.unseen hseen]; rfl

theorem Follows.raised_shown (h : f.Follows u (some m)) (hnew : f.lastCancelledAt.all (· < m.cancelledAt) = true)
    (hlate : f.lastTurn.any (late m.cancelledAt m.submittedAt) = false) :
    (f.read m.cancelledAt m.submittedAt).view.shown = (if f.seen then some .idle else none,false) := by
  rw [Fence.read_raised hnew hlate]
  unfold View.shown
  cases hseen : f.seen with
  | true => rfl
  | false => rw [h.unseen hseen]

/-- A turn at rest is what the only read shows, exactly if the reads came in time. -/
theorem Follows.rest_iff (h : f.Follows u marker) (hu : u.Unread clock) (hcancelled : f.cancelledAt = some cancelled)
    (hwaits : u.lastTurn.any (late m.cancelledAt m.submittedAt) = true →
      ¬(f.cancelledAt = some m.cancelledAt ∧ f.pending.isSome = true)) :
    ((if f.seen then some .idle else none,false) : Option HookState × Bool) =
      (u.read m.cancelledAt m.submittedAt).view.shown ↔ f.InTime u m := by
  rw [hu.read_shown]
  unfold InTime
  cases hlate : u.lastTurn.any (late m.cancelledAt m.submittedAt) with
  | true =>
    obtain ⟨turn,hturn,-⟩ := (Option.any_eq_true _ _).mp hlate
    have hstate := hu.opened (by simp [hturn])
    have hfence : f.cancelledAt ≠ none := by simp [hcancelled]
    rw [if_neg (hwaits hlate)]
    simp only [if_true, View.shown, Prod.mk.injEq, hfence, false_or]
    cases f.seen with
    | true => simp only [if_true, true_and, eq_comm]
    | false => simpa using fun hno => absurd hno (Ne.symm hstate)
  | false =>
    have hmono := h.seen
    cases hf : f.seen with
    | true => simp [hmono hf]
    | false => cases u.seen <;> simp

/-- Another read now shows what the only read shows, exactly if the reads came in time. -/
theorem Follows.shown_iff (h : f.Follows u (some m)) (hu : u.Unread clock) :
    (f.read m.cancelledAt m.submittedAt).view.shown = (u.read m.cancelledAt m.submittedAt).view.shown ↔
      f.InTime u m := by
  cases hcancelled : f.cancelledAt with
  | none =>
    obtain ⟨hpending,hview,hturn,hseen⟩ := h.tracks hcancelled
    have hintime : f.InTime u m := by
      unfold InTime
      split
      · exact .inl hcancelled
      · exact fun huseen => hseen.trans huseen
    refine iff_of_true ?_ hintime
    rw [hu.read_shown]
    rcases h.new_or_known with hnew | hold
    · cases hlate : f.lastTurn.any (late m.cancelledAt m.submittedAt) with
      | true =>
        rw [Fence.read_started hnew hlate, if_pos (hturn ▸ hlate)]
        exact congrArg View.shown hview
      | false =>
        rw [h.raised_shown hnew hlate, ← hturn, hlate, hseen]
        rfl
    · rw [Fence.read_known hold hpending, if_pos (h.passed m rfl hcancelled hold)]
      exact congrArg View.shown hview
  | some cancelled =>
    have hrest := h.rest_shown hcancelled
    rcases h.new_or_known with hnew | hold
    · have hother : ¬(f.cancelledAt = some m.cancelledAt ∧ f.pending.isSome = true) := by
        rintro ⟨hsame,-⟩
        obtain ⟨last,hlast,hle⟩ := h.raised m.cancelledAt hsame
        rw [hlast, Option.all_some, decide_eq_true_eq] at hnew
        omega
      rw [← h.rest_iff hu hcancelled fun _ => hother]
      cases hlate : f.lastTurn.any (late m.cancelledAt m.submittedAt) with
      | true => rw [Fence.read_started hnew hlate, ← hrest]
      | false => rw [h.raised_shown hnew hlate]
    · cases hpending : f.pending with
      | none =>
        rw [← h.rest_iff hu hcancelled fun _ hno => by simp [hpending] at hno, Fence.read_known hold hpending, ← hrest]
      | some time =>
        obtain ⟨hturn,hfence,-⟩ := h.waits time hpending
        rcases h.read_waiting_eq hold hpending with ⟨hlate,heq⟩ | ⟨hearly,heq⟩
        · have hlast : u.lastTurn.any (late m.cancelledAt m.submittedAt) = true := by rw [hturn]; exact hlate
          have hup : f.cancelledAt ≠ none := by simp [hcancelled]
          rw [heq, hu.read_shown, if_pos hlast]
          unfold InTime
          rw [if_pos hlast, if_pos ⟨hfence.trans hold,by simp [hpending]⟩]
          simp only [hup, false_or]
          refine ⟨fun hshown => (Prod.mk.inj hshown).1.symm,fun hbusy => ?_⟩
          rw [Wf.eq_busy hu.wf hbusy]
        · have hnot : u.lastTurn.any (late m.cancelledAt m.submittedAt) = false := by rw [hturn]; exact hearly
          rw [← h.rest_iff hu hcancelled fun hlate => absurd hlate (by simp [hnot]), heq, ← hrest]
          rfl

end Read

end Fence

namespace Entry
variable {e : Entry} {generation : ℕ}

theorem Waits.hooksOnly (h : e.Waits generation) (hsound : e.asFence.Sound) : e.HooksOnly where
  background := h.background
  backgroundExpired := h.backgroundExpired
  hookSeen := by
    intro hstate
    by_contra hunseen
    have hseen : e.hookSeen = false := by simpa using hunseen
    have hview := hsound.unseen hseen
    exact hstate (congrArg View.state hview)
  wf := hsound.wf

theorem Waits.shown (h : e.Waits generation) (hsound : e.asFence.Sound) :
    (e.hookOwnedState,e.isCompleted) = e.asFence.view.shown := by
  have hhooks := h.hooksOnly hsound
  rw [hhooks.hookOwnedState, hhooks.isCompleted]
  rfl

end Entry

namespace MarkerRun
variable {s t : MarkerRun} {generation : ℕ}

theorem statusOf_none (h : s.marker = none) {e : Entry} (hwaits : e.Waits generation) (hsound : e.asFence.Sound) :
    s.statusOf generation e = e.asFence.view.shown := by
  unfold statusOf
  rw [h]
  exact hwaits.shown hsound

theorem statusOf_some {m : Cancellation} (h : s.marker = some m) (hwf : m.Wf generation) {e : Entry}
    (hwaits : e.Waits generation) (hsound : e.asFence.Sound) :
    s.statusOf generation e = (e.asFence.read m.cancelledAt m.submittedAt).view.shown := by
  obtain ⟨hread,hfence⟩ := hwaits.cancellation hwf.runtimeGeneration
  unfold statusOf
  rw [h]
  have hshown := hread.shown (hfence ▸ hsound.read _ _)
  rw [hfence] at hshown
  exact hshown

structure InStep (s : MarkerRun) (generation : ℕ) : Prop where
  entry : s.entry.Waits generation
  unread : s.unread.Waits generation
  marker : ∀ m, s.marker = some m → m.Wf generation
  alone : s.unread.asFence.Unread (unixMs s.clock)
  follows : s.entry.asFence.Follows s.unread.asFence s.marker

theorem timely_iff : Timely s ↔ ∀ m, s.marker = some m → s.entry.asFence.InTime s.unread.asFence m := by
  unfold Timely Fence.InTime openedLate Entry.asFence
  simp only [Option.isSome_map]
  rfl

theorem InStep.entry_sound (h : s.InStep generation) : s.entry.asFence.Sound := h.follows.sound

theorem InStep.unread_sound (h : s.InStep generation) : s.unread.asFence.Sound := ⟨h.alone.wf,h.alone.seen⟩

theorem InStep.readsAlike_iff (h : s.InStep generation) : ReadsAlike generation s ↔ Timely s := by
  rw [timely_iff]
  unfold ReadsAlike status
  cases hmarker : s.marker with
  | none =>
    have hfollows := h.follows
    have hcancelled : s.entry.asFence.cancelledAt = none := by
      by_contra hno
      obtain ⟨cancelled,hcancelled⟩ := Option.ne_none_iff_exists'.mp hno
      obtain ⟨last,hlast,-⟩ := hfollows.raised cancelled hcancelled
      obtain ⟨m,hm,-⟩ := hfollows.file last hlast
      cases hmarker.symm.trans hm
    rw [statusOf_none hmarker h.entry h.entry_sound, statusOf_none hmarker h.unread h.unread_sound,
      (hfollows.tracks hcancelled).2.1]
    simp
  | some m =>
    have hwf := h.marker m hmarker
    have hfollows := h.follows
    rw [hmarker] at hfollows
    rw [statusOf_some hmarker hwf h.entry h.entry_sound, statusOf_some hmarker hwf h.unread h.unread_sound,
      hfollows.shown_iff h.alone]
    simp

theorem InStep.record (h : s.InStep generation) (cancelledAt submittedAt : Option ℕ) :
    InStep { s with marker := recordIn s.marker generation cancelledAt submittedAt } generation where
  entry := h.entry
  unread := h.unread
  marker := by
    intro m hm
    cases hmarker : s.marker with
    | none =>
      rw [hmarker] at hm
      exact recordIn_none generation cancelledAt submittedAt m hm
    | some known =>
      obtain ⟨m',hm',hwf,-⟩ := recordIn_some (h.marker known hmarker) cancelledAt submittedAt
      rw [hmarker] at hm
      cases hm.symm.trans hm'
      exact hwf
  alone := h.alone
  follows := h.follows.record h.marker cancelledAt submittedAt

theorem InStep.read (h : s.InStep generation) (htimely : Timely s) :
    InStep { s with entry := (s.entry.syncCancellation s.marker generation).1 } generation := by
  cases hmarker : s.marker with
  | none =>
    have hfollows := h.follows
    rw [hmarker] at hfollows
    exact ⟨h.entry,h.unread,fun _ hno => (nomatch hno),h.alone,hfollows⟩
  | some m =>
    have hwf := h.marker m hmarker
    have hfollows := h.follows
    obtain ⟨hread,hfence⟩ := h.entry.cancellation hwf.runtimeGeneration
    rw [hmarker] at hfollows
    exact {
      entry := hread
      unread := h.unread
      marker := hmarker ▸ h.marker
      alone := h.alone
      follows := by
        change Fence.Follows (s.entry.observeCancellation m generation).1.asFence s.unread.asFence (some m)
        rw [hfence]
        exact hfollows.read h.alone hwf (timely_iff.mp htimely m hmarker) }

theorem InStep.hook (h : s.InStep generation) {now : ℕ} (hnow : s.clock ≤ now) (event : HookEvent)
    (toolName : Option Text) (launchedAtUnixMs : Option ℕ) :
    InStep { s with
      clock := now
      entry := (s.entry.applyHookEventForRuntime event toolName now (some generation) generation launchedAtUnixMs).1
      unread := (s.unread.applyHookEventForRuntime event toolName now (some generation) generation launchedAtUnixMs).1 }
      generation := by
  obtain ⟨hentry,hfence⟩ := h.entry.hook event toolName now launchedAtUnixMs
  obtain ⟨hunread,halone⟩ := h.unread.hook event toolName now launchedAtUnixMs
  have hclock : unixMs s.clock ≤ unixMs now := Nat.div_le_div_right hnow
  exact {
    entry := hentry
    unread := hunread
    marker := h.marker
    alone := by
      rw [halone]
      exact (h.alone.hook hclock event toolName).1
    follows := by
      rw [hfence, halone]
      exact h.follows.hook h.alone hclock h.marker event toolName }

theorem InStep.step (h : s.InStep generation) (htimely : Timely s) {event : MarkerEvent}
    (ht : markerStep generation s event = some t) : t.InStep generation := by
  cases event with
  | record cancelledAt submittedAt =>
    cases ht
    exact h.record cancelledAt submittedAt
  | read =>
    cases ht
    exact h.read htimely
  | hook event toolName now launchedAtUnixMs =>
    simp only [markerStep] at ht
    split at ht <;> cases ht
    next hnow =>
    exact h.hook hnow event toolName launchedAtUnixMs

theorem startMarkers_inStep (generation : ℕ) : (startMarkers generation).InStep generation where
  entry := ⟨rfl,rfl,rfl,fun _ hno => (nomatch hno)⟩
  unread := ⟨rfl,rfl,rfl,fun _ hno => (nomatch hno)⟩
  marker := fun _ hno => (nomatch hno)
  alone := ⟨rfl,rfl,rfl,View.empty_wf,fun _ => rfl,fun hno => absurd rfl hno,fun _ hno => (nomatch hno)⟩
  follows := {
    wf := View.empty_wf
    unseen := fun _ => rfl
    seen := fun hno => (nomatch hno)
    tracks := fun _ => ⟨rfl,rfl,rfl,rfl⟩
    rests := fun _ hno => (nomatch hno)
    raised := fun _ hno => (nomatch hno)
    turn := fun _ hno => (nomatch hno)
    waits := fun _ hno => (nomatch hno)
    older := fun _ _ hno => (nomatch hno)
    file := fun _ hno => (nomatch hno)
    passed := fun _ hno => (nomatch hno) }

end MarkerRun

def hooksOf (events : List MarkerEvent) : List MarkerEvent :=
  events.filter fun event => match event with
    | .hook _ _ _ _ => true
    | .record _ _ | .read => false

def recordsOf (events : List MarkerEvent) : List MarkerEvent :=
  events.filter fun event => match event with
    | .record _ _ => true
    | .hook _ _ _ _ | .read => false

def hookEntry (generation : ℕ) (e : Entry) : MarkerEvent → Entry
  | .hook event toolName now launchedAtUnixMs =>
    (e.applyHookEventForRuntime event toolName now (some generation) generation launchedAtUnixMs).1
  | .record _ _ | .read => e

def recordMarker (generation : ℕ) (marker : Option Cancellation) : MarkerEvent → Option Cancellation
  | .record cancelledAt submittedAt => recordIn marker generation cancelledAt submittedAt
  | .hook _ _ _ _ | .read => marker

/-- The engine that reads nothing knows the hooks alone, and the disk the records alone. -/
theorem run_markers {generation : ℕ} {s t : MarkerRun} {events : List MarkerEvent}
    (h : run (markerStep generation) s events = some t) :
    t.unread = (hooksOf events).foldl (hookEntry generation) s.unread ∧
    t.marker = (recordsOf events).foldl (recordMarker generation) s.marker := by
  induction events generalizing s with
  | nil =>
    cases h
    exact ⟨rfl,rfl⟩
  | cons event events ih =>
    obtain ⟨next,hnext,hrest⟩ := run_cons.mp h
    obtain ⟨hunread,hmarker⟩ := ih hrest
    cases event with
    | record cancelledAt submittedAt | read =>
      cases hnext
      exact ⟨hunread,hmarker⟩
    | hook event toolName now launchedAtUnixMs =>
      simp only [markerStep] at hnext
      split at hnext <;> cases hnext
      exact ⟨hunread,hmarker⟩

/-- In every state of a run one more read leaves the status that the only read leaves,
exactly if the reads of the run came in time; schedules of the same hooks and records
that read in time end with the same status. -/
theorem status_ignores_read_times_iff (generation : ℕ) (events : List MarkerEvent) :
    (Always (markerStep generation) (ReadsAlike generation) (startMarkers generation) events ↔
      Always (markerStep generation) Timely (startMarkers generation) events) ∧
    ∀ events' t t', run (markerStep generation) (startMarkers generation) events = some t →
      run (markerStep generation) (startMarkers generation) events' = some t' →
      hooksOf events = hooksOf events' → recordsOf events = recordsOf events' →
      Always (markerStep generation) Timely (startMarkers generation) events →
      Always (markerStep generation) Timely (startMarkers generation) events' →
      t.status generation = t'.status generation := by
  have halike (events : List MarkerEvent) :
      Always (markerStep generation) (ReadsAlike generation) (startMarkers generation) events ↔
        Always (markerStep generation) Timely (startMarkers generation) events :=
    always_congr (J := (MarkerRun.InStep · generation)) (fun _ _ _ h htimely ht => h.step htimely ht)
      (fun _ h => h.readsAlike_iff) (MarkerRun.startMarkers_inStep generation) events
  refine ⟨halike events,fun events' t t' hrun hrun' hhooks hrecords htimely htimely' => ?_⟩
  have hlast : ReadsAlike generation t := ((halike events).mpr htimely).last hrun
  have hlast' : ReadsAlike generation t' := ((halike events').mpr htimely').last hrun'
  obtain ⟨hunread,hmarker⟩ := run_markers hrun
  obtain ⟨hunread',hmarker'⟩ := run_markers hrun'
  calc
    t.status generation = t.statusOf generation t.unread := hlast
    _ = t'.statusOf generation t'.unread := by
      unfold MarkerRun.statusOf
      rw [hunread, hunread', hmarker, hmarker', hhooks, hrecords]
    _ = t'.status generation := hlast'.symm

def fastPrompt (reads : Bool) : List MarkerEvent :=
  [.hook .userPromptSubmit none (fromUnixMs 1000) none,.record (some 2000) none] ++ (if reads then [.read] else []) ++
    [.hook .userPromptSubmit none (fromUnixMs 3100) none,.record none (some 3000)] ++ (if reads then [.read] else []) ++
    [.hook .stop none (fromUnixMs 3200) none]

theorem fast_prompt_is_in_time :
    Always (markerStep 1) Timely (startMarkers 1) (fastPrompt true) ∧
    ∀ t t', run (markerStep 1) (startMarkers 1) (fastPrompt true) = some t →
      run (markerStep 1) (startMarkers 1) (fastPrompt false) = some t' → t.status 1 = t'.status 1 :=
  have htimely : Always (markerStep 1) Timely (startMarkers 1) (fastPrompt true) := by decide +kernel
  ⟨htimely,fun t t' hrun hrun' => (status_ignores_read_times_iff 1 (fastPrompt true)).2 (fastPrompt false) t t' hrun hrun'
    rfl rfl htimely (by decide +kernel)⟩

def fastTurn (reads : Bool) : List MarkerEvent :=
  [.hook .userPromptSubmit none (fromUnixMs 1000) none,.record (some 2000) none] ++ (if reads then [.read] else []) ++
    [.hook .userPromptSubmit none (fromUnixMs 3100) none,.hook .stop none (fromUnixMs 3200) none,.record none (some 3000)]

theorem fast_turn_is_left_busy :
    hooksOf (fastTurn true) = hooksOf (fastTurn false) ∧ recordsOf (fastTurn true) = recordsOf (fastTurn false) ∧
    (run (markerStep 1) (startMarkers 1) (fastTurn true)).map (MarkerRun.status 1) = some (some .busy,false) ∧
    (run (markerStep 1) (startMarkers 1) (fastTurn false)).map (MarkerRun.status 1) = some (some .idle,true) := by
  refine ⟨rfl,rfl,?_,?_⟩ <;> decide +kernel

end Unpeel.Activity
