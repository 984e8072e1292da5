import Unpeel.Activity.HookView

/-! # The fence of a cancellation

The input a user types is scanned for cancellations and submissions, which reach the Host
through a marker on disk. The marker raises a fence before the hooks of the turn that was
cancelled, and an opening hook passes it once a later submission is known. Only the
milliseconds of a hook's time count here.
-/
namespace Unpeel.Activity
open Manifest

def Cancellation.submit (marker : Cancellation) (submittedAt : Option ℕ) : Cancellation :=
  match submittedAt.filter (marker.cancelledAt < ·) with
  | none => marker
  | some submitted => { marker with submittedAt := some (min (marker.submittedAt.getD submitted) submitted) }

/-- `record_in`, in a Session directory that exists and where the writes succeed. -/
def recordIn (previous : Option Cancellation) (generation : ℕ) (cancelledAt submittedAt : Option ℕ) :
    Option Cancellation :=
  if previous.any (generation < ·.runtimeGeneration) then previous else
    match previous.filter (·.runtimeGeneration = generation), cancelledAt with
    | some kept, some cancelled =>
      if cancelled ≤ kept.cancelledAt then some (kept.submit submittedAt)
      else some (Cancellation.submit ⟨generation,cancelled,none⟩ submittedAt)
    | none, some cancelled => some (Cancellation.submit ⟨generation,cancelled,none⟩ submittedAt)
    | some kept, none => some (kept.submit submittedAt)
    | none, none => previous

structure Fence where
  seen : Bool := false
  view : View := {}
  cancelledAt : Option ℕ := none
  submittedAt : Option ℕ := none
  lastCancelledAt : Option ℕ := none
  pending : Option ℕ := none
  lastTurn : Option ℕ := none

namespace Fence

def late (cancelledAt : ℕ) (submittedAt : Option ℕ) (time : ℕ) : Bool :=
  submittedAt.any fun submitted => cancelledAt < submitted ∧ submitted ≤ time

def accept (f : Fence) (event : HookEvent) (toolName : Option Text) (time : ℕ) : Fence := { f with
  seen := true
  view := f.view.accept event toolName
  lastTurn := if startsTurn event then some time else f.lastTurn }

def hook (f : Fence) (event : HookEvent) (toolName : Option Text) (time : ℕ) : Fence :=
  if f.view.nativeCancelled ∧ ¬startsTurn event then f else
    let f := { f with view := { f.view with nativeCancelled := false } }
    match f.cancelledAt with
    | none => f.accept event toolName time
    | some cancelledAt =>
      if startsTurn event ∧ late cancelledAt f.submittedAt time then
        { f with cancelledAt := none, pending := none }.accept event toolName time
      else if startsTurn event ∧ cancelledAt ≤ time then { f with pending := some time }
      else f

/-- A cancellation that was not read before raises the fence, unless the turn after its
submission has begun. -/
def cancel (f : Fence) (cancelledAt : ℕ) (submittedAt : Option ℕ) : Fence :=
  if f.lastCancelledAt.all (· < cancelledAt) then
    let f := { f with lastCancelledAt := some cancelledAt, pending := none }
    if f.lastTurn.any (late cancelledAt submittedAt) then f
    else { f with
      cancelledAt := some cancelledAt
      view := { f.view with completed := false, state := if f.seen then some .idle else f.view.state } }
  else f

def read (f : Fence) (cancelledAt : ℕ) (submittedAt : Option ℕ) : Fence :=
  let f := f.cancel cancelledAt submittedAt
  match f.pending with
  | none => { f with submittedAt := submittedAt }
  | some time => { f with submittedAt := submittedAt, pending := none }.hook .userPromptSubmit none time

theorem hook_opener (f : Fence) {event : HookEvent} (h : startsTurn event = true) (toolName : Option Text) (time : ℕ) :
    f.hook event toolName time = f.hook .userPromptSubmit none time := by
  cases event with
  | start | userPromptSubmit => rfl
  | _ => cases h

end Fence

namespace Entry
variable {e : Entry} {generation : ℕ}

def asFence (e : Entry) : Fence :=
  ⟨e.hookSeen,e.view,e.cancelledAt,e.submittedAt,e.lastCancelledAt,e.pendingOpener.map fun opener => unixMs opener.time,
    e.lastTurnStartedAt⟩

theorem changeState_lastTurn (e : Entry) (event : HookEvent) (now : ℕ) :
    (e.changeState event now).lastTurnStartedAt = if startsTurn event then some (unixMs now) else e.lastTurnStartedAt := by
  cases event <;> rfl

theorem accept_lastTurn (e : Entry) (event : HookEvent) (toolName : Option Text) (now : ℕ) :
    (e.accept event toolName now).lastTurnStartedAt =
      if startsTurn event then some (unixMs now) else e.lastTurnStartedAt := by
  unfold Entry.accept
  by_cases hlatch : isLatchOnly event toolName = true
  · rw [if_pos hlatch, View.starts_of_latch_only hlatch]
    rfl
  rw [if_neg hlatch]
  by_cases hidle : event = .idle ∧ e.state = some .idle
  · rw [if_pos hidle, hidle.1]
    rfl
  · rw [if_neg hidle, changeState_lastTurn]

theorem accept_fence (e : Entry) (event : HookEvent) (toolName : Option Text) (now : ℕ) :
    (e.accept event toolName now).submittedAt = e.submittedAt ∧
    (e.accept event toolName now).lastCancelledAt = e.lastCancelledAt ∧
    (e.accept event toolName now).pendingOpener = e.pendingOpener := by
  unfold Entry.accept changeState
  dsimp only
  split_ifs
  · exact ⟨rfl,rfl,rfl⟩
  · exact ⟨rfl,rfl,rfl⟩
  · cases event <;> exact ⟨rfl,rfl,rfl⟩

theorem accept_asFence (e : Entry) (event : HookEvent) (toolName : Option Text) (now : ℕ) :
    (e.accept event toolName now).asFence = e.asFence.accept event toolName (unixMs now) := by
  obtain ⟨hsubmitted,hlast,hpending⟩ := accept_fence e event toolName now
  obtain ⟨-,-,-,hcancelled⟩ := accept_provenance e event toolName now
  unfold Fence.accept asFence
  rw [accept_seen, accept_view, accept_lastTurn, hsubmitted, hlast, hpending, hcancelled]

/-- Hooks act on the fence alone. -/
theorem apply_asFence (e : Entry) (event : HookEvent) (toolName : Option Text) (now : ℕ) :
    (e.applyHookEventUnchecked event toolName now).1.asFence = e.asFence.hook event toolName (unixMs now) := by
  unfold applyHookEventUnchecked fence Fence.hook
  by_cases hnative : e.nativeCancelled ∧ ¬startsTurn event
  · rw [if_pos hnative, if_pos (show e.asFence.view.nativeCancelled = true ∧ _ from hnative)]
  rw [if_neg hnative, if_neg (show ¬(e.asFence.view.nativeCancelled = true ∧ _) from hnative)]
  unfold asFence
  generalize e.cancelledAt = cancelledAt
  cases cancelledAt with
  | none => exact accept_asFence _ event toolName now
  | some cancelledAt =>
    dsimp only
    by_cases hopens : startsTurn event ∧ opensFence cancelledAt e.submittedAt now
    · rw [if_pos hopens, if_pos (show startsTurn event = true ∧ Fence.late _ _ _ = true from hopens)]
      exact accept_asFence _ event toolName now
    rw [if_neg hopens, if_neg (show ¬(startsTurn event = true ∧ Fence.late _ _ _ = true) from hopens)]
    by_cases hwaits : startsTurn event ∧ cancelledAt ≤ unixMs now
    · rw [if_pos hwaits, if_pos hwaits]
      rfl
    · rw [if_neg hwaits, if_neg hwaits]
      rfl

structure Waits (e : Entry) (generation : ℕ) : Prop where
  generation : e.runtimeLaunchGeneration = generation
  background : e.background = []
  backgroundExpired : e.backgroundExpired = false
  pendingOpener : ∀ opener, e.pendingOpener = some opener → startsTurn opener.event = true

theorem Waits.fence (h : e.Waits generation) (event : HookEvent) (toolName : Option Text) (now : ℕ) :
    (e.fence event toolName now).1.Waits generation := by
  unfold Entry.fence
  split
  · exact h
  · dsimp only
    split
    · exact ⟨h.generation,h.background,h.backgroundExpired,h.pendingOpener⟩
    · split_ifs with hopens hwaits
      · exact ⟨h.generation,h.background,h.backgroundExpired,fun _ hno => (nomatch hno)⟩
      · refine ⟨h.generation,h.background,h.backgroundExpired,fun opener hopener => ?_⟩
        cases hopener
        exact hwaits.1
      · exact ⟨h.generation,h.background,h.backgroundExpired,h.pendingOpener⟩

theorem Waits.apply (h : e.Waits generation) (event : HookEvent) (toolName : Option Text) (now : ℕ) :
    (e.applyHookEventUnchecked event toolName now).1.Waits generation := by
  have hfence := h.fence event toolName now
  unfold applyHookEventUnchecked
  cases hf : e.fence event toolName now with
  | mk fenced passed =>
  rw [hf] at hfence
  cases passed with
  | false => exact hfence
  | true =>
    obtain ⟨-,-,hpending⟩ := accept_fence fenced event toolName now
    obtain ⟨-,hgeneration,-,-⟩ := accept_provenance fenced event toolName now
    refine ⟨?_,?_,accept_backgroundExpired hfence.backgroundExpired,?_⟩
    · rw [hgeneration]
      exact hfence.generation
    · rw [accept_background]
      exact hfence.background
    · rw [hpending]
      exact hfence.pendingOpener

theorem started_eq_late (cancelledAt : ℕ) (submittedAt lastTurn : Option ℕ) :
    (submittedAt.any fun submitted => cancelledAt < submitted ∧ lastTurn.any (submitted ≤ ·)) =
      lastTurn.any (Fence.late cancelledAt submittedAt) := by
  cases submittedAt <;> cases lastTurn <;> simp [Fence.late]

/-- A read of the marker acts on the fence alone. -/
theorem Waits.cancellation (h : e.Waits generation) {marker : Cancellation}
    (hgeneration : marker.runtimeGeneration = generation) :
    (e.observeCancellation marker generation).1.Waits generation ∧
    (e.observeCancellation marker generation).1.asFence = e.asFence.read marker.cancelledAt marker.submittedAt := by
  unfold observeCancellation
  rw [if_neg (not_not.mpr hgeneration)]
  extract_lets marked alreadyStarted fenced pending e₁
  have hfenced : fenced.Waits generation ∧ fenced.asFence = e.asFence.cancel marker.cancelledAt marker.submittedAt := by
    have hstarted : alreadyStarted = e.lastTurnStartedAt.any (Fence.late marker.cancelledAt marker.submittedAt) :=
      started_eq_late marker.cancelledAt marker.submittedAt e.lastTurnStartedAt
    unfold fenced Fence.cancel
    rw [hstarted]
    by_cases hnew : e.lastCancelledAt.all (· < marker.cancelledAt) = true
    · rw [if_pos hnew, if_pos (show e.asFence.lastCancelledAt.all _ = true from hnew)]
      by_cases hlate : e.lastTurnStartedAt.any (Fence.late marker.cancelledAt marker.submittedAt) = true
      · rw [if_pos hlate, if_pos (show e.asFence.lastTurn.any _ = true from hlate)]
        exact ⟨⟨h.generation,h.background,h.backgroundExpired,fun _ hno => (nomatch hno)⟩,rfl⟩
      · rw [if_neg hlate, if_neg (show ¬e.asFence.lastTurn.any _ = true from hlate)]
        exact ⟨⟨h.generation,h.background,h.backgroundExpired,fun _ hno => (nomatch hno)⟩,rfl⟩
    · rw [if_neg hnew, if_neg (show ¬e.asFence.lastCancelledAt.all _ = true from hnew)]
      exact ⟨h,rfl⟩
  obtain ⟨hwaits,hfence⟩ := hfenced
  have hread : e₁.Waits generation := ⟨hwaits.generation,hwaits.background,hwaits.backgroundExpired,fun _ hno => (nomatch hno)⟩
  unfold Fence.read
  rw [← hfence]
  cases hpending : fenced.pendingOpener with
  | none =>
    have hnone : pending = none := hpending
    rw [hnone]
    refine ⟨hread,?_⟩
    unfold asFence
    rw [hpending]
    rfl
  | some opener =>
    have hsome : pending = some opener := hpending
    rw [hsome]
    refine ⟨hread.apply _ _ _,?_⟩
    rw [apply_asFence, Fence.hook_opener _ (hwaits.pendingOpener opener hpending)]
    unfold asFence
    rw [hpending]
    rfl

/-- A hook of the current runtime. -/
theorem Waits.hook (h : e.Waits generation) (event : HookEvent) (toolName : Option Text) (now : ℕ)
    (launchedAtUnixMs : Option ℕ) :
    (e.applyHookEventForRuntime event toolName now (some generation) generation launchedAtUnixMs).1.Waits generation ∧
    (e.applyHookEventForRuntime event toolName now (some generation) generation launchedAtUnixMs).1.asFence =
      e.asFence.hook event toolName (unixMs now) := by
  have hobserved : e.observeRuntimeLaunch generation launchedAtUnixMs = e := if_pos h.generation
  unfold applyHookEventForRuntime
  rw [hobserved]
  rw [if_neg (by simp), if_neg (by simp), if_neg (by simp [guardsLegacyStop])]
  have hconfirmed : (e.confirmTurn event now (some generation) generation).Waits generation ∧
      (e.confirmTurn event now (some generation) generation).asFence = e.asFence := by
    unfold confirmTurn
    split
    · exact ⟨⟨h.generation,h.background,h.backgroundExpired,h.pendingOpener⟩,rfl⟩
    · exact ⟨h,rfl⟩
  generalize e.confirmTurn event now (some generation) generation = confirmed at hconfirmed
  obtain ⟨hwaits,hfence⟩ := hconfirmed
  have happly := apply_asFence confirmed event toolName now
  have happlied := hwaits.apply event toolName now
  rw [hfence] at happly
  cases hr : confirmed.applyHookEventUnchecked event toolName now with
  | mk applied passed =>
  rw [hr] at happly happlied
  cases passed with
  | false => exact ⟨happlied,happly⟩
  | true => exact ⟨⟨happlied.generation,happlied.background,happlied.backgroundExpired,happlied.pendingOpener⟩,happly⟩

end Entry

end Unpeel.Activity
