import Unpeel.Activity.ActivityEngine

/-! # What hooks leave to be shown

Without children the status of a Session is the last turn's state, whether the turn was
completed and whether the agent itself has cancelled it.
-/
namespace Unpeel.Activity
open Manifest

structure View where
  state : Option HookState := none
  completed : Bool := false
  nativeCancelled : Bool := false
deriving DecidableEq

namespace View

def accept (v : View) (event : HookEvent) (toolName : Option Text) : View :=
  if isLatchOnly event toolName then v
  else if event = .idle ∧ v.state = some .idle then v
  else match event with
    | .start | .userPromptSubmit => { v with state := some .busy, completed := false }
    | .stop => { v with state := some .idle, completed := true }
    | .stopFailure | .idle => { v with state := some .idle, completed := false }
    | .stopCancelled => ⟨some .idle,false,true⟩
    | .permissionRequest => { v with state := some .attention, completed := false }
    | .other _ => v

def step (v : View) (event : HookEvent) (toolName : Option Text) : View × Bool :=
  if v.nativeCancelled ∧ ¬startsTurn event then (v,false)
  else ({ v with nativeCancelled := false }.accept event toolName,true)

theorem step_rejected {v : View} {event : HookEvent} {toolName : Option Text} (h : (v.step event toolName).2 = false) :
    (v.step event toolName).1 = v := by
  unfold step at h ⊢
  split at h
  · next hfenced => rw [if_pos hfenced]
  · cases h

structure Wf (v : View) : Prop where
  completed : v.completed = true → v.state = some .idle
  nativeCancelled : v.nativeCancelled = true → v.state = some .idle ∧ v.completed = false

theorem Wf.accept {v : View} (h : v.Wf) (hopen : v.nativeCancelled = false) (event : HookEvent)
    (toolName : Option Text) : (v.accept event toolName).Wf := by
  unfold View.accept
  split_ifs
  · exact h
  · exact h
  · cases event with
    | stop => exact ⟨fun _ => rfl,fun hcancelled => (nomatch hopen.symm.trans hcancelled)⟩
    | stopCancelled => exact ⟨fun hcompleted => (nomatch hcompleted),fun _ => ⟨rfl,rfl⟩⟩
    | other name => exact h
    | _ => exact ⟨fun hcompleted => (nomatch hcompleted),fun hcancelled => (nomatch hopen.symm.trans hcancelled)⟩

def shown (v : View) : Option HookState × Bool := (v.state,v.completed)

variable {v : View} {event : HookEvent} {toolName : Option Text}

theorem step_rejected_iff : (v.step event toolName).2 = false ↔ v.nativeCancelled = true ∧ startsTurn event = false := by
  unfold step
  split <;> simp_all

theorem Wf.eq_empty (h : v.Wf) (hstate : v.state = none) : v = {} := by
  obtain ⟨state,completed,nativeCancelled⟩ := v
  cases hstate
  cases completed with
  | true => cases h.completed rfl
  | false =>
    cases nativeCancelled with
    | true => cases (h.nativeCancelled rfl).1
    | false => rfl

theorem starts_of_latch_only (h : isLatchOnly event toolName = true) : startsTurn event = false := by
  cases event with
  | start | userPromptSubmit => cases h
  | _ => rfl

theorem accept_latch_only (h : isLatchOnly event toolName = true) : v.accept event toolName = v := if_pos h

theorem step_passed (h : (v.step event toolName).2 = true) :
    (v.step event toolName).1 = { v with nativeCancelled := false }.accept event toolName := by
  unfold step at h ⊢
  split at h
  · cases h
  · next hopen => rw [if_neg hopen]

theorem Wf.step (h : v.Wf) (event : HookEvent) (toolName : Option Text) : (v.step event toolName).1.Wf := by
  cases hpassed : (v.step event toolName).2 with
  | false => rwa [step_rejected hpassed]
  | true =>
    have hopen : Wf { v with nativeCancelled := false } := ⟨h.completed,fun hno => (nomatch hno)⟩
    rw [step_passed hpassed]
    exact hopen.accept rfl event toolName

theorem empty_wf : Wf {} := ⟨fun h => (nomatch h),fun h => (nomatch h)⟩

theorem empty_passes (event : HookEvent) (toolName : Option Text) : (View.step {} event toolName).2 = true := by
  by_contra hno
  cases (step_rejected_iff.mp (by simpa using hno)).1

theorem accept_nativeCancelled (hopen : v.nativeCancelled = false) :
    (v.accept event toolName).nativeCancelled = (!isLatchOnly event toolName && event = .stopCancelled) := by
  unfold accept
  cases isLatchOnly event toolName with
  | true => exact hopen
  | false => cases event <;> grind
end View

namespace Entry
variable {e : Entry}

def view (e : Entry) : View := ⟨e.state,e.completed,e.nativeCancelled⟩

structure HooksOnly (e : Entry) : Prop where
  background : e.background = []
  backgroundExpired : e.backgroundExpired = false
  hookSeen : e.state ≠ none → e.hookSeen = true
  wf : e.view.Wf

theorem HooksOnly.hookOwnedState (h : e.HooksOnly) : e.hookOwnedState = e.view.state := by
  have hbackground : e.backgroundBusy = false := by simp [backgroundBusy, h.background]
  unfold Entry.hookOwnedState
  by_cases hseen : e.hookSeen = true
  · simp [hseen, hbackground, view]
  · have hstate : e.state = none := by
      by_contra hno
      exact hseen (h.hookSeen hno)
    simp [hseen, view, hstate]

theorem HooksOnly.isCompleted (h : e.HooksOnly) : e.isCompleted = e.view.completed := by
  have hbackground : e.backgroundBusy = false := by simp [backgroundBusy, h.background]
  unfold Entry.isCompleted
  cases hcompleted : e.completed with
  | false => simp [view, hcompleted]
  | true =>
    have hstate : e.state = some .idle := h.wf.completed hcompleted
    have hseen : e.hookSeen = true := h.hookSeen (by simp [hstate])
    simp [view, hcompleted, hstate, hseen, hbackground, h.backgroundExpired]

theorem accept_view (e : Entry) (event : HookEvent) (toolName : Option Text) (now : ℕ) :
    (e.accept event toolName now).view = e.view.accept event toolName := by
  unfold Entry.accept View.accept changeState
  dsimp only
  split_ifs with hlatch hidle hidle' hidle'
  · rfl
  · rfl
  · exact absurd hidle hidle'
  · exact absurd hidle' hidle
  · cases event <;> rfl

theorem accept_provenance (e : Entry) (event : HookEvent) (toolName : Option Text) (now : ℕ) :
    (e.accept event toolName now).lastHookGeneration = e.lastHookGeneration ∧
    (e.accept event toolName now).runtimeLaunchGeneration = e.runtimeLaunchGeneration ∧
    (e.accept event toolName now).legacyTurnStartedAt = e.legacyTurnStartedAt ∧
    (e.accept event toolName now).cancelledAt = e.cancelledAt := by
  unfold Entry.accept changeState
  dsimp only
  split_ifs
  · exact ⟨rfl,rfl,rfl,rfl⟩
  · exact ⟨rfl,rfl,rfl,rfl⟩
  · cases event <;> exact ⟨rfl,rfl,rfl,rfl⟩

theorem accept_backgroundExpired {event : HookEvent} {toolName : Option Text} {now : ℕ}
    (h : e.backgroundExpired = false) : (e.accept event toolName now).backgroundExpired = false := by
  unfold Entry.accept changeState
  dsimp only
  split_ifs
  · exact h
  · exact h
  · cases event <;> first | rfl | exact h

theorem HooksOnly.accept (h : e.HooksOnly) (hopen : e.nativeCancelled = false) (event : HookEvent)
    (toolName : Option Text) (now : ℕ) : (e.accept event toolName now).HooksOnly where
  background := by rw [accept_background, h.background]
  backgroundExpired := accept_backgroundExpired h.backgroundExpired
  hookSeen := fun _ => accept_seen e event toolName now
  wf := by
    rw [accept_view]
    exact h.wf.accept hopen event toolName

end Entry

end Unpeel.Activity
