import Mathlib.Algebra.Order.Group.Nat
import Mathlib.Data.List.Lookmap
import Unpeel.Manifest.PromptTitle

/-! # The activity of a Session

Hooks report the turns of an agent and own its status from the first event on. A
cancellation fences off the events of the interrupted turn until a later prompt was
submitted, background children hold leases of their own, and output only prolongs what
a hook has started. Times are nanoseconds since the epoch.
-/
namespace Unpeel.Activity
open Manifest

/-- `HOOK_IDLE_TIMEOUT`. -/
def hookIdleTimeout : ℕ := 5 * 60 * 10 ^ 9

/-- `LEGACY_GENERATION_STOP_GUARD`. -/
def legacyGenerationStopGuard : ℕ := 30 * 10 ^ 9

def unixMs (time : ℕ) : ℕ := time / 10 ^ 6

def fromUnixMs (milliseconds : ℕ) : ℕ := milliseconds * 10 ^ 6

inductive HookState where
  | busy
  | idle
  | attention
deriving DecidableEq

inductive HookEvent where
  | start
  | userPromptSubmit
  | stop
  | stopFailure
  | stopCancelled
  | idle
  | permissionRequest
  | other (name : Text)
deriving DecidableEq

def startsTurn : HookEvent → Bool
  | .start | .userPromptSubmit => true
  | _ => false

def isLatchOnly (event : HookEvent) (toolName : Option Text) : Bool :=
  match event with
  | .start | .userPromptSubmit | .stop | .stopFailure | .stopCancelled | .idle => false
  | .permissionRequest => toolName = some "AskUserQuestion".toList
  | .other _ => true

structure BackgroundActivity where
  startedAt : ℕ
  deadlineAt : ℕ
  expired : Bool
deriving DecidableEq

def BackgroundActivity.sweep (child : BackgroundActivity) (grew : Bool) (now : ℕ) : BackgroundActivity :=
  if child.expired then child
  else if grew then { child with deadlineAt := now + hookIdleTimeout }
  else if child.deadlineAt ≤ now then { child with expired := true }
  else child

structure PendingOpener where
  event : HookEvent
  toolName : Option Text
  time : ℕ
deriving DecidableEq

structure Entry where
  background : List (Text × BackgroundActivity) := []
  backgroundExpired : Bool := false
  nativeCancelled : Bool := false
  lastCancelledAt : Option ℕ := none
  cancelledAt : Option ℕ := none
  submittedAt : Option ℕ := none
  pendingOpener : Option PendingOpener := none
  lastTurnStartedAt : Option ℕ := none
  completed : Bool := false
  runtimeLaunchGeneration : ℕ := 0
  hookSeen : Bool := false
  state : Option HookState := none
  deadlineAt : Option ℕ := none
  lastSignal : Option ℕ := none
  lastTransitionAt : Option ℕ := none
  lastHookGeneration : Option ℕ := none
  confirmedTurnGeneration : Option ℕ := none
  legacyTurnStartedAt : Option ℕ := none
  foregroundIdentity : Option Text := none
  foregroundIdentityRecorded : Bool := false

/-- `hook-cancellation.json`. -/
structure Cancellation where
  runtimeGeneration : ℕ
  cancelledAt : ℕ
  submittedAt : Option ℕ
deriving DecidableEq

namespace Entry

def backgroundBusy (e : Entry) : Bool := e.background.any fun child => !child.2.expired

def hookOwnedState (e : Entry) : Option HookState :=
  if !e.hookSeen then none
  else if e.state = some .attention then e.state
  else if e.backgroundBusy then some .busy
  else e.state

def isCancelled (e : Entry) : Bool := e.cancelledAt.isSome || e.nativeCancelled

def isCompleted (e : Entry) : Bool :=
  e.hookSeen && e.state = some .idle && e.completed && !e.backgroundExpired && !e.backgroundBusy

def opensFence (cancelledAt : ℕ) (submittedAt : Option ℕ) (time : ℕ) : Bool :=
  submittedAt.any fun submitted => cancelledAt < submitted ∧ submitted ≤ unixMs time

/-- The two fences of `apply_hook_event_unchecked` and whether the event passes. An opening
event that may belong to the next turn is kept. -/
def fence (e : Entry) (event : HookEvent) (toolName : Option Text) (now : ℕ) : Entry × Bool :=
  if e.nativeCancelled ∧ ¬startsTurn event then (e,false) else
    let e := { e with nativeCancelled := false }
    match e.cancelledAt with
    | none => (e,true)
    | some cancelledAt =>
      if startsTurn event ∧ opensFence cancelledAt e.submittedAt now then
        ({ e with cancelledAt := none, pendingOpener := none },true)
      else if startsTurn event ∧ cancelledAt ≤ unixMs now then
        ({ e with pendingOpener := some ⟨event,toolName,now⟩ },false)
      else (e,false)

def changeState (e : Entry) (event : HookEvent) (now : ℕ) : Entry :=
  match event with
  | .start | .userPromptSubmit => { e with
      completed := false, backgroundExpired := false, lastTurnStartedAt := some (unixMs now), state := some .busy
      deadlineAt := some (now + hookIdleTimeout) }
  | .stop => { e with completed := true, state := some .idle, deadlineAt := none }
  | .stopFailure => { e with completed := false, state := some .idle, deadlineAt := none }
  | .stopCancelled => { e with nativeCancelled := true, completed := false, state := some .idle, deadlineAt := none }
  | .idle => { e with completed := false, state := some .idle, deadlineAt := none }
  | .permissionRequest => { e with
      completed := false, state := some .attention, deadlineAt := none, lastSignal := none }
  | .other _ => e

def accept (e : Entry) (event : HookEvent) (toolName : Option Text) (now : ℕ) : Entry :=
  let e := { e with hookSeen := true }
  if isLatchOnly event toolName then e
  else if event = .idle ∧ e.state = some .idle then e
  else changeState { e with lastTransitionAt := some now } event now

theorem accept_seen (e : Entry) (event : HookEvent) (toolName : Option Text) (now : ℕ) :
    (e.accept event toolName now).hookSeen = true := by
  unfold accept changeState
  dsimp only
  split_ifs
  · rfl
  · rfl
  · cases event <;> rfl

theorem accept_background (e : Entry) (event : HookEvent) (toolName : Option Text) (now : ℕ) :
    (e.accept event toolName now).background = e.background := by
  unfold accept changeState
  dsimp only
  split_ifs
  · rfl
  · rfl
  · cases event <;> rfl

def applyHookEventUnchecked (e : Entry) (event : HookEvent) (toolName : Option Text) (now : ℕ) : Entry × Bool :=
  match e.fence event toolName now with
  | (e,false) => (e,false)
  | (e,true) => (e.accept event toolName now,true)

def observeRuntimeLaunch (e : Entry) (generation : ℕ) (launchedAtUnixMs : Option ℕ) : Entry :=
  if e.runtimeLaunchGeneration = generation then e else
    let sawNewLegacyTurn := e.lastHookGeneration.isNone &&
      launchedAtUnixMs.any fun launched => e.legacyTurnStartedAt.any (fromUnixMs launched ≤ ·)
    let e := if e.lastHookGeneration = some generation ∨ sawNewLegacyTurn then e else {}
    { e with
      runtimeLaunchGeneration := generation
      confirmedTurnGeneration := if sawNewLegacyTurn then some generation else e.confirmedTurnGeneration }

def guardsLegacyStop (e : Entry) (event : HookEvent) (now : ℕ) (eventGeneration : Option ℕ) (currentGeneration : ℕ)
    (launchedAtUnixMs : Option ℕ) : Bool :=
  (event = .stop ∨ event = .stopFailure ∨ event = .stopCancelled ∨ event = .idle) ∧ eventGeneration = none ∧
    1 < currentGeneration ∧ e.confirmedTurnGeneration ≠ some currentGeneration ∧
    launchedAtUnixMs.any fun launched => now - fromUnixMs launched < legacyGenerationStopGuard

def confirmTurn (e : Entry) (event : HookEvent) (now : ℕ) (eventGeneration : Option ℕ) (currentGeneration : ℕ) : Entry :=
  if startsTurn event then { e with
    confirmedTurnGeneration := some (eventGeneration.getD currentGeneration)
    legacyTurnStartedAt := if eventGeneration.isNone then some now else e.legacyTurnStartedAt }
  else e

def applyHookEventForRuntime (e : Entry) (event : HookEvent) (toolName : Option Text) (now : ℕ)
    (eventGeneration : Option ℕ) (currentGeneration : ℕ) (launchedAtUnixMs : Option ℕ) : Entry × Bool :=
  let e := e.observeRuntimeLaunch currentGeneration launchedAtUnixMs
  if eventGeneration.any (· < currentGeneration) then (e,false)
  else if eventGeneration.isNone && launchedAtUnixMs.any (fun launched => now < fromUnixMs launched) then (e,false)
  else if startsTurn event = false ∧ e.guardsLegacyStop event now eventGeneration currentGeneration launchedAtUnixMs then
    (e,false)
  else
    match (e.confirmTurn event now eventGeneration currentGeneration).applyHookEventUnchecked event toolName now with
    | (e,false) => (e,false)
    | (e,true) => ({ e with lastHookGeneration := eventGeneration },true)

def observeCancellation (e : Entry) (marker : Cancellation) (generation : ℕ) : Entry × Bool :=
  if marker.runtimeGeneration ≠ generation then (e,false) else
    let e := if e.lastCancelledAt.all (· < marker.cancelledAt) then
        let e := { e with lastCancelledAt := some marker.cancelledAt, pendingOpener := none }
        let alreadyStartedNextTurn := marker.submittedAt.any fun submitted =>
          marker.cancelledAt < submitted ∧ e.lastTurnStartedAt.any (submitted ≤ ·)
        if alreadyStartedNextTurn then e else { e with
          completed := false
          cancelledAt := some marker.cancelledAt
          state := if e.hookSeen then some .idle else e.state
          deadlineAt := none }
      else e
    let pending := e.pendingOpener
    let e := { e with submittedAt := marker.submittedAt, pendingOpener := none }
    match pending with
    | none => (e,false)
    | some opener => e.applyHookEventUnchecked opener.event opener.toolName opener.time

/-- `sync_cancellation_from_disk`. -/
def syncCancellation (e : Entry) (marker : Option Cancellation) (generation : ℕ) : Entry × Bool :=
  match marker with
  | none => (e,false)
  | some marker => e.observeCancellation marker generation

def noteChild (e : Entry) (id : Text) (startedAt : ℕ) : Entry :=
  if (e.background.lookup id).any (·.startedAt = startedAt) then e
  else { e with
    hookSeen := true
    background := (id,⟨startedAt,startedAt + hookIdleTimeout,false⟩) :: e.background.filter (·.1 ≠ id) }

/-- The children of a read, without those from before the launch; `none` is a failed read. -/
def currentChildren (activities : List (Text × ℕ)) (notBeforeUnixMs : Option ℕ) : List (Text × ℕ) :=
  activities.filter fun child => notBeforeUnixMs.all (· ≤ unixMs child.2)

/-- `sync_background_from_disk`. -/
def syncBackground (e : Entry) (activities : Option (List (Text × ℕ))) (notBeforeUnixMs : Option ℕ) : Entry :=
  match activities with
  | none => e
  | some activities =>
    let current := currentChildren activities notBeforeUnixMs
    let e := current.foldl (fun e child => e.noteChild child.1 child.2) e
    { e with background := e.background.filter fun child => current.any (·.1 = child.1) }

def observeForegroundRuntime (e : Entry) (observed : Option Text) : Entry :=
  let changedToNewAgent := e.foregroundIdentityRecorded && observed.isSome && e.foregroundIdentity ≠ observed
  let e := if changedToNewAgent then { runtimeLaunchGeneration := e.runtimeLaunchGeneration } else e
  { e with foregroundIdentity := observed, foregroundIdentityRecorded := true }

def noteOutputAndSweep (e : Entry) (activitySignal : ℕ) (allowAttentionClear : Bool) (now : ℕ) : Entry :=
  let grew := e.lastSignal.any (· ≠ activitySignal)
  let runsOut (child : Text × BackgroundActivity) := !child.2.expired && !grew && child.2.deadlineAt ≤ now
  let e := { e with
    lastSignal := some activitySignal
    background := e.background.map fun child => (child.1,child.2.sweep grew now)
    backgroundExpired := e.backgroundExpired || e.background.any runsOut }
  if e.cancelledAt.isSome || e.nativeCancelled then e else
    match e.state with
    | some .attention =>
      if allowAttentionClear && grew then { e with state := some .busy, deadlineAt := some (now + hookIdleTimeout) }
      else e
    | some .busy =>
      if e.deadlineAt.any (· ≤ now) then { e with completed := false, state := some .idle, deadlineAt := none }
      else if grew then { e with deadlineAt := some (now + hookIdleTimeout) }
      else e
    | _ => e

def clearOutputBaseline (e : Entry) : Entry := { e with lastSignal := none }

end Entry

/-- `last-hook-event.json`, if it can be read and parsed; a file system without
modification times gives `none`. -/
structure SeedEvent where
  modified : Option ℕ
  event : HookEvent
  toolName : Option Text
  generation : Option ℕ

/-- What `seed_from_disk` finds in the Session directory. `expired` is `hook_turn_expired`. -/
structure SeedFiles where
  marker : Option Cancellation
  children : Option (List (Text × ℕ))
  event : Option SeedEvent
  outputModified : Option ℕ
  expired : Bool

namespace Entry

def seedIsNews (e : Entry) (seed : SeedEvent) (notBeforeUnixMs : Option ℕ) : Bool :=
  !(e.lastTransitionAt.any fun last => seed.modified.any (· ≤ last)) &&
    notBeforeUnixMs.all (· ≤ (seed.modified.map unixMs).getD 0)

def seedLease (e : Entry) (seed : SeedEvent) (anchorStartToOutput : Bool) (outputModified : Option ℕ) : ℕ :=
  let seedAt := seed.modified.getD 0
  let anchor := match seed.event with
    | .userPromptSubmit => true
    | .start => anchorStartToOutput
    | _ => false
  if anchor && !e.isCancelled then max seedAt (outputModified.getD 0) else seedAt

/-- The last part of `seed_from_disk`: the durable event, if it is news. -/
def applySeed (e : Entry) (seed : SeedEvent) (files : SeedFiles) (anchorStartToOutput : Bool)
    (notBeforeUnixMs : Option ℕ) (currentGeneration : ℕ) : Entry × Bool :=
  if e.seedIsNews seed notBeforeUnixMs then
    match e.applyHookEventForRuntime seed.event seed.toolName (seed.modified.getD 0) seed.generation currentGeneration
        notBeforeUnixMs with
    | (e',true) =>
      if startsTurn seed.event then
        if files.expired then ({ e' with state := some .idle, deadlineAt := none },true)
        else ({ e' with
          deadlineAt := some (e.seedLease seed anchorStartToOutput files.outputModified + hookIdleTimeout) },true)
      else (e',true)
    | (e',false) => (e',false)
  else (e,false)

/-- The markers `seed_from_disk` reads before the durable event. -/
def syncMarkers (e : Entry) (files : SeedFiles) (notBeforeUnixMs : Option ℕ) (currentGeneration : ℕ) : Entry × Bool :=
  let r := (e.observeRuntimeLaunch currentGeneration notBeforeUnixMs).syncCancellation files.marker currentGeneration
  (r.1.syncBackground files.children notBeforeUnixMs,r.2)

def seedFromDisk (e : Entry) (files : SeedFiles) (anchorStartToOutput : Bool) (notBeforeUnixMs : Option ℕ)
    (currentGeneration : ℕ) : Entry :=
  let e := (e.syncMarkers files notBeforeUnixMs currentGeneration).1
  match files.event with
  | none => e
  | some seed => (e.applySeed seed files anchorStartToOutput notBeforeUnixMs currentGeneration).1

end Entry

end Unpeel.Activity
