import Unpeel.Foundation.Runs
import Unpeel.Resume.RelaunchCommand

/-! # Resuming an agent in its own shell

`resume_agent_in_place` one step at a time: every read or update of the manifest, every
rename, every look at the terminal's foreground and every write to the PTY is a step,
and each may fail. The restart lock excludes user input, `Kill` and other resumes;
the runtime observer, the agent's hooks and whoever files the Session go on meanwhile.
-/
namespace Unpeel.Resume
open Manifest Runs

/-- `u64::MAX`. -/
def u64Max : ℕ := 18446744073709551615

/-- `saturating_add(1).max(1)`. -/
def nextGeneration (generation : ℕ) : ℕ := max (min (generation + 1) u64Max) 1

/-- What the call reads of the Session's surroundings: the catalogue of runtimes, the
shell that was spawned and the path of the completion marker. -/
structure HostSettings where
  canResumeAgent : Text → Bool
  runtimeForCommand : Text → Option Text
  shellFamily : ShellFamily
  completionPath : Text

/-- What a call that fails must leave as it was: the manifest, the latch in memory and
`last-hook-event.json`. -/
structure Ground where
  manifest : ManifestFile
  latch : ℕ
  marker : Option Text
deriving DecidableEq

inductive ResumeError where
  | inProgress
  | noManifest
  | notRunning
  | generationChanged (expected current : ℕ)
  | launchPending
  | notResumable
  | unknownRuntime
  | agentRunning
  | foregroundUnknown
  | unsupportedShell
  | relaunchUnknown
  | lostTerminal
  | staleCompletionMarker
  | markerNotStaged
  | manifestNotUpdated
  | changedBeforeSubmission
  | notSubmitted
  | manifestDisappeared
  | relaunchedNotRecorded
deriving DecidableEq

inductive Stage where
  | latching
  | freshShell
  | relaunching
  | secondShell
  | waitingShell
  | completing
  | stagingLook
  | stagingMove
  | foreground
  | publishing
  | latchSetting
  | lastForeground
  | submitting (rest : List UInt8)
  | flushing
  | committing
  | storing (result : Except ResumeError Unit)
  | discarding (result : Except ResumeError Unit)
  | undoManifest (error : ResumeError) (completion : Bool)
  | undoLatch (error : ResumeError) (completion : Bool)
  | undoCompletion (error : ResumeError)
  | undoLook (error : ResumeError)
  | undoMove (error : ResumeError)
  | undoDrop (error : ResumeError)

/-- A call in progress. `staged` is the marker under its private name. The last three say
whether a payload byte was written, whether every undo so far succeeded and whether a
marker was published since the call began. -/
structure ResumeCall where
  expected : ℕ
  loaded : HostedSessionManifest
  stage : Stage
  relaunchCommand : Text
  staged : Option Text
  submitted : Bool
  undone : Bool
  published : Bool

inductive Holder where
  | free
  | input (rest : List UInt8)
  | resume (call : ResumeCall)

inductive Observer where
  | idle
  | loaded (pending : ℕ)
  | updated (pending : ℕ)

/-- What reaches the terminal, with the marks of each submission: its last look at the
foreground, its end, and an old marker put back. -/
inductive Entry where
  | user (byte : UInt8)
  | payload (generation : ℕ) (byte : UInt8)
  | checked (generation : ℕ)
  | accepted (generation : ℕ)
  | failed (generation : ℕ)
  | restored (generation : ℕ)
deriving DecidableEq

structure Return where
  result : Except ResumeError Unit
  submitted : Bool
  undone : Bool
  published : Bool
  left : Ground
  untouched : Ground

/-- `shadow` is the ground as it would be without the call in progress. -/
structure ResumeSession where
  ground : Ground
  shadow : Ground
  runtimeGeneration : ℕ
  complete : Bool
  running : Bool
  holder : Holder
  observer : Observer
  log : List Entry
  returns : List Return

inductive Answer where
  | ok
  | no
  | fails
  | relaunch (command : Text)
  | accepts (count : ℕ)
deriving DecidableEq

inductive Other where
  | observes (pending : ℕ) (clear : Bool) (runtime : Option (Option Text)) (now : ℕ)
  | clears (pending : ℕ)
  | exits (now : ℕ)
  | removes
  | publishes (marker : Text)

namespace Other

def apply (other : Other) (ground : Ground) : Ground :=
  match other with
  | .observes pending clear runtime now =>
    let update m : HostedSessionManifest := { m with
      runtimeLaunchPending := m.runtimeLaunchPending && !(m.runtimeLaunchGeneration = pending && clear)
      runtime := runtime.getD m.runtime }
    { ground with manifest := (updateManifestSession ground.manifest now true update).1 }
  | .clears pending => { ground with latch := if ground.latch = pending then 0 else ground.latch }
  | .exits now =>
    let update m : HostedSessionManifest := { m with
      state := .exited, runtimeLaunchPending := false, runtime := none }
    { ground with manifest := (updateManifestSession ground.manifest now true update).1 }
  | .removes => { ground with manifest := none }
  | .publishes marker => { ground with marker := some marker }

def isPublish : Other → Bool
  | .publishes _ => true
  | _ => false

end Other

inductive ResumeEvent where
  | input (data : List UInt8)
  | types (count : ℕ)
  | inputEnds
  | kill
  | resume (expected : ℕ) (readable : Bool)
  | call (answer : Answer) (now : ℕ)
  | observerLoads
  | observerUpdates (clear : Bool) (runtime : Option (Option Text)) (written : Bool) (now : ℕ)
  | observerClears
  | exits (now : ℕ)
  | removed
  | publishes (marker : Text)

namespace ResumeSession
variable (s : ResumeSession) (call : ResumeCall)

def goOn (stage : Stage) : ResumeSession := { s with holder := .resume { call with stage := stage } }

def finish (result : Except ResumeError Unit) : ResumeSession :=
  { s with
    holder := .free
    returns := s.returns ++ [⟨result,call.submitted,call.undone,call.published,s.ground,s.shadow⟩] }

def rollBack (error : ResumeError) : ResumeSession :=
  if call.staged.isSome then s.goOn call (.undoLook error) else s.finish call (.error error)

def record (entry : Entry) : ResumeSession := { s with log := s.log ++ [entry] }

def others (other : Other) : ResumeSession :=
  { s with
    ground := other.apply s.ground
    shadow := other.apply s.shadow
    holder := match s.holder with
      | .resume call => .resume { call with published := call.published || other.isPublish }
      | holder => holder }

def refuse (error : ResumeError) : ResumeSession :=
  { s with returns := s.returns ++ [⟨.error error,false,true,false,s.ground,s.ground⟩] }

/-- `resume_agent_in_place` up to its look at the latch. -/
def begin (expected : ℕ) (manifest : ManifestFile) : ResumeSession :=
  match manifest with
  | none => s.refuse .noManifest
  | some manifest =>
    if manifest.state ≠ .running then s.refuse .notRunning
    else if manifest.runtimeLaunchGeneration ≠ expected then
      s.refuse (.generationChanged expected manifest.runtimeLaunchGeneration)
    else if manifest.runtimeLaunchPending then s.refuse .launchPending
    else { s with
      shadow := s.ground
      holder := .resume ⟨expected,manifest,.latching,[],none,false,true,false⟩ }

end ResumeSession

/-- `clear_runtime_launch_pending` on the manifest. -/
def clearPending (expected : ℕ) (manifest : HostedSessionManifest) : HostedSessionManifest :=
  if manifest.runtimeLaunchGeneration = expected then { manifest with runtimeLaunchPending := false } else manifest

def setPending (expected : ℕ) (manifest : HostedSessionManifest) : HostedSessionManifest :=
  if manifest.state = .running ∧ manifest.runtimeLaunchGeneration = expected ∧ manifest.runtimeLaunchPending = false then
    { manifest with runtimeLaunchPending := true }
  else manifest

def commitLaunch (relaunchCommand : Text) (generation : ℕ) (manifest : HostedSessionManifest) : HostedSessionManifest :=
  { manifest with
    command := relaunchCommand
    runtime := none
    runtimeLaunchGeneration := generation
    runtimeLaunchPending := true }

section CallSteps
variable (settings : HostSettings) (s : ResumeSession) (call : ResumeCall)

namespace ResumeCall

def generation (call : ResumeCall) : ℕ := nextGeneration call.loaded.runtimeLaunchGeneration

end ResumeCall

/-- Everything before the marker is staged: no step here changes anything that lasts but
the completion marker, which a launch must not find. -/
def prepareStep (answer : Answer) : Stage → ResumeSession
  | .latching =>
    let command := trim call.loaded.command
    if s.ground.latch ≠ 0 then s.finish call (.error .launchPending)
    else if settings.canResumeAgent command = false then s.finish call (.error .notResumable)
    else if (settings.runtimeForCommand command).isNone then s.finish call (.error .unknownRuntime)
    else s.goOn call .freshShell
  | .freshShell =>
    match answer with
    | .ok =>
      if settings.shellFamily = .other then s.finish call (.error .unsupportedShell)
      else s.goOn call .relaunching
    | .no => s.finish call (.error .agentRunning)
    | _ => s.finish call (.error .foregroundUnknown)
  | .relaunching =>
    match answer with
    | .relaunch command => s.goOn { call with relaunchCommand := command } .secondShell
    | _ => s.finish call (.error .relaunchUnknown)
  | .secondShell =>
    match answer with
    | .ok => s.goOn call .waitingShell
    | .no => s.finish call (.error .agentRunning)
    | _ => s.finish call (.error .foregroundUnknown)
  | .waitingShell =>
    match answer with
    | .ok => s.goOn call .completing
    | .no => s.finish call (.error .lostTerminal)
    | _ => s.finish call (.error .foregroundUnknown)
  | .completing =>
    match answer with
    | .ok => { s with complete := false }.goOn call .stagingLook
    | _ => s.finish call (.error .staleCompletionMarker)
  | _ => s

/-- `stage_restart_marker`, and the last of the manifest before the latch. -/
def stageStep (answer : Answer) (now : ℕ) : Stage → ResumeSession
  | .stagingLook => s.goOn call (if s.ground.marker.isSome then .stagingMove else .foreground)
  | .stagingMove =>
    match answer,s.ground.marker with
    | .ok,some marker =>
      { s with ground := { s.ground with marker := none } }.goOn { call with staged := some marker } .foreground
    | _,_ => s.finish call (.error .markerNotStaged)
  | .foreground =>
    match answer with
    | .ok => s.goOn call .publishing
    | .no => s.rollBack call .lostTerminal
    | _ => s.rollBack call .foregroundUnknown
  | .publishing =>
    let (manifest,result) := updateManifestSession s.ground.manifest now (answer = .ok) (setPending call.expected)
    let s := { s with ground := { s.ground with manifest := manifest } }
    match result with
    | .error _ => s.rollBack call .manifestNotUpdated
    | .ok none => s.rollBack call .noManifest
    | .ok (some manifest) =>
      if manifest.runtimeLaunchGeneration ≠ call.expected ∨ manifest.runtimeLaunchPending = false then
        s.rollBack call .changedBeforeSubmission
      else s.goOn call .latchSetting
  | _ => s

def submitStep (answer : Answer) (now : ℕ) : Stage → ResumeSession
  | .latchSetting =>
    if s.ground.latch = 0 then
      { s with ground := { s.ground with latch := call.generation } }.goOn call .lastForeground
    else s.goOn call (.undoManifest .launchPending false)
  | .lastForeground =>
    match answer with
    | .ok =>
      let payload := relaunchPayload settings.shellFamily settings.completionPath call.relaunchCommand call.generation
      (s.record (.checked call.generation)).goOn call (.submitting payload)
    | .no => s.goOn call (.undoManifest .lostTerminal false)
    | _ => s.goOn call (.undoManifest .foregroundUnknown false)
  | .submitting rest =>
    match answer with
    | .accepts count =>
      if 0 < count ∧ count ≤ rest.length then
        let s := { s with log := s.log ++ (rest.take count).map (Entry.payload call.generation) }
        let call := { call with submitted := true }
        if count = rest.length then (s.record (.accepted call.generation)).goOn call .flushing
        else s.goOn call (.submitting (rest.drop count))
      else (s.record (.failed call.generation)).goOn call (.undoManifest .notSubmitted true)
    | _ => (s.record (.failed call.generation)).goOn call (.undoManifest .notSubmitted true)
  | .flushing => s.goOn call (if answer = .ok then .committing else .undoManifest .notSubmitted true)
  | .committing =>
    let (manifest,result) := updateManifestSession s.ground.manifest now (answer = .ok)
      (commitLaunch call.relaunchCommand call.generation)
    let s := { s with ground := { s.ground with manifest := manifest } }
    match result with
    | .ok (some _) => s.goOn call (.storing (.ok ()))
    | .ok none => s.goOn call (.storing (.error .manifestDisappeared))
    | .error _ => s.goOn call (.storing (.error .relaunchedNotRecorded))
  | .storing result =>
    let s := { s with runtimeGeneration := call.generation }
    if call.staged.isSome then s.goOn call (.discarding result) else s.finish call result
  | .discarding result => s.finish call result
  | _ => s

def undoStep (answer : Answer) (now : ℕ) : Stage → ResumeSession
  | .undoManifest error completion =>
    let manifest := (updateManifestSession s.ground.manifest now (answer = .ok) (clearPending call.expected)).1
    let call := { call with undone := call.undone && answer = Answer.ok }
    { s with ground := { s.ground with manifest := manifest } }.goOn call (.undoLatch error completion)
  | .undoLatch error completion =>
    let s := { s with ground := (Other.clears call.generation).apply s.ground }
    if completion then s.goOn call (.undoCompletion error) else s.rollBack call error
  | .undoCompletion error =>
    let s := { s with complete := s.complete && answer ≠ Answer.ok }
    s.rollBack call error
  -- A marker published since stands; the old one goes only where none is.
  | .undoLook error => s.goOn call (if s.ground.marker.isNone then .undoMove error else .undoDrop error)
  | .undoMove error =>
    match answer with
    | .ok =>
      ({ s with ground := { s.ground with marker := call.staged } }.record (.restored call.generation)).finish
        call (.error error)
    | _ => s.finish { call with undone := false } (.error error)
  | .undoDrop error => s.finish call (.error error)
  | _ => s

def callStep (answer : Answer) (now : ℕ) : ResumeSession :=
  match call.stage with
  | .latching | .freshShell | .relaunching | .secondShell | .waitingShell | .completing =>
    prepareStep settings s call answer call.stage
  | .stagingLook | .stagingMove | .foreground | .publishing => stageStep s call answer now call.stage
  | .latchSetting | .lastForeground | .submitting _ | .flushing | .committing | .storing _ | .discarding _ =>
    submitStep settings s call answer now call.stage
  | .undoManifest .. | .undoLatch .. | .undoCompletion _ | .undoLook _ | .undoMove _ | .undoDrop _ =>
    undoStep s call answer now call.stage

end CallSteps

def observe (s : ResumeSession) (pending : ℕ) (clear : Bool) (runtime : Option (Option Text)) (written : Bool)
    (now : ℕ) : ResumeSession :=
  let clearPending := pending ≠ 0 && clear
  if (clearPending || runtime.isSome) && written then
    let t := s.others (.observes pending clearPending runtime now)
    { t with observer :=
        if t.ground.manifest.any fun m => m.runtimeLaunchGeneration = pending && !m.runtimeLaunchPending then
          .updated pending
        else .idle }
  else { s with observer := .idle }

def resumeStep (settings : HostSettings) (s : ResumeSession) : ResumeEvent → Option ResumeSession
  | .input data =>
    match s.holder with
    | .free => some { s with holder := .input data }
    | _ => none
  | .types count =>
    match s.holder with
    | .input rest => some { s with log := s.log ++ (rest.take count).map Entry.user, holder := .input (rest.drop count) }
    | _ => none
  | .inputEnds =>
    match s.holder with
    | .input _ => some { s with holder := .free }
    | _ => none
  | .kill =>
    match s.holder with
    | .free => some { s with running := false }
    | _ => none
  | .resume expected readable =>
    match s.holder with
    | .free => some (s.begin expected (if readable then s.ground.manifest else none))
    | _ => some (s.refuse .inProgress)
  | .call answer now =>
    match s.holder with
    | .resume call => some (callStep settings s call answer now)
    | _ => none
  | .observerLoads =>
    match s.observer with
    | .idle => some { s with observer := .loaded s.ground.latch }
    | _ => none
  | .observerUpdates clear runtime written now =>
    match s.observer with
    | .loaded pending => some (observe s pending clear runtime written now)
    | _ => none
  | .observerClears =>
    match s.observer with
    | .updated pending => some { s.others (.clears pending) with observer := .idle }
    | _ => none
  | .exits now => some (s.others (.exits now))
  | .removed => some (s.others .removes)
  | .publishes marker => some (s.others (.publishes marker))

/-- A Host that has just launched, or taken over, a Session: the latch in memory says what
the manifest says. -/
def startResume (manifest : HostedSessionManifest) (marker : Option Text) : ResumeSession :=
  let latch := if manifest.runtimeLaunchPending then manifest.runtimeLaunchGeneration else 0
  let ground : Ground := ⟨some manifest,latch,marker⟩
  ⟨ground,ground,manifest.runtimeLaunchGeneration,false,true,.free,.idle,[],[]⟩

end Unpeel.Resume
