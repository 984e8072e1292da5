import Mathlib.Data.List.Infix
import Mathlib.Data.Nat.Dist
import Unpeel.Manifest.PromptTitle

/-! # Whose pid it is

A pid alone says nothing about the process it names today: the kernel hands it out
again. A record keeps the start time beside the pid, and a process that started at
another time is somebody else's.
-/
namespace Unpeel.Reaping
open Manifest

/-- A process in the table. `foreign` is one of another user, on which `kill` answers
`EPERM`; `argv` is the line `ps` prints for it. -/
structure Process where
  startedAt : ℕ
  zombie : Bool
  foreign : Bool
  argv : Text
deriving DecidableEq

abbrev ProcessTable := ℕ → Option Process

inductive Platform where
  | macos
  | linux
deriving DecidableEq

structure Answers where
  startTime : Bool
  ps : Bool
deriving DecidableEq

variable (platform : Platform) (table : ProcessTable) (answers : Answers)

def processIsZombie (pid : ℕ) : Bool :=
  pid ≠ 0 && (table pid).any fun p => match platform with
    | .macos => !p.foreign && p.zombie
    | .linux => p.zombie

def processExists (pid : ℕ) : Bool :=
  pid ≠ 0 && (table pid).any fun p => p.foreign || !processIsZombie platform table pid

def processStartTimeMs (pid : ℕ) : Option ℕ :=
  if answers.startTime then (table pid).map Process.startedAt else none

/-- No answer where `ps` fails, finds no such process or prints an empty line. -/
def processArgvMentions (pid : ℕ) (needle : Text) : Option Bool :=
  if answers.ps then
    ((table pid).filter fun p => trim p.argv ≠ []).map fun p => decide (needle <:+: p.argv)
  else none

/-- `PID_START_TOLERANCE_MS`. -/
def pidStartToleranceMs : ℕ := 10000

inductive PidIdentity where
  | «matches»
  | notOurs
  | unknown
deriving DecidableEq

def startTimeIdentity (recorded actual : Option ℕ) : Option PidIdentity :=
  match recorded,actual with
  | some recorded,some actual =>
    some (if Nat.dist actual recorded ≤ pidStartToleranceMs then .matches else .notOurs)
  | _,_ => none

def recordedPidIdentity (pid : ℕ) (recordedStartedAtMs : Option ℕ) : PidIdentity :=
  if processExists platform table pid then
    (startTimeIdentity recordedStartedAtMs (processStartTimeMs table answers pid)).getD .unknown
  else .notOurs

def manifestLaunchingHostIsAlive (manifest : HostedSessionManifest) : Bool :=
  if manifest.state ≠ .running ∨ manifest.pid.isSome then false
  else manifest.hostPid.any fun hostPid =>
    recordedPidIdentity platform table answers hostPid manifest.hostPidStartedAt = .matches

def manifestLastHeartbeatAt (manifest : HostedSessionManifest) : ℕ :=
  if 0 < manifest.heartbeatAt then manifest.heartbeatAt else manifest.updatedAt

def StartMatches (recorded found : Option ℕ) : Prop :=
  startTimeIdentity recorded found = some .matches

instance (recorded found : Option ℕ) : Decidable (StartMatches recorded found) :=
  inferInstanceAs (Decidable (_ = _))

theorem startMatches_of_identity {recorded : Option ℕ} {pid : ℕ}
    (h : startTimeIdentity recorded (processStartTimeMs table answers pid) = some .matches) :
    StartMatches recorded ((table pid).map Process.startedAt) := by
  unfold processStartTimeMs at h
  split at h
  · exact h
  · cases recorded <;> simp [startTimeIdentity] at h

end Unpeel.Reaping
