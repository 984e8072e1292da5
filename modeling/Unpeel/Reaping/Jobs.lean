import Unpeel.Foundation.Runs
import Unpeel.Reaping.Identity

/-! # The four functions that signal recorded processes

`stop_unreachable_session_child`, `reap_dead_sessions`, `reap_orphan_session_hosts` and
`HandedOverChild::kill`, one system call at a time. Between any two of them a process
may exit, be collected and leave its pid to another.
-/
namespace Unpeel.Reaping
open Manifest Runs

inductive Signal where
  | term
  | kill
deriving DecidableEq

inductive ReapReason where
  | exited
  | archived
deriving DecidableEq

structure ReapedHost where
  sessionId : Text
  hostPid : ℕ
  reason : ReapReason
deriving DecidableEq

inductive Call where
  | stop (manifest : HostedSessionManifest)
  | reapDead (manifest : HostedSessionManifest) (now : ℕ) (rest : List HostedSessionManifest)
  | reapOrphans (manifest : HostedSessionManifest) (reason : ReapReason) (corePid : Option ℕ)
      (rest : List (HostedSessionManifest × Bool)) (reaped : List ReapedHost)
  | killChild
deriving DecidableEq

/-- The next system call. `waiting n` is the poll loop with `n` sleeps to go, `last` the
look before the escalation. -/
inductive Stage where
  | probing
  | zombie
  | starting
  | argv
  | pinging (identity : PidIdentity)
  | sessionHostArg
  | ptyCoreArg
  | termGroup
  | termPid
  | waiting (polls : ℕ)
  | last
  | killGroup
  | killPid
  | filing
deriving DecidableEq

/-- One recorded process in hand. `found` is the start time of the process that the
latest identity check looked at, `waited` whether the function slept since. -/
structure Job where
  call : Call
  pid : ℕ
  recorded : Option ℕ
  stage : Stage
  found : Option ℕ
  waited : Bool
deriving DecidableEq

structure Sent where
  signal : Signal
  pid : ℕ
  group : Bool
  recorded : Option ℕ
  found : Option ℕ
  waited : Bool
deriving DecidableEq

inductive Outcome where
  | stopped (result : Except Text Bool)
  | reapedDead
  | reapedOrphans (reaped : List ReapedHost)
  | killed (ok : Bool)

inductive Ping where
  | answered
  | refused
  | timedOut
deriving DecidableEq

structure Reply where
  answers : Answers
  ping : Ping
  killed : Bool
deriving DecidableEq

structure Effect where
  job : Option Job
  sent : List Sent
  filed : List Text
  outcome : List Outcome

/-- `REAP_STALE_AGE_MS`. -/
def reapStaleAgeMs : ℕ := 24 * 60 * 60 * 1000

/-- `STOP_UNREACHABLE_LAUNCH_WINDOW_MS`. -/
def stopUnreachableLaunchWindowMs : ℕ := 2 * 60000

/-- `SESSION_HOST_ARG`. -/
def sessionHostArg : Text := "__session_host__".toList

/-- `PTY_CORE_ARG`. -/
def ptyCoreArg : Text := "__pty_core__".toList

/-- The loop of `reap_dead_sessions` up to the next manifest with a child to look at. -/
def reapDeadFrom (now : ℕ) : List HostedSessionManifest → Option Job
  | [] => none
  | manifest :: rest =>
    if manifest.state ≠ .running then reapDeadFrom now rest
    else match manifest.pid with
      | none => reapDeadFrom now rest
      | some pid => some ⟨.reapDead manifest now rest,pid,manifest.pidStartedAt,.probing,none,false⟩

/-- The loop of `reap_orphan_session_hosts` up to the next Host to look at. The flag beside
a manifest is whether `archived.json` is there. -/
def reapOrphansFrom (corePid : Option ℕ) (reaped : List ReapedHost) :
    List (HostedSessionManifest × Bool) → Option Job
  | [] => none
  | (manifest,archived) :: rest =>
    if manifest.state = .running ∧ archived = false then reapOrphansFrom corePid reaped rest
    else match manifest.hostPid with
      | none => reapOrphansFrom corePid reaped rest
      | some hostPid =>
        if hostPid ≤ 1 ∨ some hostPid = corePid then reapOrphansFrom corePid reaped rest
        else
          let reason := if manifest.state = .exited then ReapReason.exited else .archived
          some ⟨.reapOrphans manifest reason corePid rest reaped,hostPid,manifest.hostPidStartedAt,.probing,none,false⟩

def Call.leave : Call → Effect
  | .stop _ => ⟨none,[],[],[.stopped (.ok true)]⟩
  | .reapDead _ now rest =>
    match reapDeadFrom now rest with
    | none => ⟨none,[],[],[.reapedDead]⟩
    | some job => ⟨some job,[],[],[]⟩
  | .reapOrphans _ _ corePid rest reaped =>
    match reapOrphansFrom corePid reaped rest with
    | none => ⟨none,[],[],[.reapedOrphans reaped]⟩
    | some job => ⟨some job,[],[],[]⟩
  | .killChild => ⟨none,[],[],[.killed true]⟩

namespace Job

def ofManifest (job : Job) : Option HostedSessionManifest :=
  match job.call with
  | .stop manifest => some manifest
  | .reapDead manifest _ _ => some manifest
  | _ => none

def orphanHost (job : Job) : Bool :=
  match job.call with
  | .reapOrphans .. => true
  | _ => false

/-- The guard of the two child paths before each group signal; the loop over orphans has
left out those pids before. -/
def signalsGroup (job : Job) : Bool := job.orphanHost || 1 < job.pid

def goTo (job : Job) (stage : Stage) : Effect := ⟨some { job with stage := stage },[],[],[]⟩

def identified (job : Job) (identity : PidIdentity) : Effect :=
  match job.call with
  | .stop _ => if identity = .matches then job.goTo .termGroup else job.goTo .filing
  | .reapDead manifest now _ =>
    if identity = .notOurs then job.goTo .filing
    else if now - manifestLastHeartbeatAt manifest < reapStaleAgeMs then job.call.leave
    else job.goTo (.pinging identity)
  | .reapOrphans .. => if identity = .matches then job.goTo .sessionHostArg else job.call.leave
  | .killChild => if identity = .matches then job.goTo .killPid else job.call.leave

def send (job : Job) (signal : Signal) (group : Bool) (stage : Stage) : Effect :=
  ⟨some { job with stage := stage },[⟨signal,job.pid,group,job.recorded,job.found,job.waited⟩],[],[]⟩

section Steps
variable (platform : Platform) (table : ProcessTable)

/-- `mark_manifest_exited`, and whatever follows it. -/
def file (job : Job) : Effect :=
  match job.call with
  | .stop manifest => { job.call.leave with filed := [manifest.id] }
  | .reapDead manifest _ _ => { job.call.leave with filed := [manifest.id] }
  | .reapOrphans manifest reason corePid rest reaped =>
    let call := Call.reapOrphans manifest reason corePid rest (reaped ++ [⟨manifest.id,job.pid,reason⟩])
    { call.leave with filed := [manifest.id] }
  | .killChild => job.call.leave

def step (job : Job) (reply : Reply) : Effect :=
  match job.stage with
  | .probing =>
    if processExists platform table job.pid then
      job.goTo (if job.ofManifest.isSome then .zombie else .starting)
    else job.identified .notOurs
  | .zombie => if processIsZombie platform table job.pid then job.identified .notOurs else job.goTo .starting
  | .starting =>
    let job := { job with found := (table job.pid).map Process.startedAt, waited := false }
    match startTimeIdentity job.recorded (processStartTimeMs table reply.answers job.pid) with
    | some identity => job.identified identity
    | none => if job.ofManifest.isSome then job.goTo .argv else job.identified .unknown
  | .argv =>
    let job := { job with found := (table job.pid).map Process.startedAt, waited := false }
    let mentioned := job.ofManifest.bind fun m => processArgvMentions table reply.answers job.pid m.id
    job.identified (if mentioned = some true then .matches else .unknown)
  | .pinging identity =>
    let next := if identity = .matches then Stage.termGroup else .filing
    match reply.ping with
    | .answered => job.call.leave
    | .refused => job.goTo next
    | .timedOut => Job.goTo { job with waited := true } next
  -- The `ps` probes look at the process once more; they are no waits.
  | .sessionHostArg =>
    if processArgvMentions table reply.answers job.pid sessionHostArg = some true then job.goTo .ptyCoreArg
    else job.call.leave
  | .ptyCoreArg =>
    if processArgvMentions table reply.answers job.pid ptyCoreArg = some true then job.call.leave
    else job.goTo .termGroup
  | .termGroup =>
    if job.orphanHost then job.send .term true .termPid
    else if 1 < job.pid then job.send .term true (.waiting 20)
    else job.goTo (.waiting 20)
  | .termPid => job.send .term false (.waiting 20)
  | .waiting polls =>
    let job := { job with waited := true }
    if processExists platform table job.pid ∧ 1 < polls then job.goTo (.waiting (polls - 1)) else job.goTo .last
  | .last =>
    if processExists platform table job.pid && job.signalsGroup then job.goTo .killGroup else job.goTo .filing
  | .killGroup => job.send .kill true (if job.orphanHost then .killPid else .filing)
  | .killPid =>
    if job.orphanHost then job.send .kill false .filing
    else { job.send .kill false .filing with job := none, outcome := [.killed reply.killed] }
  | .filing => job.file

end Steps
end Job

structure Processes where
  table : ProcessTable
  workers : ℕ → Option Job
  sent : List Sent
  filed : List Text
  outcomes : List Outcome

/-- The first four are the environment's: a process exits, is collected by its parent,
replaces its program, or is started under a pid nobody has. -/
inductive ProcessEvent where
  | exits (pid : ℕ)
  | collected (pid : ℕ)
  | execs (pid : ℕ) (argv : Text)
  | spawns (pid startedAt : ℕ) (foreign : Bool) (argv : Text)
  | stop (k : ℕ) (manifest : HostedSessionManifest) (now : ℕ) (answers : Answers)
  | reapDead (k : ℕ) (manifests : List HostedSessionManifest) (now : ℕ)
  | reapOrphans (k : ℕ) (manifests : List (HostedSessionManifest × Bool)) (corePid : Option ℕ)
  | killChild (k pid : ℕ) (startedAt : Option ℕ)
  | step (k : ℕ) (reply : Reply)

namespace Processes

def apply (s : Processes) (k : ℕ) (effect : Effect) : Processes where
  table := s.table
  workers := Function.update s.workers k effect.job
  sent := s.sent ++ effect.sent
  filed := s.filed ++ effect.filed
  outcomes := s.outcomes ++ effect.outcome

theorem apply_workers_self (s : Processes) (k : ℕ) (effect : Effect) : (s.apply k effect).workers k = effect.job :=
  Function.update_self ..

theorem forall_apply_workers {s : Processes} {k : ℕ} {effect : Effect} {P : ℕ → Job → Prop}
    (hnew : ∀ job ∈ effect.job, P k job) (hs : ∀ j, j ≠ k → ∀ job ∈ s.workers j, P j job) :
    ∀ j, ∀ job ∈ (s.apply k effect).workers j, P j job := by
  intro j job hjob
  by_cases hj : j = k
  · subst hj
    rw [apply_workers_self] at hjob
    exact hnew job hjob
  · have hsame : (s.apply k effect).workers j = s.workers j := Function.update_of_ne hj ..
    rw [hsame] at hjob
    exact hs j hj job hjob

def change (s : Processes) (pid : ℕ) (f : Process → Process) : Option Processes :=
  (s.table pid).map fun p => { s with table := Function.update s.table pid (some (f p)) }

/-- `stop_unreachable_session_child` up to its first look at the child. -/
def stopUnreachableSessionChild (platform : Platform) (s : Processes) (manifest : HostedSessionManifest)
    (now : ℕ) (answers : Answers) : Effect :=
  if manifest.state ≠ .running then ⟨none,[],[],[.stopped (.ok false)]⟩
  else match manifest.pid with
    | some pid => ⟨some ⟨.stop manifest,pid,manifest.pidStartedAt,.probing,none,false⟩,[],[],[]⟩
    | none =>
      if manifestLaunchingHostIsAlive platform s.table answers manifest ∧
          now - manifestLastHeartbeatAt manifest < stopUnreachableLaunchWindowMs then
        ⟨none,[],[],[.stopped (.error ("session ".toList ++ manifest.id ++
          " is still launching inside a live host that did not answer".toList))]⟩
      else ⟨none,[],[manifest.id],[.stopped (.ok true)]⟩

def begin (platform : Platform) (s : Processes) : ProcessEvent → Option (ℕ × Effect)
  | .stop k manifest now answers => some (k,stopUnreachableSessionChild platform s manifest now answers)
  | .reapDead k manifests now =>
    some (k,match reapDeadFrom now manifests with
      | none => ⟨none,[],[],[.reapedDead]⟩
      | some job => ⟨some job,[],[],[]⟩)
  | .reapOrphans k manifests corePid =>
    some (k,match reapOrphansFrom corePid [] manifests with
      | none => ⟨none,[],[],[.reapedOrphans []]⟩
      | some job => ⟨some job,[],[],[]⟩)
  | .killChild k pid startedAt => some (k,⟨some ⟨.killChild,pid,startedAt,.probing,none,false⟩,[],[],[]⟩)
  | _ => none

end Processes

def processStep (platform : Platform) (s : Processes) : ProcessEvent → Option Processes
  | .exits pid => s.change pid fun p => { p with zombie := true }
  | .execs pid argv => s.change pid fun p => { p with argv := argv }
  | .collected pid =>
    if (s.table pid).any Process.zombie then some { s with table := Function.update s.table pid none } else none
  | .spawns pid startedAt foreign argv =>
    if (s.table pid).isNone then
      some { s with table := Function.update s.table pid (some ⟨startedAt,false,foreign,argv⟩) }
    else none
  | .step k reply => (s.workers k).map fun job => s.apply k (job.step platform s.table reply)
  | event =>
    (s.begin platform event).bind fun (k,effect) => if (s.workers k).isNone then some (s.apply k effect) else none

def startProcesses (table : ProcessTable) : Processes := ⟨table,fun _ => none,[],[],[]⟩

end Unpeel.Reaping
