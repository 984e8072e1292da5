import Unpeel.Reaping.Identity

/-! # The supervisor of the PTY core

The worker starts, adopts and respawns the process that hosts the terminals, and never
stops one. It learns of a core through the record the core writes, the answers on its
socket and the kernel's process table. Each event is kept with the look at these that it
was decided by. Times are milliseconds of the monotonic clock.
-/
namespace Unpeel.Serve
open Manifest Reaping

def restartDelay : ℕ := 2000

def rapidExitWindow : ℕ := 10000

def maxRapidFailures : ℕ := 5

def healthInterval : ℕ := 5000

def startInterval : ℕ := 250

def startWarnAfter : ℕ := 15000

def takeoverTimeout : ℕ := 30000

inductive CoreState where
  | off
  | starting
  | live
  | adopted
  | handingOff
  | failed
deriving DecidableEq

/-- `pty-core.json`. -/
structure CoreRecord where
  pid : ℕ
  pidStartedAt : Option ℕ
  socket : Text
  hostBuildId : Option Text
deriving DecidableEq

structure PingReply where
  ok : Bool
  pid : Option ℕ
  sessions : Option ℕ
deriving DecidableEq

inductive CoreWarning where
  | silent (pid : ℕ)
  | takeoverNotStarted (error : Text)
  | takeoverExited (newPid oldPid : ℕ) (status : Text)
  | takeoverTimedOut (newPid oldPid : ℕ)
  | askedToExit (oldPid : ℕ)
  | refusedToExit (oldPid : ℕ) (error : Text)
  | drains (oldPid sessions : ℕ)
deriving DecidableEq

inductive CoreEvent where
  | adopted (pid sessions : ℕ)
  | started (pid : ℕ) (restart : Bool)
  | ready (pid sessions : ℕ)
  | exited (status : Text) (rapidFailures : ℕ) (gaveUp : Bool)
  | lost (pid : ℕ)
  | takeoverStarted (oldPid newPid : ℕ)
  | takenOver (oldPid newPid sessions : ℕ)
  | spawnFailed (error : Text)
  | warning (warning : CoreWarning)
deriving DecidableEq

/-- The world at one moment of a poll. `replies` has what a socket answers to a ping, if
that can be decoded. -/
structure Look where
  now : ℕ
  record : Option CoreRecord
  table : ProcessTable
  answers : Answers
  replies : Text → Option PingReply

abbrev CoreLog := List (Look × CoreEvent)

/-- `try_wait` on a child. -/
inductive WaitResult where
  | running
  | exited (status : Text)
  | failed (error : Text)
deriving DecidableEq

structure PollEnv where
  first : Look
  second : Look
  wait : ℕ → WaitResult
  spawned : Except Text ℕ
  expectedBuildId : Option Text
  shutdown : Except Text Unit

structure Supervisor where
  state : CoreState
  child : Option ℕ
  pid : Option ℕ
  sessions : Option ℕ
  launchedAt : ℕ
  startWarned : Bool
  lastHealth : ℕ
  nextSpawnAt : Option ℕ
  rapidFailures : ℕ
  lastExit : Option Text
  expectedBuildId : Option Text
  probeExpectedBuildId : Bool
  takeoverFrom : Option ℕ
  takeoverStartedAt : ℕ
  takeoverAttempted : Option (ℕ × Text)
  allowTakeover : Bool
  drainAnnounced : Option ℕ
  adoptedStartedAt : Option ℕ

/-- An answer that is not `ok` is an error. -/
def Look.ping (look : Look) (socket : Text) : Option PingReply := (look.replies socket).filter (·.ok)

def Look.named (look : Look) (pid : Option ℕ) : Option PingReply :=
  (look.record.filter fun record => some record.pid = pid).bind fun record => look.ping record.socket

def WaitResult.exit : WaitResult → Option Text
  | .running => none
  | .exited status => some status
  | .failed error => some ("wait failed: ".toList ++ error)

section Supervisor
variable (platform : Platform) (self : ℕ)

def adoptable (look : Look) (record : CoreRecord) : Option PingReply :=
  if record.pid = 0 ∨ record.pid = self then none
  else if recordedPidIdentity platform look.table look.answers record.pid record.pidStartedAt = .notOurs then none
  else (look.ping record.socket).filter fun reply => reply.pid = some record.pid

def adoptedReply (look : Look) (pid : ℕ) : Option PingReply :=
  (look.record.filter (·.pid = pid)).bind (adoptable platform self look)

namespace Supervisor

/-- `PtyCoreSupervisor::off`. -/
def off (now : ℕ) (allowTakeover : Bool) : Supervisor where
  state := .off
  child := none
  pid := none
  sessions := none
  launchedAt := now
  startWarned := false
  lastHealth := now
  nextSpawnAt := none
  rapidFailures := 0
  lastExit := none
  expectedBuildId := none
  probeExpectedBuildId := false
  takeoverFrom := none
  takeoverStartedAt := now
  takeoverAttempted := none
  allowTakeover := allowTakeover
  drainAnnounced := none
  adoptedStartedAt := none

/-- `none` where there is nothing to adopt. -/
def tryAdopt (s : Supervisor) (look : Look) : Option (Supervisor × CoreLog) :=
  look.record.bind fun record => (adoptable platform self look record).map fun reply =>
    ({ s with
      state := .adopted, pid := some record.pid, sessions := reply.sessions, rapidFailures := 0, nextSpawnAt := none
      lastHealth := look.now },[(look,.adopted record.pid (reply.sessions.getD 0))])

def spawn (s : Supervisor) (look : Look) (spawned : Except Text ℕ) (restart : Bool) : Supervisor × CoreLog :=
  match spawned with
  | .ok pid =>
    ({ s with
      child := some pid, pid := some pid, sessions := none, state := .starting, launchedAt := look.now
      lastHealth := look.now - 1000, startWarned := false },[(look,.started pid restart)])
  | .error error => ({ s with state := .failed, nextSpawnAt := none },[(look,.spawnFailed error)])

def noteExit (s : Supervisor) (look : Look) (status : Text) : Supervisor × CoreLog :=
  let failures := if look.now - s.launchedAt < rapidExitWindow then s.rapidFailures + 1 else 0
  let gaveUp := decide (maxRapidFailures ≤ failures)
  ({ s with
    rapidFailures := failures
    state := if gaveUp then .failed else .starting
    nextSpawnAt := if gaveUp then none else some (look.now + restartDelay) },[(look,.exited status failures gaveUp)])

/-- `none` where the child has not exited. A core that found another one serving exits at
once, and that one is adopted. -/
def reapOwnChild (s : Supervisor) (look : Look) (wait : ℕ → WaitResult) : Option (Supervisor × CoreLog) :=
  (s.child.bind fun child => (wait child).exit).map fun status =>
    let reaped := { s with child := none, pid := none, sessions := none, lastExit := some status }
    (reaped.tryAdopt platform self look).getD (reaped.noteExit look status)

def pollStarting (s : Supervisor) (env : PollEnv) : Supervisor × CoreLog :=
  match s.reapOwnChild platform self env.first env.wait with
  | some r => r
  | none =>
    if s.child = none then (s,[])
    else if env.first.now - s.lastHealth < startInterval then (s,[])
    else
      let s := { s with lastHealth := env.first.now }
      match env.first.named s.pid with
      | some reply =>
        ({ s with state := .live, sessions := reply.sessions, rapidFailures := 0 },
          [(env.first,.ready (s.pid.getD 0) (reply.sessions.getD 0))])
      | none =>
        if s.startWarned = false ∧ startWarnAfter ≤ env.first.now - s.launchedAt then
          ({ s with startWarned := true },[(env.first,.warning (.silent (s.pid.getD 0)))])
        else (s,[])

def refreshHealth (s : Supervisor) (look : Look) : Supervisor :=
  if look.now - s.lastHealth < healthInterval then s
  else
    let s := { s with lastHealth := look.now }
    match look.named s.pid with
    | some reply => { s with sessions := reply.sessions }
    | none => s

def pollLive (s : Supervisor) (env : PollEnv) : Supervisor × CoreLog :=
  match s.reapOwnChild platform self env.first env.wait with
  | some r => r
  | none => (s.refreshHealth env.first,[])

def drainOlderCore (s : Supervisor) (oldPid : ℕ) (env : PollEnv) : Supervisor × CoreLog :=
  if s.sessions = some 0 then
    match env.shutdown with
    | .ok _ => ({ s with drainAnnounced := none },[(env.second,.warning (.askedToExit oldPid))])
    | .error error => ({ s with drainAnnounced := none },[(env.second,.warning (.refusedToExit oldPid error))])
  else if s.drainAnnounced ≠ some oldPid then
    ({ s with drainAnnounced := some oldPid },[(env.second,.warning (.drains oldPid (s.sessions.getD (2 ^ 64 - 1))))])
  else (s,[])

def checkBuildSkew (s : Supervisor) (env : PollEnv) : Supervisor × CoreLog :=
  if s.state ≠ .adopted then (s,[]) else
    let s := if s.probeExpectedBuildId then { s with expectedBuildId := env.expectedBuildId } else s
    match s.expectedBuildId, s.pid, env.second.record with
    | some expected, some oldPid, some record =>
      if record.pid ≠ oldPid ∨ record.hostBuildId = none ∨ record.hostBuildId = some expected then (s,[])
      else if s.allowTakeover = false then s.drainOlderCore oldPid env
      else if s.takeoverAttempted = some (oldPid,expected) then (s,[])
      else
        let s := { s with takeoverAttempted := some (oldPid,expected) }
        match env.spawned with
        | .ok newPid =>
          ({ s with
            child := some newPid, state := .handingOff, takeoverFrom := some oldPid, takeoverStartedAt := env.second.now
            lastHealth := env.second.now },[(env.second,.takeoverStarted oldPid newPid)])
        | .error error => (s,[(env.second,.warning (.takeoverNotStarted error))])
    | _, _, _ => (s,[])

/-- The start time an adopted core that does not answer is compared with: that of the
record on disk, whichever core it names, else the one remembered. -/
def comparedStart (s : Supervisor) (look : Look) : Option ℕ := (look.record.bind (·.pidStartedAt)).or s.adoptedStartedAt

def pollAdopted (s : Supervisor) (env : PollEnv) : Supervisor × CoreLog :=
  if env.first.now - s.lastHealth < healthInterval then (s,[])
  else
    let s := { s with lastHealth := env.first.now }
    match s.pid with
    | none => (s,[])
    | some pid =>
      match adoptedReply platform self env.first pid with
      | some reply =>
        { s with sessions := reply.sessions, adoptedStartedAt := s.comparedStart env.first }.checkBuildSkew env
      | none =>
        if recordedPidIdentity platform env.first.table env.first.answers pid (s.comparedStart env.first) = .notOurs then
          ({ s with
            pid := none, sessions := none, lastExit := some "adopted core gone".toList, state := .starting
            nextSpawnAt := some (env.first.now + restartDelay) },[(env.first,.lost pid)])
        else (s,[])

/-- What a poll of an adopted core comes to. -/
theorem pollAdopted_cases (s : Supervisor) (env : PollEnv) :
    (env.first.now - s.lastHealth < healthInterval ∧ s.pollAdopted platform self env = (s,[])) ∨
    (healthInterval ≤ env.first.now - s.lastHealth ∧ s.pid = none ∧
      s.pollAdopted platform self env = ({ s with lastHealth := env.first.now },[])) ∨
    (∃ pid, healthInterval ≤ env.first.now - s.lastHealth ∧ s.pid = some pid ∧
      ∃ reply, adoptedReply platform self env.first pid = some reply ∧ s.pollAdopted platform self env =
        { s with
          lastHealth := env.first.now, sessions := reply.sessions
          adoptedStartedAt := s.comparedStart env.first }.checkBuildSkew env) ∨
    (∃ pid, healthInterval ≤ env.first.now - s.lastHealth ∧ s.pid = some pid ∧
      adoptedReply platform self env.first pid = none ∧
      recordedPidIdentity platform env.first.table env.first.answers pid (s.comparedStart env.first) = .notOurs ∧
      s.pollAdopted platform self env =
        ({ s with
          lastHealth := env.first.now, pid := none, sessions := none, lastExit := some "adopted core gone".toList
          state := .starting, nextSpawnAt := some (env.first.now + restartDelay) },[(env.first,.lost pid)])) ∨
    (∃ pid, healthInterval ≤ env.first.now - s.lastHealth ∧ s.pid = some pid ∧
      adoptedReply platform self env.first pid = none ∧
      recordedPidIdentity platform env.first.table env.first.answers pid (s.comparedStart env.first) ≠ .notOurs ∧
      s.pollAdopted platform self env = ({ s with lastHealth := env.first.now },[])) := by
  have hsame : ({ s with lastHealth := env.first.now } : Supervisor).comparedStart env.first = s.comparedStart env.first :=
    rfl
  unfold pollAdopted
  by_cases hearly : env.first.now - s.lastHealth < healthInterval
  · rw [if_pos hearly]
    exact .inl ⟨hearly,rfl⟩
  rw [if_neg hearly]
  have hdue := Nat.le_of_not_lt hearly
  dsimp only
  rw [hsame]
  cases hpid : s.pid with
  | none => exact .inr (.inl ⟨hdue,rfl,rfl⟩)
  | some pid =>
    dsimp only
    cases hreply : adoptedReply platform self env.first pid with
    | some reply => exact .inr (.inr (.inl ⟨pid,hdue,rfl,reply,hreply,rfl⟩))
    | none =>
      by_cases hidentity :
          recordedPidIdentity platform env.first.table env.first.answers pid (s.comparedStart env.first) = .notOurs
      · rw [if_pos hidentity]
        exact .inr (.inr (.inr (.inl ⟨pid,hdue,rfl,hreply,hidentity,rfl⟩)))
      · rw [if_neg hidentity]
        exact .inr (.inr (.inr (.inr ⟨pid,hdue,rfl,hreply,hidentity,rfl⟩)))

def pollHandingOff (s : Supervisor) (env : PollEnv) : Supervisor × CoreLog :=
  let oldPid := s.takeoverFrom.getD 0
  let newPid := s.child.getD 0
  match s.child.map env.wait with
  | some (.exited status) =>
    ({ s with child := none, takeoverFrom := none, state := .adopted, lastHealth := env.first.now },
      [(env.first,.warning (.takeoverExited newPid oldPid status))])
  | _ =>
    if env.first.now - s.lastHealth < startInterval then (s,[])
    else
      let s := { s with lastHealth := env.first.now }
      match env.first.named (some newPid) with
      | some reply =>
        ({ s with
          state := .live, pid := some newPid, sessions := reply.sessions, takeoverFrom := none, rapidFailures := 0 },
          [(env.first,.takenOver oldPid newPid (reply.sessions.getD 0))])
      | none =>
        if takeoverTimeout ≤ env.first.now - s.takeoverStartedAt then
          ({ s with takeoverFrom := none, state := .adopted },[(env.first,.warning (.takeoverTimedOut newPid oldPid))])
        else (s,[])

/-- A takeover ends with the exit of its core, with its record, or in time. -/
theorem pollHandingOff_cases (s : Supervisor) (env : PollEnv) :
    (∃ child status, s.child = some child ∧ env.wait child = .exited status ∧ s.pollHandingOff env =
      ({ s with child := none, takeoverFrom := none, state := .adopted, lastHealth := env.first.now },
        [(env.first,.warning (.takeoverExited (s.child.getD 0) (s.takeoverFrom.getD 0) status))])) ∨
    ((∀ child, s.child = some child → ∀ status, env.wait child ≠ .exited status) ∧
      env.first.now - s.lastHealth < startInterval ∧ s.pollHandingOff env = (s,[])) ∨
    ((∀ child, s.child = some child → ∀ status, env.wait child ≠ .exited status) ∧
      startInterval ≤ env.first.now - s.lastHealth ∧ ∃ reply, env.first.named (some (s.child.getD 0)) = some reply ∧
      s.pollHandingOff env =
        ({ s with
          lastHealth := env.first.now, state := .live, pid := some (s.child.getD 0), sessions := reply.sessions
          takeoverFrom := none, rapidFailures := 0 },
          [(env.first,.takenOver (s.takeoverFrom.getD 0) (s.child.getD 0) (reply.sessions.getD 0))])) ∨
    ((∀ child, s.child = some child → ∀ status, env.wait child ≠ .exited status) ∧
      env.first.named (some (s.child.getD 0)) = none ∧ startInterval ≤ env.first.now - s.lastHealth ∧
      takeoverTimeout ≤ env.first.now - s.takeoverStartedAt ∧ s.pollHandingOff env =
        ({ s with lastHealth := env.first.now, takeoverFrom := none, state := .adopted },
          [(env.first,.warning (.takeoverTimedOut (s.child.getD 0) (s.takeoverFrom.getD 0)))])) ∨
    ((∀ child, s.child = some child → ∀ status, env.wait child ≠ .exited status) ∧
      env.first.named (some (s.child.getD 0)) = none ∧ startInterval ≤ env.first.now - s.lastHealth ∧
      env.first.now - s.takeoverStartedAt < takeoverTimeout ∧ s.pollHandingOff env =
        ({ s with lastHealth := env.first.now },[])) := by
  unfold pollHandingOff
  split
  · next status hstatus =>
    obtain ⟨child,hchild,hwait⟩ := Option.map_eq_some_iff.mp hstatus
    exact .inl ⟨child,status,hchild,hwait,rfl⟩
  · next hrunning =>
    have hwait : ∀ child, s.child = some child → ∀ status, env.wait child ≠ .exited status := by
      intro child hchild status hstatus
      exact hrunning status (by rw [hchild, Option.map_some, hstatus])
    by_cases hdue : env.first.now - s.lastHealth < startInterval
    · rw [if_pos hdue]
      exact .inr (.inl ⟨hwait,hdue,rfl⟩)
    rw [if_neg hdue]
    have hlate := Nat.le_of_not_lt hdue
    cases hnamed : env.first.named (some (s.child.getD 0)) with
    | some reply => exact .inr (.inr (.inl ⟨hwait,hlate,reply,rfl,rfl⟩))
    | none =>
      by_cases htimeout : takeoverTimeout ≤ env.first.now - s.takeoverStartedAt
      · exact .inr (.inr (.inr (.inl ⟨hwait,rfl,hlate,htimeout,if_pos htimeout⟩)))
      · exact .inr (.inr (.inr (.inr ⟨hwait,rfl,hlate,Nat.lt_of_not_le htimeout,if_neg htimeout⟩)))

/-- The last part of `poll`: the delay after an exit or a loss is over. -/
def respawn (r : Supervisor × CoreLog) (env : PollEnv) : Supervisor × CoreLog :=
  if r.1.state = .starting ∧ r.1.child = none ∧ r.1.nextSpawnAt.any (· ≤ env.second.now) then
    let s := { r.1 with nextSpawnAt := none }
    let next := (s.tryAdopt platform self env.second).getD (s.spawn env.second env.spawned true)
    (next.1,r.2 ++ next.2)
  else r

def poll (s : Supervisor) (env : PollEnv) : Supervisor × CoreLog :=
  match s.state with
  | .handingOff => s.pollHandingOff env
  | .off | .failed => (s,[])
  | .starting => respawn platform self (s.pollStarting platform self env) env
  | .live => respawn platform self (s.pollLive platform self env) env
  | .adopted => respawn platform self (s.pollAdopted platform self env) env

def start (env : PollEnv) (allowTakeover : Bool) : Supervisor × CoreLog :=
  let s := { off env.first.now allowTakeover with state := .starting }
  (s.tryAdopt platform self env.first).getD (s.spawn env.first env.spawned false)

def fromEnv (enabled allowTakeover : Bool) (env : PollEnv) : Supervisor × CoreLog :=
  if enabled then
    let r := start platform self env allowTakeover
    let next := { r.1 with
      expectedBuildId := env.expectedBuildId, probeExpectedBuildId := true }.checkBuildSkew env
    (next.1,r.2 ++ next.2)
  else (off env.first.now allowTakeover,[])

end Supervisor

end Supervisor

end Unpeel.Serve
