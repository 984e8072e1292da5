import Mathlib.Data.Finset.Card

/-! # Launches, shutdowns and handoffs of one core

Every request runs on a thread of its own against the shared `CoreState`. Each
load, store, compare-exchange, lock and file operation is one step, so a launch, a
shutdown and a handoff interleave in every possible way.
-/
namespace Unpeel.Core

inductive LaunchPhase where
  | idle
  | received
  /-- `handing_off` was false in `serve_connection`. -/
  | admitted
  /-- `shutting_down` was false at the head of `launch_session`. -/
  | running
  /-- `handing_off` was false there, too. -/
  | gated
  /-- The launch file is read. -/
  | parsed
  | locked
  /-- `shutting_down` was false under the lock. -/
  | entering
  /-- The Session is in the live set and the lock is released. -/
  | listed
  /-- The launch file is removed. -/
  | consumed
  /-- `launching` is raised. -/
  | counted
  | settingUp
  /-- The reactor serves the Session. -/
  | hosted
  /-- The Session has ended and is being torn down. -/
  | ending
  | ended
  /-- The Session is part of a committed handoff. -/
  | moved
  | handedOver
  | refused (error : String)
  /-- The setup thread could not be started, or the setup failed. -/
  | aborted
  | failed
  deriving DecidableEq, Repr

structure Launch where
  file : ℕ
  session : ℕ
  phase : LaunchPhase
  /-- The launch counts in `launching`. -/
  guard : Bool
  deriving DecidableEq, Repr

inductive HandoffPhase where
  | idle
  | received
  /-- `handing_off` is set. -/
  | gating
  /-- `shutting_down` was false. -/
  | waiting
  | checking
  /-- `launching` was zero, and the reactor moves the Sessions. -/
  | moving
  | moved
  /-- The moved Sessions are out of the live set. -/
  | unlisted
  | handed
  | failed
  | refused (error : String)
  deriving DecidableEq, Repr

inductive ShutdownPhase where
  | idle
  | received
  | admitted
  | locked
  /-- The live set was empty under the lock. -/
  | empty
  | done
  | refused (error : String)
  deriving DecidableEq, Repr

inductive LockHolder where
  | launch (i : ℕ)
  | shutdown (k : ℕ)
  deriving DecidableEq, Repr

structure CoreState where
  live : Finset ℕ
  lock : Option LockHolder
  shuttingDown : Bool
  launching : ℕ
  handingOff : Bool
  handedOff : Bool
  /-- `serve_core` has left its accept loop. -/
  left : Bool
  /-- The launch that removed a launch file. -/
  consumer : ℕ → Option ℕ
  requests : ℕ
  launches : ℕ → Launch
  handoffs : ℕ → HandoffPhase
  shutdowns : ℕ → ShutdownPhase

inductive CoreAction where
  | launchRequest (file session : ℕ)
  | handoffRequest (j : ℕ)
  | shutdownRequest (k : ℕ)
  /-- The next step of a thread; `ok` is the answer of what it asks or calls. -/
  | launch (i : ℕ) (ok : Bool)
  | dropGuard (i : ℕ)
  | handoff (j : ℕ) (ok : Bool)
  | shutdown (k : ℕ)
  /-- The accept loop looks at the flags. -/
  | leave
  deriving DecidableEq, Repr

namespace CoreState

/-- A core that hosts the given Sessions: none when it is started, and the adopted
ones after a takeover. -/
def start (adopted : List ℕ) : CoreState where
  live := adopted.toFinset
  lock := none
  shuttingDown := false
  launching := 0
  handingOff := false
  handedOff := false
  left := false
  consumer := fun _ => none
  requests := adopted.dedup.length
  launches := fun i => (adopted.dedup[i]?).elim ⟨0,0,.idle,false⟩ (fun session => ⟨0,session,.hosted,false⟩)
  handoffs := fun _ => .idle
  shutdowns := fun _ => .idle

def setLaunch (s : CoreState) (i : ℕ) (phase : LaunchPhase) : CoreState :=
  { s with launches := Function.update s.launches i { s.launches i with phase := phase } }

def setGuard (s : CoreState) (i : ℕ) (guard : Bool) : CoreState :=
  { s with launches := Function.update s.launches i { s.launches i with guard := guard } }

def setHandoff (s : CoreState) (j : ℕ) (phase : HandoffPhase) : CoreState :=
  { s with handoffs := Function.update s.handoffs j phase }

def setShutdown (s : CoreState) (k : ℕ) (phase : ShutdownPhase) : CoreState :=
  { s with shutdowns := Function.update s.shutdowns k phase }

/-- A launch request and, from `settingUp` on, its setup thread and its Session. -/
def launchStep (s : CoreState) (i : ℕ) (ok : Bool) : Option CoreState :=
  match (s.launches i).phase with
  | .received =>
    some (s.setLaunch i (if s.handingOff then .refused "handing_off" else .admitted))
  | .admitted =>
    some (s.setLaunch i (if s.shuttingDown then .refused "core is shutting down" else .running))
  | .running =>
    some (s.setLaunch i (if s.handingOff then .refused "core is handing off" else .gated))
  | .gated =>
    some (s.setLaunch i (if ok ∧ s.consumer (s.launches i).file = none then .parsed
      else .refused "Failed to read launch file"))
  | .parsed =>
    if s.lock = none then some { s.setLaunch i .locked with lock := some (.launch i) } else none
  | .locked =>
    if s.shuttingDown then some { s.setLaunch i (.refused "core is shutting down") with lock := none }
    else some (s.setLaunch i .entering)
  | .entering =>
    if (s.launches i).session ∈ s.live then
      some { s.setLaunch i (.refused "session is already hosted by this core") with lock := none }
    else some { s.setLaunch i .listed with lock := none, live := insert (s.launches i).session s.live }
  | .listed =>
    some { s.setLaunch i .consumed with consumer := Function.update s.consumer (s.launches i).file (some i) }
  | .consumed => some { (s.setLaunch i .counted).setGuard i true with launching := s.launching + 1 }
  | .counted =>
    if ok then some (s.setLaunch i .settingUp)
    else some { (s.setLaunch i .aborted).setGuard i false with launching := s.launching - 1 }
  | .settingUp => some (s.setLaunch i (if ok then .hosted else .aborted))
  | .aborted =>
    if s.lock = none then some { s.setLaunch i .failed with live := s.live.erase (s.launches i).session }
    else none
  | .hosted => some (s.setLaunch i .ending)
  | .ending =>
    if s.lock = none then some { s.setLaunch i .ended with live := s.live.erase (s.launches i).session }
    else none
  | _ => none

def dropGuard (s : CoreState) (i : ℕ) : Option CoreState :=
  if (s.launches i).guard = true ∧
      (s.launches i).phase ∈ [.hosted,.ending,.ended,.moved,.handedOver,.failed] then
    some { s.setGuard i false with launching := s.launching - 1 }
  else none

def commit (s : CoreState) : CoreState :=
  { s with launches := fun i =>
      if (s.launches i).phase = .hosted then { s.launches i with phase := .moved } else s.launches i }

def unlist (s : CoreState) : CoreState :=
  { s with
    live := s.live.filter (fun id =>
      ¬∃ i ∈ Finset.range s.requests, (s.launches i).phase = .moved ∧ (s.launches i).session = id)
    launches := fun i =>
      if (s.launches i).phase = .moved then { s.launches i with phase := .handedOver } else s.launches i }

/-- `handle_handoff`. -/
def handoffStep (s : CoreState) (j : ℕ) (ok : Bool) : Option CoreState :=
  match s.handoffs j with
  | .received =>
    if s.handingOff then some (s.setHandoff j (.refused "handing_off"))
    else some { s.setHandoff j .gating with handingOff := true }
  | .gating =>
    if s.shuttingDown then some { s.setHandoff j (.refused "shutting_down") with handingOff := false }
    else some (s.setHandoff j .waiting)
  | .waiting =>
    -- The loop goes on until no launch is left or, by `ok`, the deadline has passed.
    if 0 < s.launching ∧ ok = false then some s else some (s.setHandoff j .checking)
  | .checking =>
    if 0 < s.launching then some { s.setHandoff j (.refused "busy") with handingOff := false }
    else some (s.setHandoff j .moving)
  | .moving => some (if ok then s.commit.setHandoff j .moved else s.setHandoff j .failed)
  | .moved => if s.lock = none then some (s.unlist.setHandoff j .unlisted) else none
  | .unlisted => some { s.setHandoff j .handed with handedOff := true }
  | .failed => some { s.setHandoff j (.refused "handoff failed, resumed") with handingOff := false }
  | _ => none

/-- The `Shutdown` arms of `serve_connection`. -/
def shutdownStep (s : CoreState) (k : ℕ) : Option CoreState :=
  match s.shutdowns k with
  | .received => some (s.setShutdown k (if s.handingOff then .refused "handing_off" else .admitted))
  | .admitted =>
    if s.lock = none then some { s.setShutdown k .locked with lock := some (.shutdown k) } else none
  | .locked =>
    if s.live = ∅ then some (s.setShutdown k .empty)
    else some { s.setShutdown k (.refused "busy") with lock := none }
  | .empty => some { s.setShutdown k .done with shuttingDown := true, lock := none }
  | _ => none

end CoreState

open CoreState in
def coreStep (s : CoreState) : CoreAction → Option CoreState
  | .launchRequest file session =>
    if s.left then none
    else some { s with requests := s.requests + 1
                       launches := Function.update s.launches s.requests ⟨file,session,.received,false⟩ }
  | .handoffRequest j => if s.left ∨ s.handoffs j ≠ .idle then none else some (s.setHandoff j .received)
  | .shutdownRequest k => if s.left ∨ s.shutdowns k ≠ .idle then none else some (s.setShutdown k .received)
  | .launch i ok => s.launchStep i ok
  | .dropGuard i => s.dropGuard i
  | .handoff j ok => s.handoffStep j ok
  | .shutdown k => s.shutdownStep k
  | .leave => if s.shuttingDown ∨ s.handedOff then some { s with left := true } else none

namespace LaunchPhase

def inLive : LaunchPhase → Bool
  | .listed | .consumed | .counted | .settingUp | .hosted | .ending | .moved | .aborted => true
  | _ => false

/-- The launch has passed its last look at `handing_off` and does not count in
`launching` yet. -/
def pastGate : LaunchPhase → Bool
  | .gated | .parsed | .locked | .entering | .listed | .consumed => true
  | _ => false

def inSetup : LaunchPhase → Bool
  | .counted | .settingUp => true
  | _ => false

def holdsLock : LaunchPhase → Bool
  | .locked | .entering => true
  | _ => false

theorem inLive_of_inSetup {p : LaunchPhase} (h : p.inSetup) : p.inLive := by
  cases p with
  | counted | settingUp => rfl
  | _ => cases h

def lostFile : LaunchPhase → Bool
  | .consumed | .counted | .settingUp | .hosted | .ending | .ended | .moved | .handedOver => true
  | _ => false

@[grind →] theorem eq_of_holdsLock {p : LaunchPhase} (h : p.holdsLock) : p = .locked ∨ p = .entering := by
  cases p with
  | locked => exact .inl rfl
  | entering => exact .inr rfl
  | _ => cases h

def gaveUp : LaunchPhase → Bool
  | .aborted | .failed => true
  | _ => false

/-- The launch has been counted in `launching`. -/
def wasCounted : LaunchPhase → Bool
  | .counted | .settingUp | .hosted | .ending | .ended | .moved | .handedOver => true
  | _ => false

end LaunchPhase

namespace HandoffPhase

/-- The request has set `handing_off` and not reset it. -/
def active : HandoffPhase → Bool
  | .gating | .waiting | .checking | .moving | .moved | .unlisted | .handed | .failed => true
  | _ => false

/-- The request has seen `launching` at zero for the last time. -/
def settled : HandoffPhase → Bool
  | .moving | .moved | .unlisted | .handed => true
  | _ => false

def committed : HandoffPhase → Bool
  | .moved | .unlisted | .handed => true
  | _ => false

theorem settled_of_committed {p : HandoffPhase} (h : p.committed) : p.settled := by
  cases p <;> first | rfl | cases h

theorem active_of_settled {p : HandoffPhase} (h : p.settled) : p.active := by
  cases p <;> first | rfl | cases h

end HandoffPhase
end Unpeel.Core
