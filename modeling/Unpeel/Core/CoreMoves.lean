import Unpeel.Core.CoreState

/-! # What a request thread can do

The step functions of the three kinds of requests, as the moves they allow.
-/
namespace Unpeel.Core

namespace CoreState

/-- A core that has decided to exit hosts no Session and has no launch under way
whose file is gone, and every launch is hosted or keeps its file. -/
structure LeavesNoSession (s : CoreState) : Prop where
  unhosted : s.left = true → ∀ i, (s.launches i).phase ≠ .hosted
  underWay : s.left = true → ∀ i, (s.launches i).phase ≠ .consumed ∧ (s.launches i).phase.inSetup = false
  refused : ∀ i error, (s.launches i).phase = .refused error → s.consumer (s.launches i).file ≠ some i
  served : ∀ i, (s.launches i).phase.gaveUp = false

/-- When a handoff sees `launching` at zero for the last time, no launch is between
its look at `handing_off` and its place in `launching`; and no launch gives up
after its file is gone. -/
def GateHolds (s : CoreState) : CoreAction → Prop
  | .handoff j _ => s.handoffs j = .checking → s.launching = 0 → ∀ i, (s.launches i).phase.pastGate = false
  | .launch i ok => (s.launches i).phase.inSetup = true → ok = true
  | _ => True

inductive LaunchMove (s : CoreState) (i : ℕ) : CoreState → Prop where
  | early (p : LaunchPhase) (old : (s.launches i).phase ∈ [.received,.admitted,.running,.gated])
      (new : p ∈ [.admitted,.running,.gated,.parsed] ∨ ∃ error, p = .refused error)
      (gate : p.pastGate → (s.launches i).phase.pastGate ∨ s.handingOff = false) :
      LaunchMove s i (s.setLaunch i p)
  | lock (old : (s.launches i).phase = .parsed) (free : s.lock = none) :
      LaunchMove s i { s.setLaunch i .locked with lock := some (.launch i) }
  | refuse (error : String) (old : (s.launches i).phase.holdsLock) :
      LaunchMove s i { s.setLaunch i (.refused error) with lock := none }
  | enter (old : (s.launches i).phase = .locked) (running : s.shuttingDown = false) :
      LaunchMove s i (s.setLaunch i .entering)
  | list (old : (s.launches i).phase = .entering) (fresh : (s.launches i).session ∉ s.live) :
      LaunchMove s i { s.setLaunch i .listed with lock := none, live := insert (s.launches i).session s.live }
  | consume (old : (s.launches i).phase = .listed) :
      LaunchMove s i { s.setLaunch i .consumed with
        consumer := Function.update s.consumer (s.launches i).file (some i) }
  | count (old : (s.launches i).phase = .consumed) :
      LaunchMove s i { (s.setLaunch i .counted).setGuard i true with launching := s.launching + 1 }
  | setUp (old : (s.launches i).phase = .counted) : LaunchMove s i (s.setLaunch i .settingUp)
  | host (old : (s.launches i).phase = .settingUp) : LaunchMove s i (s.setLaunch i .hosted)
  | finish (old : (s.launches i).phase = .hosted) : LaunchMove s i (s.setLaunch i .ending)
  | unlist (old : (s.launches i).phase = .ending) (free : s.lock = none) :
      LaunchMove s i { s.setLaunch i .ended with live := s.live.erase (s.launches i).session }

variable {s t : CoreState} {i : ℕ}

theorem launchStep_move {ok : Bool} (hok : (s.launches i).phase.inSetup → ok = true)
    (hin : (s.launches i).phase.gaveUp = false) (hs : s.launchStep i ok = some t) : LaunchMove s i t := by
  unfold launchStep at hs
  split at hs
  · next h =>
    cases hs
    refine .early _ (by simp [h]) ?_ ?_
    · split <;> simp
    · split <;> simp [LaunchPhase.pastGate]
  · next h =>
    cases hs
    refine .early _ (by simp [h]) ?_ ?_
    · split <;> simp
    · split <;> simp [LaunchPhase.pastGate]
  · next h =>
    cases hs
    refine .early _ (by simp [h]) ?_ ?_
    · split <;> simp
    · split
      · simp [LaunchPhase.pastGate]
      · next hh => exact fun _ => .inr (by simpa using hh)
  · next h =>
    cases hs
    refine .early _ (by simp [h]) ?_ ?_
    · split <;> simp
    · exact fun _ => .inl (by rw [h]; rfl)
  · next h =>
    split at hs
    · next hf => exact Option.some.inj hs ▸ .lock h hf
    · cases hs
  · next h =>
    split at hs
    · exact Option.some.inj hs ▸ .refuse _ (by rw [h]; rfl)
    · next hr => exact Option.some.inj hs ▸ .enter h (by simpa using hr)
  · next h =>
    split at hs
    · exact Option.some.inj hs ▸ .refuse _ (by rw [h]; rfl)
    · next hf => exact Option.some.inj hs ▸ .list h hf
  · next h => exact Option.some.inj hs ▸ .consume h
  · next h => exact Option.some.inj hs ▸ .count h
  · next h =>
    rw [if_pos (hok (by rw [h]; rfl))] at hs
    exact Option.some.inj hs ▸ .setUp h
  · next h =>
    rw [if_pos (hok (by rw [h]; rfl))] at hs
    exact Option.some.inj hs ▸ .host h
  · next h =>
    rw [h] at hin
    cases hin
  · next h => exact Option.some.inj hs ▸ .finish h
  · next h =>
    split at hs
    · next hf => exact Option.some.inj hs ▸ .unlist h hf
    · cases hs
  · cases hs

inductive HandoffMove (s : CoreState) (j : ℕ) : CoreState → Prop where
  | refuse (error : String) (old : s.handoffs j = .received) : HandoffMove s j (s.setHandoff j (.refused error))
  | begin (old : s.handoffs j = .received) (free : s.handingOff = false) :
      HandoffMove s j { s.setHandoff j .gating with handingOff := true }
  | stop (error : String) (old : s.handoffs j ∈ [.gating,.checking,.failed]) :
      HandoffMove s j { s.setHandoff j (.refused error) with handingOff := false }
  | stay (old : s.handoffs j = .waiting) : HandoffMove s j s
  | go (p : HandoffPhase) (old : s.handoffs j ∈ [.gating,.waiting]) (new : p ∈ [.waiting,.checking]) :
      HandoffMove s j (s.setHandoff j p)
  | settle (old : s.handoffs j = .checking) (none : s.launching = 0) : HandoffMove s j (s.setHandoff j .moving)
  | fail (old : s.handoffs j = .moving) : HandoffMove s j (s.setHandoff j .failed)
  | commit (old : s.handoffs j = .moving) : HandoffMove s j (s.commit.setHandoff j .moved)
  | unlist (old : s.handoffs j = .moved) (free : s.lock = none) :
      HandoffMove s j (s.unlist.setHandoff j .unlisted)
  | hand (old : s.handoffs j = .unlisted) : HandoffMove s j { s.setHandoff j .handed with handedOff := true }

theorem handoffStep_move {j : ℕ} {ok : Bool} (hs : s.handoffStep j ok = some t) : HandoffMove s j t := by
  unfold handoffStep at hs
  split at hs
  · next h =>
    split at hs
    · exact Option.some.inj hs ▸ .refuse _ h
    · next hf => exact Option.some.inj hs ▸ .begin h (by simpa using hf)
  · next h =>
    split at hs
    · exact Option.some.inj hs ▸ .stop _ (by simp [h])
    · exact Option.some.inj hs ▸ .go _ (by simp [h]) (by simp)
  · next h =>
    split at hs
    · exact Option.some.inj hs ▸ .stay h
    · exact Option.some.inj hs ▸ .go _ (by simp [h]) (by simp)
  · next h =>
    split at hs
    · exact Option.some.inj hs ▸ .stop _ (by simp [h])
    · next hn => exact Option.some.inj hs ▸ .settle h (by omega)
  · next h =>
    cases ok with
    | true => exact Option.some.inj hs ▸ .commit h
    | false => exact Option.some.inj hs ▸ .fail h
  · next h =>
    split at hs
    · next hf => exact Option.some.inj hs ▸ .unlist h hf
    · cases hs
  · next h => exact Option.some.inj hs ▸ .hand h
  · next h => exact Option.some.inj hs ▸ .stop _ (by simp [h])
  · cases hs

inductive ShutdownMove (s : CoreState) (k : ℕ) : CoreState → Prop where
  | early (p : ShutdownPhase) (old : s.shutdowns k = .received)
      (new : p = .admitted ∨ ∃ error, p = .refused error) : ShutdownMove s k (s.setShutdown k p)
  | lock (old : s.shutdowns k = .admitted) (free : s.lock = none) :
      ShutdownMove s k { s.setShutdown k .locked with lock := some (.shutdown k) }
  | busy (error : String) (old : s.shutdowns k = .locked) :
      ShutdownMove s k { s.setShutdown k (.refused error) with lock := none }
  | empty (old : s.shutdowns k = .locked) (none : s.live = ∅) : ShutdownMove s k (s.setShutdown k .empty)
  | done (old : s.shutdowns k = .empty) :
      ShutdownMove s k { s.setShutdown k .done with shuttingDown := true, lock := none }

theorem shutdownStep_move {k : ℕ} (hs : s.shutdownStep k = some t) : ShutdownMove s k t := by
  unfold shutdownStep at hs
  split at hs
  · next h =>
    cases hs
    refine .early _ h ?_
    split <;> simp
  · next h =>
    split at hs
    · next hf => exact Option.some.inj hs ▸ .lock h hf
    · cases hs
  · next h =>
    split at hs
    · next hn => exact Option.some.inj hs ▸ .empty h hn
    · exact Option.some.inj hs ▸ .busy _ h
  · next h => exact Option.some.inj hs ▸ .done h
  · cases hs

end CoreState
end Unpeel.Core
