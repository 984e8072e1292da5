import Unpeel.Core.CoreInvariants
import Unpeel.Foundation.Runs

/-! # Launches on a core that is about to exit

A launch looks at `handing_off` before it counts in `launching`, and a handoff
looks at `launching` after it has set `handing_off`. Between the two looks of the
launch nothing holds the handoff back.
-/
namespace Unpeel.Core
open Runs

namespace CoreState
variable {s t : CoreState} {i : ℕ}

structure Inv (s : CoreState) : Prop where
  lock : s.LockInv
  live : s.LiveInv
  count : s.CountInv
  gate : s.GateInv
  shut : s.ShutInv
  file : s.FileInv
  left : s.left = true → s.shuttingDown = true ∨ s.handedOff = true

section Steps

theorem LaunchMove.flags (hm : LaunchMove s i t) :
    t.left = s.left ∧ t.shuttingDown = s.shuttingDown ∧ t.handedOff = s.handedOff := by
  cases hm <;> exact ⟨rfl,rfl,rfl⟩

theorem HandoffMove.flags {j : ℕ} (hm : HandoffMove s j t) :
    t.left = s.left ∧ t.shuttingDown = s.shuttingDown ∧ (s.handedOff = true → t.handedOff = true) := by
  cases hm with
  | hand => exact ⟨rfl,rfl,fun _ => rfl⟩
  | _ => exact ⟨rfl,rfl,id⟩

theorem ShutdownMove.flags {k : ℕ} (hm : ShutdownMove s k t) :
    t.left = s.left ∧ (s.shuttingDown = true → t.shuttingDown = true) ∧ t.handedOff = s.handedOff := by
  cases hm with
  | done => exact ⟨rfl,fun _ => rfl,rfl⟩
  | _ => exact ⟨rfl,id,rfl⟩

theorem Inv.launchMove (h : s.Inv) (hm : LaunchMove s i t) : t.Inv := by
  obtain ⟨hl,hs,hh⟩ := hm.flags
  exact ⟨h.lock.launchMove hm,h.live.launchMove h.lock hm,h.count.launchMove hm,h.gate.launchMove hm,
    h.shut.launchMove hm,h.file.launchMove hm,by rw [hl, hs, hh]; exact h.left⟩

theorem Inv.handoffMove {j : ℕ} (h : s.Inv)
    (hok : s.handoffs j = .checking → s.launching = 0 → ∀ i, (s.launches i).phase.pastGate = false)
    (hm : HandoffMove s j t) : t.Inv := by
  obtain ⟨hl,hs,hh⟩ := hm.flags
  exact ⟨h.lock.handoffMove hm,h.live.handoffMove hm,h.count.handoffMove hm,
    h.gate.handoffMove h.count hok hm,h.shut.handoffMove hm,h.file.handoffMove hm,
    fun ht => (h.left (hl.symm.trans ht)).imp (hs.trans ·) hh⟩

theorem Inv.shutdownMove {k : ℕ} (h : s.Inv) (hm : ShutdownMove s k t) : t.Inv := by
  obtain ⟨hl,hs,hh⟩ := hm.flags
  refine ⟨h.lock.shutdownMove hm,h.live.shutdownMove hm,?_,?_,h.shut.shutdownMove h.lock h.live hm,?_,
    fun ht => (h.left (hl.symm.trans ht)).imp hs (hh.trans ·)⟩
  · obtain ⟨h1,h2,h3,h4⟩ := h.count
    cases hm <;> exact ⟨h1,h2,h3,h4⟩
  · obtain ⟨h1,h2,h3,h4,h5⟩ := h.gate
    cases hm <;> exact ⟨h1,h2,h3,h4,h5⟩
  · obtain ⟨h1,h2⟩ := h.file
    cases hm <;> exact ⟨h1,h2⟩

/-- A guard is dropped, and nothing but the counter notices. -/
theorem Inv.dropGuard (h : s.Inv) (hs : s.dropGuard i = some t) : t.Inv := by
  have hcount := h.count.dropGuard hs
  unfold CoreState.dropGuard at hs
  split at hs <;> cases hs
  obtain ⟨⟨l1,l2⟩,⟨v1,v2,v3⟩,_,⟨g1,g2,g3,g4,g5⟩,hshut,⟨f1,f2⟩,hleft⟩ := h
  have same : ∀ k, ((s.setGuard i false).launches k).phase = (s.launches k).phase ∧
      ((s.setGuard i false).launches k).session = (s.launches k).session := by
    intro k
    simp only [setGuard, Function.update_apply]
    split
    · next hk => exact ⟨by rw [hk],by rw [hk]⟩
    · exact ⟨rfl,rfl⟩
  refine ⟨⟨?_,l2⟩,⟨?_,?_,v3⟩,hcount,⟨g1,g2,?_,?_,g5⟩,?_,⟨?_,?_⟩,hleft⟩ <;>
    simp only [ShutInv, same] <;> assumption

theorem Inv.launchRequest (h : s.Inv) (file session : ℕ) :
    Inv { s with requests := s.requests + 1
                 launches := Function.update s.launches s.requests ⟨file,session,.received,false⟩ } := by
  obtain ⟨⟨l1,l2⟩,⟨v1,v2,v3⟩,⟨c1,c2,c3,c4⟩,⟨g1,g2,g3,g4,g5⟩,hshut,⟨f1,f2⟩,hleft⟩ := h
  refine ⟨⟨?_,l2⟩,⟨?_,?_,v3⟩,⟨?_,?_,?_,?_⟩,⟨g1,g2,?_,?_,g5⟩,?_,⟨?_,?_⟩,hleft⟩
  case refine_5 =>
    refine c2.trans (congrArg Finset.card ?_)
    unfold guards
    rw [Finset.range_add_one, Finset.filter_insert, if_neg (by simp)]
    refine Finset.filter_congr (fun k hk => ?_)
    simp only [Function.update_of_ne (Finset.mem_range.mp hk).ne]
  all_goals
    simp only [ShutInv, Function.update_apply] at hshut ⊢
    grind -ring -linarith [LaunchPhase.holdsLock, LaunchPhase.inLive, LaunchPhase.inSetup, LaunchPhase.pastGate,
      LaunchPhase.lostFile, LaunchPhase.gaveUp]

theorem Inv.step {a : CoreAction} (h : s.Inv) (hok : GateHolds s a) (hs : coreStep s a = some t) : t.Inv := by
  cases a with
  | launchRequest file session =>
    simp only [coreStep] at hs
    split at hs
    · cases hs
    exact Option.some.inj hs ▸ h.launchRequest file session
  | handoffRequest j =>
    simp only [coreStep] at hs
    split at hs
    · cases hs
    next hi =>
    have hidle : s.handoffs j = .idle := not_not.mp (not_or.mp hi).2
    cases hs
    exact ⟨⟨h.lock.1,h.lock.2⟩,⟨h.live.1,h.live.2,h.live.3⟩,⟨h.count.1,h.count.2,h.count.3,h.count.4⟩,
      h.gate.setHandoff (by simp [HandoffPhase.active]) (by simp [HandoffPhase.settled])
        (by simp [HandoffPhase.committed]) (by simp [hidle]),h.shut,⟨h.file.1,h.file.2⟩,h.left⟩
  | shutdownRequest k =>
    simp only [coreStep] at hs
    split at hs <;> cases hs
    obtain ⟨⟨l1,l2⟩,⟨v1,v2,v3⟩,⟨c1,c2,c3,c4⟩,⟨g1,g2,g3,g4,g5⟩,hshut,⟨f1,f2⟩,hleft⟩ := h
    refine ⟨⟨l1,?_⟩,⟨v1,v2,?_⟩,⟨c1,c2,c3,c4⟩,⟨g1,g2,g3,g4,g5⟩,hshut,⟨f1,f2⟩,hleft⟩ <;>
      simp only [setShutdown, Function.update_apply] <;> grind -ring -linarith
  | launch i ok => exact h.launchMove (launchStep_move hok (h.file.served i) hs)
  | dropGuard i => exact h.dropGuard hs
  | handoff j ok => exact h.handoffMove hok (handoffStep_move hs)
  | shutdown k => exact h.shutdownMove (shutdownStep_move hs)
  | leave =>
    simp only [coreStep] at hs
    split at hs <;> cases hs
    next hl =>
    exact ⟨⟨h.lock.1,h.lock.2⟩,⟨h.live.1,h.live.2,h.live.3⟩,⟨h.count.1,h.count.2,h.count.3,h.count.4⟩,
      ⟨h.gate.1,h.gate.2,h.gate.3,h.gate.4,h.gate.5⟩,h.shut,⟨h.file.1,h.file.2⟩,fun _ => hl⟩

end Steps

theorem Inv.leavesNoSession (h : s.Inv) : s.LeavesNoSession := by
  -- Either flag that ends the accept loop rules out every launch behind the gate.
  have out : s.left = true → ∀ i, (s.launches i).phase ≠ .hosted ∧ (s.launches i).phase ≠ .consumed ∧
      (s.launches i).phase.inSetup = false := by
    intro hl i
    rcases h.left hl with hs | hd
    · have hi := (h.shut hs i).1
      refine ⟨fun hp => ?_,fun hp => ?_,?_⟩
      · simp [hp, LaunchPhase.inLive] at hi
      · simp [hp, LaunchPhase.inLive] at hi
      · by_contra hp
        rw [LaunchPhase.inLive_of_inSetup (by simpa using hp)] at hi
        cases hi
    · obtain ⟨j,hj⟩ := h.gate.handed hd
      obtain ⟨hg,hs⟩ := h.gate.settled j (by rw [hj]; rfl) i
      refine ⟨h.gate.committed j (by rw [hj]; rfl) i,fun hp => ?_,hs⟩
      simp [hp, LaunchPhase.pastGate] at hg
  refine ⟨fun hl i => (out hl i).1,fun hl i => (out hl i).2,fun i error hp hc => ?_,h.file.served⟩
  have hlost := h.file.taken _ i hc
  rw [hp] at hlost
  cases hlost

theorem start_launches (adopted : List ℕ) (i : ℕ) :
    (∃ session, adopted.dedup[i]? = some session ∧ (start adopted).launches i = ⟨0,session,.hosted,false⟩) ∨
    (adopted.dedup.length ≤ i ∧ (start adopted).launches i = ⟨0,0,.idle,false⟩) := by
  cases h : adopted.dedup[i]? with
  | some session => exact .inl ⟨session,rfl,by simp [start, h]⟩
  | none => exact .inr ⟨List.getElem?_eq_none_iff.mp h,by simp [start, h]⟩

theorem start_inv (adopted : List ℕ) : (start adopted).Inv := by
  have phase : ∀ i, ((start adopted).launches i).phase = .hosted ∨ ((start adopted).launches i).phase = .idle := by
    intro i
    rcases start_launches adopted i with ⟨session,_,h⟩ | ⟨_,h⟩
    · exact .inl (by rw [h])
    · exact .inr (by rw [h])
  have hguard : ∀ i, ((start adopted).launches i).guard = false := by
    intro i
    rcases start_launches adopted i with ⟨session,_,h⟩ | ⟨_,h⟩ <;> rw [h]
  have listed : ∀ i, ((start adopted).launches i).phase.inLive →
      adopted.dedup[i]? = some ((start adopted).launches i).session := by
    intro i hi
    rcases start_launches adopted i with ⟨session,hs,h⟩ | ⟨_,h⟩
    · rw [h]
      exact hs
    · rw [h] at hi
      cases hi
  refine ⟨⟨fun i hi => ?_,fun k hk => ?_⟩,⟨fun i hi => ?_,fun i j hi hj he => ?_,fun k hk => ?_⟩,
    ⟨fun i hi => ?_,?_,fun i hi => ?_,fun i hi => ?_⟩,
    ⟨fun j hj => ?_,fun j k hj => ?_,fun j hj => ?_,fun j hj => ?_,fun hd => ?_⟩,fun hs => ?_,
    ⟨fun file i hc => ?_,fun i => ?_⟩,fun hl => ?_⟩
  · rcases phase i with h | h <;> rw [h] at hi <;> cases hi
  · rcases hk with hk | hk <;> cases hk
  · exact List.mem_toFinset.mpr (List.mem_dedup.mp (List.mem_of_getElem? (listed i hi)))
  · have hij := (listed i hi).trans (congrArg some he) |>.trans (listed j hj).symm
    obtain ⟨hlt,_⟩ := List.getElem?_eq_some_iff.mp (listed i hi)
    exact List.getElem?_inj hlt (List.nodup_dedup adopted) |>.mp hij
  · cases hk
  · rcases start_launches adopted i with ⟨session,hs,_⟩ | ⟨_,h⟩
    · obtain ⟨hlt,_⟩ := List.getElem?_eq_some_iff.mp hs
      exact absurd hlt (Nat.not_lt.mpr hi)
    · rw [h]
      exact ⟨rfl,rfl⟩
  · refine (Finset.card_eq_zero.mpr (Finset.filter_eq_empty_iff.mpr (fun i _ => ?_))).symm
    simp [hguard i]
  · rcases phase i with h | h <;> rw [h] at hi <;> cases hi
  · rw [hguard i] at hi
    cases hi
  · cases hj
  · cases hj
  · cases hj
  · cases hj
  · cases hd
  · cases hs
  · cases hc
  · rcases phase i with h | h <;> rw [h] <;> rfl
  · cases hl

end CoreState

open CoreState in
/-- In every interleaving of launches, shutdowns and handoffs in which the gate
holds, a core that has decided to exit never hosts a Session, and every launch is
hosted by the core that goes on or refused with its file in place. -/
theorem exiting_core_hosts_nothing (adopted : List ℕ) (as : List CoreAction)
    (hg : Guarded coreStep GateHolds (start adopted) as) :
    Always coreStep LeavesNoSession (start adopted) as := by
  apply always_of_guarded (J := CoreState.Inv)
  · exact fun s a t hs hok hst => hs.step hok hst
  · exact fun s hs => hs.leavesNoSession
  · exact start_inv adopted
  · exact hg

/-- A launch from its request to its check of `handing_off`. -/
def launchToGate : List CoreAction := [.launchRequest 0 7,.launch 0 true,.launch 0 true,.launch 0 true]

def gateToReactor : List CoreAction := List.replicate 8 (.launch 0 true)

def wholeHandoff : List CoreAction := .handoffRequest 0 :: List.replicate 7 (.handoff 0 true)

theorem exiting_core_hands_over :
    Always coreStep CoreState.LeavesNoSession (CoreState.start [])
      (launchToGate ++ gateToReactor ++ .dropGuard 0 :: (wholeHandoff ++ [.leave])) := by
  refine exiting_core_hosts_nothing [] _ ?_
  iterate 13 refine fun _ ht => ⟨by first | exact trivial | exact fun _ => rfl,?_⟩; cases ht
  iterate 4 refine fun _ ht => ⟨by first | exact trivial | exact fun h => absurd h (by decide),?_⟩; cases ht
  refine fun _ ht => ⟨fun _ _ i => ?_,?_⟩
  · cases i <;> rfl
  cases ht
  iterate 4 refine fun _ ht => ⟨by first | exact trivial | exact fun h => absurd h (by decide),?_⟩; cases ht
  trivial

/-- The handoff counts no launch while one is behind its check of `handing_off`,
and the launch goes on to the reactor of the core that leaves. -/
theorem launch_slips_behind_handoff :
    ¬Always coreStep CoreState.LeavesNoSession (CoreState.start [])
      (launchToGate ++ wholeHandoff ++ gateToReactor ++ [.leave]) := by
  intro h
  have hend := h.last rfl
  exact hend.unhosted rfl 0 rfl

end Unpeel.Core
