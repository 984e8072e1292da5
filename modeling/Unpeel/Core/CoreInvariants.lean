import Unpeel.Core.CoreMoves

/-! # The invariants of a core

The lock of the live set, the live set itself, the counter `launching`, the gate
of a handoff, the shutdown flag and the launch files, each with its own invariant
and the moves that keep it.
-/
namespace Unpeel.Core
open Function

namespace CoreState
variable {s t : CoreState} {i : ℕ}

section Lock

structure LockInv (s : CoreState) : Prop where
  launch : ∀ i, (s.launches i).phase.holdsLock → s.lock = some (.launch i)
  shutdown : ∀ k, s.shutdowns k = .locked ∨ s.shutdowns k = .empty → s.lock = some (.shutdown k)

theorem LockInv.launchMove (h : s.LockInv) (hm : LaunchMove s i t) : t.LockInv := by
  obtain ⟨h1,h2⟩ := h
  cases hm <;> constructor <;> simp only [setLaunch, setGuard, update_apply] <;>
    grind -ring -linarith [LaunchPhase.holdsLock]

theorem LockInv.handoffMove {j : ℕ} (h : s.LockInv) (hm : HandoffMove s j t) : t.LockInv := by
  obtain ⟨h1,h2⟩ := h
  cases hm with
  | commit => constructor <;> simp only [setHandoff, CoreState.commit] <;> grind -ring -linarith [LaunchPhase.holdsLock]
  | unlist => constructor <;> simp only [setHandoff, CoreState.unlist] <;> grind -ring -linarith [LaunchPhase.holdsLock]
  | _ => exact ⟨h1,h2⟩

theorem LockInv.shutdownMove {k : ℕ} (h : s.LockInv) (hm : ShutdownMove s k t) : t.LockInv := by
  obtain ⟨h1,h2⟩ := h
  cases hm <;> constructor <;> simp only [setShutdown, update_apply] <;>
    grind -ring -linarith [LaunchPhase.holdsLock]

end Lock

section Live

structure LiveInv (s : CoreState) : Prop where
  listed : ∀ i, (s.launches i).phase.inLive → (s.launches i).session ∈ s.live
  distinct : ∀ i j, (s.launches i).phase.inLive → (s.launches j).phase.inLive →
    (s.launches i).session = (s.launches j).session → i = j
  empty : ∀ k, s.shutdowns k = .empty → s.live = ∅

theorem LiveInv.congr (h : s.LiveInv) (hphase : ∀ k, (t.launches k).phase.inLive → (s.launches k).phase.inLive)
    (hsession : ∀ k, (t.launches k).session = (s.launches k).session) (hlive : t.live = s.live)
    (hshut : t.shutdowns = s.shutdowns) : t.LiveInv where
  listed := by
    intro k hk
    rw [hsession, hlive]
    exact h.listed k (hphase k hk)
  distinct := by
    intro k l hk hl he
    rw [hsession, hsession] at he
    exact h.distinct k l (hphase k hk) (hphase l hl) he
  empty := by
    rw [hshut, hlive]
    exact h.empty

/-- A launch that is not in the live set enters it with an id that is not there. -/
theorem LiveInv.list (hl : s.LockInv) (h : s.LiveInv) (old : (s.launches i).phase = .entering)
    (fresh : (s.launches i).session ∉ s.live) :
    LiveInv { s.setLaunch i .listed with lock := none, live := insert (s.launches i).session s.live } := by
  have hother (k : ℕ) (hk : (s.launches k).phase.inLive) : (s.launches k).session ≠ (s.launches i).session :=
    fun he => fresh (he ▸ h.listed k hk)
  constructor <;> simp only [CoreState.setLaunch, update_apply]
  · intro k hk
    split at hk
    · next he => simp [he]
    · next he =>
      rw [if_neg he]
      exact Finset.mem_insert_of_mem (h.listed k hk)
  · grind -ring -linarith [h.distinct]
  · intro k hk
    -- a shutdown that has seen the live set empty holds the lock
    have hlock := hl.shutdown k (.inr hk)
    rw [hl.launch i (by rw [old]; rfl)] at hlock
    cases hlock

theorem LiveInv.unlist (h : s.LiveInv) (old : (s.launches i).phase = .ending) :
    LiveInv { s.setLaunch i .ended with live := s.live.erase (s.launches i).session } := by
  have hother (k : ℕ) (hne : k ≠ i) (hk : (s.launches k).phase.inLive) :
      (s.launches k).session ≠ (s.launches i).session :=
    fun he => hne (h.distinct k i hk (by rw [old]; rfl) he)
  constructor <;> simp only [CoreState.setLaunch, update_apply]
  · intro k hk
    split at hk
    · cases hk
    next he =>
    rw [if_neg he]
    exact Finset.mem_erase.mpr ⟨hother k he hk,h.listed k hk⟩
  · grind -ring -linarith [h.distinct, LaunchPhase.inLive]
  · intro k hk
    rw [h.empty k hk, Finset.erase_empty]

theorem LiveInv.launchMove (hl : s.LockInv) (h : s.LiveInv) (hm : LaunchMove s i t) : t.LiveInv := by
  cases hm with
  | list old fresh => exact h.list hl old fresh
  | unlist old _ => exact h.unlist old
  | early | lock | refuse | enter | consume | count | setUp | host | finish =>
    refine h.congr ?_ ?_ rfl rfl <;> intro k <;> simp only [setLaunch, setGuard, update_apply] <;>
      grind -ring -linarith [LaunchPhase.inLive]

theorem LiveInv.handoffMove {j : ℕ} (h : s.LiveInv) (hm : HandoffMove s j t) : t.LiveInv := by
  obtain ⟨h1,h2,h3⟩ := h
  cases hm with
  | commit => constructor <;> simp only [setHandoff, CoreState.commit] <;> grind -ring -linarith [LaunchPhase.inLive]
  | unlist => constructor <;> simp only [setHandoff, CoreState.unlist] <;> grind -ring -linarith [LaunchPhase.inLive]
  | _ => exact ⟨h1,h2,h3⟩

theorem LiveInv.shutdownMove {k : ℕ} (h : s.LiveInv) (hm : ShutdownMove s k t) : t.LiveInv := by
  obtain ⟨h1,h2,h3⟩ := h
  cases hm <;> constructor <;> simp only [setShutdown, update_apply] <;> grind -ring -linarith

end Live

section Count

/-- The launches that count in `launching`. -/
def guards (s : CoreState) : Finset ℕ := (Finset.range s.requests).filter (fun i => (s.launches i).guard)

/-- `launching` is the number of guards, and a setup has one. -/
structure CountInv (s : CoreState) : Prop where
  bound : ∀ i, s.requests ≤ i → (s.launches i).phase = .idle ∧ (s.launches i).guard = false
  count : s.launching = s.guards.card
  setup : ∀ i, (s.launches i).phase.inSetup → (s.launches i).guard
  counted : ∀ i, (s.launches i).guard → (s.launches i).phase.wasCounted

theorem CountInv.lt (h : s.CountInv) (hi : (s.launches i).phase ≠ .idle) : i < s.requests := by
  by_contra hle
  exact hi (h.bound i (Nat.le_of_not_lt hle)).1

/-- No launch is being set up while `launching` is zero. -/
theorem CountInv.not_inSetup (h : s.CountInv) (h0 : s.launching = 0) (i : ℕ) :
    (s.launches i).phase.inSetup = false := by
  by_contra hs
  have hs : (s.launches i).phase.inSetup := by simpa using hs
  have hm : i ∈ s.guards := by
    refine Finset.mem_filter.mpr ⟨Finset.mem_range.mpr (h.lt ?_),h.setup i hs⟩
    intro hidle
    rw [hidle] at hs
    cases hs
  rw [h.count, Finset.card_eq_zero] at h0
  rw [h0] at hm
  exact Finset.notMem_empty i hm

theorem guards_congr (hr : t.requests = s.requests)
    (hg : ∀ k, (t.launches k).guard = (s.launches k).guard) : t.guards = s.guards := by
  unfold guards
  rw [hr]
  exact Finset.filter_congr (fun k _ => by rw [hg k])

theorem guards_setLaunch (s : CoreState) (i : ℕ) (p : LaunchPhase) : (s.setLaunch i p).guards = s.guards := by
  refine guards_congr rfl (fun k => ?_)
  simp only [setLaunch, update_apply]
  split
  · next hk => rw [hk]
  · rfl

theorem CountInv.setLaunch {p : LaunchPhase} (h : s.CountInv) (hi : (s.launches i).phase ≠ .idle)
    (hs : p.inSetup → (s.launches i).phase.inSetup) (hc : (s.launches i).phase.wasCounted → p.wasCounted) :
    (s.setLaunch i p).CountInv := by
  obtain ⟨h1,h2,h3,h4⟩ := h
  refine ⟨?_,by rw [guards_setLaunch]; exact h2,?_,?_⟩ <;> simp only [CoreState.setLaunch, update_apply] <;>
    grind -ring -linarith

theorem guards_setGuard_true (hi : i < s.requests) : (s.setGuard i true).guards = insert i s.guards := by
  ext k
  simp only [guards, setGuard, update_apply, Finset.mem_filter, Finset.mem_insert, Finset.mem_range]
  grind -ring -linarith

theorem guards_setGuard_false : (s.setGuard i false).guards = s.guards.erase i := by
  ext k
  simp only [guards, setGuard, update_apply, Finset.mem_filter, Finset.mem_erase, Finset.mem_range]
  grind -ring -linarith

theorem CountInv.launchMove (h : s.CountInv) (hm : LaunchMove s i t) : t.CountInv := by
  -- Every move but one is a change of phase, as far as the counter is concerned.
  have same : ∀ {p : LaunchPhase} {live : Finset ℕ} {lock : Option LockHolder} {consumer : ℕ → Option ℕ},
      (s.setLaunch i p).CountInv →
      CountInv { s.setLaunch i p with live := live, lock := lock, consumer := consumer } :=
    fun h => ⟨h.bound,h.count,h.setup,h.counted⟩
  cases hm with
  | count old =>
    have hlt := h.lt (i := i) (by simp [old])
    have hno : (s.launches i).guard = false := by
      by_contra hg
      have hw := h.counted i (by simpa using hg)
      rw [old] at hw
      cases hw
    have hn : i ∉ s.guards := fun hm => by simp [(Finset.mem_filter.mp hm).2] at hno
    obtain ⟨h1,h2,h3,h4⟩ := h
    refine ⟨?_,?_,?_,?_⟩
    · simp only [CoreState.setLaunch, setGuard, update_apply]
      grind -ring -linarith
    · show s.launching + 1 = ((s.setLaunch i .counted).setGuard i true).guards.card
      rw [guards_setGuard_true (s := s.setLaunch i .counted) hlt, guards_setLaunch,
        Finset.card_insert_of_notMem hn, h2]
    · simp only [CoreState.setLaunch, setGuard, update_apply]
      grind -ring -linarith
    · simp only [CoreState.setLaunch, setGuard, update_apply]
      grind -ring -linarith [LaunchPhase.wasCounted]
  | early p old new gate =>
    refine h.setLaunch ?_ ?_ ?_
    · grind -ring -linarith
    · grind -ring -linarith [LaunchPhase.inSetup]
    · grind -ring -linarith [LaunchPhase.wasCounted]
  | refuse error old =>
    rcases LaunchPhase.eq_of_holdsLock old with old | old <;>
      exact same (h.setLaunch (by simp [old]) (by simp [LaunchPhase.inSetup]) (by simp [old, LaunchPhase.wasCounted]))
  | lock old _ | list old _
  | consume old => exact same (h.setLaunch (by simp [old]) (by simp [LaunchPhase.inSetup]) (by simp [old, LaunchPhase.wasCounted]))
  | unlist old _ => exact same (h.setLaunch (by simp [old]) (by simp [LaunchPhase.inSetup]) (by simp [LaunchPhase.wasCounted]))
  | enter old _ => exact h.setLaunch (by simp [old]) (by simp [LaunchPhase.inSetup]) (by simp [old, LaunchPhase.wasCounted])
  | setUp old => exact h.setLaunch (by simp [old]) (by simp [old, LaunchPhase.inSetup]) (by simp [LaunchPhase.wasCounted])
  | host old | finish old => exact h.setLaunch (by simp [old]) (by simp [LaunchPhase.inSetup]) (by simp [LaunchPhase.wasCounted])

theorem CountInv.dropGuard (h : s.CountInv) (hs : s.dropGuard i = some t) : t.CountInv := by
  unfold CoreState.dropGuard at hs
  split at hs <;> cases hs
  next hg =>
  have hlt := h.lt (i := i) (fun hi => by simp [hi] at hg)
  have hm : i ∈ s.guards := Finset.mem_filter.mpr ⟨Finset.mem_range.mpr hlt,hg.1⟩
  obtain ⟨h1,h2,h3,h4⟩ := h
  refine ⟨?_,?_,?_,?_⟩
  · simp only [setGuard, update_apply]
    grind -ring -linarith
  · show s.launching - 1 = (s.setGuard i false).guards.card
    rw [guards_setGuard_false, Finset.card_erase_of_mem hm, h2]
  · simp only [setGuard, update_apply]
    grind -ring -linarith [LaunchPhase.inSetup]
  · simp only [setGuard, update_apply]
    grind -ring -linarith

theorem CountInv.handoffMove {j : ℕ} (h : s.CountInv) (hm : HandoffMove s j t) : t.CountInv := by
  obtain ⟨h1,h2,h3,h4⟩ := h
  cases hm with
  | commit =>
    have hg : (s.commit.setHandoff j .moved).guards = s.guards := by
      refine guards_congr rfl (fun k => ?_)
      simp only [setHandoff, CoreState.commit]
      split <;> rfl
    refine ⟨?_,by rw [hg]; exact h2,?_,?_⟩ <;> simp only [setHandoff, CoreState.commit] <;>
      grind -ring -linarith [LaunchPhase.inSetup, LaunchPhase.wasCounted]
  | unlist =>
    have hg : (s.unlist.setHandoff j .unlisted).guards = s.guards := by
      refine guards_congr rfl (fun k => ?_)
      simp only [setHandoff, CoreState.unlist]
      split <;> rfl
    refine ⟨?_,by rw [hg]; exact h2,?_,?_⟩ <;> simp only [setHandoff, CoreState.unlist] <;>
      grind -ring -linarith [LaunchPhase.inSetup, LaunchPhase.wasCounted]
  | _ => exact ⟨h1,h2,h3,h4⟩

end Count

section Gate

structure GateInv (s : CoreState) : Prop where
  active : ∀ j, (s.handoffs j).active → s.handingOff = true
  one : ∀ j k, (s.handoffs j).active → (s.handoffs k).active → j = k
  settled : ∀ j, (s.handoffs j).settled → ∀ i, (s.launches i).phase.pastGate = false ∧ (s.launches i).phase.inSetup = false
  committed : ∀ j, (s.handoffs j).committed → ∀ i, (s.launches i).phase ≠ .hosted
  handed : s.handedOff = true → ∃ j, s.handoffs j = .handed

theorem GateInv.launchMove (h : s.GateInv) (hm : LaunchMove s i t) : t.GateInv := by
  obtain ⟨h1,h2,h3,h4,h5⟩ := h
  have hactive : ∀ j, (s.handoffs j).settled → s.handingOff = true :=
    fun j hj => h1 j (HandoffPhase.active_of_settled hj)
  have hsettled : ∀ j, (s.handoffs j).committed → (s.handoffs j).settled :=
    fun j hj => HandoffPhase.settled_of_committed hj
  -- Before the gate a launch sees `handing_off`; behind it there is none.
  cases hm <;> refine ⟨h1,h2,?_,?_,h5⟩ <;>
    simp only [CoreState.setLaunch, setGuard, update_apply] <;>
    grind -ring -linarith [LaunchPhase.pastGate, LaunchPhase.inSetup, LaunchPhase.holdsLock]

theorem GateInv.not_handedOff {j : ℕ} (h : s.GateInv) (hactive : (s.handoffs j).active)
    (hnot : s.handoffs j ≠ .handed) : s.handedOff ≠ true := by
  intro hd
  obtain ⟨k,hk⟩ := h.handed hd
  obtain rfl : k = j := h.one k j (by rw [hk]; rfl) hactive
  exact hnot hk

theorem GateInv.setHandoff {j : ℕ} {p : HandoffPhase} (h : s.GateInv)
    (ha : p.active → (s.handoffs j).active) (hs : p.settled → (s.handoffs j).settled)
    (hc : p.committed → (s.handoffs j).committed) (hh : s.handoffs j ≠ .handed) : (s.setHandoff j p).GateInv := by
  obtain ⟨h1,h2,h3,h4,h5⟩ := h
  refine ⟨?_,?_,?_,?_,?_⟩ <;> simp only [CoreState.setHandoff, update_apply]
  · grind -ring -linarith
  · grind -ring -linarith
  · grind -ring -linarith
  · grind -ring -linarith
  · intro hd
    obtain ⟨k,hk⟩ := h5 hd
    refine ⟨k,?_⟩
    rw [if_neg (fun he : k = j => hh (he ▸ hk))]
    exact hk

theorem GateInv.handoffMove {j : ℕ} (h : s.GateInv) (hcount : s.CountInv)
    (hok : s.handoffs j = .checking → s.launching = 0 → ∀ i, (s.launches i).phase.pastGate = false)
    (hm : HandoffMove s j t) : t.GateInv := by
  have ⟨h1,h2,h3,h4,h5⟩ := h
  cases hm with
  | refuse error old => exact h.setHandoff (by simp [HandoffPhase.active]) (by simp [HandoffPhase.settled]) (by simp [HandoffPhase.committed]) (by simp [old])
  | stay old => exact h
  | begin old free =>
    -- With `handing_off` unset, no request is active.
    have hno : ∀ k, (s.handoffs k).active = false := by
      intro k
      by_contra hk
      rw [h1 k (by simpa using hk)] at free
      cases free
    refine ⟨fun _ _ => rfl,?_,?_,?_,?_⟩ <;> simp only [CoreState.setHandoff, update_apply]
    · grind -ring -linarith
    · grind -ring -linarith [HandoffPhase.settled]
    · grind -ring -linarith [HandoffPhase.committed]
    · intro hd
      obtain ⟨k,hk⟩ := h5 hd
      have := hno k
      rw [hk] at this
      cases this
  | stop error old =>
    have hact : (s.handoffs j).active := by
      simp only [List.mem_cons, List.not_mem_nil, or_false] at old
      rcases old with old | old | old <;> rw [old] <;> rfl
    refine ⟨?_,?_,?_,?_,?_⟩ <;> simp only [CoreState.setHandoff, update_apply]
    · grind -ring -linarith [HandoffPhase.active]
    · grind -ring -linarith [HandoffPhase.active]
    · grind -ring -linarith [HandoffPhase.settled]
    · grind -ring -linarith [HandoffPhase.committed]
    · exact fun hd => absurd hd (h.not_handedOff hact (fun he => by simp [he] at old))
  | go p old new =>
    simp only [List.mem_cons, List.not_mem_nil, or_false] at old new
    refine h.setHandoff ?_ ?_ ?_ ?_
    · rcases old with old | old <;> rw [old] <;> exact fun _ => rfl
    · rcases new with rfl | rfl <;> exact fun h => by cases h
    · rcases new with rfl | rfl <;> exact fun h => by cases h
    · rcases old with old | old <;> rw [old] <;> exact fun h => by cases h
  | settle old none =>
    have hgate := hok old none
    have hsetup := hcount.not_inSetup none
    have hact : (s.handoffs j).active := by rw [old]; rfl
    refine ⟨?_,?_,?_,?_,?_⟩ <;> simp only [CoreState.setHandoff, update_apply]
    · grind -ring -linarith
    · grind -ring -linarith
    · exact fun _ _ i => ⟨hgate i,hsetup i⟩
    · grind -ring -linarith [HandoffPhase.committed]
    · exact fun hd => absurd hd (h.not_handedOff hact (by simp [old]))
  | fail old => exact h.setHandoff (by rw [old]; exact fun _ => rfl) (by simp [HandoffPhase.settled]) (by simp [HandoffPhase.committed]) (by simp [old])
  | commit old =>
    have hgone := h3 j (by rw [old]; rfl)
    have hact : (s.handoffs j).active := by rw [old]; rfl
    refine ⟨?_,?_,?_,?_,?_⟩ <;> simp only [CoreState.setHandoff, CoreState.commit, update_apply]
    · grind -ring -linarith
    · grind -ring -linarith
    · grind -ring -linarith [LaunchPhase.pastGate, LaunchPhase.inSetup]
    · grind -ring -linarith
    · exact fun hd => absurd hd (h.not_handedOff hact (by simp [old]))
  | unlist old _ =>
    have hgone := h3 j (by rw [old]; rfl)
    have hhost := h4 j (by rw [old]; rfl)
    have hact : (s.handoffs j).active := by rw [old]; rfl
    refine ⟨?_,?_,?_,?_,?_⟩ <;> simp only [CoreState.setHandoff, CoreState.unlist, update_apply]
    · grind -ring -linarith
    · grind -ring -linarith
    · grind -ring -linarith [LaunchPhase.pastGate, LaunchPhase.inSetup]
    · grind -ring -linarith
    · exact fun hd => absurd hd (h.not_handedOff hact (by simp [old]))
  | hand old =>
    have hgone := h3 j (by rw [old]; rfl)
    have hhost := h4 j (by rw [old]; rfl)
    have hact : (s.handoffs j).active := by rw [old]; rfl
    refine ⟨?_,?_,?_,?_,fun _ => ⟨j,by simp [CoreState.setHandoff]⟩⟩ <;>
      simp only [CoreState.setHandoff, update_apply]
    · grind -ring -linarith
    · grind -ring -linarith
    · exact fun _ _ => hgone
    · exact fun _ _ => hhost

end Gate

section Flags

/-- With `shutting_down` set, no launch is behind the check under the lock. -/
def ShutInv (s : CoreState) : Prop :=
  s.shuttingDown = true → ∀ i, (s.launches i).phase.inLive = false ∧ (s.launches i).phase ≠ .entering

theorem ShutInv.launchMove (h : s.ShutInv) (hm : LaunchMove s i t) : t.ShutInv := by
  unfold ShutInv at h ⊢
  cases hm <;> simp only [CoreState.setLaunch, setGuard, update_apply] <;>
    grind -ring -linarith [LaunchPhase.inLive, LaunchPhase.holdsLock]

theorem ShutInv.handoffMove {j : ℕ} (h : s.ShutInv) (hm : HandoffMove s j t) : t.ShutInv := by
  unfold ShutInv at h ⊢
  cases hm with
  | commit => simp only [setHandoff, CoreState.commit]; grind -ring -linarith [LaunchPhase.inLive]
  | unlist => simp only [setHandoff, CoreState.unlist]; grind -ring -linarith [LaunchPhase.inLive]
  | _ => exact h

/-- The flag is set while the live set is empty and the lock is held. -/
theorem ShutInv.shutdownMove {k : ℕ} (hlock : s.LockInv) (hlive : s.LiveInv) (h : s.ShutInv)
    (hm : ShutdownMove s k t) : t.ShutInv := by
  cases hm with
  | done old =>
    intro _ i
    have hk := hlock.shutdown k (.inr old)
    refine ⟨?_,fun he => ?_⟩
    · by_contra hi
      change ¬(s.launches i).phase.inLive = false at hi
      have hm := hlive.listed i (by simpa using hi)
      rw [hlive.empty k old] at hm
      exact Finset.notMem_empty _ hm
    · have hi := hlock.launch i (by rw [show (s.launches i).phase = .entering from he]; rfl)
      rw [hk] at hi
      cases hi
  | _ => exact h

structure FileInv (s : CoreState) : Prop where
  taken : ∀ file i, s.consumer file = some i → (s.launches i).phase.lostFile
  served : ∀ i, (s.launches i).phase.gaveUp = false

theorem FileInv.launchMove (h : s.FileInv) (hm : LaunchMove s i t) : t.FileInv := by
  obtain ⟨h1,h2⟩ := h
  cases hm <;> constructor <;> simp only [CoreState.setLaunch, setGuard, update_apply] <;>
    grind -ring -linarith [LaunchPhase.lostFile, LaunchPhase.gaveUp, LaunchPhase.holdsLock]

theorem FileInv.handoffMove {j : ℕ} (h : s.FileInv) (hm : HandoffMove s j t) : t.FileInv := by
  obtain ⟨h1,h2⟩ := h
  cases hm with
  | commit =>
    constructor <;> simp only [setHandoff, CoreState.commit] <;> grind -ring -linarith [LaunchPhase.lostFile, LaunchPhase.gaveUp]
  | unlist =>
    constructor <;> simp only [setHandoff, CoreState.unlist] <;> grind -ring -linarith [LaunchPhase.lostFile, LaunchPhase.gaveUp]
  | _ => exact ⟨h1,h2⟩

end Flags
end CoreState
end Unpeel.Core
