import Mathlib.Data.Finset.Card
import Mathlib.Data.Finset.Option
import Unpeel.Serve.PtyCoreSupervisor

/-! # The supervisor of the remote streamer

The worker starts the process that streams terminals to remote devices, and starts it again after
it exits, unless it keeps exiting at once. Then it waits until the paired devices change.
-/
namespace Unpeel.Serve
open Manifest

inductive StreamerEvent where
  | started (pid : ℕ) (restart : Bool)
  | exited (status : Text) (rapidFailures : ℕ) (gaveUp : Bool)
  | reapedStale (pid : ℕ)
  | spawnFailed (error : Text)

structure RemoteStreamer where
  child : Option ℕ := none
  launchedAt : ℕ
  nextSpawnAt : Option ℕ := none
  rapidFailures : ℕ := 0
  restarts : ℕ := 0
  gaveUp : Bool := false
  unavailable : Bool := false
  lastExit : Option Text := none
  stopped : Bool := false

/-- What a spawn meets: a stale streamer that is asked to exit, and the new process or why there is none. -/
structure SpawnEnv where
  stale : Option ℕ
  spawned : Except Text ℕ
  launchedAt : ℕ

def launches (events : List StreamerEvent) : Finset ℕ :=
  (events.filterMap fun | .started pid _ => some pid | _ => none).toFinset

/-- A wait that fails leaves a process alone that may be alive. -/
def lostChild : WaitResult → ℕ
  | .failed _ => 1
  | _ => 0

namespace RemoteStreamer

def spawn (env : SpawnEnv) (restart : Bool) (s : RemoteStreamer) : RemoteStreamer × List StreamerEvent :=
  let reaped := env.stale.toList.map .reapedStale
  match env.spawned with
  | .error error => ({ s with unavailable := true },reaped ++ [.spawnFailed error])
  | .ok pid =>
    ({ s with
      child := some pid
      launchedAt := env.launchedAt
      unavailable := false
      restarts := if restart then s.restarts + 1 else s.restarts },reaped ++ [.started pid restart])

def start (now : ℕ) (env : SpawnEnv) : RemoteStreamer × List StreamerEvent := spawn env false { launchedAt := now }

/-- What `poll` does when it learns that the child has gone. -/
def exit (now : ℕ) (wait : WaitResult) (s : RemoteStreamer) : RemoteStreamer × List StreamerEvent :=
  match wait with
  | .running => (s,[])
  | .exited status =>
    let failures := if rapidExitWindow ≤ now - s.launchedAt then 0 else s.rapidFailures + 1
    let gaveUp := s.gaveUp || decide (maxRapidFailures ≤ failures)
    ({ s with
      child := none
      lastExit := some status
      rapidFailures := failures
      gaveUp := gaveUp
      nextSpawnAt := if maxRapidFailures ≤ failures then none else some (now + restartDelay) },[.exited status failures gaveUp])
  | .failed error =>
    ({ s with
      child := none
      lastExit := some ("wait failed: ".toList ++ error)
      nextSpawnAt := some (now + restartDelay) },[])

def respawn (checked : ℕ) (env : SpawnEnv) (s : RemoteStreamer) : RemoteStreamer × List StreamerEvent :=
  if s.gaveUp ∨ s.unavailable then (s,[])
  else if s.nextSpawnAt.any (· ≤ checked) then spawn env true { s with nextSpawnAt := none }
  else (s,[])

/-- `poll`, with the times at which it looks at the child and at the deadline. -/
def poll (now checked : ℕ) (wait : WaitResult) (env : SpawnEnv) (s : RemoteStreamer) : RemoteStreamer × List StreamerEvent :=
  if s.stopped then (s,[])
  else if s.child.isSome then
    if wait.exit.isNone then (s,[])
    else
      let (s,events) := s.exit now wait
      let (s,more) := s.respawn checked env
      (s,events ++ more)
  else s.respawn checked env

def retryAfterPairingChange (env : SpawnEnv) (s : RemoteStreamer) : RemoteStreamer × List StreamerEvent :=
  if s.stopped ∨ s.child.isSome then (s,[])
  else spawn env true { s with gaveUp := false, unavailable := false, rapidFailures := 0, nextSpawnAt := none }

def stop (s : RemoteStreamer) : RemoteStreamer := { s with stopped := true, nextSpawnAt := none, child := none }

/-- An exit after a while. -/
def lastingExit (now : ℕ) (s : RemoteStreamer) : WaitResult → ℕ
  | .exited _ => if rapidExitWindow ≤ now - s.launchedAt then 1 else 0
  | _ => 0

/-- There is a child, or else a time at which it is started again or a reason why not. -/
structure Settled (s : RemoteStreamer) : Prop where
  running : s.child ≠ none → s.nextSpawnAt = none ∧ s.gaveUp = false ∧ s.unavailable = false ∧ s.stopped = false
  idle : s.child = none → s.stopped = true ∨ s.nextSpawnAt ≠ none ∨ s.gaveUp = true ∨ s.unavailable = true
  halted : s.stopped = true ∨ s.gaveUp = true ∨ s.unavailable = true → s.nextSpawnAt = none
  failures : s.rapidFailures ≤ maxRapidFailures
  gaveUp : s.gaveUp = true ↔ s.rapidFailures = maxRapidFailures

/-- The restarts so far and the one that is due. -/
def restartsDue (s : RemoteStreamer) : ℕ := s.restarts + if s.nextSpawnAt.isSome then 1 else 0

/-- How many of them the rapid failures account for. -/
def excused (s : RemoteStreamer) : ℕ := min s.rapidFailures 4

variable {s t : RemoteStreamer} {events : List StreamerEvent} {env : SpawnEnv}

theorem Settled.few (hs : s.Settled) (hup : s.gaveUp = false) : s.rapidFailures < maxRapidFailures :=
  lt_of_le_of_ne hs.failures fun h => absurd (hup.symm.trans (hs.gaveUp.mpr h)) Bool.false_ne_true

theorem spawn_spec {restart : Bool} (h : s.spawn env restart = (t,events)) (hchild : s.child = none) (hnext : s.nextSpawnAt = none)
    (hup : s.gaveUp = false) (hstopped : s.stopped = false) (hfew : s.rapidFailures < maxRapidFailures) :
    t.Settled ∧ launches events = t.child.toFinset ∧ t.nextSpawnAt = none ∧ t.rapidFailures = s.rapidFailures ∧
      t.restarts ≤ s.restarts + restart.toNat := by
  have hgaveUp : s.gaveUp = true ↔ s.rapidFailures = maxRapidFailures :=
    ⟨fun h => absurd (hup.symm.trans h) Bool.false_ne_true,fun h => absurd h hfew.ne⟩
  unfold spawn at h
  cases hspawned : env.spawned with
  | error error =>
    rw [hspawned] at h
    obtain ⟨rfl,rfl⟩ := Prod.mk.inj h
    refine ⟨⟨fun h => absurd hchild h,fun _ => .inr (.inr (.inr rfl)),fun _ => hnext,hfew.le,hgaveUp⟩,?_,hnext,rfl,Nat.le_add_right _ _⟩
    simp [launches, List.filterMap_map, hchild]
  | ok pid =>
    rw [hspawned] at h
    obtain ⟨rfl,rfl⟩ := Prod.mk.inj h
    refine ⟨⟨fun _ => ⟨hnext,hup,rfl,hstopped⟩,fun h => absurd h (Option.some_ne_none pid),fun _ => hnext,hfew.le,hgaveUp⟩,?_,hnext,rfl,?_⟩
    · simp [launches, List.filterMap_map]
    · cases restart <;> rfl

theorem respawn_spec {checked : ℕ} (h : s.respawn checked env = (t,events)) (hs : s.Settled) (hchild : s.child = none)
    (hstopped : s.stopped = false) :
    t.Settled ∧ launches events = t.child.toFinset ∧ t.rapidFailures = s.rapidFailures ∧ t.restartsDue ≤ s.restartsDue ∧
      (∀ due, t.nextSpawnAt = some due → s.nextSpawnAt = some due) ∧
      (launches events ≠ ∅ → ∃ due, s.nextSpawnAt = some due ∧ due ≤ checked) := by
  have hkept : launches ([] : List StreamerEvent) = s.child.toFinset := by rw [hchild]; rfl
  unfold respawn at h
  split_ifs at h with hhalted hdue
  · obtain ⟨rfl,rfl⟩ := Prod.mk.inj h
    exact ⟨hs,hkept,rfl,le_rfl,fun _ h => h,fun h => absurd rfl h⟩
  · have hup := eq_false_of_ne_true (not_or.mp hhalted).1
    obtain ⟨due,hnext,hpassed⟩ := (Option.any_eq_true ..).mp hdue
    obtain ⟨hsettled,hlaunched,hnone,hfailures,hrestarts⟩ := spawn_spec h hchild rfl hup hstopped (hs.few hup)
    refine ⟨hsettled,hlaunched,hfailures,?_,fun due h => absurd (hnone.symm.trans h) (Option.some_ne_none due).symm,
      fun _ => ⟨due,hnext,of_decide_eq_true hpassed⟩⟩
    rw [restartsDue, restartsDue, hnone, hnext]
    exact hrestarts
  · obtain ⟨rfl,rfl⟩ := Prod.mk.inj h
    exact ⟨hs,hkept,rfl,le_rfl,fun _ h => h,fun h => absurd rfl h⟩

theorem exit_spec {now : ℕ} {wait : WaitResult} (h : s.exit now wait = (t,events)) (hs : s.Settled) (hchild : s.child ≠ none)
    (hwait : wait ≠ .running) :
    t.Settled ∧ t.child = none ∧ t.stopped = false ∧ launches events = ∅ ∧
      (∀ due, t.nextSpawnAt = some due → due = now + restartDelay) ∧
      t.restartsDue + s.excused ≤ s.restartsDue + t.excused + 5 * s.lastingExit now wait + lostChild wait := by
  obtain ⟨hnext,hup,hunavailable,hstopped⟩ := hs.running hchild
  have hfew : s.rapidFailures < 5 := hs.few hup
  cases wait with
  | running => exact absurd rfl hwait
  | failed error =>
    obtain ⟨rfl,rfl⟩ := Prod.mk.inj h
    refine ⟨⟨fun h => absurd rfl h,fun _ => .inr (.inl (Option.some_ne_none _)),fun h => ?_,hs.failures,hs.gaveUp⟩,rfl,hstopped,rfl,
      fun due h => (Option.some.inj h).symm,?_⟩
    · simp [hstopped, hup, hunavailable] at h
    · simp [restartsDue, excused, hnext, lastingExit, lostChild]
      omega
  | exited status =>
    obtain ⟨rfl,rfl⟩ := Prod.mk.inj h
    unfold maxRapidFailures restartsDue excused lastingExit lostChild
    generalize hcount : (if rapidExitWindow ≤ now - s.launchedAt then 0 else s.rapidFailures + 1) = failures
    have hle : failures ≤ 5 := by split_ifs at hcount <;> omega
    have hmin : min s.rapidFailures 4 + 1 ≤ min failures 4 + 5 * (if rapidExitWindow ≤ now - s.launchedAt then 1 else 0) +
        if 5 ≤ failures then 1 else 0 := by split_ifs at hcount ⊢ <;> omega
    by_cases hmany : 5 ≤ failures
    · rw [if_pos hmany] at hmin
      refine ⟨⟨fun h => absurd rfl h,fun _ => .inr (.inr (.inl ?_)),fun _ => if_pos hmany,hle,?_⟩,rfl,hstopped,rfl,fun due h => ?_,?_⟩
      · simp [hmany]
      · simpa [hmany, maxRapidFailures] using hle.antisymm hmany
      · simp [hmany] at h
      · simp only [hmany, if_true, hnext, Option.isSome_none, Bool.false_eq_true, if_false]
        omega
    · rw [if_neg hmany] at hmin
      refine ⟨⟨fun h => absurd rfl h,fun _ => .inr (.inl ?_),fun h => ?_,hle,?_⟩,rfl,hstopped,rfl,fun due h => ?_,?_⟩
      · simp [hmany]
      · simp [hmany, hstopped, hup, hunavailable] at h
      · simpa [hmany, hup, maxRapidFailures] using fun h : failures = 5 => hmany h.ge
      · simpa [hmany, eq_comm] using h
      · simp only [hmany, if_false, hnext, Option.isSome_none, Option.isSome_some, if_true, Bool.false_eq_true]
        omega

end RemoteStreamer

/-- The supervisor with those of its processes that are alive, the time of the last exit it saw, and counts of the changes of
the paired devices, the exits after a while and the waits that failed. -/
structure Supervised where
  streamer : RemoteStreamer
  alive : Finset ℕ
  seen : ℕ := 0
  pairings : ℕ := 0
  lasting : ℕ := 0
  lost : ℕ := 0

namespace Supervised

def poll (now checked : ℕ) (wait : WaitResult) (env : SpawnEnv) (w : Supervised) : Supervised :=
  let (s,events) := w.streamer.poll now checked wait env
  let waited := !w.streamer.stopped && w.streamer.child.isSome
  { w with
    streamer := s
    alive := w.alive ∪ launches events
    seen := if waited && wait.exit.isSome then now else w.seen
    lasting := w.lasting + if waited then w.streamer.lastingExit now wait else 0
    lost := w.lost + if waited then lostChild wait else 0 }

def retry (env : SpawnEnv) (w : Supervised) : Supervised :=
  let (s,events) := w.streamer.retryAfterPairingChange env
  { w with streamer := s, alive := w.alive ∪ launches events, pairings := w.pairings + 1 }

/-- Whose exit a wait tells is not alive, and one that is stopped is waited for. -/
inductive Reached : Supervised → Prop where
  | start (now : ℕ) (env : SpawnEnv) : Reached ⟨(RemoteStreamer.start now env).1,launches (RemoteStreamer.start now env).2,0,0,0,0⟩
  | poll {w : Supervised} (h : Reached w) (now checked : ℕ) (wait : WaitResult) (env : SpawnEnv)
      (hgone : ∀ status, wait = .exited status → ∀ pid ∈ w.streamer.child, pid ∉ w.alive) : Reached (w.poll now checked wait env)
  | retry {w : Supervised} (h : Reached w) (env : SpawnEnv) : Reached (w.retry env)
  | dies {w : Supervised} (h : Reached w) (pid : ℕ) : Reached { w with alive := w.alive.erase pid }
  | stop {w : Supervised} (h : Reached w) :
    Reached { w with streamer := w.streamer.stop, alive := w.alive \ w.streamer.child.toFinset }

structure Kept (w : Supervised) : Prop where
  settled : w.streamer.Settled
  alive : (w.alive \ w.streamer.child.toFinset).card ≤ w.lost
  restarts : w.streamer.restartsDue ≤ w.streamer.excused + 5 * (w.pairings + w.lasting) + w.lost
  spaced : ∀ due, w.streamer.nextSpawnAt = some due → due = w.seen + restartDelay

variable {w : Supervised} {env : SpawnEnv}

theorem launches_append (events more : List StreamerEvent) : launches (events ++ more) = launches events ∪ launches more := by
  unfold launches
  rw [List.filterMap_append, List.toFinset_append]

theorem card_launched (alive child : Finset ℕ) : ((alive ∪ child) \ child).card ≤ alive.card := by
  rw [Finset.union_sdiff_right]
  exact Finset.card_le_card Finset.sdiff_subset

theorem Kept.idle (h : w.Kept) (hchild : w.streamer.child = none) : w.alive.card ≤ w.lost := by
  have halive := h.alive
  rwa [hchild, Option.toFinset_none, Finset.sdiff_empty] at halive

theorem Kept.poll (h : w.Kept) (now checked : ℕ) (wait : WaitResult)
    (hgone : ∀ status, wait = .exited status → ∀ pid ∈ w.streamer.child, pid ∉ w.alive) :
    (w.poll now checked wait env).Kept ∧
      (launches (w.streamer.poll now checked wait env).2 ≠ ∅ → (w.poll now checked wait env).seen + restartDelay ≤ checked) := by
  by_cases hquiet : w.streamer.stopped = true ∨ w.streamer.child.isSome = true ∧ wait = .running
  · have hpoll : w.streamer.poll now checked wait env = (w.streamer,[]) := by
      rcases hquiet with hstopped | ⟨hsome,rfl⟩ <;> simp [RemoteStreamer.poll, WaitResult.exit, *]
    have hw : w.poll now checked wait env = w := by
      rcases hquiet with hstopped | ⟨hsome,rfl⟩ <;>
        simp [Supervised.poll, launches, WaitResult.exit, RemoteStreamer.lastingExit, lostChild, *]
    rw [hw, hpoll]
    exact ⟨h,fun hlaunched => absurd rfl hlaunched⟩
  · obtain ⟨hstopped,hbusy⟩ := not_or.mp hquiet
    by_cases hchild : w.streamer.child = none
    · -- nothing is waited for
      rcases hrespawn : w.streamer.respawn checked env with ⟨t,events⟩
      have hpoll : w.streamer.poll now checked wait env = (t,events) := by simp [RemoteStreamer.poll, hstopped, hchild, hrespawn]
      obtain ⟨hsettled,hlaunched,hfailures,hrestarts,hnext,hdue⟩ :=
        RemoteStreamer.respawn_spec hrespawn h.settled hchild (eq_false_of_ne_true hstopped)
      have hw : w.poll now checked wait env = { w with streamer := t, alive := w.alive ∪ launches events } := by
        simp [Supervised.poll, hpoll, hchild]
      have hbound := hrestarts.trans h.restarts
      rw [hw, hpoll]
      refine ⟨⟨hsettled,?_,?_,fun due ht => h.spaced due (hnext due ht)⟩,fun hne => ?_⟩
      · rw [hlaunched]
        exact (card_launched ..).trans (h.idle hchild)
      · rwa [RemoteStreamer.excused, ← hfailures] at hbound
      · obtain ⟨due,ht,hpassed⟩ := hdue hne
        exact h.spaced due ht ▸ hpassed
    · have hsome : w.streamer.child.isSome = true := Option.isSome_iff_ne_none.mpr hchild
      have hwait : wait ≠ .running := fun hrunning => hbusy ⟨hsome,hrunning⟩
      rcases hexit : w.streamer.exit now wait with ⟨s,exited⟩
      rcases hrespawn : s.respawn checked env with ⟨t,events⟩
      have hgo : wait.exit.isSome = true := by cases wait <;> first | exact absurd rfl hwait | rfl
      have hpoll : w.streamer.poll now checked wait env = (t,exited ++ events) := by
        simp [RemoteStreamer.poll, hstopped, hsome, Option.isSome_iff_ne_none.mp hgo, hexit, hrespawn]
      obtain ⟨hexited,hnone,hrunning,hsilent,hdelay,hcredit⟩ := RemoteStreamer.exit_spec hexit h.settled hchild hwait
      obtain ⟨hsettled,hlaunched,hfailures,hrestarts,hnext,hdue⟩ := RemoteStreamer.respawn_spec hrespawn hexited hnone hrunning
      have hlaunches : launches (exited ++ events) = t.child.toFinset := by
        rw [launches_append, hsilent, Finset.empty_union, hlaunched]
      have hw : w.poll now checked wait env = { w with
          streamer := t, alive := w.alive ∪ t.child.toFinset, seen := now
          lasting := w.lasting + w.streamer.lastingExit now wait, lost := w.lost + lostChild wait } := by
        simp [Supervised.poll, hpoll, hlaunches, hstopped, hsome, hgo]
      rw [hw, hpoll]
      refine ⟨⟨hsettled,(card_launched ..).trans ?_,?_,fun due ht => hdelay due (hnext due ht)⟩,fun hne => ?_⟩
      · -- a child that is known to be gone does not count, and one that is not counts as lost
        have halive := h.alive
        cases wait with
        | running => exact absurd rfl hwait
        | exited status =>
          rwa [Finset.sdiff_eq_self_of_disjoint] at halive
          exact Finset.disjoint_right.mpr fun pid hpid => hgone status rfl pid (Option.mem_toFinset.mp hpid)
        | failed error =>
          have hone : w.streamer.child.toFinset.card ≤ 1 := by cases w.streamer.child <;> simp
          have hcard := Finset.card_le_card_sdiff_add_card (s := w.alive) (t := w.streamer.child.toFinset)
          exact hcard.trans (Nat.add_le_add halive hone)
      · have hbefore := h.restarts
        have hexcused : t.excused = s.excused := by rw [RemoteStreamer.excused, RemoteStreamer.excused, hfailures]
        dsimp only
        omega
      · rw [hlaunches, ← hlaunched] at hne
        obtain ⟨due,ht,hpassed⟩ := hdue hne
        exact hdelay due ht ▸ hpassed

theorem Kept.retry (h : w.Kept) : (w.retry env).Kept := by
  have hbound := h.restarts
  by_cases hkept : w.streamer.stopped = true ∨ w.streamer.child.isSome = true
  · have hw : w.retry env = { w with pairings := w.pairings + 1 } := by
      simp [Supervised.retry, RemoteStreamer.retryAfterPairingChange, hkept, launches]
    rw [hw]
    exact ⟨h.settled,h.alive,by dsimp only; omega,h.spaced⟩
  · rcases hspawn : RemoteStreamer.spawn env true { w.streamer with gaveUp := false, unavailable := false, rapidFailures := 0, nextSpawnAt := none } with ⟨t,events⟩
    have hw : w.retry env = { w with streamer := t, alive := w.alive ∪ launches events, pairings := w.pairings + 1 } := by
      simp only [Supervised.retry, RemoteStreamer.retryAfterPairingChange, if_neg hkept, hspawn]
    obtain ⟨hstopped,hchild⟩ := not_or.mp hkept
    have hnone : w.streamer.child = none := by simpa using hchild
    obtain ⟨hsettled,hlaunched,hnext,-,hrestarts⟩ :=
      RemoteStreamer.spawn_spec hspawn hnone rfl rfl (eq_false_of_ne_true hstopped) (Nat.zero_lt_succ _)
    rw [hw]
    refine ⟨hsettled,?_,?_,fun due ht => absurd (hnext.symm.trans ht) (Option.some_ne_none due).symm⟩
    · rw [hlaunched]
      exact (card_launched ..).trans (h.idle hnone)
    · have hmore : t.restarts ≤ w.streamer.restarts + 1 := hrestarts
      have hfew : w.streamer.excused ≤ 4 := Nat.min_le_right _ _
      have hdue : t.restartsDue = t.restarts := by rw [RemoteStreamer.restartsDue, hnext]; rfl
      unfold RemoteStreamer.restartsDue at hbound
      dsimp only
      omega

theorem Reached.kept (h : w.Reached) : w.Kept := by
  induction h with
  | start now env =>
    rcases hstart : RemoteStreamer.start now env with ⟨t,events⟩
    obtain ⟨hsettled,hlaunched,hnext,-,hrestarts⟩ := RemoteStreamer.spawn_spec hstart rfl rfl rfl rfl (Nat.zero_lt_succ _)
    refine ⟨hsettled,?_,?_,fun due ht => absurd (hnext.symm.trans ht) (Option.some_ne_none due).symm⟩
    · rw [hlaunched, Finset.sdiff_self, Finset.card_empty]
    · rw [RemoteStreamer.restartsDue, hnext]
      exact hrestarts.trans (Nat.zero_le _)
  | poll _ now checked wait env hgone ih => exact (ih.poll now checked wait hgone).1
  | retry _ env ih => exact ih.retry
  | dies _ pid ih =>
    exact ⟨ih.settled,(Finset.card_le_card (Finset.sdiff_subset_sdiff (Finset.erase_subset ..) subset_rfl)).trans ih.alive,
      ih.restarts,ih.spaced⟩
  | stop _ ih =>
    refine ⟨⟨fun hchild => absurd rfl hchild,fun _ => .inl rfl,fun _ => rfl,ih.settled.failures,ih.settled.gaveUp⟩,?_,
      (Nat.le_add_right _ _).trans ih.restarts,fun due ht => absurd ht (Option.some_ne_none due).symm⟩
    exact (Finset.card_le_card Finset.sdiff_subset).trans ih.alive

end Supervised

/-- In every run the supervisor has a child, or one that is due, or a reason to have none. No process of its is alive but the
child, except where a wait failed. It starts one again four times at first, and five times more for each change of the paired
devices and each exit after a while; a poll does so two seconds after the last exit it saw. -/
theorem streamer_is_supervised (w : Supervised) (h : w.Reached) :
    w.streamer.Settled ∧ (w.alive \ w.streamer.child.toFinset).card ≤ w.lost ∧
      w.streamer.restarts ≤ 4 + 5 * (w.pairings + w.lasting) + w.lost ∧
      ∀ now checked wait env, (∀ status, wait = .exited status → ∀ pid ∈ w.streamer.child, pid ∉ w.alive) →
        launches (w.streamer.poll now checked wait env).2 ≠ ∅ → (w.poll now checked wait env).seen + restartDelay ≤ checked := by
  have hbound := h.kept.restarts
  unfold RemoteStreamer.restartsDue RemoteStreamer.excused at hbound
  exact ⟨h.kept.settled,h.kept.alive,by omega,fun now checked wait env hgone => (h.kept.poll now checked wait hgone).2⟩

def streamerStarted : Supervised := ⟨(RemoteStreamer.start 0 ⟨none,.ok 7,0⟩).1,launches (RemoteStreamer.start 0 ⟨none,.ok 7,0⟩).2,0,0,0,0⟩

/-- The streamer dies, and a poll sees it. -/
def streamerExited : Supervised :=
  { streamerStarted with alive := streamerStarted.alive.erase 7 }.poll 100 100 (.exited "signal: 9".toList) ⟨none,.ok 8,100⟩

def streamerRestarted : Supervised := streamerExited.poll 2100 2100 .running ⟨none,.ok 8,2100⟩

theorem streamer_restarts_after_two_seconds :
    streamerRestarted.streamer.child = some 8 ∧ streamerRestarted.streamer.restarts = 1 ∧ (streamerRestarted.alive \ {8}).card ≤ 0 ∧
      ∀ checked env, launches (streamerExited.streamer.poll checked checked .running env).2 ≠ ∅ → 2100 ≤ checked := by
  have hexited : streamerExited.Reached := by
    apply Supervised.Reached.poll (.dies (.start 0 ⟨none,.ok 7,0⟩) 7)
    rintro _ _ _ ⟨⟩
    exact Finset.notMem_erase 7 _
  have hrestarted : streamerRestarted.Reached := hexited.poll 2100 2100 .running ⟨none,.ok 8,2100⟩ nofun
  refine ⟨rfl,rfl,(streamer_is_supervised _ hrestarted).2.1,fun checked env hlaunched => ?_⟩
  have hspaced := (streamer_is_supervised _ hexited).2.2.2 checked checked .running env nofun hlaunched
  exact hspaced

end Unpeel.Serve
