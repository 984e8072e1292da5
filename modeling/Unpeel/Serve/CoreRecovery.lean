import Mathlib.Data.Nat.Find
import Unpeel.Serve.CoreSupervision

/-! # A core that answers comes to be supervised

Once the record names a core that may be adopted and nothing changes but the time, the
supervisor gets to that core unless it waits for a process that stays.
-/
namespace Unpeel.Serve
open Runs Manifest Reaping

structure PollsIn (world : Look) (wait : ℕ → WaitResult) (env : PollEnv) : Prop where
  first : env.first = { world with now := env.first.now }
  second : env.second = { world with now := env.second.now }
  wait : env.wait = wait

structure Frozen (world : Look) (wait : ℕ → WaitResult) (polls : ℕ → PollEnv) : Prop where
  still : ∀ n, PollsIn world wait (polls n)
  time : ∀ now, ∃ n, ∀ m, n ≤ m → now ≤ (polls m).first.now ∧ now ≤ (polls m).second.now

def Supervises (s : Supervisor) (pid : ℕ) : Prop := (s.state = .live ∨ s.state = .adopted) ∧ s.pid = some pid

structure Serving (platform : Platform) (worker : ℕ) (world : Look) (record : CoreRecord) (reply : PingReply) : Prop where
  found : world.record = some record
  answered : adoptable platform worker world record = some reply

section Recovery
variable (platform : Platform) (self : ℕ)

/-- The supervisor after `n` polls. -/
def polled (s : Supervisor) (polls : ℕ → PollEnv) : ℕ → Supervisor
  | 0 => s
  | n + 1 => ((polled s polls n).poll platform self (polls n)).1

def Recovers (pid : ℕ) (s : Supervisor) (polls : ℕ → PollEnv) : Prop := ∃ n, Supervises (polled platform self s polls n) pid

def Supervisor.childExits (s : Supervisor) (wait : ℕ → WaitResult) : Bool := s.child.all fun child => (wait child).exit.isSome

def Supervisor.coreGone (s : Supervisor) (world : Look) : Bool :=
  s.pid.any fun pid =>
    recordedPidIdentity platform world.table world.answers pid (s.comparedStart world) = .notOurs

def comesTo (pid : ℕ) (world : Look) (wait : ℕ → WaitResult) (s : Supervisor) : Bool :=
  match s.state with
  | .off | .failed => false
  | .starting | .live => s.pid = some pid || s.childExits wait
  | .adopted => s.pid = some pid || (s.coreGone platform world && s.childExits wait)
  | .handingOff => s.pid = some pid || (s.coreGone platform world && s.childExits wait) ||
      s.child.any fun child => child = pid && !((wait child) matches .exited _)

end Recovery

/-- What every supervisor has: something to wait for while it starts, and its child while
that is the core. -/
structure Supervisor.Attended (s : Supervisor) : Prop where
  starting : s.state = .starting → s.child = none → s.nextSpawnAt ≠ none
  live : s.state = .live → s.child ≠ none
  handingOff : s.state = .handingOff → s.child ≠ none

namespace Supervisor
variable {platform : Platform} {self : ℕ} {s : Supervisor} {r : Supervisor × CoreLog} {env : PollEnv} {look : Look}

theorem Attended.of_adopted (h : s.state = .adopted) : s.Attended where
  starting := fun hno => (nomatch h.symm.trans hno)
  live := fun hno => (nomatch h.symm.trans hno)
  handingOff := fun hno => (nomatch h.symm.trans hno)

theorem Attended.of_child (h : s.child ≠ none) : s.Attended where
  starting := fun _ hno => absurd hno h
  live := fun _ => h
  handingOff := fun _ => h

theorem Attended.of_failed (h : s.state = .failed) : s.Attended where
  starting := fun hno => (nomatch h.symm.trans hno)
  live := fun hno => (nomatch h.symm.trans hno)
  handingOff := fun hno => (nomatch h.symm.trans hno)

theorem Attended.congr {s' : Supervisor} (h : s.Attended) (hstate : s'.state = s.state) (hchild : s'.child = s.child)
    (hspawn : s'.nextSpawnAt = s.nextSpawnAt) : s'.Attended where
  starting := by rw [hstate, hchild, hspawn]; exact h.starting
  live := by rw [hstate, hchild]; exact h.live
  handingOff := by rw [hstate, hchild]; exact h.handingOff

theorem tryAdopt_state (h : s.tryAdopt platform self look = some r) : r.1.state = .adopted := by
  obtain ⟨record,-,hr⟩ := Option.bind_eq_some_iff.mp h
  obtain ⟨reply,-,rfl⟩ := Option.map_eq_some_iff.mp hr
  rfl

theorem Attended.spawn (s : Supervisor) (look : Look) (spawned : Except Text ℕ) (restart : Bool) :
    (s.spawn look spawned restart).1.Attended := by
  cases spawned with
  | error error => exact .of_failed rfl
  | ok pid => exact .of_child fun hno => (nomatch hno)

theorem Attended.noteExit (s : Supervisor) (look : Look) (status : Text) : (s.noteExit look status).1.Attended := by
  unfold Supervisor.noteExit
  extract_lets failures gaveUp
  cases gaveUp with
  | true => exact .of_failed rfl
  | false => exact ⟨fun _ _ hno => (nomatch hno),fun hno => (nomatch hno),fun hno => (nomatch hno)⟩

theorem Attended.reap (h : s.reapOwnChild platform self look env.wait = some r) : r.1.Attended := by
  obtain ⟨status,-,rfl⟩ := Option.map_eq_some_iff.mp h
  dsimp only
  cases hadopted : { s with child := none, pid := none, sessions := none, lastExit := some status }.tryAdopt platform
      self look with
  | none => exact .noteExit _ look status
  | some adopted => exact .of_adopted (tryAdopt_state hadopted)

theorem Attended.respawn (h : r.1.Attended) (env : PollEnv) : (respawn platform self r env).1.Attended := by
  unfold Supervisor.respawn
  split
  · dsimp only
    cases hadopted : { r.1 with nextSpawnAt := none }.tryAdopt platform self env.second with
    | none => exact .spawn _ _ _ _
    | some adopted => exact .of_adopted (tryAdopt_state hadopted)
  · exact h

theorem Attended.pollStarting (h : s.Attended) (env : PollEnv) : (s.pollStarting platform self env).1.Attended := by
  unfold Supervisor.pollStarting
  split
  · next r hr => exact .reap hr
  · by_cases hchild : s.child = none
    · rw [if_pos hchild]
      exact h
    rw [if_neg hchild]
    split
    · exact h
    · dsimp only
      split
      · exact .of_child hchild
      · split
        · exact .of_child hchild
        · exact .of_child hchild

theorem Attended.pollLive (h : s.Attended) (hstate : s.state = .live) (env : PollEnv) :
    (s.pollLive platform self env).1.Attended := by
  unfold Supervisor.pollLive
  split
  · next r hr => exact .reap hr
  · unfold Supervisor.refreshHealth
    have hchild := h.live hstate
    split
    · exact h
    · dsimp only
      split
      · exact .of_child hchild
      · exact .of_child hchild

theorem Attended.checkBuildSkew (h : s.state = .adopted) (env : PollEnv) : (s.checkBuildSkew env).1.Attended := by
  unfold Supervisor.checkBuildSkew
  rw [if_neg (by simp [h])]
  extract_lets probed
  have hprobed : probed.state = .adopted := by
    unfold probed
    split
    · exact h
    · exact h
  split
  · split_ifs
    · exact .of_adopted hprobed
    · unfold Supervisor.drainOlderCore
      split_ifs
      · cases env.shutdown <;> exact .of_adopted hprobed
      · exact .of_adopted hprobed
      · exact .of_adopted hprobed
    · exact .of_adopted hprobed
    · dsimp only
      cases env.spawned with
      | error error => exact .of_adopted hprobed
      | ok newPid => exact .of_child fun hno => (nomatch hno)
  · exact .of_adopted hprobed

theorem Attended.pollAdopted (hstate : s.state = .adopted) (env : PollEnv) :
    (s.pollAdopted platform self env).1.Attended := by
  rcases s.pollAdopted_cases platform self env with ⟨-,heq⟩ | ⟨-,-,heq⟩ | ⟨pid,-,-,reply,-,heq⟩ | ⟨pid,-,-,-,-,heq⟩ |
    ⟨pid,-,-,-,-,heq⟩
  · rw [heq]
    exact .of_adopted hstate
  · rw [heq]
    exact .of_adopted hstate
  · rw [heq]
    apply Attended.checkBuildSkew
    exact hstate
  · rw [heq]
    exact ⟨fun _ _ hno => (nomatch hno),fun hno => (nomatch hno),fun hno => (nomatch hno)⟩
  · rw [heq]
    exact .of_adopted hstate

theorem Attended.pollHandingOff (h : s.Attended) (hstate : s.state = .handingOff) (env : PollEnv) :
    (s.pollHandingOff env).1.Attended := by
  have hchild := h.handingOff hstate
  rcases s.pollHandingOff_cases env with ⟨c,status,-,-,heq⟩ | ⟨-,-,heq⟩ | ⟨-,-,reply,-,heq⟩ | ⟨-,-,-,-,heq⟩ | ⟨-,-,-,-,heq⟩
  · rw [heq]
    exact .of_adopted rfl
  · rw [heq]
    exact h
  · rw [heq]
    exact .of_child hchild
  · rw [heq]
    exact .of_adopted rfl
  · rw [heq]
    exact .of_child hchild

theorem Attended.poll (h : s.Attended) (env : PollEnv) : (s.poll platform self env).1.Attended := by
  unfold Supervisor.poll
  cases hstate : s.state with
  | handingOff => exact h.pollHandingOff hstate env
  | off | failed => exact h
  | starting => exact (h.pollStarting env).respawn env
  | live => exact (h.pollLive hstate env).respawn env
  | adopted => exact (Attended.pollAdopted hstate env).respawn env

theorem Attended.fromEnv (enabled allowTakeover : Bool) (env : PollEnv) :
    (fromEnv platform self enabled allowTakeover env).1.Attended := by
  unfold Supervisor.fromEnv
  split
  · dsimp only
    have hstart : (start platform self env allowTakeover).1.Attended := by
      unfold Supervisor.start
      dsimp only
      cases hadopted : { off env.first.now allowTakeover with state := .starting }.tryAdopt platform self env.first with
      | none => exact .spawn _ _ _ _
      | some adopted => exact .of_adopted (tryAdopt_state hadopted)
    generalize (start platform self env allowTakeover).1 = s at hstart
    by_cases hstate : s.state = .adopted
    · apply Attended.checkBuildSkew
      exact hstate
    · unfold Supervisor.checkBuildSkew
      rw [if_pos hstate]
      exact hstart.congr rfl rfl rfl
  · exact ⟨fun hno => (nomatch hno),fun hno => (nomatch hno),fun hno => (nomatch hno)⟩

end Supervisor

section Frozen
variable {platform : Platform} {self : ℕ} {s : Supervisor} {env : PollEnv} {world look : Look} {wait : ℕ → WaitResult}
  {record : CoreRecord} {reply : PingReply} {polls : ℕ → PollEnv}
variable {pid child : ℕ}

theorem polled_add (s : Supervisor) (polls : ℕ → PollEnv) (n m : ℕ) :
    polled platform self s polls (n + m) =
      polled platform self (polled platform self s polls n) (fun k => polls (n + k)) m := by
  induction m with
  | zero => rfl
  | succ m ih =>
    rw [← Nat.add_assoc]
    simp only [polled]
    rw [ih]

theorem Recovers.of_supervises (h : Supervises s pid) (polls : ℕ → PollEnv) : Recovers platform self pid s polls :=
  ⟨0,h⟩

theorem Recovers.of_polled {pid n : ℕ}
    (h : Recovers platform self pid (polled platform self s polls n) fun k => polls (n + k)) :
    Recovers platform self pid s polls := by
  obtain ⟨m,hm⟩ := h
  exact ⟨n + m,by rwa [polled_add]⟩

theorem Recovers.of_poll (h : Recovers platform self pid (s.poll platform self (polls 0)).1 fun k => polls (1 + k)) :
    Recovers platform self pid s polls := Recovers.of_polled (n := 1) h

theorem Recovers.when (due : PollEnv → Prop) (hstay : ∀ n, ¬due (polls n) → (s.poll platform self (polls n)).1 = s)
    (hdue : ∀ n, due (polls n) →
      Recovers platform self pid (s.poll platform self (polls n)).1 fun k => polls (n + 1 + k))
    (hex : ∃ n, due (polls n)) : Recovers platform self pid s polls := by
  classical
  have hbefore : ∀ n, n ≤ Nat.find hex → polled platform self s polls n = s := by
    intro n hn
    induction n with
    | zero => rfl
    | succ n ih =>
      simp only [polled]
      rw [ih (by omega)]
      exact hstay n (Nat.find_min hex hn)
  apply Recovers.of_polled (n := Nat.find hex + 1)
  simp only [polled]
  rw [hbefore _ le_rfl]
  exact hdue _ (Nat.find_spec hex)

theorem Frozen.shift (h : Frozen world wait polls) (n : ℕ) : Frozen world wait fun k => polls (n + k) where
  still := fun k => h.still (n + k)
  time := by
    intro now
    obtain ⟨m,hm⟩ := h.time now
    exact ⟨m,fun k hk => hm (n + k) (by omega)⟩

theorem poll_starting (hstate : s.state = .starting) (env : PollEnv) : s.poll platform self env =
    Supervisor.respawn platform self (s.pollStarting platform self env) env := by
  unfold Supervisor.poll
  rw [hstate]

theorem poll_live (hstate : s.state = .live) (env : PollEnv) : s.poll platform self env =
    Supervisor.respawn platform self (s.pollLive platform self env) env := by
  unfold Supervisor.poll
  rw [hstate]

theorem poll_adopted (hstate : s.state = .adopted) (env : PollEnv) : s.poll platform self env =
    Supervisor.respawn platform self (s.pollAdopted platform self env) env := by
  unfold Supervisor.poll
  rw [hstate]

theorem poll_handingOff (hstate : s.state = .handingOff) (env : PollEnv) :
    s.poll platform self env = s.pollHandingOff env := by
  unfold Supervisor.poll
  rw [hstate]

theorem respawn_other {r : Supervisor × CoreLog} (h : r.1.state ≠ .starting ∨ r.1.child ≠ none) :
    Supervisor.respawn platform self r env = r := by
  unfold Supervisor.respawn
  rw [if_neg]
  rintro ⟨hstate,hchild,-⟩
  exact h.elim (· hstate) (· hchild)

theorem reap_running (hpoll : PollsIn world wait env) (hexit : ∀ child, s.child = some child → (wait child).exit = none) :
    s.reapOwnChild platform self env.first env.wait = none := by
  unfold Supervisor.reapOwnChild
  cases hchild : s.child with
  | none => rfl
  | some child => rw [Option.bind_some, hpoll.wait, hexit child hchild, Option.map_none]

theorem PollsIn.identity (h : PollsIn world wait env) (s : Supervisor) (pid : ℕ) :
    recordedPidIdentity platform env.first.table env.first.answers pid (s.comparedStart env.first) =
      recordedPidIdentity platform world.table world.answers pid (s.comparedStart world) := by
  rw [h.first]
  rfl

theorem handingOff_early (hpoll : PollsIn world wait env) (hstate : s.state = .handingOff)
    (hwait : ∀ child, s.child = some child → ∀ status, wait child ≠ .exited status)
    (hearly : env.first.now - s.lastHealth < startInterval) : (s.poll platform self env).1 = s := by
  rw [poll_handingOff hstate]
  rcases s.pollHandingOff_cases env with ⟨child,status,hchild,hexited,-⟩ | ⟨-,-,heq⟩ | ⟨-,hlate,-⟩ | ⟨-,-,hlate,-⟩ |
    ⟨-,-,hlate,-⟩
  · rw [hpoll.wait] at hexited
    exact absurd hexited (hwait child hchild status)
  · rw [heq]
  · exact absurd hearly (Nat.not_lt.mpr hlate)
  · exact absurd hearly (Nat.not_lt.mpr hlate)
  · exact absurd hearly (Nat.not_lt.mpr hlate)

theorem handingOff_exited (hpoll : PollsIn world wait env) (hstate : s.state = .handingOff) {status : Text}
    (hchild : s.child = some child) (hexited : wait child = .exited status) : (s.poll platform self env).1 =
      { s with child := none, takeoverFrom := none, state := .adopted, lastHealth := env.first.now } := by
  rw [poll_handingOff hstate]
  have hrunning (hno : ∀ child, s.child = some child → ∀ status, env.wait child ≠ .exited status) : False :=
    hno child hchild status (by rw [hpoll.wait]; exact hexited)
  rcases s.pollHandingOff_cases env with ⟨_,_,-,-,heq⟩ | ⟨hno,-⟩ | ⟨hno,-⟩ | ⟨hno,-⟩ | ⟨hno,-⟩
  · rw [heq]
  · exact (hrunning hno).elim
  · exact (hrunning hno).elim
  · exact (hrunning hno).elim
  · exact (hrunning hno).elim

theorem comesTo_congr {s' : Supervisor} (hstate : s'.state = s.state) (hpid : s'.pid = s.pid)
    (hchild : s'.child = s.child) (hstart : s'.adoptedStartedAt = s.adoptedStartedAt) (pid : ℕ) :
    comesTo platform pid world wait s' = comesTo platform pid world wait s := by
  unfold comesTo Supervisor.childExits Supervisor.coreGone Supervisor.comparedStart
  rw [hstate, hpid, hchild, hstart]

theorem comesTo_of_supervises (h : Supervises s pid) : comesTo platform pid world wait s = true := by
  obtain ⟨hstate | hstate,hpid⟩ := h
  · simp [comesTo, hstate, hpid]
  · simp [comesTo, hstate, hpid]

theorem astray_own_iff (hstate : s.state = .starting ∨ s.state = .live) :
    comesTo platform pid world wait s = false ↔ s.pid ≠ some pid ∧ s.childExits wait = false := by
  unfold comesTo
  rcases hstate with hstate | hstate
  · simp [hstate]
  · simp [hstate]

theorem astray_adopted_iff (hstate : s.state = .adopted) : comesTo platform pid world wait s = false ↔
    s.pid ≠ some pid ∧ (s.coreGone platform world = true → s.childExits wait = false) := by
  unfold comesTo
  simp [hstate]

section Serving
variable (h : Serving platform self world record reply)
include h

theorem Serving.standing (hlook : look = { world with now := look.now }) : Serving platform self look record reply := by
  rw [hlook]
  exact ⟨h.found,h.answered⟩

theorem Serving.pid_ne_zero : record.pid ≠ 0 := by
  intro hzero
  have hnone : adoptable platform self world record = none := if_pos (.inl hzero)
  cases hnone.symm.trans h.answered

theorem Serving.named : world.named (some record.pid) = some reply := by
  have hanswered := h.answered
  unfold adoptable at hanswered
  split_ifs at hanswered
  have hping := (Option.filter_eq_some_iff.mp hanswered).1
  unfold Look.named
  rw [h.found, Option.filter_some, if_pos (by simp)]
  exact hping

theorem Serving.named_other {pid : Option ℕ} (hpid : pid ≠ some record.pid) : world.named pid = none := by
  unfold Look.named
  rw [h.found]
  simp [Ne.symm hpid]

theorem Serving.adoptedReply_other (hpid : pid ≠ record.pid) : adoptedReply platform self world pid = none := by
  unfold adoptedReply
  rw [h.found]
  simp [Ne.symm hpid]

theorem Serving.tryAdopt (s : Supervisor) :
    ∃ r, s.tryAdopt platform self world = some r ∧ r.1.state = .adopted ∧ r.1.pid = some record.pid := by
  have hadopted : s.tryAdopt platform self world =
      some ({ s with
        state := .adopted, pid := some record.pid, sessions := reply.sessions, rapidFailures := 0, nextSpawnAt := none
        lastHealth := world.now },[(world,.adopted record.pid (reply.sessions.getD 0))]) := by
    unfold Supervisor.tryAdopt
    rw [h.found, Option.bind_some, h.answered]
    rfl
  exact ⟨_,hadopted,rfl,rfl⟩

theorem Serving.reap (hpoll : PollsIn world wait env)
    (hchild : s.child = some child) (hexit : (wait child).exit.isSome = true) :
    ∃ r, s.reapOwnChild platform self env.first env.wait = some r ∧ r.1.state = .adopted ∧ r.1.pid = some record.pid := by
  obtain ⟨status,hstatus⟩ := Option.isSome_iff_exists.mp hexit
  obtain ⟨r,hr,hstate,hpid⟩ := (h.standing hpoll.first).tryAdopt
    { s with child := none, pid := none, sessions := none, lastExit := some status }
  refine ⟨r,?_,hstate,hpid⟩
  unfold Supervisor.reapOwnChild
  rw [hchild, Option.bind_some, hpoll.wait, hstatus, Option.map_some]
  dsimp only
  rw [hr, Option.getD_some]

/-- Starting without a child: the core is adopted once the delay is over. -/
theorem recovers_delayed (hf : Frozen world wait polls)
    (ha : s.Attended) (hstate : s.state = .starting) (hchild : s.child = none) :
    Recovers platform self record.pid s polls := by
  obtain ⟨deadline,hdeadline⟩ := Option.ne_none_iff_exists'.mp (ha.starting hstate hchild)
  have hpoll (n : ℕ) : s.pollStarting platform self (polls n) = (s,[]) := by
    unfold Supervisor.pollStarting
    rw [reap_running (hf.still n) (fun child hno => (nomatch hchild.symm.trans hno))]
    exact if_pos hchild
  refine .when (fun env => deadline ≤ env.second.now) ?_ ?_ ?_
  · intro n hearly
    rw [poll_starting hstate, hpoll]
    unfold Supervisor.respawn
    rw [if_neg]
    rintro ⟨-,-,hdue⟩
    rw [hdeadline, Option.any_some, decide_eq_true_eq] at hdue
    exact hearly hdue
  · intro n hdue
    apply Recovers.of_supervises
    obtain ⟨r,hr,hadopted,hpid⟩ := (h.standing (hf.still n).second).tryAdopt { s with nextSpawnAt := none }
    rw [poll_starting hstate, hpoll]
    unfold Supervisor.respawn
    rw [if_pos ⟨hstate,hchild,by rw [hdeadline]; simpa using hdue⟩]
    dsimp only
    rw [hr]
    exact ⟨.inr hadopted,hpid⟩
  · obtain ⟨n,hn⟩ := hf.time deadline
    exact ⟨n,(hn n le_rfl).2⟩

/-- The exit of the child leads to the core. -/
theorem recovers_reaped (hf : Frozen world wait polls)
    (hstate : s.state = .starting ∨ s.state = .live) (hchild : s.child = some child)
    (hexit : (wait child).exit.isSome = true) : Recovers platform self record.pid s polls := by
  obtain ⟨r,hr,hadopted,hpid⟩ := h.reap (hf.still 0) hchild hexit
  have hpoll : s.poll platform self (polls 0) = r := by
    rcases hstate with hstate | hstate
    · rw [poll_starting hstate]
      unfold Supervisor.pollStarting
      rw [hr]
      exact respawn_other (.inl (by simp [hadopted]))
    · rw [poll_live hstate]
      unfold Supervisor.pollLive
      rw [hr]
      exact respawn_other (.inl (by simp [hadopted]))
  apply Recovers.of_poll
  apply Recovers.of_supervises
  rw [hpoll]
  exact ⟨.inr hadopted,hpid⟩

/-- The child is the core of the record and answers. -/
theorem recovers_ready (hf : Frozen world wait polls)
    (hstate : s.state = .starting) (hchild : s.child = some child) (hexit : (wait child).exit = none)
    (hpid : s.pid = some record.pid) : Recovers platform self record.pid s polls := by
  have hreap (n : ℕ) : s.reapOwnChild platform self (polls n).first (polls n).wait = none :=
    reap_running (hf.still n) fun other hother => by cases hchild.symm.trans hother; exact hexit
  refine .when (fun env => startInterval ≤ env.first.now - s.lastHealth) ?_ ?_ ?_
  · intro n hearly
    rw [poll_starting hstate]
    unfold Supervisor.pollStarting
    rw [hreap]
    rw [if_neg (by simp [hchild]), if_pos (Nat.lt_of_not_le hearly), respawn_other (.inr (by simp [hchild]))]
  · intro n hdue
    apply Recovers.of_supervises
    have hnamed := (h.standing (hf.still n).first).named
    rw [poll_starting hstate]
    unfold Supervisor.pollStarting
    rw [hreap]
    dsimp only
    rw [if_neg (by simp [hchild]), if_neg (Nat.not_lt.mpr hdue), hpid, hnamed]
    exact ⟨.inl rfl,rfl⟩
  · obtain ⟨n,hn⟩ := hf.time (s.lastHealth + startInterval)
    exact ⟨n,Nat.le_sub_of_add_le' (hn n le_rfl).1⟩

theorem recovers_starting (hf : Frozen world wait polls)
    (ha : s.Attended) (hstate : s.state = .starting) (hcomes : s.pid = some record.pid ∨ s.childExits wait = true) :
    Recovers platform self record.pid s polls := by
  cases hchild : s.child with
  | none => exact recovers_delayed h hf ha hstate hchild
  | some child =>
    cases hexit : (wait child).exit with
    | some status => exact recovers_reaped h hf (.inl hstate) hchild (by rw [hexit]; rfl)
    | none =>
      refine recovers_ready h hf hstate hchild hexit (hcomes.resolve_right fun hno => ?_)
      unfold Supervisor.childExits at hno
      rw [hchild, Option.all_some, hexit] at hno
      cases hno

/-- A loss leads to the core once the child is done. -/
theorem recovers_lost (hf : Frozen world wait polls)
    (ha : s.Attended) (hstate : s.state = .adopted) (hpid : s.pid = some pid) (hother : pid ≠ record.pid)
    (hgone : recordedPidIdentity platform world.table world.answers pid (s.comparedStart world) = .notOurs)
    (hexits : s.childExits wait = true) : Recovers platform self record.pid s polls := by
  refine .when (fun env => healthInterval ≤ env.first.now - s.lastHealth) ?_ ?_ ?_
  · intro n hearly
    have heq : s.pollAdopted platform self (polls n) = (s,[]) := if_pos (Nat.lt_of_not_le hearly)
    rw [poll_adopted hstate, heq, respawn_other (.inl (by simp [hstate]))]
  · intro n hdue
    have hstill := hf.still n
    have hreply := (h.standing hstill.first).adoptedReply_other hother
    have hattended : (s.poll platform self (polls n)).1.Attended := ha.poll (polls n)
    rw [poll_adopted hstate] at hattended ⊢
    rcases s.pollAdopted_cases platform self (polls n) with ⟨hno,-⟩ | ⟨-,hno,-⟩ | ⟨found,-,hfound,reply,hsome,-⟩ |
      ⟨found,-,hfound,-,-,heq⟩ | ⟨found,-,hfound,-,hours,-⟩
    · exact absurd hno (Nat.not_lt.mpr hdue)
    · cases hpid.symm.trans hno
    · cases hpid.symm.trans hfound
      cases hreply.symm.trans hsome
    · rw [heq] at hattended ⊢
      unfold Supervisor.respawn at hattended ⊢
      split
      · -- the delay has passed within the poll
        apply Recovers.of_supervises
        dsimp only
        obtain ⟨r,hr,hadopted,hadoptedPid⟩ := (h.standing hstill.second).tryAdopt { s with
          lastHealth := (polls n).first.now, pid := none, sessions := none
          lastExit := some "adopted core gone".toList, state := .starting, nextSpawnAt := none }
        rw [hr]
        exact ⟨.inr hadopted,hadoptedPid⟩
      · next hwaits =>
        rw [if_neg hwaits] at hattended
        exact recovers_starting h (hf.shift (n + 1)) hattended rfl (.inr hexits)
    · cases hpid.symm.trans hfound
      rw [hstill.identity] at hours
      exact absurd hgone hours
  · obtain ⟨n,hn⟩ := hf.time (s.lastHealth + healthInterval)
    exact ⟨n,Nat.le_sub_of_add_le' (hn n le_rfl).1⟩

theorem recovers_adopted (hf : Frozen world wait polls) (ha : s.Attended) (hstate : s.state = .adopted)
    (hcomes : s.pid = some record.pid ∨ (s.coreGone platform world = true ∧ s.childExits wait = true)) :
    Recovers platform self record.pid s polls := by
  by_cases hsame : s.pid = some record.pid
  · exact .of_supervises ⟨.inr hstate,hsame⟩ polls
  · obtain ⟨hgone,hexits⟩ := hcomes.resolve_left hsame
    obtain ⟨pid,hpid,hidentity⟩ := (Option.any_eq_true _ _).mp hgone
    have hother : pid ≠ record.pid := fun heq => hsame (heq ▸ hpid)
    exact recovers_lost h hf ha hstate hpid hother (by simpa using hidentity) hexits

theorem Serving.named_iff {answer : PingReply} (hnamed : world.named (some pid) = some answer) : pid = record.pid := by
  by_contra hother
  rw [h.named_other fun hno => hother (Option.some.inj hno)] at hnamed
  cases hnamed

/-- What a poll makes of a takeover that goes on. -/
theorem handingOff_poll (hpoll : PollsIn world wait env)
    (hstate : s.state = .handingOff) (hwait : ∀ child, s.child = some child → ∀ status, wait child ≠ .exited status) :
    Supervises (s.poll platform self env).1 record.pid ∨
    (s.child.getD 0 ≠ record.pid ∧ takeoverTimeout ≤ env.first.now - s.takeoverStartedAt ∧
      (s.poll platform self env).1 =
        { s with lastHealth := env.first.now, takeoverFrom := none, state := .adopted }) ∨
    (startInterval ≤ env.first.now - s.lastHealth → env.first.now - s.takeoverStartedAt < takeoverTimeout) ∧
      ∃ lastHealth, (s.poll platform self env).1 = { s with lastHealth := lastHealth } := by
  have hserving := h.standing hpoll.first
  have hsilent (hnone : env.first.named (some (s.child.getD 0)) = none) : s.child.getD 0 ≠ record.pid := by
    intro heq
    rw [heq, hserving.named] at hnone
    cases hnone
  rw [poll_handingOff hstate]
  rcases s.pollHandingOff_cases env with ⟨child,status,hchild,hexited,-⟩ | ⟨-,hearly,heq⟩ | ⟨-,-,answer,hnamed,heq⟩ |
    ⟨-,hnone,-,htimeout,heq⟩ | ⟨-,-,-,htime,heq⟩
  · rw [hpoll.wait] at hexited
    exact absurd hexited (hwait child hchild status)
  · rw [heq]
    exact .inr (.inr ⟨fun hno => absurd hearly (Nat.not_lt.mpr hno),s.lastHealth,rfl⟩)
  · rw [heq]
    exact .inl ⟨.inl rfl,congrArg some (hserving.named_iff hnamed)⟩
  · rw [heq]
    exact .inr (.inl ⟨hsilent hnone,htimeout,rfl⟩)
  · rw [heq]
    exact .inr (.inr ⟨fun _ => htime,env.first.now,rfl⟩)

/-- A takeover that goes on ends with the core it was started for, or in time. -/
theorem recovers_takeover (hstate : s.state = .handingOff)
    (hwait : ∀ child, s.child = some child → ∀ status, wait child ≠ .exited status)
    (hcomes : s.child.getD 0 = record.pid ∨ s.pid = some record.pid ∨
      (s.coreGone platform world = true ∧ s.childExits wait = true)) (n : ℕ) :
    ∀ polls, Frozen world wait polls → (∀ m, n ≤ m → takeoverTimeout ≤ (polls m).first.now - s.takeoverStartedAt) →
      ∀ lastHealth, Recovers platform self record.pid { s with lastHealth := lastHealth } polls := by
  have hended (polls : ℕ → PollEnv) (hf : Frozen world wait polls) (hchild : s.child.getD 0 ≠ record.pid) (now : ℕ) :
      Recovers platform self record.pid { s with lastHealth := now, takeoverFrom := none, state := .adopted } polls := by
    apply recovers_adopted h hf (.of_adopted rfl) rfl
    exact hcomes.resolve_left hchild
  induction n with
  | zero =>
    intro polls hf htimeout lastHealth
    refine .when (fun env => startInterval ≤ env.first.now - lastHealth) ?_ ?_ ?_
    · intro m hearly
      exact handingOff_early (s := { s with lastHealth := lastHealth }) (hf.still m) hstate hwait (Nat.lt_of_not_le hearly)
    · intro m hdue
      rcases handingOff_poll (s := { s with lastHealth := lastHealth }) h (hf.still m) hstate hwait with
        hsupervises | ⟨hchild,-,heq⟩ | ⟨hopen,-⟩
      · exact .of_supervises hsupervises _
      · rw [heq]
        exact hended _ (hf.shift (m + 1)) hchild _
      · exact absurd (hopen hdue) (Nat.not_lt.mpr (htimeout m (Nat.zero_le m)))
    · obtain ⟨m,hm⟩ := hf.time (lastHealth + startInterval)
      exact ⟨m,Nat.le_sub_of_add_le' (hm m le_rfl).1⟩
  | succ n ih =>
    intro polls hf htimeout lastHealth
    apply Recovers.of_poll
    have hnext : ∀ m, n ≤ m → takeoverTimeout ≤ (polls (1 + m)).first.now - s.takeoverStartedAt := fun m hm =>
      htimeout (1 + m) (by omega)
    rcases handingOff_poll (s := { s with lastHealth := lastHealth }) h (hf.still 0) hstate hwait with
      hsupervises | ⟨hchild,-,heq⟩ | ⟨-,later,heq⟩
    · exact .of_supervises hsupervises _
    · rw [heq]
      exact hended _ (hf.shift 1) hchild _
    · rw [heq]
      exact ih _ (hf.shift 1) hnext later

theorem recovers_handingOff (hf : Frozen world wait polls)
    (hstate : s.state = .handingOff) (hcomes : s.pid = some record.pid ∨
      (s.coreGone platform world = true ∧ s.childExits wait = true) ∨
      ∃ child, s.child = some child ∧ child = record.pid ∧ ∀ status, wait child ≠ .exited status) :
    Recovers platform self record.pid s polls := by
  by_cases hexited : ∃ child status, s.child = some child ∧ wait child = .exited status
  · obtain ⟨child,status,hchild,hstatus⟩ := hexited
    apply Recovers.of_poll
    rw [handingOff_exited (hf.still 0) hstate hchild hstatus]
    apply recovers_adopted h (hf.shift 1) (.of_adopted rfl) rfl
    rcases hcomes with hpid | hgone | ⟨other,hother,-,hno⟩
    · exact .inl hpid
    · exact .inr ⟨hgone.1,rfl⟩
    · cases hchild.symm.trans hother
      exact absurd hstatus (hno status)
  · have hwait : ∀ child, s.child = some child → ∀ status, wait child ≠ .exited status :=
      fun child hchild status hstatus => hexited ⟨child,status,hchild,hstatus⟩
    obtain ⟨n,hn⟩ := hf.time (s.takeoverStartedAt + takeoverTimeout)
    refine recovers_takeover h hstate hwait ?_ n polls hf (fun m hm => Nat.le_sub_of_add_le' (hn m hm).1) s.lastHealth
    rcases hcomes with hpid | hgone | ⟨child,hchild,heq,-⟩
    · exact .inr (.inl hpid)
    · exact .inr (.inr hgone)
    · exact .inl (by rw [hchild, Option.getD_some, heq])

theorem recovers_of_comesTo (hf : Frozen world wait polls)
    (ha : s.Attended) (hcomes : comesTo platform record.pid world wait s = true) :
    Recovers platform self record.pid s polls := by
  unfold comesTo at hcomes
  cases hstate : s.state with
  | off | failed => simp [hstate] at hcomes
  | starting =>
    rw [hstate] at hcomes
    exact recovers_starting h hf ha hstate (by simpa using hcomes)
  | live =>
    rw [hstate] at hcomes
    obtain ⟨child,hchild⟩ := Option.ne_none_iff_exists'.mp (ha.live hstate)
    by_cases hpid : s.pid = some record.pid
    · exact .of_supervises ⟨.inl hstate,hpid⟩ polls
    · have hexits : s.childExits wait = true := by simpa [hpid] using hcomes
      unfold Supervisor.childExits at hexits
      rw [hchild, Option.all_some] at hexits
      exact recovers_reaped h hf (.inr hstate) hchild hexits
  | adopted =>
    rw [hstate] at hcomes
    exact recovers_adopted h hf ha hstate (by simpa using hcomes)
  | handingOff =>
    rw [hstate] at hcomes
    apply recovers_handingOff h hf hstate
    rcases Bool.or_eq_true_iff.mp hcomes with hcomes | hchild
    · rcases Bool.or_eq_true_iff.mp hcomes with hpid | hgone
      · exact .inl (by simpa using hpid)
      · exact .inr (.inl (Bool.and_eq_true_iff.mp hgone))
    · obtain ⟨child,hchild,hsame⟩ := (Option.any_eq_true _ _).mp hchild
      obtain ⟨heq,hexited⟩ := Bool.and_eq_true_iff.mp hsame
      refine .inr (.inr ⟨child,hchild,by simpa using heq,fun status hstatus => ?_⟩)
      rw [hstatus] at hexited
      cases hexited

/-- A child that runs on and is not the core keeps the supervisor from it. -/
theorem astray_own (hpoll : PollsIn world wait env)
    (hstate : s.state = .starting ∨ s.state = .live) (hcomes : comesTo platform record.pid world wait s = false) :
    comesTo platform record.pid world wait (s.poll platform self env).1 = false := by
  obtain ⟨hpid,hexits⟩ := (astray_own_iff hstate).mp hcomes
  have hrunning : ∃ child, s.child = some child ∧ (wait child).exit = none := by
    unfold Supervisor.childExits at hexits
    cases hchild : s.child with
    | none => simp [hchild] at hexits
    | some child => exact ⟨child,rfl,by simpa [hchild] using hexits⟩
  obtain ⟨child,hchild,hexit⟩ := hrunning
  have hreap : s.reapOwnChild platform self env.first env.wait = none :=
    reap_running hpoll fun other hother => by cases hchild.symm.trans hother; exact hexit
  have hnamed := (h.standing hpoll.first).named_other hpid
  have hsame : ∃ lastHealth startWarned,
      (s.poll platform self env).1 = { s with lastHealth := lastHealth, startWarned := startWarned } := by
    rcases hstate with hstate | hstate
    · rw [poll_starting hstate]
      unfold Supervisor.pollStarting
      rw [hreap]
      dsimp only
      rw [if_neg (by simp [hchild]), hnamed]
      split_ifs
      · rw [respawn_other (.inr (by simp [hchild]))]
        exact ⟨s.lastHealth,s.startWarned,rfl⟩
      · rw [respawn_other (.inr (by simp [hchild]))]
        exact ⟨env.first.now,true,rfl⟩
      · rw [respawn_other (.inr (by simp [hchild]))]
        exact ⟨env.first.now,s.startWarned,rfl⟩
    · rw [poll_live hstate]
      unfold Supervisor.pollLive Supervisor.refreshHealth
      rw [hreap]
      dsimp only
      rw [hnamed]
      split_ifs
      · rw [respawn_other (.inr (by simp [hchild]))]
        exact ⟨s.lastHealth,s.startWarned,rfl⟩
      · rw [respawn_other (.inr (by simp [hchild]))]
        exact ⟨env.first.now,s.startWarned,rfl⟩
  obtain ⟨lastHealth,startWarned,heq⟩ := hsame
  rw [heq, ← hcomes]
  exact comesTo_congr rfl rfl rfl rfl record.pid

theorem astray_adopted (hpoll : PollsIn world wait env)
    (hstate : s.state = .adopted) (hcomes : comesTo platform record.pid world wait s = false) :
    comesTo platform record.pid world wait (s.poll platform self env).1 = false := by
  obtain ⟨hpid,hexits⟩ := (astray_adopted_iff hstate).mp hcomes
  rw [poll_adopted hstate]
  rcases s.pollAdopted_cases platform self env with ⟨-,heq⟩ | ⟨-,-,heq⟩ | ⟨found,-,hfound,answer,hsome,-⟩ |
    ⟨found,-,hfound,-,hgone,heq⟩ | ⟨found,-,hfound,-,-,heq⟩
  · rw [heq, respawn_other (.inl (by simp [hstate]))]
    exact hcomes
  · rw [heq, respawn_other (.inl (by simp [hstate])), ← hcomes]
    exact comesTo_congr rfl rfl rfl rfl record.pid
  · have hother : found ≠ record.pid := fun hsame => hpid (hsame ▸ hfound)
    cases ((h.standing hpoll.first).adoptedReply_other hother).symm.trans hsome
  · -- the core is given up, and the child a takeover has left behind is waited for
    have hrunning : s.childExits wait = false := by
      apply hexits
      unfold Supervisor.coreGone
      rw [hfound, Option.any_some, decide_eq_true_eq, ← hpoll.identity]
      exact hgone
    have hchild : s.child ≠ none := by
      intro hnone
      simp [Supervisor.childExits, hnone] at hrunning
    rw [heq, respawn_other (.inr hchild)]
    exact (astray_own_iff (.inl rfl)).mpr ⟨fun hno => (nomatch hno),hrunning⟩
  · rw [heq, respawn_other (.inl (by simp [hstate])), ← hcomes]
    exact comesTo_congr rfl rfl rfl rfl record.pid

theorem astray_handingOff (hpoll : PollsIn world wait env)
    (hstate : s.state = .handingOff) (hcomes : comesTo platform record.pid world wait s = false) :
    comesTo platform record.pid world wait (s.poll platform self env).1 = false := by
  have hastray : (s.pid ≠ some record.pid ∧ (s.coreGone platform world = true → s.childExits wait = false)) ∧
      (s.child.any fun child => child = record.pid && !((wait child) matches .exited _)) = false := by
    unfold comesTo at hcomes
    rw [hstate] at hcomes
    obtain ⟨hcore,hchild⟩ := Bool.or_eq_false_iff.mp hcomes
    exact ⟨by simpa using hcore,hchild⟩
  obtain ⟨⟨hpid,hexits⟩,hnew⟩ := hastray
  rw [poll_handingOff hstate]
  rcases s.pollHandingOff_cases env with ⟨child,status,hchild,hexited,heq⟩ | ⟨-,-,heq⟩ | ⟨hwait,-,answer,hnamed,-⟩ |
    ⟨-,-,-,-,heq⟩ | ⟨-,-,-,-,heq⟩
  · have hdone : s.childExits wait = true := by
      rw [hpoll.wait] at hexited
      simp [Supervisor.childExits, hchild, hexited, WaitResult.exit]
    have hstays : s.coreGone platform world = false := by
      rw [← Bool.not_eq_true]
      intro hgone
      cases hdone.symm.trans (hexits hgone)
    rw [heq]
    exact (astray_adopted_iff rfl).mpr ⟨hpid,fun hgone => (nomatch hstays.symm.trans hgone)⟩
  · rw [heq]
    exact hcomes
  · -- the core of the record would be the one that takes over
    have hcore := (h.standing hpoll.first).named_iff hnamed
    cases hchild : s.child with
    | none =>
      rw [hchild] at hcore
      exact absurd hcore.symm h.pid_ne_zero
    | some child =>
      rw [hchild, Option.getD_some] at hcore
      cases hresult : wait child with
      | exited status => exact absurd (by rw [hpoll.wait]; exact hresult) (hwait child hchild status)
      | running | failed error => simp [hchild, hcore, hcore ▸ hresult] at hnew
  · rw [heq]
    exact (astray_adopted_iff rfl).mpr ⟨hpid,hexits⟩
  · rw [heq, ← hcomes]
    exact comesTo_congr rfl rfl rfl rfl record.pid

/-- A supervisor that does not come to the core is not brought nearer by any poll. -/
theorem astray_poll (hpoll : PollsIn world wait env) (hcomes : comesTo platform record.pid world wait s = false) :
    comesTo platform record.pid world wait (s.poll platform self env).1 = false := by
  cases hstate : s.state with
  | off | failed =>
    unfold Supervisor.poll
    rw [hstate]
    exact hcomes
  | starting => exact astray_own h hpoll (.inl hstate) hcomes
  | live => exact astray_own h hpoll (.inr hstate) hcomes
  | adopted => exact astray_adopted h hpoll hstate hcomes
  | handingOff => exact astray_handingOff h hpoll hstate hcomes

theorem astray_polled (hf : Frozen world wait polls)
    (hcomes : comesTo platform record.pid world wait s = false) (n : ℕ) :
    comesTo platform record.pid world wait (polled platform self s polls n) = false := by
  induction n with
  | zero => exact hcomes
  | succ n ih => exact astray_poll h (hf.still n) ih

theorem recovers_iff_comesTo (hf : Frozen world wait polls)
    (ha : s.Attended) : Recovers platform self record.pid s polls ↔ comesTo platform record.pid world wait s = true := by
  refine ⟨?_,recovers_of_comesTo h hf ha⟩
  rintro ⟨n,hn⟩
  by_contra hno
  have hastray := astray_polled h hf (Bool.eq_false_of_not_eq_true hno) n
  cases hastray.symm.trans (comesTo_of_supervises hn)

end Serving

end Frozen

section Supervised
variable (platform : Platform) (self : ℕ)

def GetsTo (pid : ℕ) (s : Supervisor) (later : ℕ → PollEnv) : Prop :=
  s.state = .off ∨ s.state = .failed ∨ Recovers platform self pid s later

variable {platform self}

theorem attended_step {s t : Supervision} {env : PollEnv} (h : s.supervisor.Attended)
    (ht : superviseStep platform self s env = some t) : t.supervisor.Attended := by
  cases ht
  exact h.poll env

theorem Supervisor.Attended.getsTo_iff {s : Supervisor} {world : Look} {wait : ℕ → WaitResult} {record : CoreRecord}
    {reply : PingReply} {later : ℕ → PollEnv} (ha : s.Attended) (h : Serving platform self world record reply)
    (hf : Frozen world wait later) : GetsTo platform self record.pid s later ↔
      s.state = .off ∨ s.state = .failed ∨ comesTo platform record.pid world wait s = true := by
  unfold GetsTo
  rw [recovers_iff_comesTo h hf ha]

variable (platform self)

/-- No live core is lost exactly in the runs that compare an adopted core with its own
start time, and from every state that is reached the supervisor gets to the core of the
record exactly where it does not wait for a process that stays. -/
theorem supervision_iff (enabled allowTakeover : Bool) (first : PollEnv) (polls : List PollEnv) :
    (Always (superviseStep platform self) NoFalseAlarm (startSupervision platform self enabled allowTakeover first) polls ↔
      Guarded (superviseStep platform self) (ComparesOwnStart platform self)
        (startSupervision platform self enabled allowTakeover first) polls) ∧
    Always (superviseStep platform self) (fun s => ∀ world wait record reply later,
        Serving platform self world record reply → Frozen world wait later →
          (GetsTo platform self record.pid s.supervisor later ↔
            s.supervisor.state = .off ∨ s.supervisor.state = .failed ∨
              comesTo platform record.pid world wait s.supervisor = true))
      (startSupervision platform self enabled allowTakeover first) polls := by
  refine ⟨always_noFalseAlarm_iff enabled allowTakeover first polls,?_⟩
  apply always_of_invariant (J := fun s => s.supervisor.Attended)
  · exact fun s env t h ht => attended_step h ht
  · exact fun s h world wait record reply later hserving hfrozen => h.getsTo_iff hserving hfrozen
  · exact .fromEnv enabled allowTakeover first

end Supervised

def coresAt (now : ℕ) (record : CoreRecord) : Look where
  now := now
  record := some record
  table := fun pid =>
    if pid = 10 then some ⟨1000,false,false,[]⟩ else if pid = 20 then some ⟨60000,false,false,[]⟩ else none
  answers := ⟨true,true⟩
  replies := fun socket =>
    if socket = "old".toList then some ⟨true,some 10,some 1⟩
    else if socket = "new".toList then some ⟨true,some 20,some 1⟩
    else none

def oldCore : CoreRecord := ⟨10,some 1000,"old".toList,some "a".toList⟩

def newCore : CoreRecord := ⟨20,some 60000,"new".toList,some "b".toList⟩

def coresPolled (now : ℕ) (record : CoreRecord) : PollEnv where
  first := coresAt now record
  second := coresAt now record
  wait := fun _ => .running
  spawned := .ok 20
  expectedBuildId := some "b".toList
  shutdown := .ok ()

def lateTakeover : List PollEnv := [coresPolled 30000 oldCore,coresPolled 35000 newCore]

theorem newCore_serving : Serving .linux 1 (coresAt 0 newCore) newCore ⟨true,some 20,some 1⟩ := ⟨rfl,by decide⟩

theorem coresPolled_frozen (start : ℕ) (record : CoreRecord) :
    Frozen (coresAt 0 record) (fun _ => .running) fun n => coresPolled (start + n) record where
  still := fun _ => ⟨rfl,rfl,rfl⟩
  time := fun now => ⟨now,fun m hm => ⟨Nat.le_trans hm (Nat.le_add_left m start),Nat.le_trans hm (Nat.le_add_left m start)⟩⟩

/-- A takeover in time brings the supervisor to the new core. -/
theorem takeover_in_time_is_live :
    Serving .linux 1 (coresAt 0 newCore) newCore ⟨true,some 20,some 1⟩ ∧
    Frozen (coresAt 0 newCore) (fun _ => .running) (fun n => coresPolled (250 + n) newCore) ∧
    GetsTo .linux 1 newCore.pid (startSupervision .linux 1 true true (coresPolled 0 oldCore)).supervisor
      fun n => coresPolled (250 + n) newCore := by
  refine ⟨newCore_serving,coresPolled_frozen 250 newCore,?_⟩
  have hstart := (supervision_iff .linux 1 true true (coresPolled 0 oldCore) []).2
  exact (hstart _ _ _ _ _ newCore_serving (coresPolled_frozen 250 newCore)).mpr (by decide)

/-- The old core is reported lost while it runs, and the new one is never supervised. -/
theorem late_takeover_is_lost :
    ¬Always (superviseStep .linux 1) NoFalseAlarm (startSupervision .linux 1 true true (coresPolled 0 oldCore))
      lateTakeover ∧
    ∃ s, run (superviseStep .linux 1) (startSupervision .linux 1 true true (coresPolled 0 oldCore)) lateTakeover = some s ∧
      Serving .linux 1 (coresAt 0 newCore) newCore ⟨true,some 20,some 1⟩ ∧
      Frozen (coresAt 0 newCore) (fun _ => .running) (fun n => coresPolled (35000 + n) newCore) ∧
      ¬GetsTo .linux 1 newCore.pid s.supervisor fun n => coresPolled (35000 + n) newCore := by
  refine ⟨?_,_,rfl,newCore_serving,coresPolled_frozen 35000 newCore,?_⟩
  · intro h
    have hlast := ((h.2 _ rfl).2 _ rfl)
    exact absurd (show _ = _ from hlast) (by decide)
  · rw [Supervisor.Attended.getsTo_iff (.of_child (by decide)) newCore_serving (coresPolled_frozen 35000 newCore)]
    decide

end Unpeel.Serve
