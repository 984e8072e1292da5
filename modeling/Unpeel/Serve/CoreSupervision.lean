import Unpeel.Foundation.Runs
import Unpeel.Serve.PtyCoreSupervisor

/-! # A live core is not lost

A core that is reported lost, or replaced, should be gone, and whenever a core answers and
nothing else happens the supervisor should come to supervise it. Both depend on which core
the record names while another one is supervised.
-/
namespace Unpeel.Serve
open Runs Manifest Reaping

section Supervision
variable (platform : Platform) (self : ℕ)

def Look.there (look : Look) (process : ℕ × ℕ) : Bool :=
  processExists platform look.table process.1 && (look.table process.1).any (·.startedAt = process.2)

/-- Follows the process of the adopted core through the log. The flag is raised where the
core is reported lost, or a replacement spawned, while the process is there. -/
def watch (w : Option (ℕ × ℕ) × Bool) (entry : Look × CoreEvent) : Option (ℕ × ℕ) × Bool :=
  let survivor := w.1.filter (entry.1.there platform)
  match entry.2 with
  | .adopted pid _ => ((entry.1.table pid).map fun process => (pid,process.startedAt),w.2)
  | .lost _ | .started _ true => (survivor,w.2 || survivor.isSome)
  | .takenOver _ _ _ => (none,w.2)
  | .started _ false | .ready _ _ | .exited _ _ _ | .takeoverStarted _ _ | .spawnFailed _ | .warning _ => (survivor,w.2)

/-- The supervisor, the process of the core it has adopted (pid and start time) as long as
that was not seen gone, and whether the last poll raised a false alarm. -/
structure Supervision where
  supervisor : Supervisor
  survivor : Option (ℕ × ℕ)
  falseAlarm : Bool

def supervise (r : Supervisor × CoreLog) (survivor : Option (ℕ × ℕ)) : Supervision :=
  ⟨r.1,(r.2.foldl (watch platform) (survivor,false)).1,(r.2.foldl (watch platform) (survivor,false)).2⟩

def startSupervision (enabled allowTakeover : Bool) (env : PollEnv) : Supervision :=
  supervise platform (Supervisor.fromEnv platform self enabled allowTakeover env) none

def superviseStep (s : Supervision) (env : PollEnv) : Option Supervision :=
  some (supervise platform (s.supervisor.poll platform self env) s.survivor)

def NoFalseAlarm (s : Supervision) : Prop := s.falseAlarm = false

/-- A poll of an adopted core that does not answer and whose process is there compares it
with a start time of that process, or with none. -/
def ComparesOwnStart (s : Supervision) (env : PollEnv) : Prop :=
  s.supervisor.state = .adopted → healthInterval ≤ env.first.now - s.supervisor.lastHealth →
    ∀ process, s.survivor = some process → adoptedReply platform self env.first process.1 = none →
      env.first.there platform process = true → env.first.answers.startTime = true →
      ∀ started, s.supervisor.comparedStart env.first = some started →
        Nat.dist process.2 started ≤ pidStartToleranceMs

end Supervision

section Alarms
variable {platform : Platform} {self : ℕ} {s : Supervisor} {r : Supervisor × CoreLog} {env : PollEnv} {look : Look}
  {w : Option (ℕ × ℕ)}

def Watches (s : Supervisor) (w : Option (ℕ × ℕ)) : Prop :=
  ∀ process, w = some process → (s.state = .adopted ∨ s.state = .handingOff) ∧ s.pid = some process.1

def Quiet (platform : Platform) (w : Option (ℕ × ℕ)) (r : Supervisor × CoreLog) : Prop :=
  ∃ survivor, r.2.foldl (watch platform) (w,false) = (survivor,false) ∧ Watches r.1 survivor

theorem Watches.nobody (s : Supervisor) : Watches s none := fun _ hno => (nomatch hno)

theorem Watches.eq_none (h : Watches s w) (hadopted : s.state ≠ .adopted) (hhanding : s.state ≠ .handingOff) :
    w = none := by
  cases w with
  | none => rfl
  | some process =>
    rcases (h process rfl).1 with hno | hno
    · exact absurd hno hadopted
    · exact absurd hno hhanding

theorem Watches.filter (h : Watches s w) (p : ℕ × ℕ → Bool) : Watches s (w.filter p) := fun process hprocess =>
  h process (Option.filter_eq_some_iff.mp hprocess).1

theorem Watches.of_pid {s' : Supervisor} (h : Watches s w) (hstate : s'.state = .adopted ∨ s'.state = .handingOff)
    (hpid : s'.pid = s.pid) : Watches s' w := fun process hprocess => ⟨hstate,hpid.trans (h process hprocess).2⟩

theorem Quiet.silent (h : Watches s w) : Quiet platform w (s,[]) := ⟨w,rfl,h⟩

theorem Quiet.warning (h : Watches s w) (look : Look) (warning : CoreWarning) :
    Quiet platform w (s,[(look,.warning warning)]) := ⟨w.filter (look.there platform),rfl,h.filter _⟩

theorem Quiet.takeoverStarted (h : Watches s w) (look : Look) (oldPid newPid : ℕ) :
    Quiet platform w (s,[(look,.takeoverStarted oldPid newPid)]) := ⟨w.filter (look.there platform),rfl,h.filter _⟩

theorem Quiet.adopt (h : s.tryAdopt platform self look = some r) (w : Option (ℕ × ℕ)) : Quiet platform w r := by
  obtain ⟨record,hrecord,hr⟩ := Option.bind_eq_some_iff.mp h
  obtain ⟨reply,hreply,rfl⟩ := Option.map_eq_some_iff.mp hr
  refine ⟨_,rfl,fun process hprocess => ?_⟩
  obtain ⟨found,hfound,rfl⟩ := Option.map_eq_some_iff.mp hprocess
  exact ⟨.inl rfl,rfl⟩

theorem Quiet.spawn (s : Supervisor) (look : Look) (spawned : Except Text ℕ) (restart : Bool) :
    Quiet platform none (s.spawn look spawned restart) := by
  cases spawned with
  | error error => exact ⟨none,rfl,.nobody _⟩
  | ok pid => cases restart <;> exact ⟨none,rfl,.nobody _⟩

theorem Quiet.reap (h : s.reapOwnChild platform self look env.wait = some r) : Quiet platform none r := by
  obtain ⟨status,-,rfl⟩ := Option.map_eq_some_iff.mp h
  dsimp only
  generalize { s with child := none, pid := none, sessions := none, lastExit := some status } = reaped
  cases hadopted : reaped.tryAdopt platform self look with
  | none => exact ⟨none,rfl,.nobody _⟩
  | some adopted => exact .adopt hadopted none

theorem Quiet.respawn (h : Quiet platform w r) (env : PollEnv) : Quiet platform w (Supervisor.respawn platform self r env) := by
  unfold Supervisor.respawn
  split
  · next hdue =>
    obtain ⟨survivor,hfold,hwatches⟩ := h
    have hnone : survivor = none := hwatches.eq_none (by simp [hdue.1]) (by simp [hdue.1])
    subst hnone
    have hnext : Quiet platform none
        (({ r.1 with nextSpawnAt := none }.tryAdopt platform self env.second).getD
          ({ r.1 with nextSpawnAt := none }.spawn env.second env.spawned true)) := by
      cases hadopted : { r.1 with nextSpawnAt := none }.tryAdopt platform self env.second with
      | none => exact .spawn _ _ _ _
      | some adopted => exact .adopt hadopted none
    obtain ⟨last,hlast,hnextWatches⟩ := hnext
    refine ⟨last,?_,hnextWatches⟩
    rw [List.foldl_append, hfold, hlast]
  · exact h

theorem Quiet.pollStarting (s : Supervisor) (env : PollEnv) :
    Quiet platform none (s.pollStarting platform self env) := by
  unfold Supervisor.pollStarting
  split
  · next r hr => exact .reap hr
  · split_ifs
    · exact .silent (.nobody _)
    · exact .silent (.nobody _)
    · dsimp only
      split
      · exact ⟨none,rfl,.nobody _⟩
      · split_ifs
        · exact .warning (.nobody _) _ _
        · exact .silent (.nobody _)

theorem Quiet.pollLive (s : Supervisor) (env : PollEnv) : Quiet platform none (s.pollLive platform self env) := by
  unfold Supervisor.pollLive
  split
  · next r hr => exact .reap hr
  · exact .silent (.nobody _)

theorem Quiet.checkBuildSkew (h : Watches s w) (env : PollEnv) : Quiet platform w (s.checkBuildSkew env) := by
  unfold Supervisor.checkBuildSkew
  by_cases hother : s.state ≠ .adopted
  · rw [if_pos hother]
    exact .silent h
  rw [if_neg hother]
  have hstate := not_not.mp hother
  extract_lets probed
  have hprobed : Watches probed w ∧ probed.state = .adopted := by
    unfold probed
    split
    · exact ⟨h.of_pid (.inl hstate) rfl,hstate⟩
    · exact ⟨h,hstate⟩
  obtain ⟨hwatches,hadopted⟩ := hprobed
  split
  · next expected oldPid record hexpected hpid hrecord =>
    split_ifs
    · exact .silent hwatches
    · unfold Supervisor.drainOlderCore
      split_ifs
      · cases env.shutdown <;> exact .warning (hwatches.of_pid (.inl hadopted) rfl) _ _
      · exact .warning (hwatches.of_pid (.inl hadopted) rfl) _ _
      · exact .silent hwatches
    · exact .silent hwatches
    · dsimp only
      cases env.spawned with
      | error error => exact .warning (hwatches.of_pid (.inl hadopted) rfl) _ _
      | ok newPid =>
        apply Quiet.takeoverStarted
        exact hwatches.of_pid (.inr rfl) rfl
  · exact .silent hwatches

theorem Quiet.pollHandingOff (h : Watches s w) (hstate : s.state = .handingOff) (env : PollEnv) :
    Quiet platform w (s.pollHandingOff env) := by
  rcases s.pollHandingOff_cases env with ⟨c,status,-,-,heq⟩ | ⟨-,-,heq⟩ | ⟨-,-,reply,-,heq⟩ | ⟨-,-,-,-,heq⟩ | ⟨-,-,-,-,heq⟩
  · rw [heq]
    apply Quiet.warning
    exact h.of_pid (.inl rfl) rfl
  · rw [heq]
    exact .silent h
  · rw [heq]
    exact ⟨none,rfl,.nobody _⟩
  · rw [heq]
    apply Quiet.warning
    exact h.of_pid (.inl rfl) rfl
  · rw [heq]
    exact .silent (h.of_pid (.inr hstate) rfl)

/-- Whether a process that is there is taken for another one. -/
theorem there_notOurs_iff {process : ℕ × ℕ} (h : look.there platform process = true) (recorded : Option ℕ) :
    recordedPidIdentity platform look.table look.answers process.1 recorded = .notOurs ↔
      look.answers.startTime = true ∧ ∃ started, recorded = some started ∧
        ¬Nat.dist process.2 started ≤ pidStartToleranceMs := by
  obtain ⟨hexists,hfound⟩ := Bool.and_eq_true_iff.mp h
  obtain ⟨found,hsome,hstarted⟩ := (Option.any_eq_true _ _).mp hfound
  have hstart : found.startedAt = process.2 := by simpa using hstarted
  unfold recordedPidIdentity processStartTimeMs
  rw [if_pos hexists, hsome, Option.map_some, hstart]
  cases look.answers.startTime with
  | false => cases recorded <;> simp [startTimeIdentity]
  | true =>
    cases recorded with
    | none => simp [startTimeIdentity]
    | some started =>
      simp only [startTimeIdentity, if_true, Option.getD_some, true_and, Option.some.injEq, exists_eq_left']
      split_ifs with hclose <;> simp [hclose]

theorem Quiet.pollAdopted (h : Watches s w) (hstate : s.state = .adopted)
    (hown : ComparesOwnStart platform self ⟨s,w,false⟩ env) : Quiet platform w (s.pollAdopted platform self env) := by
  rcases s.pollAdopted_cases platform self env with ⟨-,heq⟩ | ⟨-,-,heq⟩ | ⟨pid,-,-,reply,-,heq⟩ |
    ⟨pid,hdue,hpid,hreply,hidentity,heq⟩ | ⟨pid,-,-,-,-,heq⟩
  · rw [heq]
    exact .silent h
  · rw [heq]
    exact .silent (h.of_pid (.inl hstate) rfl)
  · rw [heq]
    apply Quiet.checkBuildSkew
    exact h.of_pid (.inl hstate) rfl
  · -- the process of the core is gone
    have hgone : w.filter (env.first.there platform) = none := by
      by_contra hno
      obtain ⟨process,hprocess⟩ := Option.ne_none_iff_exists'.mp hno
      obtain ⟨hsurvivor,hthere⟩ := Option.filter_eq_some_iff.mp hprocess
      have hsame : pid = process.1 := Option.some.inj (hpid.symm.trans (h process hsurvivor).2)
      subst hsame
      obtain ⟨hanswers,started,hstarted,hfar⟩ := (there_notOurs_iff hthere _).mp hidentity
      exact hfar (hown hstate hdue process hsurvivor hreply hthere hanswers started hstarted)
    rw [heq]
    refine ⟨none,?_,.nobody _⟩
    simp [watch, hgone]
  · rw [heq]
    exact .silent (h.of_pid (.inl hstate) rfl)

theorem Quiet.poll (h : Watches s w) (hown : ComparesOwnStart platform self ⟨s,w,false⟩ env) :
    Quiet platform w (s.poll platform self env) := by
  unfold Supervisor.poll
  cases hstate : s.state with
  | handingOff => exact .pollHandingOff h hstate env
  | off | failed => exact .silent h
  | starting =>
    have hnone := h.eq_none (by simp [hstate]) (by simp [hstate])
    subst hnone
    exact (Quiet.pollStarting s env).respawn env
  | live =>
    have hnone := h.eq_none (by simp [hstate]) (by simp [hstate])
    subst hnone
    exact (Quiet.pollLive s env).respawn env
  | adopted => exact (Quiet.pollAdopted h hstate hown).respawn env

theorem watch_alarmed {a : Option (ℕ × ℕ) × Bool} (h : a.2 = true) (log : CoreLog) :
    (log.foldl (watch platform) a).2 = true := by
  induction log generalizing a with
  | nil => exact h
  | cons entry log ih =>
    apply ih
    obtain ⟨look,event⟩ := entry
    cases event with
    | started pid restart => cases restart <;> simp [watch, h]
    | _ => simp [watch, h]

theorem respawn_log (platform : Platform) (self : ℕ) (r : Supervisor × CoreLog) (env : PollEnv) :
    ∃ log, (Supervisor.respawn platform self r env).2 = r.2 ++ log := by
  unfold Supervisor.respawn
  split
  · exact ⟨_,rfl⟩
  · exact ⟨[],(List.append_nil _).symm⟩

/-- A poll without a false alarm has compared the core with its own start. -/
theorem comparesOwnStart_of_quiet (h : Watches s w)
    (hquiet : ((s.poll platform self env).2.foldl (watch platform) (w,false)).2 = false) :
    ComparesOwnStart platform self ⟨s,w,false⟩ env := by
  intro hstate hdue process hsurvivor hreply hthere hanswers started hstarted
  by_contra hfar
  have hpid := (h process hsurvivor).2
  have hlost : ∃ log, (s.poll platform self env).2 = (env.first,.lost process.1) :: log := by
    have hidentity := (there_notOurs_iff hthere _).mpr ⟨hanswers,started,hstarted,hfar⟩
    have hpoll : (s.pollAdopted platform self env).2 = [(env.first,.lost process.1)] := by
      rcases s.pollAdopted_cases platform self env with ⟨hearly,-⟩ | ⟨-,hno,-⟩ | ⟨pid,-,hsome,reply,hanswer,-⟩ |
        ⟨pid,-,hsome,-,-,heq⟩ | ⟨pid,-,hsome,-,hours,-⟩
      · exact absurd hearly (Nat.not_lt.mpr hdue)
      · cases hpid.symm.trans hno
      · cases hpid.symm.trans hsome
        cases hreply.symm.trans hanswer
      · cases hpid.symm.trans hsome
        rw [heq]
      · cases hpid.symm.trans hsome
        exact absurd hidentity hours
    obtain ⟨log,hlog⟩ := respawn_log platform self (s.pollAdopted platform self env) env
    refine ⟨log,?_⟩
    unfold Supervisor.poll
    rw [hstate]
    exact hlog.trans (by rw [hpoll]; rfl)
  obtain ⟨log,hlog⟩ := hlost
  rw [hlog, List.foldl_cons, watch_alarmed] at hquiet
  · cases hquiet
  · have hw : w = some process := hsurvivor
    simp [watch, hw, hthere]

theorem Quiet.fromEnv (enabled allowTakeover : Bool) (env : PollEnv) :
    Quiet platform none (Supervisor.fromEnv platform self enabled allowTakeover env) := by
  unfold Supervisor.fromEnv
  split
  · have hstart : Quiet platform none (Supervisor.start platform self env allowTakeover) := by
      unfold Supervisor.start
      dsimp only
      generalize { Supervisor.off env.first.now allowTakeover with state := .starting } = s
      cases hadopted : s.tryAdopt platform self env.first with
      | none => exact .spawn _ _ _ _
      | some adopted => exact .adopt hadopted none
    obtain ⟨survivor,hfold,hwatches⟩ := hstart
    generalize Supervisor.start platform self env allowTakeover = r at hfold hwatches
    have hskew : Quiet platform survivor
        ({ r.1 with expectedBuildId := env.expectedBuildId, probeExpectedBuildId := true }.checkBuildSkew env) := by
      apply Quiet.checkBuildSkew
      exact fun process hprocess => hwatches process hprocess
    obtain ⟨last,hlast,hlastWatches⟩ := hskew
    refine ⟨last,?_,hlastWatches⟩
    rw [List.foldl_append, hfold, hlast]
  · exact ⟨none,rfl,.nobody _⟩

structure Supervision.Calm (s : Supervision) : Prop where
  falseAlarm : s.falseAlarm = false
  watches : Watches s.supervisor s.survivor

theorem Quiet.calm (h : Quiet platform w r) : (supervise platform r w).Calm := by
  obtain ⟨survivor,hfold,hwatches⟩ := h
  unfold supervise
  rw [hfold]
  exact ⟨rfl,hwatches⟩

theorem Supervision.Calm.step {s t : Supervision} (h : s.Calm) (hown : ComparesOwnStart platform self s env)
    (ht : superviseStep platform self s env = some t) : t.Calm := by
  cases ht
  exact (Quiet.poll h.watches hown).calm

theorem Supervision.Calm.comparesOwnStart {s t : Supervision} (h : s.Calm)
    (ht : superviseStep platform self s env = some t) (hquiet : NoFalseAlarm t) :
    ComparesOwnStart platform self s env := by
  cases ht
  exact comparesOwnStart_of_quiet h.watches hquiet

/-- No false alarm is raised exactly in the runs that compare an adopted core that is there
with its own start time. -/
theorem always_noFalseAlarm_iff (enabled allowTakeover : Bool) (first : PollEnv) (polls : List PollEnv) :
    Always (superviseStep platform self) NoFalseAlarm (startSupervision platform self enabled allowTakeover first) polls ↔
      Guarded (superviseStep platform self) (ComparesOwnStart platform self)
        (startSupervision platform self enabled allowTakeover first) polls :=
  always_iff_guarded (J := Supervision.Calm) (fun _ _ _ h hown ht => h.step hown ht) (fun _ h => h.falseAlarm)
    (fun _ _ _ h ht hquiet => h.comparesOwnStart ht hquiet) (Quiet.fromEnv enabled allowTakeover first).calm polls

end Alarms

end Unpeel.Serve
