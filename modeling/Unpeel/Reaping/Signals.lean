import Unpeel.Reaping.Jobs

/-! # Who is signalled

A signal is covered when the identity check right before it looked at a process that
started when the record says, with no sleep in between. The first signal of a function
follows its check; the escalation to `SIGKILL` follows up to two seconds of sleep.
-/
namespace Unpeel.Reaping
open Manifest Runs
variable {s : Processes} {platform : Platform} {event : ProcessEvent}

def Sent.Covered (sent : Sent) : Prop := sent.waited = false ∧ StartMatches sent.recorded sent.found

def SignalsCovered (s : Processes) : Prop := ∀ sent ∈ s.sent, sent.Covered

/-- Where a function leaves the cover of its check: the identity rests on the argument
list of a process that did not start when the record says, a ping has taken its time
before the first signal, or somebody is alive under the pid when the polls are over. -/
def Job.Uncovers (platform : Platform) (table : ProcessTable) (job : Job) (reply : Reply) : Stage → Prop
  | .argv =>
    (job.ofManifest.bind fun m => processArgvMentions table reply.answers job.pid m.id) = some true ∧
      ¬ StartMatches job.recorded ((table job.pid).map Process.startedAt)
  | .pinging identity => identity = .matches ∧ reply.ping = .timedOut
  | .last => processExists platform table job.pid = true
  | _ => False

instance (platform : Platform) (table : ProcessTable) (job : Job) (reply : Reply) :
    ∀ stage, Decidable (job.Uncovers platform table reply stage)
  | .argv => inferInstanceAs (Decidable (_ ∧ _))
  | .pinging _ => inferInstanceAs (Decidable (_ ∧ _))
  | .last => inferInstanceAs (Decidable (_ = _))
  | .probing | .zombie | .starting | .sessionHostArg | .ptyCoreArg | .termGroup | .termPid | .waiting _
  | .killGroup | .killPid | .filing => inferInstanceAs (Decidable False)

def StaysCovered (platform : Platform) (s : Processes) : ProcessEvent → Prop
  | .step k reply => ∀ job ∈ s.workers k, job.signalsGroup = true → ¬ job.Uncovers platform s.table reply job.stage
  | _ => True

instance (platform : Platform) (s : Processes) : ∀ event, Decidable (StaysCovered platform s event)
  | .step k reply =>
    inferInstanceAs (Decidable (∀ job ∈ s.workers k,job.signalsGroup = true → ¬ job.Uncovers platform s.table reply job.stage))
  | .exits _ | .collected _ | .execs .. | .spawns .. | .stop .. | .reapDead .. | .reapOrphans .. | .killChild .. =>
    inferInstanceAs (Decidable True)

namespace Job

def Sighted (job : Job) : Prop := job.waited = false ∧ StartMatches job.recorded job.found

def Sound (job : Job) : Prop :=
  match job.stage with
  | .pinging identity =>
    job.waited = false ∧ (identity = .matches → job.signalsGroup = true → StartMatches job.recorded job.found)
  | .sessionHostArg | .ptyCoreArg | .termGroup => job.signalsGroup = true → job.Sighted
  | .termPid | .killGroup | .killPid => job.Sighted
  | _ => True

end Job

def Effect.Sound (effect : Effect) : Prop :=
  (∀ sent ∈ effect.sent, sent.Covered) ∧ ∀ job ∈ effect.job, job.Sound

theorem reapDeadFrom_sound (now : ℕ) (manifests : List HostedSessionManifest) :
    ∀ job ∈ reapDeadFrom now manifests, job.Sound := by
  induction manifests with
  | nil => simp [reapDeadFrom]
  | cons manifest rest ih =>
    unfold reapDeadFrom
    split
    · exact ih
    · cases manifest.pid with
      | none => exact ih
      | some pid =>
        intro job hjob
        cases hjob
        trivial

theorem reapOrphansFrom_sound (corePid : Option ℕ) (reaped : List ReapedHost)
    (manifests : List (HostedSessionManifest × Bool)) :
    ∀ job ∈ reapOrphansFrom corePid reaped manifests, job.Sound := by
  induction manifests with
  | nil => simp [reapOrphansFrom]
  | cons entry rest ih =>
    obtain ⟨manifest,archived⟩ := entry
    unfold reapOrphansFrom
    split
    · exact ih
    · cases manifest.hostPid with
      | none => exact ih
      | some hostPid =>
        dsimp only
        split
        · exact ih
        · intro job hjob
          cases hjob
          trivial

theorem Call.leave_sound (call : Call) : call.leave.Sound := by
  cases call with
  | stop manifest | killChild => exact ⟨by simp [Call.leave],by simp [Call.leave]⟩
  | reapDead manifest now rest =>
    have h := reapDeadFrom_sound now rest
    cases hj : reapDeadFrom now rest with
    | none => simp [Call.leave,hj,Effect.Sound]
    | some job => simpa [Call.leave,hj,Effect.Sound] using h
  | reapOrphans manifest reason corePid rest reaped =>
    have h := reapOrphansFrom_sound corePid reaped rest
    cases hj : reapOrphansFrom corePid reaped rest with
    | none => simp [Call.leave,hj,Effect.Sound]
    | some job => simpa [Call.leave,hj,Effect.Sound] using h

namespace Job
variable {platform : Platform} {table : ProcessTable} {job : Job} {reply : Reply}
variable {identity : PidIdentity}

theorem goTo_sound {stage : Stage} (h : Sound { job with stage := stage }) : (job.goTo stage).Sound := by
  refine ⟨by simp [goTo],?_⟩
  intro next hnext
  cases hnext
  exact h

theorem send_sound {signal : Signal} {group : Bool} {stage : Stage} (hc : job.Sighted)
    (h : Sound { job with stage := stage }) : (job.send signal group stage).Sound := by
  constructor
  · intro sent hsent
    cases List.mem_singleton.mp hsent
    exact hc
  · intro next hnext
    cases hnext
    exact h

/-- Each function acts on a positive identity only, and then keeps what the check saw. -/
theorem identified_sound (hw : job.waited = false)
    (h : identity = .matches → job.signalsGroup = true ∨ job.ofManifest = none →
      StartMatches job.recorded job.found) : (job.identified identity).Sound := by
  unfold identified
  split
  · split
    · rename_i hm
      exact goTo_sound fun hg => ⟨hw,h hm (.inl hg)⟩
    · exact goTo_sound trivial
  · split
    · exact goTo_sound trivial
    · split
      · exact Call.leave_sound _
      · exact goTo_sound ⟨hw,fun hm hg => h hm (.inl hg)⟩
  · rename_i hcall
    split
    · rename_i hm
      exact goTo_sound fun hg => ⟨hw,h hm (.inl hg)⟩
    · exact Call.leave_sound _
  · rename_i hcall
    split
    · rename_i hm
      exact goTo_sound ⟨hw,h hm (.inr (by rw [ofManifest,hcall]))⟩
    · exact Call.leave_sound _

theorem identified_notOurs_sound : (job.identified .notOurs).Sound := by
  unfold identified
  split
  · exact goTo_sound trivial
  · exact goTo_sound trivial
  · exact Call.leave_sound _
  · exact Call.leave_sound _

theorem file_sound : job.file.Sound := by
  unfold file
  split
  · exact Call.leave_sound job.call
  · exact Call.leave_sound job.call
  · exact Call.leave_sound (.reapOrphans ..)
  · exact Call.leave_sound job.call

theorem starting_sound (h : job.stage = .starting) : (job.step platform table reply).Sound := by
  rw [step,h]
  dsimp only
  split
  · rename_i identity hi
    refine identified_sound rfl fun hm _ => ?_
    rw [hm] at hi
    exact startMatches_of_identity table reply.answers hi
  · split
    · exact goTo_sound trivial
    · refine identified_sound rfl fun hm => ?_
      cases hm

theorem argv_sound (h : job.stage = .argv)
    (hg : job.signalsGroup = true → ¬ job.Uncovers platform table reply .argv) :
    (job.step platform table reply).Sound := by
  rw [step,h]
  refine identified_sound rfl fun hm hsignals => ?_
  have hmentioned : (job.ofManifest.bind fun m => processArgvMentions table reply.answers job.pid m.id) =
      some true := by
    by_contra hne
    rw [if_neg (by exact hne)] at hm
    cases hm
  rcases hsignals with hsignals | hnone
  · by_contra hno
    exact hg hsignals ⟨hmentioned,hno⟩
  · have hnone : job.ofManifest = none := hnone
    rw [hnone] at hmentioned
    cases hmentioned

theorem pinging_sound (h : job.stage = .pinging identity) (hs : job.Sound)
    (hg : job.signalsGroup = true → ¬ job.Uncovers platform table reply (.pinging identity)) :
    (job.step platform table reply).Sound := by
  have hs : job.waited = false ∧
      (identity = .matches → job.signalsGroup = true → StartMatches job.recorded job.found) := by
    rw [Sound,h] at hs
    exact hs
  rw [step,h]
  dsimp only
  split
  · exact Call.leave_sound _
  · apply goTo_sound
    by_cases hm : identity = .matches
    · rw [if_pos hm]
      exact fun hsignals => ⟨hs.1,hs.2 hm hsignals⟩
    · rw [if_neg hm]
      trivial
  · rename_i hping
    apply goTo_sound
    by_cases hm : identity = .matches
    · rw [if_pos hm]
      exact fun hsignals => absurd ⟨hm,hping⟩ (hg hsignals)
    · rw [if_neg hm]
      trivial

theorem last_sound (h : job.stage = .last)
    (hg : job.signalsGroup = true → ¬ job.Uncovers platform table reply .last) :
    (job.step platform table reply).Sound := by
  rw [step,h]
  dsimp only
  split
  · rename_i halive
    obtain ⟨hexists,hsignals⟩ := Bool.and_eq_true_iff.mp halive
    exact absurd hexists (hg hsignals)
  · exact goTo_sound trivial

theorem orphanHost_signalsGroup (h : job.orphanHost = true) : job.signalsGroup = true := by
  rw [signalsGroup,h,Bool.true_or]

theorem termGroup_sound (h : job.stage = .termGroup) (hs : job.Sound) : (job.step platform table reply).Sound := by
  have hs : job.signalsGroup = true → job.Sighted := by
    rw [Sound,h] at hs
    exact hs
  rw [step,h]
  dsimp only
  split
  · rename_i horphan
    have hsighted := hs (orphanHost_signalsGroup horphan)
    exact send_sound hsighted hsighted
  · split
    · rename_i hpid
      exact send_sound (hs (by rw [signalsGroup,decide_eq_true hpid,Bool.or_true])) trivial
    · exact goTo_sound trivial

/-- `SIGKILL` to one process: the last of an escalation, or the one signal to a handed-over child. -/
theorem killPid_sound (h : job.stage = .killPid) (hs : job.Sound) : (job.step platform table reply).Sound := by
  have hs : job.Sighted := by
    rw [Sound,h] at hs
    exact hs
  rw [step,h]
  dsimp only
  split
  · exact send_sound hs trivial
  · have hsend : (job.send .kill false .filing).Sound := send_sound hs trivial
    exact ⟨hsend.1,by simp⟩

theorem killGroup_sound (h : job.stage = .killGroup) (hs : job.Sound) : (job.step platform table reply).Sound := by
  have hs : job.Sighted := by
    rw [Sound,h] at hs
    exact hs
  rw [step,h]
  refine send_sound hs ?_
  cases job.orphanHost with
  | true => exact hs
  | false => trivial

/-- One system call of a covered job. -/
theorem step_sound (hs : job.Sound) (hg : job.signalsGroup = true → ¬ job.Uncovers platform table reply job.stage) :
    (job.step platform table reply).Sound := by
  cases h : job.stage with
  | probing =>
    rw [step,h]
    dsimp only
    split
    · apply goTo_sound
      cases job.ofManifest.isSome with
      | true | false => trivial
    · exact identified_notOurs_sound
  | zombie =>
    rw [step,h]
    dsimp only
    split
    · exact identified_notOurs_sound
    · exact goTo_sound trivial
  | starting => exact starting_sound h
  | argv => exact argv_sound h (h ▸ hg)
  | pinging identity => exact pinging_sound h hs (h ▸ hg)
  | sessionHostArg =>
    rw [Sound,h] at hs
    rw [step,h]
    dsimp only
    split
    · exact goTo_sound hs
    · exact Call.leave_sound _
  | ptyCoreArg =>
    rw [Sound,h] at hs
    rw [step,h]
    dsimp only
    split
    · exact Call.leave_sound _
    · exact goTo_sound hs
  | termGroup => exact termGroup_sound h hs
  | termPid =>
    rw [Sound,h] at hs
    rw [step,h]
    exact send_sound hs trivial
  | waiting polls =>
    rw [step,h]
    dsimp only
    split
    · exact goTo_sound trivial
    · exact goTo_sound trivial
  | last => exact last_sound h (h ▸ hg)
  | killGroup => exact killGroup_sound h hs
  | killPid => exact killPid_sound h hs
  | filing =>
    rw [step,h]
    exact file_sound

end Job

structure CoverInv (s : Processes) : Prop where
  sent : SignalsCovered s
  workers : ∀ k, ∀ job ∈ s.workers k, job.Sound

theorem CoverInv.start (table : ProcessTable) : CoverInv (startProcesses table) :=
  ⟨by simp [SignalsCovered,startProcesses],by simp [startProcesses]⟩

theorem CoverInv.apply {s : Processes} (h : CoverInv s) (k : ℕ) {effect : Effect} (he : effect.Sound) :
    CoverInv (s.apply k effect) where
  sent := by
    intro sent hsent
    rcases List.mem_append.mp hsent with hsent | hsent
    · exact h.sent sent hsent
    · exact he.1 sent hsent
  workers := Processes.forall_apply_workers he.2 fun j _ => h.workers j

/-- No function begins with a signal. -/
theorem begin_sound {k : ℕ} {effect : Effect} (h : s.begin platform event = some (k,effect)) : effect.Sound := by
  cases event with
  | exits | collected | execs | spawns | step => cases h
  | stop j manifest now answers =>
    cases h
    unfold Processes.stopUnreachableSessionChild
    split
    · simp [Effect.Sound]
    · cases manifest.pid with
      | some pid => simp [Effect.Sound,Job.Sound]
      | none =>
        dsimp only
        split
        · simp [Effect.Sound]
        · simp [Effect.Sound]
  | reapDead j manifests now =>
    cases h
    have hjobs := reapDeadFrom_sound now manifests
    cases hj : reapDeadFrom now manifests with
    | none => simp [Effect.Sound]
    | some job => simpa [Effect.Sound,hj] using hjobs
  | reapOrphans j manifests corePid =>
    cases h
    have hjobs := reapOrphansFrom_sound corePid [] manifests
    cases hj : reapOrphansFrom corePid [] manifests with
    | none => simp [Effect.Sound]
    | some job => simpa [Effect.Sound,hj] using hjobs
  | killChild j pid startedAt =>
    cases h
    simp [Effect.Sound,Job.Sound]

/-- One step of the world, the beginning of a function, or the next system call of one. -/
theorem processStep_cases {t : Processes} (h : processStep platform s event = some t) :
    (t.sent = s.sent ∧ t.workers = s.workers ∧ t.filed = s.filed) ∨
    (∃ k effect, s.begin platform event = some (k,effect) ∧ t = s.apply k effect) ∨
    ∃ k reply job, event = .step k reply ∧ s.workers k = some job ∧
      t = s.apply k (job.step platform s.table reply) := by
  cases event with
  | exits pid | execs pid argv =>
    obtain ⟨p,-,rfl⟩ := Option.map_eq_some_iff.mp h
    exact .inl ⟨rfl,rfl,rfl⟩
  | collected pid | spawns pid startedAt foreign argv =>
    rw [processStep] at h
    split at h <;> cases h
    exact .inl ⟨rfl,rfl,rfl⟩
  | step k reply =>
    obtain ⟨job,hjob,rfl⟩ := Option.map_eq_some_iff.mp h
    exact .inr (.inr ⟨k,reply,job,rfl,hjob,rfl⟩)
  | stop | reapDead | reapOrphans | killChild =>
    simp only [processStep,Option.bind_eq_some_iff] at h
    obtain ⟨⟨k,effect⟩,hbegin,h⟩ := h
    split at h <;> cases h
    exact .inr (.inl ⟨k,effect,hbegin,rfl⟩)

theorem CoverInv.step {t : Processes} (h : CoverInv s)
    (hg : StaysCovered platform s event) (ht : processStep platform s event = some t) : CoverInv t := by
  obtain ⟨hsent,hworkers,-⟩ | ⟨k,effect,hbegin,rfl⟩ | ⟨k,reply,job,rfl,hjob,rfl⟩ := processStep_cases ht
  · constructor
    · rw [SignalsCovered,hsent]
      exact h.sent
    · rw [hworkers]
      exact h.workers
  · exact h.apply k (begin_sound hbegin)
  · exact h.apply k (Job.step_sound (h.workers k job hjob) (hg job hjob))

/-- Every `SIGTERM` and `SIGKILL` follows a check that found the recorded process, as long
as no function leaves the cover of its check. -/
theorem only_the_recorded_are_signalled (platform : Platform) (table : ProcessTable) (events : List ProcessEvent)
    (h : Guarded (processStep platform) (StaysCovered platform) (startProcesses table) events) :
    Always (processStep platform) SignalsCovered (startProcesses table) events :=
  always_of_guarded (J := CoverInv) (fun _ _ _ hs hg ht => hs.step hg ht) (fun _ hs => hs.sent)
    (CoverInv.start table) h

def shellManifest : HostedSessionManifest where
  id := ['s']
  command := []
  label := []
  customTitle := false
  state := .running
  runtime := none
  runtimeLaunchGeneration := 0
  runtimeLaunchPending := false
  pid := some 500
  pidStartedAt := some 1000
  hostPid := none
  hostPidStartedAt := none
  heartbeatAt := 1
  updatedAt := 1

def plainReply : Reply := ⟨⟨true,true⟩,.refused,true⟩

def steps (count : ℕ) : List ProcessEvent := List.replicate count (.step 0 plainReply)

/-- The Session is stopped by hand, up to its `SIGTERM`. -/
def shellStopped : List ProcessEvent :=
  .spawns 500 1000 false ['z'] :: .stop 0 shellManifest 2000 plainReply.answers :: steps 4

def obedientShell : List ProcessEvent := shellStopped ++ (.exits 500 :: .collected 500 :: steps 3 : List ProcessEvent)

/-- The stop is done with one signal. -/
theorem obedient_shell_is_signalled_once :
    (run (processStep .linux) (startProcesses fun _ => none) obedientShell).map Processes.sent =
        some [⟨.term,500,true,some 1000,some 1000,false⟩] ∧
    Always (processStep .linux) SignalsCovered (startProcesses fun _ => none) obedientShell :=
  ⟨by decide +kernel,only_the_recorded_are_signalled .linux _ _ (by decide +kernel)⟩

def pidTakenOver : List ProcessEvent :=
  shellStopped ++ (.exits 500 :: .collected 500 :: .spawns 500 3600000 false ['x'] :: steps 22 : List ProcessEvent)

/-- Two seconds later the stranger's group is killed. -/
theorem pidTakenOver_kills_a_stranger :
    ¬ Always (processStep .linux) SignalsCovered (startProcesses fun _ => none) pidTakenOver := by
  intro h
  have hrun : (run (processStep .linux) (startProcesses fun _ => none) pidTakenOver).map
      (fun s => (s.sent,(s.table 500).map Process.startedAt)) =
      some ([⟨.term,500,true,some 1000,some 1000,false⟩,⟨.kill,500,true,some 1000,some 1000,true⟩],some 3600000) := by
    decide +kernel
  obtain ⟨s,hs,he⟩ := Option.map_eq_some_iff.mp hrun
  obtain ⟨hsent,-⟩ := Prod.mk.inj he
  have hcovered := always_iff.mp h pidTakenOver [] s (List.append_nil _).symm hs
  have hkill := hcovered ⟨.kill,500,true,some 1000,some 1000,true⟩ (by rw [hsent]; decide)
  cases hkill.1

end Unpeel.Reaping
