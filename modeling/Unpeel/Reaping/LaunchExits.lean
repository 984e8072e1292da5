import Mathlib.Data.List.Nodup
import Unpeel.Reaping.Signals

/-! # Which launch an exit is about

A Session can be launched again under its id: a new Host writes a new manifest where the
old one was. The functions that file a Session as exited read its manifest, look at the
processes it names, wait, and write the exit under the manifest's lock. All but one of
them write it into whatever manifest is there by then.
-/
namespace Unpeel.Reaping
open Manifest Runs List
variable {platform : Platform} {reaper : Reaper}

structure Launched where
  manifest : HostedSessionManifest
  launch : ℕ
deriving DecidableEq

/-- A Running manifest became Exited: the launch it describes, and the launch whose
processes were found gone. -/
structure Flip where
  launch : ℕ
  decidedOn : Option ℕ
deriving DecidableEq

/-- `SESSION_HEARTBEAT_STALE_MS`. -/
def sessionHeartbeatStaleMs : ℕ := 180000

def manifestHeartbeatIsStale (manifest : HostedSessionManifest) (now : ℕ) : Bool :=
  sessionHeartbeatStaleMs < now - manifestLastHeartbeatAt manifest

section Health
variable (platform : Platform) (table : ProcessTable) (answers : Answers)

def manifestPidIdentity (manifest : HostedSessionManifest) : PidIdentity :=
  match manifest.pid with
  | none => .unknown
  | some pid =>
    if processIsZombie platform table pid then .notOurs
    else match startTimeIdentity manifest.pidStartedAt (processStartTimeMs table answers pid) with
      | some identity => identity
      | none => if processArgvMentions table answers pid manifest.id = some true then .matches else .unknown

/-- `socket` is whether the Host's socket file is there. -/
def manifestHostIsHealthy (socket : Bool) (manifest : HostedSessionManifest) : Bool :=
  if manifest.state ≠ .running then true
  else match manifest.pid with
    | none => manifestLaunchingHostIsAlive platform table answers manifest
    | some pid =>
      if processExists platform table pid = false then false
      else if startTimeIdentity manifest.pidStartedAt (processStartTimeMs table answers pid) = some .notOurs then false
      else socket

def manifestChildIsDefinitivelyGone (manifest : HostedSessionManifest) : Bool :=
  match manifest.pid with
  | none => false
  | some pid =>
    if processExists platform table pid = false then true
    else manifestPidIdentity platform table answers manifest = .notOurs

end Health

/-- The edit of `mark_manifest_exited`. -/
def markManifestExited (manifest : HostedSessionManifest) : HostedSessionManifest :=
  { manifest with state := .exited, pid := none, runtimeLaunchPending := false }

/-- What `refresh_manifest_health_from_manifest` does next. -/
inductive RefreshStage where
  | pinging
  | beating
  | judging
  | filing
deriving DecidableEq

structure Refresh where
  manifest : HostedSessionManifest
  stage : RefreshStage

/-- The answers to one step of a refresh. With `written` false a locked update fails. -/
structure HealthReply where
  answers : Answers
  socket : Bool
  ping : Bool
  now : ℕ
  written : Bool

def beat (platform : Platform) (table : ProcessTable) (reply : HealthReply)
    (current : HostedSessionManifest) : HostedSessionManifest :=
  if current.state = .running ∧ manifestHostIsHealthy platform table reply.answers reply.socket current then
    { current with heartbeatAt := reply.now }
  else current

/-- The edit of a refresh that found no healthy Host: it looks again, at the manifest it
is about to change. -/
def fileGone (platform : Platform) (table : ProcessTable) (reply : HealthReply)
    (current : HostedSessionManifest) : HostedSessionManifest :=
  if current.state ≠ .exited ∧ manifestHostIsHealthy platform table reply.answers reply.socket current = false ∧
      manifestChildIsDefinitivelyGone platform table reply.answers current then
    { current with state := .exited, runtimeLaunchPending := false }
  else current

/-- The functions at work, the manifests on disk, those that some process has in hand, and
the ones each function works from. -/
structure Disk where
  processes : Processes
  files : Text → Option Launched
  launches : ℕ
  read : List Launched
  held : ℕ → List Launched
  refreshes : ℕ → Option Refresh
  flips : List Flip

inductive Reaper where
  | stop (entry : Launched) (now : ℕ) (answers : Answers)
  | reapDead (entries : List Launched) (now : ℕ)
  | reapOrphans (entries : List (Launched × Bool)) (corePid : Option ℕ)

namespace Reaper

def entries : Reaper → List Launched
  | .stop entry _ _ => [entry]
  | .reapDead entries _ => entries
  | .reapOrphans entries _ => entries.map Prod.fst

def event (k : ℕ) : Reaper → ProcessEvent
  | .stop entry now answers => .stop k entry.manifest now answers
  | .reapDead entries now => .reapDead k (entries.map Launched.manifest) now
  | .reapOrphans entries corePid => .reapOrphans k (entries.map fun entry => (entry.1.manifest,entry.2)) corePid

end Reaper

/-- `launch` is a new Host's first manifest, `hostWrites` any later write of that launch,
`removed` the end of the Session's directory. -/
inductive DiskEvent where
  | world (event : ProcessEvent)
  | launch (manifest : HostedSessionManifest)
  | hostWrites (manifest : HostedSessionManifest)
  | removed (id : Text)
  | reads (id : Text)
  | call (k : ℕ) (reaper : Reaper) (now : ℕ) (written : Bool)
  | step (k : ℕ) (reply : Reply) (now : ℕ) (written : Bool)
  | refresh (k : ℕ) (entry : Launched) (now : ℕ)
  | refreshStep (k : ℕ) (reply : HealthReply)

def ProcessEvent.ofWorld : ProcessEvent → Bool
  | .exits _ | .collected _ | .execs .. | .spawns .. => true
  | _ => false

namespace Disk

/-- `update_manifest_session`, with the launch that the edit was decided on. -/
def edit (s : Disk) (id : Text) (now : ℕ) (written : Bool) (decidedOn : Option ℕ)
    (update : HostedSessionManifest → HostedSessionManifest) : Disk :=
  match s.files id with
  | none => s
  | some file =>
    match updateManifestSession (some file.manifest) now written update with
    | (some manifest,.ok _) =>
      { s with
        files := Function.update s.files id (some ⟨manifest,file.launch⟩)
        read := ⟨manifest,file.launch⟩ :: s.read
        flips := if file.manifest.state = .running ∧ manifest.state = .exited then s.flips ++ [⟨file.launch,decidedOn⟩]
          else s.flips }
    | _ => s

/-- The launch of the manifest that function `k` works from. -/
def decidedOn (s : Disk) (k : ℕ) (id : Text) : Option ℕ :=
  ((s.held k).find? fun entry => entry.manifest.id = id).map Launched.launch

/-- The exits that function `k` files in one step are written. -/
def advance (s : Disk) (k : ℕ) (processes : Processes) (now : ℕ) (written : Bool) : Disk :=
  (processes.filed.drop s.processes.filed.length).foldl
    (fun t id => t.edit id now written (t.decidedOn k id) markManifestExited) { s with processes := processes }

def launchOf (s : Disk) (id : Text) : Option ℕ := (s.files id).map Launched.launch

def settle (s : Disk) (k : ℕ) (refresh : Option Refresh) : Disk :=
  { s with refreshes := Function.update s.refreshes k refresh }

def refreshStep (platform : Platform) (s : Disk) (k : ℕ) (refresh : Refresh) (reply : HealthReply) : Disk :=
  let id := refresh.manifest.id
  let table := s.processes.table
  match refresh.stage with
  | .pinging => s.settle k (some { refresh with stage := if reply.ping then .beating else .judging })
  | .beating => (s.edit id reply.now reply.written (s.launchOf id) (beat platform table reply)).settle k none
  | .judging =>
    if manifestHostIsHealthy platform table reply.answers reply.socket refresh.manifest then s.settle k none
    else if refresh.manifest.state ≠ .exited then s.settle k (some { refresh with stage := .filing })
    else s.settle k none
  | .filing => (s.edit id reply.now reply.written (s.launchOf id) (fileGone platform table reply)).settle k none

end Disk

def diskStep (platform : Platform) (s : Disk) : DiskEvent → Option Disk
  | .world event =>
    if event.ofWorld then (processStep platform s.processes event).map fun p => { s with processes := p } else none
  | .launch manifest =>
    if manifest.state = .running then
      some { s with files := Function.update s.files manifest.id (some ⟨manifest,s.launches⟩), launches := s.launches + 1 }
    else none
  | .hostWrites manifest => (s.files manifest.id).map fun file =>
      { s with files := Function.update s.files manifest.id (some ⟨manifest,file.launch⟩) }
  | .removed id => some { s with files := Function.update s.files id none }
  | .reads id => (s.files id).map fun file => { s with read := file :: s.read }
  -- `list_manifests` looks into each directory once.
  | .call k reaper now written =>
    if (∀ entry ∈ reaper.entries, entry ∈ s.read) ∧ (reaper.entries.map fun entry => entry.manifest.id).Nodup then
      (processStep platform s.processes (reaper.event k)).map fun p =>
        Disk.advance { s with held := Function.update s.held k reaper.entries } k p now written
    else none
  | .step k reply now written =>
    (processStep platform s.processes (.step k reply)).map fun p => s.advance k p now written
  | .refresh k entry now =>
    if entry ∈ s.read ∧ (s.refreshes k).isNone then
      let stale := entry.manifest.state = .running ∧ manifestHeartbeatIsStale entry.manifest now
      some (s.settle k (some ⟨entry.manifest,if stale then .pinging else .judging⟩))
    else none
  | .refreshStep k reply => (s.refreshes k).map fun refresh => s.refreshStep platform k refresh reply

def startDisk (table : ProcessTable) : Disk :=
  ⟨startProcesses table,fun _ => none,0,[],fun _ => [],fun _ => none,[]⟩

def OwnLaunch (s : Disk) : Prop := ∀ flip ∈ s.flips, flip.decidedOn = some flip.launch

instance (s : Disk) : Decidable (OwnLaunch s) := inferInstanceAs (Decidable (∀ flip ∈ s.flips, _))

def Job.marks (job : Job) : Option Text :=
  match job.stage,job.call with
  | .filing,.stop manifest => some manifest.id
  | .filing,.reapDead manifest _ _ => some manifest.id
  | .filing,.reapOrphans manifest .. => some manifest.id
  | _,_ => none

/-- The Session that a function marks as exited before anything else: one without a child,
outside the launch window of a living Host. -/
def Reaper.marks (platform : Platform) (table : ProcessTable) : Reaper → Option Text
  | .stop entry now answers =>
    if entry.manifest.state = .running ∧ entry.manifest.pid = none ∧
        ¬ (manifestLaunchingHostIsAlive platform table answers entry.manifest = true ∧
          now - manifestLastHeartbeatAt entry.manifest < stopUnreachableLaunchWindowMs) then
      some entry.manifest.id
    else none
  | _ => none

def Disk.Describes (s : Disk) (id : Text) (launch : Option ℕ) : Prop :=
  ∀ file ∈ s.files id, file.manifest.state = .running → launch = some file.launch

/-- No exit is written into the manifest of a launch other than the one that the function
had read. -/
def MarksOwnLaunch (platform : Platform) (s : Disk) : DiskEvent → Prop
  | .call k reaper _ written => written = true → ∀ id ∈ reaper.marks platform s.processes.table,
      s.Describes id (Disk.decidedOn { s with held := Function.update s.held k reaper.entries } k id)
  | .step k _ _ written => written = true → ∀ job ∈ s.processes.workers k, ∀ id ∈ job.marks,
      s.Describes id (s.decidedOn k id)
  | _ => True

def Call.manifests : Call → List HostedSessionManifest
  | .stop manifest => [manifest]
  | .reapDead manifest _ rest => manifest :: rest
  | .reapOrphans manifest _ _ rest _ => manifest :: rest.map Prod.fst
  | .killChild => []

def Effect.Carries (effect : Effect) (manifests : List HostedSessionManifest) : Prop :=
  effect.filed = [] ∧ ∀ next ∈ effect.job, next.call.manifests ⊆ manifests

theorem Effect.carries_of_done {sent : List Sent} {outcome : List Outcome} {manifests : List HostedSessionManifest} :
    Effect.Carries ⟨none,sent,[],outcome⟩ manifests :=
  ⟨rfl,by simp⟩

theorem reapDeadFrom_manifests (now : ℕ) (manifests : List HostedSessionManifest) :
    ∀ next ∈ reapDeadFrom now manifests, next.call.manifests ⊆ manifests := by
  induction manifests with
  | nil => simp [reapDeadFrom]
  | cons manifest rest ih =>
    have hrest : ∀ next ∈ reapDeadFrom now rest, next.call.manifests ⊆ manifest :: rest :=
      fun next hnext => subset_cons_of_subset manifest (ih next hnext)
    unfold reapDeadFrom
    split
    · exact hrest
    · cases manifest.pid with
      | none => exact hrest
      | some pid =>
        rintro next ⟨⟩
        exact List.Subset.refl _

theorem reapOrphansFrom_manifests (corePid : Option ℕ) (reaped : List ReapedHost)
    (manifests : List (HostedSessionManifest × Bool)) :
    ∀ next ∈ reapOrphansFrom corePid reaped manifests, next.call.manifests ⊆ manifests.map Prod.fst := by
  induction manifests with
  | nil => simp [reapOrphansFrom]
  | cons entry rest ih =>
    obtain ⟨manifest,archived⟩ := entry
    have hrest : ∀ next ∈ reapOrphansFrom corePid reaped rest,
        next.call.manifests ⊆ ((manifest,archived) :: rest).map Prod.fst :=
      fun next hnext => subset_cons_of_subset manifest (ih next hnext)
    unfold reapOrphansFrom
    split
    · exact hrest
    · cases manifest.hostPid with
      | none => exact hrest
      | some hostPid =>
        dsimp only
        split
        · exact hrest
        · rintro next ⟨⟩
          exact List.Subset.refl _

theorem Call.leave_carries (call : Call) : call.leave.Carries call.manifests := by
  cases call with
  | stop | killChild => exact Effect.carries_of_done
  | reapDead manifest now rest =>
    unfold Call.leave
    dsimp only
    split
    · exact Effect.carries_of_done
    · rename_i job hjob
      refine ⟨rfl,?_⟩
      rintro next ⟨⟩
      exact subset_cons_of_subset manifest (reapDeadFrom_manifests now rest job hjob)
  | reapOrphans manifest reason corePid rest reaped =>
    unfold Call.leave
    dsimp only
    split
    · exact Effect.carries_of_done
    · rename_i job hjob
      refine ⟨rfl,?_⟩
      rintro next ⟨⟩
      exact subset_cons_of_subset manifest (reapOrphansFrom_manifests corePid reaped rest job hjob)

namespace Job

theorem carries_of_call {job next : Job} {sent : List Sent} {outcome : List Outcome} (h : next.call = job.call) :
    Effect.Carries ⟨some next,sent,[],outcome⟩ job.call.manifests := by
  refine ⟨rfl,?_⟩
  rintro _ ⟨⟩
  rw [h]
  exact List.Subset.refl _

theorem identified_carries (job : Job) (identity : PidIdentity) :
    (job.identified identity).Carries job.call.manifests := by
  unfold identified
  split
  · split
    · exact carries_of_call rfl
    · exact carries_of_call rfl
  · split
    · exact carries_of_call rfl
    · split
      · exact Call.leave_carries _
      · exact carries_of_call rfl
  · split
    · exact carries_of_call rfl
    · exact Call.leave_carries _
  · split
    · exact carries_of_call rfl
    · exact Call.leave_carries _

/-- Before its last stage a function files nothing. -/
theorem step_carries (platform : Platform) (table : ProcessTable) (job : Job) (reply : Reply)
    (h : job.stage ≠ .filing) : (job.step platform table reply).Carries job.call.manifests := by
  unfold step
  cases hstage : job.stage with
  | probing =>
    dsimp only
    split
    · exact carries_of_call rfl
    · exact identified_carries _ _
  | zombie =>
    dsimp only
    split
    · exact identified_carries _ _
    · exact carries_of_call rfl
  | starting =>
    dsimp only
    split
    · exact identified_carries _ _
    · split
      · exact carries_of_call rfl
      · exact identified_carries _ _
  | argv => exact identified_carries _ _
  | pinging identity =>
    dsimp only
    split
    · exact Call.leave_carries _
    · exact carries_of_call rfl
    · exact carries_of_call rfl
  | sessionHostArg =>
    dsimp only
    split
    · exact carries_of_call rfl
    · exact Call.leave_carries _
  | ptyCoreArg =>
    dsimp only
    split
    · exact Call.leave_carries _
    · exact carries_of_call rfl
  | termGroup =>
    dsimp only
    split
    · exact carries_of_call rfl
    · split
      · exact carries_of_call rfl
      · exact carries_of_call rfl
  | termPid | killGroup => exact carries_of_call rfl
  | waiting polls | last =>
    dsimp only
    split
    · exact carries_of_call rfl
    · exact carries_of_call rfl
  | killPid =>
    dsimp only
    split
    · exact carries_of_call rfl
    · exact Effect.carries_of_done
  | filing => exact absurd hstage h

theorem marks_of_stage {job : Job} (h : job.stage ≠ .filing) : job.marks = none := by
  unfold marks
  split <;> first | rfl | exact absurd ‹job.stage = .filing› h

theorem step_filed (platform : Platform) (table : ProcessTable) (job : Job) (reply : Reply) :
    (job.step platform table reply).filed = job.marks.toList := by
  by_cases hstage : job.stage = .filing
  · rw [step,hstage]
    cases hcall : job.call with
    | stop | reapDead | reapOrphans => simp [file,marks,hstage,hcall]
    | killChild => simp [file,marks,hstage,hcall,Call.leave]
  · rw [marks_of_stage hstage,(step_carries platform table job reply hstage).1]
    rfl

end Job

/-- Of the functions that begin, only a stop may file at once. -/
theorem Reaper.begin_filed {s : Processes} {j k : ℕ} {effect : Effect}
    (h : s.begin platform (reaper.event k) = some (j,effect)) :
    j = k ∧ effect.filed = (reaper.marks platform s.table).toList := by
  cases reaper with
  | stop entry now answers =>
    cases h
    refine ⟨rfl,?_⟩
    unfold Processes.stopUnreachableSessionChild
    dsimp only [Reaper.marks]
    by_cases hrunning : entry.manifest.state = .running
    · rw [if_neg (not_not.mpr hrunning)]
      cases hpid : entry.manifest.pid with
      | some pid => simp
      | none =>
        dsimp only
        split
        · rename_i hlaunching
          rw [if_neg fun hmarks => hmarks.2.2 hlaunching]
          rfl
        · rename_i hlaunching
          rw [if_pos ⟨hrunning,rfl,hlaunching⟩]
          rfl
    · rw [if_pos hrunning,if_neg fun hmarks => hrunning hmarks.1]
      rfl
  | reapDead entries now | reapOrphans entries corePid =>
    cases h
    refine ⟨rfl,?_⟩
    split <;> rfl

theorem Reaper.processStep_eq (platform : Platform) (s : Processes) (reaper : Reaper) (k : ℕ) :
    processStep platform s (reaper.event k) = (s.begin platform (reaper.event k)).bind fun (j,effect) =>
      if (s.workers j).isNone then some (s.apply j effect) else none := by
  cases reaper with
  | stop | reapDead | reapOrphans => rfl

theorem Reaper.step_cases {s p : Processes} {k : ℕ} (h : processStep platform s (reaper.event k) = some p) :
    ∃ effect, s.begin platform (reaper.event k) = some (k,effect) ∧ p = s.apply k effect := by
  rw [Reaper.processStep_eq,Option.bind_eq_some_iff] at h
  obtain ⟨⟨j,effect⟩,hbegin,h⟩ := h
  dsimp only at h
  split at h <;> cases h
  obtain rfl := (Reaper.begin_filed hbegin).1
  exact ⟨effect,hbegin,rfl⟩

namespace Disk
variable {s : Disk} {id : Text} {now : ℕ} {written : Bool} {decidedOn : Option ℕ} {file : Launched}
  {update : HostedSessionManifest → HostedSessionManifest}

theorem edit_of_none (h : s.files id = none) : s.edit id now written decidedOn update = s := by
  rw [edit,h]

theorem edit_unwritten : s.edit id now false decidedOn update = s := by
  unfold edit
  split <;> rfl

theorem edit_flips (h : s.files id = some file) : (s.edit id now true decidedOn update).flips =
    if file.manifest.state = .running ∧ (update file.manifest).state = .exited then
      s.flips ++ [⟨file.launch,decidedOn⟩]
    else s.flips := by
  rw [edit,h]
  rfl

theorem edit_flips_eq (h : ∀ file, s.files id = some file → file.manifest.state = .running →
    (update file.manifest).state ≠ .exited) : (s.edit id now written decidedOn update).flips = s.flips := by
  cases hfile : s.files id with
  | none => rw [edit_of_none hfile]
  | some file =>
    cases written with
    | false => rw [edit_unwritten]
    | true => rw [edit_flips hfile,if_neg fun hflips => h file hfile hflips.1 hflips.2]

end Disk

section Edits
variable {s : Disk} {id : Text} {now : ℕ} {written : Bool} {decidedOn : Option ℕ}
  {update : HostedSessionManifest → HostedSessionManifest}

/-- A locked update keeps to the launches exactly where an exit that it writes was decided
on the launch it finds. -/
theorem ownLaunch_edit : OwnLaunch (s.edit id now written decidedOn update) ↔
    OwnLaunch s ∧ (written = true → ∀ file ∈ s.files id, file.manifest.state = .running →
      (update file.manifest).state = .exited → decidedOn = some file.launch) := by
  cases hfile : s.files id with
  | none => simp [Disk.edit_of_none hfile]
  | some file =>
    cases written with
    | false => simp [Disk.edit_unwritten]
    | true =>
      rw [OwnLaunch,Disk.edit_flips hfile]
      split
      · rename_i hflips
        simp [hflips,or_imp,forall_and,OwnLaunch]
      · rename_i hflips
        have hkept : ∀ found ∈ some file, found.manifest.state = .running →
            (update found.manifest).state = .exited → decidedOn = some found.launch := by
          rintro _ ⟨⟩ hrunning hexited
          exact absurd ⟨hrunning,hexited⟩ hflips
        exact ⟨fun h => ⟨h,fun _ => hkept⟩,fun h => h.1⟩

theorem ownLaunch_mark : OwnLaunch (s.edit id now written decidedOn markManifestExited) ↔
    OwnLaunch s ∧ (written = true → s.Describes id decidedOn) := by
  rw [ownLaunch_edit]
  constructor
  · rintro ⟨hs,h⟩
    exact ⟨hs,fun hw file hfile hrunning => h hw file hfile hrunning rfl⟩
  · rintro ⟨hs,h⟩
    exact ⟨hs,fun hw file hfile hrunning _ => h hw file hfile hrunning⟩

theorem ownLaunch_refresh : OwnLaunch (s.edit id now written (s.launchOf id) update) ↔ OwnLaunch s := by
  rw [ownLaunch_edit]
  refine and_iff_left fun _ file hfile _ _ => ?_
  rw [Disk.launchOf,hfile]
  rfl

theorem ownLaunch_advance {k : ℕ} {p : Processes} {marks : Option Text}
    (h : p.filed = s.processes.filed ++ marks.toList) : OwnLaunch (s.advance k p now written) ↔
      OwnLaunch s ∧ (written = true → ∀ id ∈ marks, s.Describes id (s.decidedOn k id)) := by
  rw [Disk.advance,h,drop_left]
  cases marks with
  | none => simp [OwnLaunch]
  | some id =>
    refine (ownLaunch_mark (s := { s with processes := p })).trans ?_
    simp only [Option.mem_def,Option.some.injEq,forall_eq']
    exact Iff.rfl

end Edits

/-- The steps that file nothing. -/
def DiskEvent.quiet : DiskEvent → Bool
  | .call .. | .step .. | .refreshStep .. => false
  | _ => true

theorem diskStep_quiet {s t : Disk} {event : DiskEvent} (hquiet : event.quiet = true)
    (ht : diskStep platform s event = some t) :
    t.processes.workers = s.processes.workers ∧ t.held = s.held ∧ s.read ⊆ t.read ∧ t.flips = s.flips := by
  cases event with
  | world event =>
    rw [diskStep] at ht
    split at ht
    swap
    · cases ht
    rename_i hworld
    obtain ⟨p,hp,rfl⟩ := Option.map_eq_some_iff.mp ht
    refine ⟨?_,rfl,List.Subset.refl _,rfl⟩
    rcases processStep_cases hp with ⟨-,hworkers,-⟩ | ⟨k,effect,hbegin,-⟩ | ⟨k,reply,job,rfl,-⟩
    · exact hworkers
    · cases event with
      | exits | collected | execs | spawns | step => cases hbegin
      | stop | reapDead | reapOrphans | killChild => cases hworld
    · cases hworld
  | launch manifest | refresh k entry now =>
    rw [diskStep] at ht
    split at ht <;> cases ht
    exact ⟨rfl,rfl,List.Subset.refl _,rfl⟩
  | removed id =>
    cases ht
    exact ⟨rfl,rfl,List.Subset.refl _,rfl⟩
  | hostWrites manifest =>
    obtain ⟨file,-,rfl⟩ := Option.map_eq_some_iff.mp ht
    exact ⟨rfl,rfl,List.Subset.refl _,rfl⟩
  | reads id =>
    obtain ⟨file,-,rfl⟩ := Option.map_eq_some_iff.mp ht
    exact ⟨rfl,rfl,subset_cons_self _ _,rfl⟩
  | call | step | refreshStep => cases hquiet

/-- A refresh ends with one locked update, or before it. -/
theorem Disk.refreshStep_cases (s : Disk) (k : ℕ) (refresh : Refresh) (reply : HealthReply) :
    (∃ next, s.refreshStep platform k refresh reply = s.settle k next) ∨
      ∃ update, (update = beat platform s.processes.table reply ∨ update = fileGone platform s.processes.table reply) ∧
        s.refreshStep platform k refresh reply =
          (s.edit refresh.manifest.id reply.now reply.written (s.launchOf refresh.manifest.id) update).settle k none := by
  unfold Disk.refreshStep
  cases refresh.stage with
  | pinging => exact .inl ⟨_,rfl⟩
  | beating => exact .inr ⟨_,.inl rfl,rfl⟩
  | judging =>
    dsimp only
    split
    · exact .inl ⟨_,rfl⟩
    · split
      · exact .inl ⟨_,rfl⟩
      · exact .inl ⟨_,rfl⟩
  | filing => exact .inr ⟨_,.inr rfl,rfl⟩

/-- Exactly the steps of the condition keep to the launches. -/
theorem ownLaunch_step {s t : Disk} {event : DiskEvent}
    (ht : diskStep platform s event = some t) : OwnLaunch t ↔ OwnLaunch s ∧ MarksOwnLaunch platform s event := by
  cases event with
  | world | launch | removed | hostWrites | reads | refresh =>
    rw [OwnLaunch,(diskStep_quiet rfl ht).2.2.2]
    exact (and_iff_left trivial).symm
  | call k reaper now written =>
    rw [diskStep] at ht
    split at ht
    swap
    · cases ht
    obtain ⟨p,hp,rfl⟩ := Option.map_eq_some_iff.mp ht
    obtain ⟨effect,hbegin,rfl⟩ := Reaper.step_cases hp
    apply ownLaunch_advance
    rw [← (Reaper.begin_filed hbegin).2]
    rfl
  | step k reply now written =>
    obtain ⟨p,hp,rfl⟩ := Option.map_eq_some_iff.mp ht
    obtain ⟨job,hjob,rfl⟩ := Option.map_eq_some_iff.mp hp
    have hfiled : (s.processes.apply k (job.step platform s.processes.table reply)).filed =
        s.processes.filed ++ job.marks.toList := by
      rw [← Job.step_filed platform s.processes.table job reply]
      rfl
    rw [ownLaunch_advance hfiled,MarksOwnLaunch,hjob]
    simp
  | refreshStep k reply =>
    obtain ⟨refresh,-,rfl⟩ := Option.map_eq_some_iff.mp ht
    refine Iff.trans ?_ (and_iff_left trivial).symm
    rcases s.refreshStep_cases k refresh reply with ⟨next,h⟩ | ⟨update,-,h⟩
    · rw [h]
      exact Iff.rfl
    · rw [h]
      exact ownLaunch_refresh

/-- An exit is never filed for a launch other than the one it was decided on, exactly in the
runs where every function that files without looking again finds the launch it had read, a
manifest that is no longer Running, or none. -/
theorem exits_belong_to_one_launch_iff (platform : Platform) (table : ProcessTable) (events : List DiskEvent) :
    Always (diskStep platform) OwnLaunch (startDisk table) events ↔
      Guarded (diskStep platform) (MarksOwnLaunch platform) (startDisk table) events :=
  always_iff_guarded (J := OwnLaunch) (fun _ _ _ hs hok ht => (ownLaunch_step ht).mpr ⟨hs,hok⟩) (fun _ hs => hs)
    (fun _ _ _ _ ht hP => ((ownLaunch_step ht).mp hP).2) (by simp [OwnLaunch,startDisk]) _

/-! ### What an exit is decided on -/

/-- A function works from manifests that were read, and so an exit is decided on one of them. -/
structure DecidedOnRead (s : Disk) : Prop where
  held : ∀ k, s.held k ⊆ s.read
  works : ∀ k, ∀ job ∈ s.processes.workers k, job.call.manifests ⊆ (s.held k).map Launched.manifest
  decided : ∀ flip ∈ s.flips, ∃ entry ∈ s.read, flip.decidedOn = some entry.launch

theorem Job.step_manifests (platform : Platform) (table : ProcessTable) (job : Job) (reply : Reply) :
    ∀ next ∈ (job.step platform table reply).job, next.call.manifests ⊆ job.call.manifests := by
  by_cases hstage : job.stage = .filing
  · rw [step,hstage]
    cases hcall : job.call with
    | stop | reapDead | reapOrphans | killChild =>
      simp only [file,hcall]
      exact (Call.leave_carries _).2
  · exact (step_carries platform table job reply hstage).2

theorem Job.marks_mem {job : Job} {id : Text} (h : id ∈ job.marks) : ∃ manifest ∈ job.call.manifests, manifest.id = id := by
  unfold marks at h
  split at h
  all_goals
    rename_i hcall
    cases h
  all_goals exact ⟨_,by rw [hcall]; exact mem_cons_self,rfl⟩

theorem Reaper.marks_mem {reaper : Reaper} {table : ProcessTable} {id : Text} (h : id ∈ reaper.marks platform table) :
    ∃ entry ∈ reaper.entries, entry.manifest.id = id := by
  cases reaper with
  | stop entry now answers =>
    simp only [Reaper.marks,Option.mem_def] at h
    split at h
    · exact ⟨entry,mem_singleton_self entry,Option.some.inj h⟩
    · cases h
  | reapDead | reapOrphans => cases h

theorem Reaper.begin_manifests {s : Processes} {j k : ℕ} {effect : Effect}
    (h : s.begin platform (reaper.event k) = some (j,effect)) :
    ∀ next ∈ effect.job, next.call.manifests ⊆ reaper.entries.map Launched.manifest := by
  cases reaper with
  | stop entry now answers =>
    cases h
    unfold Processes.stopUnreachableSessionChild
    split
    · simp
    · split
      · rintro next ⟨⟩
        exact List.Subset.refl _
      · split <;> simp
  | reapDead entries now =>
    cases h
    have hfrom := reapDeadFrom_manifests now (entries.map Launched.manifest)
    split
    · simp
    · rename_i job hjob
      rintro next ⟨⟩
      exact hfrom job hjob
  | reapOrphans entries corePid =>
    cases h
    have hfrom := reapOrphansFrom_manifests corePid [] (entries.map fun entry => (entry.1.manifest,entry.2))
    rw [map_map] at hfrom
    split
    · simp
    · rename_i job hjob
      rintro next ⟨⟩
      rw [Reaper.entries,map_map]
      exact hfrom job hjob

namespace DecidedOnRead
variable {s : Disk} {id : Text} {k now : ℕ} {written : Bool} {decidedOn : Option ℕ}

theorem edit {update : HostedSessionManifest → HostedSessionManifest} (hs : DecidedOnRead s)
    (hd : (∃ entry ∈ s.read, decidedOn = some entry.launch) ∨ decidedOn = s.launchOf id) :
    DecidedOnRead (s.edit id now written decidedOn update) := by
  cases hfile : s.files id with
  | none => rwa [Disk.edit_of_none hfile]
  | some file =>
    cases written with
    | false => rwa [Disk.edit_unwritten]
    | true =>
      have hread : s.read ⊆ (s.edit id now true decidedOn update).read := by
        rw [Disk.edit,hfile]
        exact subset_cons_self _ _
      have hfound : ∃ entry ∈ (s.edit id now true decidedOn update).read, decidedOn = some entry.launch := by
        rcases hd with ⟨entry,hentry,hd⟩ | hd
        · exact ⟨entry,hread hentry,hd⟩
        · rw [hd,Disk.launchOf,Disk.edit,hfile]
          exact ⟨_,mem_cons_self,rfl⟩
      have hkept : ∀ flip ∈ s.flips, ∃ entry ∈ (s.edit id now true decidedOn update).read, flip.decidedOn = some entry.launch :=
        fun flip hflip => (hs.decided flip hflip).imp fun entry => And.imp_left (@hread entry)
      have hsame : (s.edit id now true decidedOn update).held = s.held ∧
          (s.edit id now true decidedOn update).processes = s.processes := by
        rw [Disk.edit,hfile]
        exact ⟨rfl,rfl⟩
      constructor
      · rw [hsame.1]
        exact fun k => List.Subset.trans (hs.held k) hread
      · rw [hsame.1,hsame.2]
        exact hs.works
      · rw [Disk.edit_flips hfile]
        split
        · exact forall_mem_append.mpr ⟨hkept,forall_mem_singleton.mpr hfound⟩
        · exact hkept

theorem advance {p : Processes} {marks : Option Text} (hs : DecidedOnRead { s with processes := p })
    (hfiled : p.filed = s.processes.filed ++ marks.toList) (hmarks : ∀ id ∈ marks, ∃ entry ∈ s.held k, entry.manifest.id = id) :
    DecidedOnRead (s.advance k p now written) := by
  rw [Disk.advance,hfiled,drop_left]
  cases marks with
  | none => exact hs
  | some id =>
    obtain ⟨entry,hentry,hid⟩ := hmarks id rfl
    obtain ⟨found,hfound⟩ := Option.isSome_iff_exists.mp
      (find?_isSome (p := fun entry : Launched => decide (entry.manifest.id = id)).mpr ⟨entry,hentry,decide_eq_true hid⟩)
    refine hs.edit (.inl ⟨found,hs.held k (mem_of_find?_eq_some hfound),?_⟩)
    exact congrArg (Option.map Launched.launch) hfound

theorem step {t : Disk} {event : DiskEvent} (hs : DecidedOnRead s) (ht : diskStep platform s event = some t) :
    DecidedOnRead t := by
  cases event with
  | world | launch | removed | hostWrites | reads | refresh =>
    obtain ⟨hworkers,hheld,hread,hflips⟩ := diskStep_quiet rfl ht
    refine ⟨fun k => ?_,?_,?_⟩
    · rw [hheld]
      exact List.Subset.trans (hs.held k) hread
    · rw [hheld,hworkers]
      exact hs.works
    · rw [hflips]
      exact fun flip hflip => (hs.decided flip hflip).imp fun entry => And.imp_left (@hread entry)
  | call k reaper now written =>
    rw [diskStep] at ht
    split at ht
    swap
    · cases ht
    rename_i hentries
    obtain ⟨p,hp,rfl⟩ := Option.map_eq_some_iff.mp ht
    obtain ⟨effect,hbegin,rfl⟩ := Reaper.step_cases hp
    have hfiled : (s.processes.apply k effect).filed = s.processes.filed ++ (reaper.marks platform s.processes.table).toList := by
      rw [← (Reaper.begin_filed hbegin).2]
      rfl
    refine DecidedOnRead.advance ⟨?_,?_,hs.decided⟩ hfiled ?_
    · intro j
      dsimp only
      by_cases hj : j = k
      · rw [hj,Function.update_self]
        exact hentries.1
      · rw [Function.update_of_ne hj]
        exact hs.held j
    · refine Processes.forall_apply_workers ?_ fun j hj => ?_
      · dsimp only
        rw [Function.update_self]
        exact Reaper.begin_manifests hbegin
      · dsimp only
        rw [Function.update_of_ne hj]
        exact hs.works j
    · intro id hid
      dsimp only
      rw [Function.update_self]
      exact Reaper.marks_mem hid
  | step k reply now written =>
    obtain ⟨p,hp,rfl⟩ := Option.map_eq_some_iff.mp ht
    obtain ⟨job,hjob,rfl⟩ := Option.map_eq_some_iff.mp hp
    have hworks := hs.works k job hjob
    have hfiled : (s.processes.apply k (job.step platform s.processes.table reply)).filed =
        s.processes.filed ++ job.marks.toList := by
      rw [← Job.step_filed platform s.processes.table job reply]
      rfl
    refine DecidedOnRead.advance ⟨hs.held,?_,hs.decided⟩ hfiled ?_
    · exact Processes.forall_apply_workers
        (fun next hnext => List.Subset.trans (Job.step_manifests platform _ job reply next hnext) hworks)
        fun j _ => hs.works j
    · intro id hid
      obtain ⟨manifest,hmanifest,rfl⟩ := Job.marks_mem hid
      obtain ⟨entry,hentry,rfl⟩ := mem_map.mp (hworks hmanifest)
      exact ⟨entry,hentry,rfl⟩
  | refreshStep k reply =>
    obtain ⟨refresh,-,rfl⟩ := Option.map_eq_some_iff.mp ht
    rcases s.refreshStep_cases k refresh reply with ⟨next,h⟩ | ⟨update,-,h⟩
    · rw [h]
      exact ⟨hs.held,hs.works,hs.decided⟩
    · have hedit : DecidedOnRead (s.edit refresh.manifest.id reply.now reply.written (s.launchOf refresh.manifest.id) update) :=
        hs.edit (.inr rfl)
      rw [h]
      exact ⟨hedit.held,hedit.works,hedit.decided⟩

end DecidedOnRead

/-- The launch recorded with an exit is that of a manifest that was read. -/
theorem exits_are_decided_on_manifests_read (platform : Platform) (table : ProcessTable) (events : List DiskEvent) :
    Always (diskStep platform) DecidedOnRead (startDisk table) events := by
  refine always_of_invariant (J := DecidedOnRead) (fun s _ t hs ht => hs.step ht) (fun _ hs => hs) ⟨?_,?_,?_⟩ events
  all_goals simp [startDisk,startProcesses]

/-- A refresh files an exit of the launch on disk alone, and only when its child is gone. -/
theorem refreshStep_files_gone {s : Disk} {k : ℕ} {refresh : Refresh} {reply : HealthReply}
    (h : (s.refreshStep platform k refresh reply).flips ≠ s.flips) :
    ∃ file, s.files refresh.manifest.id = some file ∧
      manifestChildIsDefinitivelyGone platform s.processes.table reply.answers file.manifest = true := by
  by_contra hgone
  apply h
  rcases s.refreshStep_cases k refresh reply with ⟨next,heq⟩ | ⟨update,hupdate,heq⟩
  · rw [heq]
    rfl
  · rw [heq]
    refine Disk.edit_flips_eq fun file hfile hrunning => ?_
    rcases hupdate with rfl | rfl
    · unfold beat
      split <;> exact hrunning.symm ▸ nofun
    · unfold fileGone
      split
      · rename_i hjudged
        exact absurd ⟨file,hfile,hjudged.2.2⟩ hgone
      · exact hrunning.symm ▸ nofun

/-- The Session of `shellManifest` again, with a shell of pid 600 that started at 9000. -/
def relaunchedManifest : HostedSessionManifest :=
  { shellManifest with pid := some 600, pidStartedAt := some 9000, heartbeatAt := 9000, updatedAt := 9000 }

/-- The shell of the first launch is gone when the sweep looks for it; the Session is
launched again before the sweep writes. -/
def sweptWhileRelaunched : List DiskEvent :=
  [.launch shellManifest,.reads ['s'],.call 0 (.reapDead [⟨shellManifest,0⟩] 8000) 8000 true,
    .step 0 plainReply 8000 true,.world (.spawns 600 9000 false ['z']),.launch relaunchedManifest,
    .step 0 plainReply 9001 true]

/-- The second launch is filed as exited, with its shell alive. -/
theorem relaunched_session_is_filed :
    ¬ Always (diskStep .linux) OwnLaunch (startDisk fun _ => none) sweptWhileRelaunched := by
  intro h
  have hrun : (run (diskStep .linux) (startDisk fun _ => none) sweptWhileRelaunched).map
      (fun s => (s.flips,(s.files ['s']).map fun file => (file.manifest.state,file.launch),
        processExists .linux s.processes.table 600)) =
      some ([⟨1,some 0⟩],some (.exited,1),true) := by
    decide +kernel
  obtain ⟨s,hs,he⟩ := Option.map_eq_some_iff.mp hrun
  obtain ⟨hflips,-⟩ := Prod.mk.inj he
  have hown := (h.last hs) ⟨1,some 0⟩ (by rw [hflips]; exact mem_singleton_self _)
  cases hown

end Unpeel.Reaping
