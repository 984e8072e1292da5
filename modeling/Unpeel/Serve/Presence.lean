import Mathlib.Algebra.Order.Group.Nat
import Unpeel.Foundation.Runs
import Unpeel.Manifest.PromptTitle

/-! # Viewers of a Session

Each output read of a paired device renews its lease. The leases are kept under a lock and
copied to `mobile-presence.json` after the lock is released. Four operations drop expired
leases, and two of them publish what they have dropped.
-/
namespace Unpeel.Serve
open Runs Manifest

/-- `MOBILE_VIEWER_TTL`, in milliseconds. -/
def mobileViewerTtl : ℕ := 15000

def remoteViewerTtl : ℕ := 20000

def publishGranularity : ℕ := 1000

inductive ControllerPrincipal where
  | pairedDevice (deviceId name : Text)
  | ownerTransport
deriving DecidableEq

structure MobileViewer where
  deviceId : Text
  name : Text
  lastSeenMs : ℕ
deriving DecidableEq

/-- The leases, one for each Session and device, and the second in which each was last
published. -/
structure PresenceState where
  mobile : List (Text × MobileViewer)
  lastPublishedBucket : Text × Text → Option ℕ

/-- What `mobile-presence.json` holds, in no order. The label of an entry is made of the
name and the id of its viewer. -/
structure MobileWire where
  updatedAt : ℕ
  viewers : List (Text × MobileViewer)
deriving DecidableEq

def leaseKey (lease : Text × MobileViewer) : Text × Text := (lease.1,lease.2.deviceId)

def MobileViewer.live (viewer : MobileViewer) (nowMs : ℕ) : Bool := nowMs - mobileViewerTtl ≤ viewer.lastSeenMs

namespace PresenceState

def pruneMobile (s : PresenceState) (nowMs : ℕ) : PresenceState × Bool :=
  let kept := s.mobile.filter (·.2.live nowMs)
  let expired := s.mobile.filter (!·.2.live nowMs)
  ({ mobile := kept
     lastPublishedBucket := fun key =>
      if expired.any (leaseKey · = key) then none else s.lastPublishedBucket key },
    s.mobile.length ≠ kept.length)

def mobileWire (s : PresenceState) (nowMs : ℕ) : MobileWire := ⟨nowMs,s.mobile⟩

/-- Both inserts of `touch_output`. -/
def insertViewer (s : PresenceState) (sessionId : Text) (viewer : MobileViewer) (bucket : ℕ) : PresenceState where
  mobile := s.mobile.filter (leaseKey · ≠ (sessionId,viewer.deviceId)) ++ [(sessionId,viewer)]
  lastPublishedBucket := Function.update s.lastPublishedBucket (sessionId,viewer.deviceId) (some bucket)

/-- The snapshot is `none` where nothing is published. -/
def touchOutput (s : PresenceState) (sessionId : Text) (principal : ControllerPrincipal) (nowMs : ℕ) :
    PresenceState × Option MobileWire :=
  match principal with
  | .ownerTransport => (s,none)
  | .pairedDevice deviceId name =>
    if sessionId = [] ∨ deviceId = [] then (s,none)
    else
      let s := (s.pruneMobile nowMs).1
      let bucket := nowMs / publishGranularity
      let publish := s.lastPublishedBucket (sessionId,deviceId) ≠ some bucket
      let s := s.insertViewer sessionId ⟨deviceId,if trim name = [] then "Phone".toList else name,nowMs⟩ bucket
      (s,if publish then some (s.mobileWire nowMs) else none)

def prune (s : PresenceState) (nowMs : ℕ) : PresenceState × Option MobileWire :=
  let (s,changed) := s.pruneMobile nowMs
  (s,if changed then some (s.mobileWire nowMs) else none)

end PresenceState

structure RemoteEntry where
  device : Option Text
  lastSeen : Option ℕ

def RemoteEntry.live (entry : RemoteEntry) (nowMs : ℕ) : Bool := entry.lastSeen.any (nowMs - remoteViewerTtl ≤ ·)

/-- What follows the last `" ("`. -/
def afterLastOpen : Text → Option Text
  | [] => none
  | c :: rest =>
    (afterLastOpen rest).or (if c = ' ' ∧ rest.head? = some '(' then some rest.tail else none)

def deviceIdFromLabel (label : Text) : Option Text :=
  (afterLastOpen label).bind fun rest =>
    if rest.getLast? = some ')' ∧ rest.dropLast ≠ [] then some rest.dropLast else none

def remoteViewingDeviceIds (remote : Text → List RemoteEntry) (sessionId : Text) (nowMs : ℕ) : List Text :=
  ((remote sessionId).filter (·.live nowMs)).filterMap fun entry => entry.device.bind deviceIdFromLabel

def PresenceState.viewingDeviceIds (s : PresenceState) (remote : Text → List RemoteEntry) (sessionId : Text)
    (nowMs : ℕ) : PresenceState × List Text :=
  let s := (s.pruneMobile nowMs).1
  (s,(s.mobile.filter (·.1 = sessionId)).map (·.2.deviceId) ++ remoteViewingDeviceIds remote sessionId nowMs)

def PresenceState.anyViewer (s : PresenceState) (remote : Text → List RemoteEntry) (sessionId : Text) (nowMs : ℕ) :
    PresenceState × Bool :=
  let (s,ids) := s.viewingDeviceIds remote sessionId nowMs
  (s,ids ≠ [] || (remote sessionId).any (·.live nowMs))

/-- The leases, the published file, and the snapshots of the calls that have released the
lock and not yet replaced the file. `touched` has the last read of each device, and `clock`
the time of the last call. -/
structure PresenceHub where
  state : PresenceState
  file : Option MobileWire
  writing : List MobileWire
  touched : Text × Text → Option ℕ
  clock : ℕ

inductive PresenceEvent where
  | touchOutput (sessionId : Text) (principal : ControllerPrincipal) (nowMs : ℕ)
  | prune (nowMs : ℕ)
  | viewingDeviceIds (remote : Text → List RemoteEntry) (sessionId : Text) (nowMs : ℕ)
  | anyViewer (remote : Text → List RemoteEntry) (sessionId : Text) (nowMs : ℕ)
  | write (i : ℕ) (written : Bool)

def startPresence : PresenceHub := ⟨⟨[],fun _ => none⟩,none,[],fun _ => none,0⟩

def PresenceHub.unlock (s : PresenceHub) (r : PresenceState × Option MobileWire) (nowMs : ℕ) : PresenceHub :=
  { s with state := r.1, writing := s.writing ++ r.2.toList, clock := nowMs }

def renewed (sessionId : Text) : ControllerPrincipal → Option (Text × Text)
  | .ownerTransport => none
  | .pairedDevice deviceId _ => if sessionId = [] ∨ deviceId = [] then none else some (sessionId,deviceId)

def presenceStep (s : PresenceHub) : PresenceEvent → Option PresenceHub
  | .touchOutput sessionId principal nowMs =>
    match renewed sessionId principal with
    -- returns before it takes the lock
    | none => some s
    | some key =>
      if s.clock ≤ nowMs then
        some { s.unlock (s.state.touchOutput sessionId principal nowMs) nowMs with
          touched := Function.update s.touched key (some nowMs) }
      else none
  | .prune nowMs => if s.clock ≤ nowMs then some (s.unlock (s.state.prune nowMs) nowMs) else none
  | .viewingDeviceIds remote sessionId nowMs =>
    if s.clock ≤ nowMs then some (s.unlock ((s.state.viewingDeviceIds remote sessionId nowMs).1,none) nowMs) else none
  | .anyViewer remote sessionId nowMs =>
    if s.clock ≤ nowMs then some (s.unlock ((s.state.anyViewer remote sessionId nowMs).1,none) nowMs) else none
  | .write i written =>
    s.writing[i]?.map fun wire =>
      { s with writing := s.writing.eraseIdx i, file := if written then some wire else s.file }

def Lists (file : Option MobileWire) (key : Text × Text) : Prop := ∃ wire ∈ file, ∃ lease ∈ wire.viewers, leaseKey lease = key

def PresenceState.Leased (s : PresenceState) (key : Text × Text) : Prop := ∃ lease ∈ s.mobile, leaseKey lease = key

def Agrees (file : Option MobileWire) (s : PresenceState) : Prop := ∀ key, Lists file key ↔ s.Leased key

structure LeaseInv (s : PresenceHub) : Prop where
  sound : ∀ lease ∈ s.state.mobile, s.touched (leaseKey lease) = some lease.2.lastSeenMs ∧ lease.2.live s.clock = true
  complete : ∀ key seen, s.touched key = some seen → s.clock - mobileViewerTtl ≤ seen → s.state.Leased key
  bucket : ∀ key bucket, s.state.lastPublishedBucket key = some bucket →
    ∃ lease ∈ s.state.mobile, leaseKey lease = key ∧ lease.2.lastSeenMs / publishGranularity = bucket

variable {viewer : MobileViewer} {key : Text × Text}

namespace PresenceState
variable {s : PresenceState} {nowMs : ℕ}
variable {bucket : ℕ} {sessionId : Text}
variable {lease : Text × MobileViewer}

theorem mem_pruneMobile :
    lease ∈ (s.pruneMobile nowMs).1.mobile ↔ lease ∈ s.mobile ∧ lease.2.live nowMs = true := List.mem_filter

theorem pruneMobile_bucket (h : (s.pruneMobile nowMs).1.lastPublishedBucket key = some bucket) :
    s.lastPublishedBucket key = some bucket ∧ ∀ lease ∈ s.mobile, leaseKey lease = key → lease.2.live nowMs = true := by
  simp only [pruneMobile] at h
  split at h
  · cases h
  · next hany =>
    refine ⟨h,fun lease hlease hkey => ?_⟩
    by_contra hdead
    exact hany (List.any_eq_true.mpr ⟨lease,List.mem_filter.mpr ⟨hlease,by simpa using hdead⟩,by simpa using hkey⟩)

theorem pruneMobile_leased (h : ∀ lease ∈ s.mobile, lease.2.live nowMs = true) (key : Text × Text) :
    (s.pruneMobile nowMs).1.Leased key ↔ s.Leased key := by
  constructor
  · rintro ⟨lease,hlease,hkey⟩
    exact ⟨lease,(mem_pruneMobile.mp hlease).1,hkey⟩
  · rintro ⟨lease,hlease,hkey⟩
    exact ⟨lease,mem_pruneMobile.mpr ⟨hlease,h lease hlease⟩,hkey⟩

theorem mem_insertViewer :
    lease ∈ (s.insertViewer sessionId viewer bucket).mobile ↔
      lease ∈ s.mobile ∧ leaseKey lease ≠ (sessionId,viewer.deviceId) ∨ lease = (sessionId,viewer) := by
  simp [insertViewer]

theorem insertViewer_leased (key : Text × Text) :
    (s.insertViewer sessionId viewer bucket).Leased key ↔ s.Leased key ∨ key = (sessionId,viewer.deviceId) := by
  constructor
  · rintro ⟨lease,hlease,rfl⟩
    rcases mem_insertViewer.mp hlease with ⟨hold,-⟩ | rfl
    · exact .inl ⟨lease,hold,rfl⟩
    · exact .inr rfl
  · intro h
    by_cases hkey : key = (sessionId,viewer.deviceId)
    · exact ⟨(sessionId,viewer),mem_insertViewer.mpr (.inr rfl),hkey.symm⟩
    · obtain ⟨lease,hlease,rfl⟩ := h.resolve_right hkey
      exact ⟨lease,mem_insertViewer.mpr (.inl ⟨hlease,hkey⟩),rfl⟩

theorem touchOutput_renewed {principal : ControllerPrincipal}
    (h : renewed sessionId principal = some key) (s : PresenceState) (nowMs : ℕ) :
    ∃ viewer, key = (sessionId,viewer.deviceId) ∧ viewer.lastSeenMs = nowMs ∧
      s.touchOutput sessionId principal nowMs =
        (((s.pruneMobile nowMs).1.insertViewer sessionId viewer (nowMs / publishGranularity)),
          if (s.pruneMobile nowMs).1.lastPublishedBucket key ≠ some (nowMs / publishGranularity) then
            some (((s.pruneMobile nowMs).1.insertViewer sessionId viewer (nowMs / publishGranularity)).mobileWire nowMs)
          else none) := by
  cases principal with
  | ownerTransport => cases h
  | pairedDevice deviceId name =>
    simp only [renewed] at h
    split_ifs at h with hids
    · cases h
      exact ⟨⟨deviceId,if trim name = [] then "Phone".toList else name,nowMs⟩,rfl,rfl,if_neg hids⟩

end PresenceState

section Leases
variable {s t : PresenceHub} {nowMs : ℕ}
variable {lease : Text × MobileViewer}

theorem LeaseInv.start : LeaseInv startPresence where
  sound := fun _ hno => (nomatch hno)
  complete := fun _ _ hno => (nomatch hno)
  bucket := fun _ _ hno => (nomatch hno)

/-- The leases that are left after a prune. -/
theorem LeaseInv.pruned (h : LeaseInv s) (hnow : s.clock ≤ nowMs) (hstate : t.state = (s.state.pruneMobile nowMs).1)
    (htouched : t.touched = s.touched) (hclock : t.clock = nowMs) : LeaseInv t where
  sound := by
    intro lease hlease
    rw [hstate] at hlease
    obtain ⟨hmem,hlive⟩ := PresenceState.mem_pruneMobile.mp hlease
    rw [htouched, hclock]
    exact ⟨(h.sound lease hmem).1,hlive⟩
  complete := by
    intro key seen hseen hlive
    rw [htouched] at hseen
    rw [hclock] at hlive
    have hbefore : s.clock - mobileViewerTtl ≤ seen := le_trans (Nat.sub_le_sub_right hnow _) hlive
    obtain ⟨lease,hlease,rfl⟩ := h.complete key seen hseen hbefore
    have hsame : lease.2.lastSeenMs = seen := Option.some.inj ((h.sound lease hlease).1.symm.trans hseen)
    rw [hstate]
    exact ⟨lease,PresenceState.mem_pruneMobile.mpr ⟨hlease,by simpa [MobileViewer.live, hsame] using hlive⟩,rfl⟩
  bucket := by
    intro key bucket hbucket
    rw [hstate] at hbucket ⊢
    obtain ⟨hbefore,hlive⟩ := PresenceState.pruneMobile_bucket hbucket
    obtain ⟨lease,hlease,hkey,hsecond⟩ := h.bucket key bucket hbefore
    exact ⟨lease,PresenceState.mem_pruneMobile.mpr ⟨hlease,hlive lease hlease hkey⟩,hkey,hsecond⟩

theorem LeaseInv.touched (h : LeaseInv s) (hnow : s.clock ≤ nowMs) {sessionId : Text}
    (hseen : viewer.lastSeenMs = nowMs)
    (hstate : t.state = (s.state.pruneMobile nowMs).1.insertViewer sessionId viewer (nowMs / publishGranularity))
    (htouched : t.touched = Function.update s.touched (sessionId,viewer.deviceId) (some nowMs))
    (hclock : t.clock = nowMs) : LeaseInv t := by
  have hpruned : LeaseInv { s with state := (s.state.pruneMobile nowMs).1, clock := nowMs } := h.pruned hnow rfl rfl rfl
  have hlive : viewer.live nowMs = true := by simp [MobileViewer.live, hseen]
  constructor
  case sound =>
    intro lease hlease
    rw [hstate] at hlease
    rw [htouched, hclock]
    rcases PresenceState.mem_insertViewer.mp hlease with ⟨hold,hother⟩ | rfl
    · rw [Function.update_of_ne hother]
      exact hpruned.sound lease hold
    · exact ⟨by rw [hseen]; exact Function.update_self ..,hlive⟩
  case complete =>
    intro key seen hkeySeen hrecent
    rw [hstate, PresenceState.insertViewer_leased]
    by_cases hkey : key = (sessionId,viewer.deviceId)
    · exact .inr hkey
    · rw [htouched, Function.update_of_ne hkey] at hkeySeen
      rw [hclock] at hrecent
      exact .inl (hpruned.complete key seen hkeySeen hrecent)
  case bucket =>
    intro key bucket hbucket
    rw [hstate] at hbucket ⊢
    simp only [PresenceState.insertViewer] at hbucket
    by_cases hkey : key = (sessionId,viewer.deviceId)
    · rw [hkey, Function.update_self] at hbucket
      exact ⟨(sessionId,viewer),PresenceState.mem_insertViewer.mpr (.inr rfl),hkey.symm,by
        rw [hseen]; exact Option.some.inj hbucket⟩
    · rw [Function.update_of_ne hkey] at hbucket
      obtain ⟨lease,hlease,rfl,hsecond⟩ := hpruned.bucket key bucket hbucket
      exact ⟨lease,PresenceState.mem_insertViewer.mpr (.inl ⟨hlease,hkey⟩),rfl,hsecond⟩

theorem LeaseInv.lastSeen_eq (h : LeaseInv s) {other : Text × MobileViewer} (hlease : lease ∈ s.state.mobile)
    (hother : other ∈ s.state.mobile) (hkey : leaseKey lease = leaseKey other) :
    lease.2.lastSeenMs = other.2.lastSeenMs := by
  have hlast := (h.sound lease hlease).1
  rw [hkey, (h.sound other hother).1] at hlast
  exact (Option.some.inj hlast).symm

theorem LeaseInv.live_of_leased (h : LeaseInv s) (hlease : lease ∈ s.state.mobile)
    (hleased : (s.state.pruneMobile nowMs).1.Leased (leaseKey lease)) : lease.2.live nowMs = true := by
  obtain ⟨other,hother,hkey⟩ := hleased
  obtain ⟨hmem,hlive⟩ := PresenceState.mem_pruneMobile.mp hother
  unfold MobileViewer.live
  rw [h.lastSeen_eq hlease hmem hkey.symm]
  exact hlive

theorem LeaseInv.recent (h : LeaseInv s)
    (hbucket : s.state.lastPublishedBucket key = some (nowMs / publishGranularity))
    (hlease : lease ∈ s.state.mobile) (hkey : leaseKey lease = key) : lease.2.live nowMs = true := by
  obtain ⟨other,hother,hotherKey,hsecond⟩ := h.bucket key _ hbucket
  rw [← h.lastSeen_eq hlease hother (hkey.trans hotherKey.symm)] at hsecond
  apply decide_eq_true
  unfold publishGranularity at hsecond
  unfold mobileViewerTtl
  omega

theorem LeaseInv.published (h : LeaseInv s)
    (hbucket : s.state.lastPublishedBucket key = some (nowMs / publishGranularity)) :
    (s.state.pruneMobile nowMs).1.lastPublishedBucket key = some (nowMs / publishGranularity) := by
  simp only [PresenceState.pruneMobile]
  rw [if_neg]
  · exact hbucket
  · intro hany
    obtain ⟨lease,hlease,hkey⟩ := List.any_eq_true.mp hany
    obtain ⟨hmem,hdead⟩ := List.mem_filter.mp hlease
    have halive := h.recent hbucket hmem (by simpa using hkey)
    simp [halive] at hdead

theorem LeaseInv.step {event : PresenceEvent} (h : LeaseInv s) (ht : presenceStep s event = some t) : LeaseInv t := by
  cases event with
  | touchOutput sessionId principal nowMs =>
    simp only [presenceStep] at ht
    cases hrenewed : renewed sessionId principal with
    | none =>
      rw [hrenewed] at ht
      cases ht
      exact h
    | some key =>
      rw [hrenewed] at ht
      split_ifs at ht with hnow
      obtain ⟨viewer,rfl,hseen,htouch⟩ := PresenceState.touchOutput_renewed hrenewed s.state nowMs
      cases ht
      exact h.touched hnow hseen (congrArg Prod.fst htouch) rfl rfl
  | prune nowMs | viewingDeviceIds remote sessionId nowMs | anyViewer remote sessionId nowMs =>
    simp only [presenceStep] at ht
    split_ifs at ht with hnow
    cases ht
    exact h.pruned hnow rfl rfl rfl
  | write i written =>
    obtain ⟨wire,-,rfl⟩ := Option.map_eq_some_iff.mp ht
    exact ⟨h.sound,h.complete,h.bucket⟩

/-- A call that does not publish leaves the devices with a lease as they are, or the file is
no longer right. -/
theorem LeaseInv.silent_iff (h : LeaseInv s) (hagrees : Agrees s.file s.state) (nowMs : ℕ) :
    Agrees s.file (s.state.pruneMobile nowMs).1 ↔ ∀ lease ∈ s.state.mobile, lease.2.live nowMs = true := by
  constructor
  · intro hpruned lease hlease
    apply h.live_of_leased hlease
    rw [← hpruned, hagrees]
    exact ⟨lease,hlease,rfl⟩
  · intro hlive key
    rw [PresenceState.pruneMobile_leased hlive]
    exact hagrees key

structure PresenceInv (s : PresenceHub) : Prop where
  leases : LeaseInv s
  agrees : s.writing = [] → Agrees s.file s.state

theorem PresenceInv.start : PresenceInv startPresence where
  leases := LeaseInv.start
  agrees := by
    intro _ key
    simp [Lists, PresenceState.Leased, startPresence]

end Leases

end Unpeel.Serve
