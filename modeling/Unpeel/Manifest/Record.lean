import Mathlib.Data.Nat.Notation

/-! # The manifest of a hosted Session

The on-disk record that every process reads without a lock and replaces as a whole
under one: an update reads the current record, edits it and renames it into place,
or leaves it as it was.
-/
namespace Unpeel.Manifest

abbrev Text := List Char

inductive HostedSessionState where
  | running
  | exited
deriving DecidableEq

/-- The fields of `HostedSessionManifest`, and of its `SessionInfo`, that titles,
relaunches and kills depend on. `runtime` is the id of the current observation. -/
structure HostedSessionManifest where
  id : Text
  command : Text
  label : Text
  customTitle : Bool
  state : HostedSessionState
  runtime : Option Text
  runtimeLaunchGeneration : ℕ
  runtimeLaunchPending : Bool
  pid : Option ℕ
  pidStartedAt : Option ℕ
  hostPid : Option ℕ
  hostPidStartedAt : Option ℕ
  heartbeatAt : ℕ
  updatedAt : ℕ
deriving DecidableEq

abbrev ManifestFile := Option HostedSessionManifest

/-- `update_manifest_session`: the file afterwards, and the result. With `written`
false the lock could not be taken or the file could not be replaced. -/
def updateManifestSession (file : ManifestFile) (now : ℕ) (written : Bool)
    (update : HostedSessionManifest → HostedSessionManifest) :
    ManifestFile × Except Unit (Option HostedSessionManifest) :=
  if written = false then (file,.error ())
  else match file with
    | none => (none,.ok none)
    | some manifest =>
      let updated := { update manifest with updatedAt := now }
      (some updated,.ok (some updated))

def activeRuntimeId (manifest : HostedSessionManifest) : Option Text :=
  if manifest.state ≠ .running then none else manifest.runtime.filter (· ≠ [])

/-- What every update keeps of the record, the update of a manifest that is not
there included. -/
theorem updateManifestSession_keeps {file : ManifestFile} {now : ℕ} {written : Bool}
    {update : HostedSessionManifest → HostedSessionManifest} {P : HostedSessionManifest → Prop}
    (hu : ∀ m, P m → P { update m with updatedAt := now }) (h : ∃ m, file = some m ∧ P m) :
    ∃ m, (updateManifestSession file now written update).1 = some m ∧ P m := by
  obtain ⟨m,rfl,hm⟩ := h
  unfold updateManifestSession
  split
  · exact ⟨m,rfl,hm⟩
  · exact ⟨_,rfl,hu m hm⟩

theorem updateManifestSession_cases (file : ManifestFile) (now : ℕ) (written : Bool)
    (update : HostedSessionManifest → HostedSessionManifest) :
    (written = false ∧ updateManifestSession file now written update = (file,.error ())) ∨
    (file = none ∧ updateManifestSession file now written update = (none,.ok none)) ∨
    ∃ m, file = some m ∧ updateManifestSession file now written update =
      (some { update m with updatedAt := now },.ok (some { update m with updatedAt := now })) := by
  cases written with
  | false => exact .inl ⟨rfl,rfl⟩
  | true =>
    cases file with
    | none => exact .inr (.inl ⟨rfl,rfl⟩)
    | some m => exact .inr (.inr ⟨m,rfl,rfl⟩)

end Unpeel.Manifest
