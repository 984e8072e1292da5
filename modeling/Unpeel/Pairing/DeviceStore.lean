import Mathlib.Data.List.Lookmap
import Unpeel.Foundation.Base64
import Unpeel.Foundation.Runs
import Unpeel.Manifest.Record
import Unpeel.Remote.RelayCrypto

/-! # The paired devices on disk

`devices.json` lists the devices with their token hashes, `e2e-keys.json` maps
`<macID>.<deviceID>` to the key of the device. Each operation holds the lock of the
store, reads the files it needs and replaces them one at a time, and each of these
accesses can fail.
-/
namespace Unpeel.Pairing
open Runs Manifest Remote List

structure DeviceRecord where
  id : Text
  name : Text
  platform : Text
  principalId : Text
  tokenHash : Text
  pairedAtUnixMs : ℕ
  lastSeenAtUnixMs : ℕ
  relayTokenHash : Text
  appVersion : Option Text
  relayAllowed : Option Bool
deriving DecidableEq

structure DeviceFiles where
  devices : List DeviceRecord
  keys : Text → Option Text

structure StoreFaults where
  lock : Option Text
  readKeys : Option Text
  writeKeys : Option Text
  readDevices : Option Text
  writeDevices : Option Text

def StoreFaults.none : StoreFaults := ⟨.none,.none,.none,.none,.none⟩

/-- The keys `handle_pair` draws. -/
structure E2eKey where
  bytes : Bytes
  length_eq : bytes.length = 32

/-- The arguments of `register_device`, with the two readings of the clock it makes. -/
structure Registration where
  id : Text
  name : Text
  platform : Text
  appVersion : Option Text
  authToken : Text
  relayToken : Text
  key : E2eKey
  pairedAt : ℕ
  seenAt : ℕ

abbrev StoreResult := Except Text Unit × DeviceFiles

/-- One access to the store: its error ends the operation and leaves the files as they
are by then. -/
def access (fault : Option Text) (files : DeviceFiles) (rest : StoreResult) : StoreResult :=
  match fault with
  | some error => (.error error,files)
  | none => rest

def keyName (macId deviceId : Text) : Text := macId ++ '.' :: deviceId

def hostOwnerPrincipalId (macId : Text) : Text := "host-owner:".toList ++ macId

def devicesJsonError (error : Text) : Text := "devices.json: ".toList ++ error

section Operations
variable (sha256Hex : Text → Text) (macId : Text)

def Registration.record (r : Registration) : DeviceRecord where
  id := r.id
  name := r.name
  platform := r.platform
  principalId := hostOwnerPrincipalId macId
  tokenHash := sha256Hex r.authToken
  pairedAtUnixMs := r.pairedAt
  lastSeenAtUnixMs := r.seenAt
  relayTokenHash := sha256Hex r.relayToken
  appVersion := r.appVersion
  relayAllowed := none

def registerDevice (faults : StoreFaults) (r : Registration) (files : DeviceFiles) : StoreResult :=
  access faults.lock files <|
  access faults.readKeys files <|
  access (faults.writeKeys.map ("e2e key save failed: ".toList ++ ·)) files <|
  let keyed : DeviceFiles :=
    { files with keys := Function.update files.keys (keyName macId r.id) (some (Base64.encode r.key.bytes)) }
  access faults.readDevices keyed <|
  access (faults.writeDevices.map devicesJsonError) keyed <|
  (.ok (),{ keyed with devices := files.devices.filter (·.id ≠ r.id) ++ [r.record sha256Hex macId] })

def unpairDevice (faults : StoreFaults) (deviceId : Text) (files : DeviceFiles) : StoreResult :=
  access faults.lock files <|
  access faults.readDevices files <|
  let devices := files.devices.filter (·.id ≠ deviceId)
  if devices.length = files.devices.length then (.error "device not found".toList,files) else
  access (faults.writeDevices.map devicesJsonError) files <|
  let unlisted : DeviceFiles := { files with devices := devices }
  -- the cleanup of the keys is best effort
  if faults.readKeys = none ∧ faults.writeKeys = none then
    (.ok (),{ unlisted with keys := fun name => if ('.' :: deviceId) <:+ name then none else files.keys name })
  else (.ok (),unlisted)

def editDevice (deviceId : Text) (edit : DeviceRecord → DeviceRecord) (devices : List DeviceRecord) :
    List DeviceRecord :=
  devices.lookmap fun device => if device.id = deviceId then some (edit device) else none

def editRecord (edit : DeviceRecord → DeviceRecord) (missing : Except Text Unit) (faults : StoreFaults)
    (deviceId : Text) (files : DeviceFiles) : StoreResult :=
  access faults.lock files <|
  access faults.readDevices files <|
  if files.devices.any (·.id = deviceId) then
    access (faults.writeDevices.map devicesJsonError) files
      (.ok (),{ files with devices := editDevice deviceId edit files.devices })
  else (missing,files)

def setDeviceRelayAllowed (faults : StoreFaults) (deviceId : Text) (allowed : Bool) : DeviceFiles → StoreResult :=
  editRecord (fun device => { device with relayAllowed := if allowed then none else some false })
    (.error "device not found".toList) faults deviceId

/-- The transaction of `touch_device_last_seen`; its error is only traced. A device that
was revoked in the meantime has nothing to stamp. -/
def stampLastSeen (faults : StoreFaults) (deviceId : Text) (now : ℕ) : DeviceFiles → StoreResult :=
  editRecord (fun device => { device with lastSeenAtUnixMs := now }) (.ok ()) faults deviceId

def e2eKey (files : DeviceFiles) (deviceId : Text) : Option Bytes :=
  ((files.keys (keyName macId deviceId)).bind Base64.decode).filter (·.length = 32)

end Operations

/-- `LAST_SEEN_WRITE_INTERVAL`, in nanoseconds. -/
def lastSeenWriteInterval : ℕ := 60 * 10 ^ 9

inductive StoreOp where
  | register (faults : StoreFaults) (registration : Registration)
  | unpair (faults : StoreFaults) (deviceId : Text)
  | setRelayAllowed (faults : StoreFaults) (deviceId : Text) (allowed : Bool)
  | touch (faults : StoreFaults) (deviceId : Text) (instant now : ℕ)

def StoreOp.deviceId : StoreOp → Text
  | .register _ r => r.id
  | .unpair _ id | .setRelayAllowed _ id _ | .touch _ id _ _ => id

structure Finished where
  deviceId : Text
  result : Except Text Unit
  before : DeviceFiles

/-- The store over a run: the files, the throttle of `touch_device_last_seen`, the key of
the last registration that succeeded for each id, and the operation that ran last. -/
structure DeviceStore where
  files : DeviceFiles
  lastWrite : Text → Option ℕ
  issued : Text → Option E2eKey
  last : Option Finished

def startStore : DeviceStore := ⟨⟨[],fun _ => none⟩,fun _ => none,fun _ => none,none⟩

section Runs
variable (sha256Hex : Text → Text) (macId : Text)

def DeviceStore.finish (s : DeviceStore) (deviceId : Text) (r : StoreResult) : DeviceStore :=
  { s with files := r.2, last := some ⟨deviceId,r.1,s.files⟩ }

def DeviceStore.register (s : DeviceStore) (faults : StoreFaults) (r : Registration) : DeviceStore :=
  let result := registerDevice sha256Hex macId faults r s.files
  { s.finish r.id result with
    issued := match result.1 with
      | .ok _ => Function.update s.issued r.id (some r.key)
      | .error _ => s.issued }

/-- `touch_device_last_seen`. -/
def DeviceStore.touch (s : DeviceStore) (faults : StoreFaults) (deviceId : Text) (instant now : ℕ) : DeviceStore :=
  if (s.lastWrite deviceId).any (instant - · < lastSeenWriteInterval) then s.finish deviceId (.ok (),s.files)
  else { s.finish deviceId (stampLastSeen faults deviceId now s.files) with
    lastWrite := Function.update s.lastWrite deviceId (some instant) }

def storeStep (s : DeviceStore) : StoreOp → Option DeviceStore
  | .register faults r => some (s.register sha256Hex macId faults r)
  | .unpair faults id => some (s.finish id (unpairDevice faults id s.files))
  | .setRelayAllowed faults id allowed => some (s.finish id (setDeviceRelayAllowed faults id allowed s.files))
  | .touch faults id instant now => some (s.touch faults id instant now)

def SameDevice (files before : DeviceFiles) (deviceId : Text) : Prop :=
  files.devices.filter (·.id = deviceId) = before.devices.filter (·.id = deviceId) ∧
    files.keys (keyName macId deviceId) = before.keys (keyName macId deviceId)

def KeysIssued (s : DeviceStore) : Prop :=
  ∀ device ∈ s.files.devices, ∃ key : E2eKey, s.issued device.id = some key ∧
    e2eKey macId s.files device.id = some key.bytes

def OperationKept (s : DeviceStore) : Prop :=
  ∀ op, s.last = some op →
    (∀ error, op.result = .error error → ∀ id, SameDevice macId s.files op.before id) ∧
    ∀ id, id ≠ op.deviceId → SameDevice macId s.files op.before id

def StoreConsistent (s : DeviceStore) : Prop := KeysIssued macId s ∧ OperationKept macId s

def FailsHalfway (faults : StoreFaults) : Prop :=
  faults.lock = none ∧ faults.readKeys = none ∧ faults.writeKeys = none ∧
    (faults.readDevices ≠ none ∨ faults.writeDevices ≠ none)

def StoreFaults.Works (faults : StoreFaults) : Prop :=
  faults.lock = .none ∧ faults.readDevices = .none ∧ faults.writeDevices = .none ∧ faults.readKeys = .none ∧
    faults.writeKeys = .none

/-- No registration fails between its two writes, unless the key it wrote was there
before, and no device is unpaired whose dotted id ends the name of another stored key. -/
def KeysKept (s : DeviceStore) : StoreOp → Prop
  | .register faults r => FailsHalfway faults →
      s.files.keys (keyName macId r.id) = some (Base64.encode r.key.bytes)
  | .unpair faults id => faults.Works → (∃ device ∈ s.files.devices, device.id = id) →
      ∀ other, other ≠ id → ('.' :: id) <:+ keyName macId other → s.files.keys (keyName macId other) = none
  | _ => True

end Runs

theorem keyName_injective (macId : Text) : Function.Injective (keyName macId) := by
  intro d e h
  exact (List.cons.inj (append_cancel_left h)).2

section Edits
variable {deviceId : Text} {edit : DeviceRecord → DeviceRecord} {devices : List DeviceRecord}

theorem editDevice_ids (hid : ∀ device, (edit device).id = device.id) :
    (editDevice deviceId edit devices).map DeviceRecord.id = devices.map DeviceRecord.id := by
  apply lookmap_map_eq
  intro device changed hchanged
  split at hchanged
  · cases hchanged
    exact (hid device).symm
  · cases hchanged

theorem editDevice_filter (hid : ∀ device, (edit device).id = device.id) {other : Text} (hne : other ≠ deviceId) :
    (editDevice deviceId edit devices).filter (·.id = other) = devices.filter (·.id = other) := by
  induction devices with
  | nil => rfl
  | cons device rest ih =>
    by_cases hd : device.id = deviceId
    · have hedit : editDevice deviceId edit (device :: rest) = edit device :: rest :=
        lookmap_cons_some _ _ (by simp [hd])
      simp [hedit, hid, hd, Ne.symm hne]
    · have hedit : editDevice deviceId edit (device :: rest) = device :: editDevice deviceId edit rest :=
        lookmap_cons_none _ _ (by simp [hd])
      rw [hedit, filter_cons, filter_cons, ih]

end Edits

section Spec
variable {sha256Hex : Text → Text} {macId : Text} {faults : StoreFaults} {files : DeviceFiles}

def keyedFiles (macId : Text) (r : Registration) (files : DeviceFiles) : DeviceFiles :=
  { files with keys := Function.update files.keys (keyName macId r.id) (some (Base64.encode r.key.bytes)) }

theorem registerDevice_cases (r : Registration) :
    (∃ error, registerDevice sha256Hex macId faults r files = (.error error,files) ∧ ¬FailsHalfway faults) ∨
    (∃ error, registerDevice sha256Hex macId faults r files =
      (.error error,keyedFiles macId r files) ∧ FailsHalfway faults) ∨
    (registerDevice sha256Hex macId faults r files = (.ok (),{ keyedFiles macId r files with
      devices := files.devices.filter (·.id ≠ r.id) ++ [r.record sha256Hex macId] }) ∧ ¬FailsHalfway faults) := by
  obtain ⟨lock,readKeys,writeKeys,readDevices,writeDevices⟩ := faults
  unfold registerDevice FailsHalfway
  cases lock with
  | some error => exact .inl ⟨error,rfl,by simp⟩
  | none =>
  cases readKeys with
  | some error => exact .inl ⟨error,rfl,by simp⟩
  | none =>
  cases writeKeys with
  | some error => exact .inl ⟨_,rfl,by simp⟩
  | none =>
  cases readDevices with
  | some error => exact .inr (.inl ⟨error,rfl,by simp⟩)
  | none =>
  cases writeDevices with
  | some error => exact .inr (.inl ⟨_,rfl,by simp⟩)
  | none => exact .inr (.inr ⟨rfl,by simp⟩)

/-- The files after a device was taken off the list, with its keys or without. -/
theorem unpairDevice_cases (deviceId : Text) :
    ((∃ error, unpairDevice faults deviceId files = (.error error,files)) ∧
      ¬(faults.Works ∧ ∃ device ∈ files.devices, device.id = deviceId)) ∨
    (¬faults.Works ∧ unpairDevice faults deviceId files =
      (.ok (),{ files with devices := files.devices.filter (·.id ≠ deviceId) })) ∨
    ((∃ device ∈ files.devices, device.id = deviceId) ∧ faults.Works ∧ unpairDevice faults deviceId files =
      (.ok (),⟨files.devices.filter (·.id ≠ deviceId),
        fun name => if ('.' :: deviceId) <:+ name then none else files.keys name⟩)) := by
  obtain ⟨lock,readKeys,writeKeys,readDevices,writeDevices⟩ := faults
  unfold unpairDevice StoreFaults.Works
  cases lock with
  | some error => exact .inl ⟨⟨error,rfl⟩,by simp⟩
  | none =>
  cases readDevices with
  | some error => exact .inl ⟨⟨error,rfl⟩,by simp⟩
  | none =>
  by_cases hsame : (files.devices.filter (·.id ≠ deviceId)).length = files.devices.length
  · rw [if_pos hsame]
    refine .inl ⟨⟨_,rfl⟩,?_⟩
    rintro ⟨-,device,hdevice,hid⟩
    simpa [hid] using filter_eq_self.mp (filter_sublist.eq_of_length hsame) device hdevice
  rw [if_neg hsame]
  have hlisted : ∃ device ∈ files.devices, device.id = deviceId := by
    by_contra hno
    push Not at hno
    exact hsame (congrArg List.length (filter_eq_self.mpr (by simpa using hno)))
  cases writeDevices with
  | some error => exact .inl ⟨⟨_,rfl⟩,by simp⟩
  | none =>
  by_cases hkeys : readKeys = none ∧ writeKeys = none
  · rw [Option.map_none, if_pos hkeys]
    exact .inr (.inr ⟨hlisted,by simp [hkeys],rfl⟩)
  · rw [Option.map_none, if_neg hkeys]
    exact .inr (.inl ⟨fun h => hkeys h.2.2.2,rfl⟩)

theorem editRecord_cases (edit : DeviceRecord → DeviceRecord) (missing : Except Text Unit) (deviceId : Text) :
    (∃ result, editRecord edit missing faults deviceId files = (result,files)) ∨
      editRecord edit missing faults deviceId files =
        (.ok (),{ files with devices := editDevice deviceId edit files.devices }) := by
  obtain ⟨lock,readKeys,writeKeys,readDevices,writeDevices⟩ := faults
  unfold editRecord
  cases lock with
  | some error => exact .inl ⟨_,rfl⟩
  | none =>
  cases readDevices with
  | some error => exact .inl ⟨_,rfl⟩
  | none =>
  by_cases hlisted : files.devices.any (·.id = deviceId) = true
  · rw [if_pos hlisted]
    cases writeDevices with
    | some error => exact .inl ⟨_,rfl⟩
    | none => exact .inr rfl
  · rw [if_neg hlisted]
    exact .inl ⟨_,rfl⟩

end Spec

section Consistency
variable {sha256Hex : Text → Text} {macId : Text} {s t : DeviceStore}

theorem e2eKey_encoded {files : DeviceFiles} {id : Text} {key : E2eKey}
    (h : files.keys (keyName macId id) = some (Base64.encode key.bytes)) :
    e2eKey macId files id = some key.bytes := by
  simp [e2eKey, h, Base64.decode_encode, key.length_eq]

theorem KeysIssued.of_listed (h : KeysIssued macId s)
    (hlisted : ∀ device ∈ t.files.devices, device.id ∈ s.files.devices.map DeviceRecord.id)
    (hkeys : ∀ device ∈ t.files.devices,
      t.files.keys (keyName macId device.id) = s.files.keys (keyName macId device.id))
    (hissued : t.issued = s.issued) : KeysIssued macId t := by
  intro device hdevice
  obtain ⟨old,hold,hid⟩ := mem_map.mp (hlisted device hdevice)
  obtain ⟨key,hkey,he2e⟩ := h old hold
  rw [hid] at hkey he2e
  refine ⟨key,by rw [hissued, hkey],?_⟩
  rw [← he2e, e2eKey, e2eKey, hkeys device hdevice]

theorem StoreConsistent.unchanged (h : StoreConsistent macId s) (id : Text) (result : Except Text Unit)
    (hfiles : t.files = s.files) (hissued : t.issued = s.issued) (hlast : t.last = some ⟨id,result,s.files⟩) :
    StoreConsistent macId t := by
  refine ⟨h.1.of_listed ?_ ?_ hissued,?_⟩
  · exact fun device hdevice => mem_map_of_mem (hfiles ▸ hdevice)
  · exact fun device _ => by rw [hfiles]
  · rintro op hop
    cases hlast.symm.trans hop
    have hsame : ∀ id, SameDevice macId t.files s.files id := fun id => by rw [hfiles]; exact ⟨rfl,rfl⟩
    exact ⟨fun _ _ => hsame,fun id _ => hsame id⟩

theorem operationKept_of_ok {id : Text} (hlast : t.last = some ⟨id,.ok (),s.files⟩)
    (hother : ∀ other, other ≠ id → SameDevice macId t.files s.files other) : OperationKept macId t := by
  rintro op hop
  cases hlast.symm.trans hop
  exact ⟨fun _ herror => (nomatch herror),hother⟩

theorem filter_other {devices : List DeviceRecord} {id other : Text} (hne : other ≠ id) :
    (devices.filter (·.id ≠ id)).filter (·.id = other) = devices.filter (·.id = other) := by
  rw [filter_filter]
  apply filter_congr
  intro device _
  by_cases h : device.id = other <;> simp [h, hne]

theorem StoreConsistent.register (h : StoreConsistent macId s) {faults : StoreFaults} {r : Registration}
    (hok : KeysKept macId s (.register faults r)) :
    StoreConsistent macId (s.register sha256Hex macId faults r) := by
  rcases @registerDevice_cases sha256Hex macId faults s.files r with
    ⟨error,hr,-⟩ | ⟨error,hr,hhalf⟩ | ⟨hr,-⟩
  · refine h.unchanged r.id (.error error) ?_ ?_ ?_ <;>
      simp [DeviceStore.register, DeviceStore.finish, hr]
  · have hsame : keyedFiles macId r s.files = s.files := by
      rw [keyedFiles, ← hok hhalf, Function.update_eq_self]
    rw [hsame] at hr
    refine h.unchanged r.id (.error error) ?_ ?_ ?_ <;>
      simp [DeviceStore.register, DeviceStore.finish, hr]
  · have hfiles : (s.register sha256Hex macId faults r).files = { keyedFiles macId r s.files with
        devices := s.files.devices.filter (·.id ≠ r.id) ++ [r.record sha256Hex macId] } := by
      simp [DeviceStore.register, DeviceStore.finish, hr]
    have hissued : (s.register sha256Hex macId faults r).issued =
        Function.update s.issued r.id (some r.key) := by
      simp [DeviceStore.register, hr]
    have hkeys : ∀ other, other ≠ r.id →
        (keyedFiles macId r s.files).keys (keyName macId other) = s.files.keys (keyName macId other) :=
      fun other hne => Function.update_of_ne (fun hsame => hne (keyName_injective macId hsame)) _ _
    refine ⟨fun device hdevice => ?_,@operationKept_of_ok macId s _ r.id ?_ fun other hne => ?_⟩
    · rw [hfiles] at hdevice
      rw [hissued]
      rcases mem_append.mp hdevice with hdevice | hdevice
      · have hne : device.id ≠ r.id := by simpa using (mem_filter.mp hdevice).2
        obtain ⟨key,hkey,he2e⟩ := h.1 device (mem_filter.mp hdevice).1
        refine ⟨key,by rw [Function.update_of_ne hne, hkey],?_⟩
        rw [← he2e, e2eKey, e2eKey, hfiles, hkeys device.id hne]
      · rw [mem_singleton.mp hdevice]
        refine ⟨r.key,Function.update_self _ _ _,e2eKey_encoded ?_⟩
        rw [hfiles]
        exact Function.update_self _ _ _
    · simp [DeviceStore.register, DeviceStore.finish, hr]
    · rw [hfiles]
      refine ⟨?_,hkeys other hne⟩
      rw [List.filter_append, filter_other hne]
      simp [Registration.record, Ne.symm hne]

theorem StoreConsistent.unpair (h : StoreConsistent macId s) {faults : StoreFaults} {id : Text}
    (hok : KeysKept macId s (.unpair faults id)) :
    StoreConsistent macId (s.finish id (unpairDevice faults id s.files)) := by
  have hlisted : ∀ device ∈ s.files.devices.filter (·.id ≠ id),
      device.id ≠ id ∧ device.id ∈ s.files.devices.map DeviceRecord.id := by
    intro device hdevice
    have hmem := mem_filter.mp hdevice
    exact ⟨by simpa using hmem.2,mem_map_of_mem hmem.1⟩
  rcases @unpairDevice_cases faults s.files id with ⟨⟨error,hr⟩,-⟩ | ⟨-,hr⟩ | ⟨hlist,hworks,hr⟩
  · rw [hr]
    exact h.unchanged id _ rfl rfl rfl
  · rw [hr]
    refine ⟨h.1.of_listed (fun device hdevice => (hlisted device hdevice).2) (fun _ _ => rfl) rfl,?_⟩
    exact operationKept_of_ok rfl fun other hne => ⟨filter_other hne,rfl⟩
  · rw [hr]
    -- A key that goes with the record is not there for any other device.
    have hkeys : ∀ other, other ≠ id → (if ('.' :: id) <:+ keyName macId other then none
        else s.files.keys (keyName macId other)) = s.files.keys (keyName macId other) := by
      intro other hne
      split
      · next hsuffix => exact (hok hworks hlist other hne hsuffix).symm
      · rfl
    refine ⟨h.1.of_listed (fun device hdevice => (hlisted device hdevice).2) ?_ rfl,?_⟩
    · exact fun device hdevice => hkeys device.id (hlisted device hdevice).1
    · exact operationKept_of_ok rfl fun other hne => ⟨filter_other hne,hkeys other hne⟩

theorem StoreConsistent.edit (h : StoreConsistent macId s) (faults : StoreFaults) (id : Text)
    (edit : DeviceRecord → DeviceRecord) (missing : Except Text Unit) (hid : ∀ device, (edit device).id = device.id) :
    StoreConsistent macId (s.finish id (editRecord edit missing faults id s.files)) := by
  rcases @editRecord_cases faults s.files edit missing id with ⟨result,hr⟩ | hr
  · rw [hr]
    exact h.unchanged id result rfl rfl rfl
  · rw [hr]
    refine ⟨h.1.of_listed (fun device hdevice => ?_) (fun _ _ => rfl) rfl,?_⟩
    · rw [← @editDevice_ids id edit s.files.devices hid]
      exact mem_map_of_mem hdevice
    · exact operationKept_of_ok rfl fun other hne => ⟨editDevice_filter hid hne,rfl⟩

theorem StoreConsistent.step (h : StoreConsistent macId s) {op : StoreOp} (hok : KeysKept macId s op)
    (hs : storeStep sha256Hex macId s op = some t) : StoreConsistent macId t := by
  cases op with
  | register faults r => exact Option.some.inj hs ▸ h.register hok
  | unpair faults id => exact Option.some.inj hs ▸ h.unpair hok
  | setRelayAllowed faults id allowed =>
    cases hs
    exact h.edit faults id _ _ fun _ => rfl
  | touch faults id instant now =>
    cases hs
    unfold DeviceStore.touch
    split
    · exact h.unchanged id (.ok ()) rfl rfl rfl
    · have hstamp := h.edit faults id (fun device => { device with lastSeenAtUnixMs := now }) (.ok ()) fun _ => rfl
      exact ⟨hstamp.1,hstamp.2⟩

theorem keysKept_of_consistent {op : StoreOp} (hs : storeStep sha256Hex macId s op = some t)
    (ht : StoreConsistent macId t) : KeysKept macId s op := by
  cases op with
  | register faults r =>
    intro hhalf
    cases hs
    rcases @registerDevice_cases sha256Hex macId faults s.files r with ⟨-,-,h⟩ | ⟨error,hr,-⟩ | ⟨-,h⟩
    · exact absurd hhalf h
    · have hkept := ht.2 ⟨r.id,.error error,s.files⟩ (by simp [DeviceStore.register, DeviceStore.finish, hr])
      have hkey := (hkept.1 error rfl r.id).2
      simp only [DeviceStore.register, DeviceStore.finish, hr, keyedFiles, Function.update_self] at hkey
      exact hkey.symm
    · exact absurd hhalf h
  | unpair faults id =>
    rintro hworks hlist other hne hsuffix
    cases hs
    rcases @unpairDevice_cases faults s.files id with ⟨-,hno⟩ | ⟨hno,-⟩ | ⟨-,-,hr⟩
    · exact absurd ⟨hworks,hlist⟩ hno
    · exact absurd hworks hno
    · have hkey := ((ht.2 ⟨id,.ok (),s.files⟩ (by simp [DeviceStore.finish, hr])).2 other hne).2
      simpa [DeviceStore.finish, hr, hsuffix] using hkey.symm
  | _ => trivial

end Consistency

/-- In every run of the four operations the store is consistent throughout exactly if no
registration fails between its two writes and no device is unpaired whose dotted id ends
the name of the key of another. -/
theorem store_consistent_iff (sha256Hex : Text → Text) (macId : Text) (ops : List StoreOp) :
    Always (storeStep sha256Hex macId) (StoreConsistent macId) startStore ops ↔
      Guarded (storeStep sha256Hex macId) (KeysKept macId) startStore ops := by
  refine always_iff_guarded (J := StoreConsistent macId) (fun _ _ _ h hok hs => h.step hok hs)
    (fun _ h => h) (fun _ _ _ _ hs ht => keysKept_of_consistent hs ht) ⟨?_,?_⟩ ops
  · simp [KeysIssued, startStore]
  · simp [OperationKept, startStore]

def emptyTokenHash (_ : Text) : Text := "e3b0c44298fc1c149afbf4c8996fb92427ae41e4649b934ca495991b7852b855".toList

def constantKey (byte : UInt8) : E2eKey := ⟨List.replicate 32 byte,List.length_replicate⟩

def pairedPhone (id : String) (key : E2eKey) : Registration :=
  ⟨id.toList,"Phone".toList,"ios".toList,none,[],[],key,0,0⟩

def fullDisk : StoreFaults := { StoreFaults.none with writeDevices := some "No space left on device".toList }

def halfRegistered : List StoreOp :=
  [.register .none (pairedPhone "phone" (constantKey 0)),.register fullDisk (pairedPhone "phone" (constantKey 1))]

def dottedIds : List StoreOp :=
  [.register .none (pairedPhone "work.phone" (constantKey 0)),.register .none (pairedPhone "phone" (constantKey 1)),
    .unpair .none "phone".toList]

/-- The first run leaves the phone with a key it was never given, the second leaves the
other phone without its key. -/
theorem keys_are_lost :
    ¬Always (storeStep emptyTokenHash "MAC".toList) (StoreConsistent "MAC".toList) startStore halfRegistered ∧
      ¬Always (storeStep emptyTokenHash "MAC".toList) (StoreConsistent "MAC".toList) startStore dottedIds := by
  constructor
  · intro h
    have hend := h.last rfl
    obtain ⟨key,hissued,hkey⟩ := hend.1 ((pairedPhone "phone" (constantKey 0)).record emptyTokenHash "MAC".toList)
      (by decide)
    cases hissued
    exact absurd hkey (by decide +kernel)
  · intro h
    have hend := h.last rfl
    obtain ⟨key,-,hkey⟩ := hend.1 ((pairedPhone "work.phone" (constantKey 0)).record emptyTokenHash "MAC".toList)
      (by decide)
    have hgone : e2eKey "MAC".toList ((run (storeStep emptyTokenHash "MAC".toList) startStore dottedIds).getD
        startStore).files "work.phone".toList = none := by decide +kernel
    exact nomatch hgone.symm.trans hkey

end Unpeel.Pairing
