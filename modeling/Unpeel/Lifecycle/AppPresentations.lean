import Mathlib.Algebra.Order.Group.Nat
import Unpeel.Lifecycle.References
import Unpeel.Manifest.PromptTitle

/-! # App instances and their presentations

The value `app_presentations` of the app state has a list of App instances, each with its
companion Session, and a list of presentations, each with the Session that asked for it. The
entries are read one by one, checked, and written back in their typed form where one of them
names a Session that is replaced.
-/
namespace Unpeel.Lifecycle
open Manifest List

def appPresentationsStateKey : Text := "app_presentations".toList

def appPresentationsStateVersion : ℕ := 1

def appIdMaxBytes : ℕ := 128
def viewIdMaxBytes : ℕ := 128
def sessionIdMaxBytes : ℕ := 256
def projectIdMaxBytes : ℕ := 256
def resourceKindMaxBytes : ℕ := 64
def resourceIdMaxBytes : ℕ := 4 * 1024
def requestIdMaxBytes : ℕ := 256
def recentRequestIdLimit : ℕ := 16

structure AppResourceRef where
  kind : Text
  id : Text
deriving DecidableEq

inductive AppPresentationTarget where
  | panel
deriving DecidableEq

structure AppInstance where
  id : Text
  appId : Text
  projectId : Text
  resource : Option AppResourceRef
  companionSessionId : Text
  createdAtUnixMs : ℕ
  updatedAtUnixMs : ℕ
deriving DecidableEq

structure AppPresentation where
  id : Text
  callerSessionId : Text
  instanceId : Text
  viewId : Text
  target : AppPresentationTarget
  revealRevision : ℕ
  createdAtUnixMs : ℕ
  updatedAtUnixMs : ℕ
deriving DecidableEq

def instanceFields : List Text :=
  ["id".toList,"app_id".toList,"project_id".toList,"resource".toList,"companion_session_id".toList,
   "created_at_unix_ms".toList,"updated_at_unix_ms".toList]

def presentationFields : List Text :=
  ["id".toList,"caller_session_id".toList,"instance_id".toList,"view_id".toList,"target".toList,
   "reveal_revision".toList,"created_at_unix_ms".toList,"updated_at_unix_ms".toList,"recent_request_ids".toList]

def envelopeFields : List Text := ["version".toList,"instances".toList,"presentations".toList]

structure Extra (known : List Text) where
  fields : Fields
  unknown : ∀ key, known.contains key = true → fields key = none

/-- What `#[serde(flatten)]` collects. -/
def Extra.collect (known : List Text) (fields : Fields) : Extra known where
  fields := fun key => if known.contains key then none else fields key
  unknown := fun _ h => if_pos h

structure StoredAppInstance where
  value : AppInstance
  extra : Extra instanceFields

structure StoredAppPresentation where
  value : AppPresentation
  recentRequestIds : List Text
  extra : Extra presentationFields

structure StoredEnvelope where
  version : ℕ
  instances : List Json
  presentations : List Json
  extra : Extra envelopeFields

section Checks

def byteLength (value : Text) : ℕ := value.foldr (fun c length => c.utf8Size + length) 0

/-- `char::is_control`. -/
def isControl (c : Char) : Bool := c.toNat < 0x20 || (0x7F ≤ c.toNat && c.toNat < 0xA0)

def validateToken (field value : Text) (maxBytes : ℕ) : Except Text Unit :=
  if value = [] ∨ maxBytes < byteLength value ∨ trim value ≠ value ∨
      !value.all (fun c => c.isAlphanum || c = '.' || c = '-' || c = '_') then
    .error (field ++ " must be a non-empty ASCII identifier (letters, digits, '.', '-', '_') no longer than ".toList ++
      Nat.toDigits 10 maxBytes ++ " bytes".toList)
  else .ok ()

def validateOpaque (field value : Text) (maxBytes : ℕ) : Except Text Unit :=
  if value = [] ∨ maxBytes < byteLength value ∨ trim value ≠ value ∨ value.any isControl then
    .error (field ++ " must be non-empty, trimmed, control-free, and no longer than ".toList ++
      Nat.toDigits 10 maxBytes ++ " bytes".toList)
  else .ok ()

def validateAppPresentationSessionId (field value : Text) : Except Text Unit :=
  (validateOpaque field value sessionIdMaxBytes).bind fun _ =>
    if value.contains '/' ∨ value.contains '\\' ∨ value.tails.any (['.','.'].isPrefixOf ·) then
      .error (field ++ " is not a safe Session id".toList)
    else .ok ()

def validateResource (resource : AppResourceRef) : Except Text Unit :=
  (validateToken "resource.kind".toList resource.kind resourceKindMaxBytes).bind fun _ =>
    validateOpaque "resource.id".toList resource.id resourceIdMaxBytes

def validInstance (i : AppInstance) : Bool :=
  (validateToken "instance.id".toList i.id sessionIdMaxBytes).isOk &&
  (validateToken "instance.app_id".toList i.appId appIdMaxBytes).isOk &&
  (validateOpaque "instance.project_id".toList i.projectId projectIdMaxBytes).isOk &&
  i.resource.all (fun value => (validateResource value).isOk) &&
  (validateAppPresentationSessionId "instance.companion_session_id".toList i.companionSessionId).isOk &&
  i.createdAtUnixMs ≤ i.updatedAtUnixMs

def validPresentation (p : AppPresentation) : Bool :=
  (validateToken "presentation.id".toList p.id sessionIdMaxBytes).isOk &&
  (validateAppPresentationSessionId "presentation.caller_session_id".toList p.callerSessionId).isOk &&
  (validateToken "presentation.instance_id".toList p.instanceId sessionIdMaxBytes).isOk &&
  (validateToken "presentation.view_id".toList p.viewId viewIdMaxBytes).isOk &&
  p.createdAtUnixMs ≤ p.updatedAtUnixMs

end Checks

section Serde

def strField (fields : Fields) (key : Text) : Option Text := (fields key).bind Json.asStr

def u64Field (fields : Fields) (key : Text) : Option ℕ :=
  match fields key with
  | some (.posInt n) => some n
  | _ => none

def resourceFromValue : Option Json → Option (Option AppResourceRef)
  | none | some .null => some none
  | some (.obj fields) =>
    (strField fields "kind".toList).bind fun kind => (strField fields "id".toList).map fun id => some ⟨kind,id⟩
  | some (.arr [.str kind,.str id]) => some (some ⟨kind,id⟩)
  | _ => none

def targetFromValue (value : Option Json) : Option AppPresentationTarget :=
  if value.bind Json.asStr = some "panel".toList then some .panel else none

def valuesFromValue : Option Json → Option (List Json)
  | none => some []
  | some value => value.asArray

def instanceFromFields (fields : Fields) : Option AppInstance := do
  let id ← strField fields "id".toList
  let appId ← strField fields "app_id".toList
  let projectId ← strField fields "project_id".toList
  let resource ← resourceFromValue (fields "resource".toList)
  let companionSessionId ← strField fields "companion_session_id".toList
  let createdAtUnixMs ← u64Field fields "created_at_unix_ms".toList
  let updatedAtUnixMs ← u64Field fields "updated_at_unix_ms".toList
  return { id, appId, projectId, resource, companionSessionId, createdAtUnixMs, updatedAtUnixMs }

def presentationFromFields (fields : Fields) : Option AppPresentation := do
  let id ← strField fields "id".toList
  let callerSessionId ← strField fields "caller_session_id".toList
  let instanceId ← strField fields "instance_id".toList
  let viewId ← strField fields "view_id".toList
  let target ← targetFromValue (fields "target".toList)
  let revealRevision ← u64Field fields "reveal_revision".toList
  let createdAtUnixMs ← u64Field fields "created_at_unix_ms".toList
  let updatedAtUnixMs ← u64Field fields "updated_at_unix_ms".toList
  return { id, callerSessionId, instanceId, viewId, target, revealRevision, createdAtUnixMs, updatedAtUnixMs }

def AppResourceRef.toValue (resource : AppResourceRef) : Json :=
  .obj fun key =>
    if key = "kind".toList then some (.str resource.kind)
    else if key = "id".toList then some (.str resource.id)
    else none

def StoredAppInstance.toValue (stored : StoredAppInstance) : Json :=
  .obj fun key =>
    if key = "id".toList then some (.str stored.value.id)
    else if key = "app_id".toList then some (.str stored.value.appId)
    else if key = "project_id".toList then some (.str stored.value.projectId)
    else if key = "resource".toList then stored.value.resource.map AppResourceRef.toValue
    else if key = "companion_session_id".toList then some (.str stored.value.companionSessionId)
    else if key = "created_at_unix_ms".toList then some (.posInt stored.value.createdAtUnixMs)
    else if key = "updated_at_unix_ms".toList then some (.posInt stored.value.updatedAtUnixMs)
    else stored.extra.fields key

def StoredAppPresentation.toValue (stored : StoredAppPresentation) : Json :=
  .obj fun key =>
    if key = "id".toList then some (.str stored.value.id)
    else if key = "caller_session_id".toList then some (.str stored.value.callerSessionId)
    else if key = "instance_id".toList then some (.str stored.value.instanceId)
    else if key = "view_id".toList then some (.str stored.value.viewId)
    else if key = "target".toList then some (.str "panel".toList)
    else if key = "reveal_revision".toList then some (.posInt stored.value.revealRevision)
    else if key = "created_at_unix_ms".toList then some (.posInt stored.value.createdAtUnixMs)
    else if key = "updated_at_unix_ms".toList then some (.posInt stored.value.updatedAtUnixMs)
    else if key = "recent_request_ids".toList then
      if stored.recentRequestIds = [] then none else some (.arr (stored.recentRequestIds.map .str))
    else stored.extra.fields key

def StoredEnvelope.toValue (envelope : StoredEnvelope) : Json :=
  .obj fun key =>
    if key = "version".toList then some (.posInt envelope.version)
    else if key = "instances".toList then some (.arr envelope.instances)
    else if key = "presentations".toList then some (.arr envelope.presentations)
    else envelope.extra.fields key

def StoredEnvelope.fromValue : Json → Option StoredEnvelope
  | .obj fields => do
    let version ← u64Field fields "version".toList
    guard (version < 2 ^ 16)
    let instances ← valuesFromValue (fields "instances".toList)
    let presentations ← valuesFromValue (fields "presentations".toList)
    return { version, instances, presentations, extra := .collect envelopeFields fields }
  | _ => none

end Serde

def parseInstance : Json → Option StoredAppInstance
  | .obj fields => do
    let value ← instanceFromFields fields
    guard (validInstance value)
    return { value, extra := .collect instanceFields fields }
  | _ => none

def keptRequestIds (requestIds : List Text) : List Text :=
  let kept := requestIds.filter fun requestId => (validateOpaque "recent_request_id".toList requestId requestIdMaxBytes).isOk
  kept.drop (kept.length - recentRequestIdLimit)

def parsePresentation : Json → Option StoredAppPresentation
  | .obj fields => do
    let value ← presentationFromFields fields
    let requestIds ← (← valuesFromValue (fields "recent_request_ids".toList)).mapM Json.asStr
    guard (validPresentation value)
    return { value, recentRequestIds := keptRequestIds requestIds, extra := .collect presentationFields fields }
  | _ => none

def AppInstance.identity (i : AppInstance) : Text × Text × Option AppResourceRef := (i.appId,i.projectId,i.resource)

def AppPresentation.binding (p : AppPresentation) : Text × Text × Text × AppPresentationTarget :=
  (p.callerSessionId,p.instanceId,p.viewId,p.target)

section Validation

def indexText (index : ℕ) : Text := '[' :: Nat.toDigits 10 index ++ [']']

/-- The loop over the instances, with those it has seen: the three sets hold their ids,
companions and identities. -/
def validateInstances : ℕ → List AppInstance → List Json → Except Text (List AppInstance)
  | _, seen, [] => .ok seen
  | index, seen, value :: rest =>
    match parseInstance value with
    | none => .error ("invalid app_presentations.instances".toList ++ indexText index ++ " entry".toList)
    | some stored =>
      if seen.any (·.id = stored.value.id) then
        .error ("duplicate App instance id '".toList ++ stored.value.id ++ "'".toList)
      else if seen.any (·.companionSessionId = stored.value.companionSessionId) then
        .error ("companion Session '".toList ++ stored.value.companionSessionId ++
          "' is referenced by more than one App instance".toList)
      else if seen.any (·.identity = stored.value.identity) then
        .error ("duplicate App instance identity for '".toList ++ stored.value.appId ++ "' in project '".toList ++
          stored.value.projectId ++ "'".toList)
      else validateInstances (index + 1) (seen ++ [stored.value]) rest

def sharedRequestId (seen : List StoredAppPresentation) (stored : StoredAppPresentation) : Option Text :=
  stored.recentRequestIds.find? fun requestId =>
    seen.any fun other => other.value.callerSessionId = stored.value.callerSessionId &&
      other.recentRequestIds.contains requestId && other.value.id ≠ stored.value.id

def validatePresentations (instances : List AppInstance) : ℕ → List StoredAppPresentation → List Json → Except Text Unit
  | _, _, [] => .ok ()
  | index, seen, value :: rest =>
    match parsePresentation value with
    | none => .error ("invalid app_presentations.presentations".toList ++ indexText index ++ " entry".toList)
    | some stored =>
      if seen.any (·.value.id = stored.value.id) then
        .error ("duplicate App presentation id '".toList ++ stored.value.id ++ "'".toList)
      else if !instances.any (·.id = stored.value.instanceId) then
        .error ("App presentation '".toList ++ stored.value.id ++ "' references missing instance '".toList ++
          stored.value.instanceId ++ "'".toList)
      else if seen.any (·.value.binding = stored.value.binding) then
        .error ("duplicate App presentation binding for caller '".toList ++ stored.value.callerSessionId ++ "'".toList)
      else match sharedRequestId seen stored with
        | some requestId =>
          .error ("request id '".toList ++ requestId ++
            "' is remembered by more than one App presentation for caller '".toList ++
            stored.value.callerSessionId ++ "'".toList)
        | none => validatePresentations instances (index + 1) (seen ++ [stored]) rest

def validateEnvelope (envelope : StoredEnvelope) : Except Text Unit :=
  (validateInstances 0 [] envelope.instances).bind fun instances =>
    validatePresentations instances 0 [] envelope.presentations

end Validation

section Rewriting
variable (serdeError : Json → Text)

/-- The text of a failed `from_value` is `serdeError`. -/
def envelopeFromRoot (root : Fields) : Except Text StoredEnvelope :=
  match root appPresentationsStateKey with
  | none => .ok ⟨appPresentationsStateVersion,[],[],⟨fun _ => none,fun _ _ => rfl⟩⟩
  | some value =>
    match StoredEnvelope.fromValue value with
    | none => .error ("invalid app_presentations state: ".toList ++ serdeError value)
    | some envelope =>
      if envelope.version ≠ appPresentationsStateVersion then
        .error ("unsupported app_presentations version ".toList ++ Nat.toDigits 10 envelope.version ++
          " (this build supports ".toList ++ Nat.toDigits 10 appPresentationsStateVersion ++ [')'])
      else .ok envelope

def validatedEnvelopeFromRoot (root : Fields) : Except Text StoredEnvelope :=
  (envelopeFromRoot serdeError root).bind fun envelope => (validateEnvelope envelope).map fun _ => envelope

def monotonicTimestamp (createdAtUnixMs updatedAtUnixMs nowMs : ℕ) : ℕ := max (max nowMs createdAtUnixMs) updatedAtUnixMs

def StoredAppInstance.replaceCompanion (stored : StoredAppInstance) (replacement : Text) (nowMs : ℕ) : StoredAppInstance :=
  { stored with value := { stored.value with
      companionSessionId := replacement
      updatedAtUnixMs := monotonicTimestamp stored.value.createdAtUnixMs stored.value.updatedAtUnixMs nowMs } }

def StoredAppPresentation.replaceCaller (stored : StoredAppPresentation) (replacement : Text) (nowMs : ℕ) :
    StoredAppPresentation :=
  { stored with value := { stored.value with
      callerSessionId := replacement
      updatedAtUnixMs := monotonicTimestamp stored.value.createdAtUnixMs stored.value.updatedAtUnixMs nowMs } }

def hasCompanion (sessionId : Text) (value : Json) : Bool :=
  (parseInstance value).any (·.value.companionSessionId = sessionId)

def hasCaller (sessionId : Text) (value : Json) : Bool :=
  (parsePresentation value).any (·.value.callerSessionId = sessionId)

/-- One turn of the loop over the instances; `none` is an instance that goes. -/
def rewriteInstance (nowMs : ℕ) (oldId : Text) (replacementId : Option Text) (value : Json) : Option Json :=
  match parseInstance value with
  | none => some value
  | some stored =>
    if stored.value.companionSessionId ≠ oldId then some value
    else replacementId.map fun replacement => (stored.replaceCompanion replacement nowMs).toValue

def removedInstanceIds (oldId : Text) (replacementId : Option Text) (instances : List Json) : List Text :=
  if replacementId = none then
    ((instances.filter (hasCompanion oldId)).filterMap parseInstance).map (·.value.id)
  else []

def presents (removed : List Text) (value : Json) : Bool :=
  (parsePresentation value).any fun stored => removed.contains stored.value.instanceId

def rewritePresentation (nowMs : ℕ) (oldId : Text) (replacementId : Option Text) (removed : List Text) (value : Json) :
    Option Json :=
  match parsePresentation value with
  | none => some value
  | some stored =>
    if removed.contains stored.value.instanceId then none
    else if stored.value.callerSessionId ≠ oldId then some value
    else replacementId.map fun replacement => (stored.replaceCaller replacement nowMs).toValue

def StoredEnvelope.rewrite (envelope : StoredEnvelope) (nowMs : ℕ) (oldId : Text) (replacementId : Option Text) :
    StoredEnvelope :=
  { envelope with
    instances := envelope.instances.filterMap (rewriteInstance nowMs oldId replacementId)
    presentations := envelope.presentations.filterMap
      (rewritePresentation nowMs oldId replacementId (removedInstanceIds oldId replacementId envelope.instances)) }

def StoredEnvelope.changed (envelope : StoredEnvelope) (oldId : Text) (replacementId : Option Text) : Bool :=
  envelope.instances.any (hasCompanion oldId) || envelope.presentations.any fun value =>
    presents (removedInstanceIds oldId replacementId envelope.instances) value || hasCaller oldId value

def rewriteAppPresentationSessionReferences (nowMs : ℕ) (oldId : Text) (replacementId : Option Text) (root : Fields) :
    Except Text Fields := do
  validateAppPresentationSessionId "old_session_id".toList oldId
  match replacementId with
  | some replacement => validateAppPresentationSessionId "replacement_session_id".toList replacement
  | none => pure ()
  match root appPresentationsStateKey with
  | none => return root
  | some _ =>
    let envelope ← validatedEnvelopeFromRoot serdeError root
    if envelope.changed oldId replacementId then
      let next := envelope.rewrite nowMs oldId replacementId
      validateEnvelope next
      return Function.update root appPresentationsStateKey (some next.toValue)
    else return root

/-- `rewrite_app_state_session_references`. -/
def rewriteAppStateSessionReferences (nowMs : ℕ) (oldId : Text) (replacementId : Option Text) (state : Fields) :
    Except Text Fields :=
  rewriteAppPresentationSessionReferences serdeError nowMs oldId replacementId (rewriteUntyped oldId replacementId state)

end Rewriting

section RoundTrips
variable {stored : StoredAppPresentation}

@[ext]
theorem Extra.ext {known : List Text} {a b : Extra known} (h : a.fields = b.fields) : a = b := by
  cases a
  cases b
  cases h
  rfl

theorem Extra.collect_eq {known : List Text} {extra : Extra known} {fields : Fields}
    (h : ∀ key, known.contains key = false → fields key = extra.fields key) : .collect known fields = extra := by
  ext1
  funext key
  by_cases hknown : known.contains key = true
  · exact (if_pos hknown).trans (extra.unknown key hknown).symm
  · exact (if_neg hknown).trans (h key (by simpa using hknown))

theorem resourceFromValue_toValue (resource : Option AppResourceRef) :
    resourceFromValue (resource.map AppResourceRef.toValue) = some resource := by
  cases resource <;> rfl

theorem parseInstance_toValue {stored : StoredAppInstance} (h : validInstance stored.value = true) :
    parseInstance stored.toValue = some stored := by
  have hextra : ∀ fields, stored.toValue = .obj fields → Extra.collect instanceFields fields = stored.extra := by
    rintro _ ⟨⟩
    refine Extra.collect_eq fun key hkey => ?_
    simp only [instanceFields, contains_cons, contains_nil, Bool.or_false, Bool.or_eq_false_iff,
      beq_eq_false_iff_ne] at hkey
    simp only [hkey, if_false]
  have hvalue : ∀ fields, stored.toValue = .obj fields → instanceFromFields fields = some stored.value := by
    rintro _ ⟨⟩
    change (resourceFromValue (stored.value.resource.map AppResourceRef.toValue)).bind _ = _
    rw [resourceFromValue_toValue]
    rfl
  cases hfields : stored.toValue with
  | obj fields => simp [parseInstance, hextra fields hfields, hvalue fields hfields, h]
  | _ => cases hfields

theorem keptRequestIds_idem (requestIds : List Text) : keptRequestIds (keptRequestIds requestIds) = keptRequestIds requestIds := by
  have hvalid : ∀ requestId ∈ keptRequestIds requestIds,
      (validateOpaque "recent_request_id".toList requestId requestIdMaxBytes).isOk = true := fun requestId hmem =>
    (mem_filter.mp (mem_of_mem_drop hmem)).2
  have hshort : (keptRequestIds requestIds).length ≤ recentRequestIdLimit := by
    simp only [keptRequestIds, length_drop]
    omega
  generalize keptRequestIds requestIds = kept at hvalid hshort
  rw [keptRequestIds, filter_eq_self.mpr hvalid, Nat.sub_eq_zero_of_le hshort, drop_zero]

theorem mapM_asStr (texts : List Text) : (texts.map Json.str).mapM Json.asStr = some texts := by
  induction texts with
  | nil => rfl
  | cons text rest ih => simp [mapM_cons, ih, Json.asStr]

theorem parsePresentation_toValue (h : validPresentation stored.value = true)
    (hkept : keptRequestIds stored.recentRequestIds = stored.recentRequestIds) :
    parsePresentation stored.toValue = some stored := by
  have hextra : ∀ fields, stored.toValue = .obj fields → Extra.collect presentationFields fields = stored.extra := by
    rintro _ ⟨⟩
    refine Extra.collect_eq fun key hkey => ?_
    simp only [presentationFields, contains_cons, contains_nil, Bool.or_false, Bool.or_eq_false_iff,
      beq_eq_false_iff_ne] at hkey
    simp only [hkey, if_false]
  have hvalue : ∀ fields, stored.toValue = .obj fields → presentationFromFields fields = some stored.value := by
    rintro _ ⟨⟩
    rfl
  have hrequests : ∀ fields, stored.toValue = .obj fields →
      (valuesFromValue (fields "recent_request_ids".toList)).bind (·.mapM Json.asStr) = some stored.recentRequestIds := by
    rintro _ ⟨⟩
    split_ifs with hempty
    · rw [hempty]
      rfl
    · exact mapM_asStr _
  cases hfields : stored.toValue with
  | obj fields =>
    have hids := hrequests fields hfields
    obtain ⟨values,hvalues,hmap⟩ := Option.bind_eq_some_iff.mp hids
    simp only [parsePresentation, hextra fields hfields, hvalue fields hfields, hvalues, hmap, h, hkept,
      Option.bind_eq_bind, Option.bind_some, guard, if_true, Option.pure_def]
  | _ => cases hfields

theorem valid_of_parseInstance {value : Json} {stored : StoredAppInstance} (h : parseInstance value = some stored) :
    validInstance stored.value = true := by
  cases value with
  | obj fields =>
    simp only [parseInstance, Option.bind_eq_bind, Option.bind_eq_some_iff] at h
    obtain ⟨parsed,-,⟨⟩,hvalid,heq⟩ := h
    cases heq
    by_contra hno
    simp [guard, hno] at hvalid
  | _ => cases h

theorem valid_of_parsePresentation {value : Json} (h : parsePresentation value = some stored) :
    validPresentation stored.value = true ∧ keptRequestIds stored.recentRequestIds = stored.recentRequestIds := by
  cases value with
  | obj fields =>
    simp only [parsePresentation, Option.bind_eq_bind, Option.bind_eq_some_iff] at h
    obtain ⟨parsed,-,values,-,requestIds,-,⟨⟩,hvalid,heq⟩ := h
    cases heq
    refine ⟨?_,keptRequestIds_idem requestIds⟩
    by_contra hno
    simp [guard, hno] at hvalid
  | _ => cases h

theorem StoredEnvelope.fromValue_toValue {envelope : StoredEnvelope} (h : envelope.version < 2 ^ 16) :
    StoredEnvelope.fromValue envelope.toValue = some envelope := by
  have hextra : ∀ fields, envelope.toValue = .obj fields → Extra.collect envelopeFields fields = envelope.extra := by
    rintro _ ⟨⟩
    refine Extra.collect_eq fun key hkey => ?_
    simp only [envelopeFields, contains_cons, contains_nil, Bool.or_false, Bool.or_eq_false_iff,
      beq_eq_false_iff_ne] at hkey
    simp only [hkey, if_false]
  cases hfields : envelope.toValue with
  | obj fields =>
    have hlists : u64Field fields "version".toList = some envelope.version ∧
        valuesFromValue (fields "instances".toList) = some envelope.instances ∧
        valuesFromValue (fields "presentations".toList) = some envelope.presentations := by
      cases hfields
      exact ⟨rfl,rfl,rfl⟩
    simp only [StoredEnvelope.fromValue, hextra fields hfields, hlists, h, Option.bind_eq_bind, Option.bind_some, guard,
      if_true, Option.pure_def]
  | _ => cases hfields

end RoundTrips

def parsedInstances (values : List Json) : List AppInstance := (values.filterMap parseInstance).map (·.value)

def InstancesApart (a b : AppInstance) : Prop :=
  a.id ≠ b.id ∧ a.companionSessionId ≠ b.companionSessionId ∧ a.identity ≠ b.identity

def PresentationsApart (a b : StoredAppPresentation) : Prop :=
  a.value.id ≠ b.value.id ∧ a.value.binding ≠ b.value.binding ∧
    (a.value.callerSessionId = b.value.callerSessionId → ∀ requestId ∈ b.recentRequestIds, requestId ∉ a.recentRequestIds)

/-- What the two loops of `validate_envelope` check. -/
structure ValidEnvelope (envelope : StoredEnvelope) : Prop where
  instances_parse : ∀ value ∈ envelope.instances, ∃ stored, parseInstance value = some stored
  instances_apart : (parsedInstances envelope.instances).Pairwise InstancesApart
  presentations_parse : ∀ value ∈ envelope.presentations, ∃ stored, parsePresentation value = some stored
  presentations_apart : (envelope.presentations.filterMap parsePresentation).Pairwise PresentationsApart
  present : ∀ stored ∈ envelope.presentations.filterMap parsePresentation,
    ∃ i ∈ parsedInstances envelope.instances, i.id = stored.value.instanceId

section Valid
variable {seen : List StoredAppPresentation}

theorem validateInstances_eq_ok {index : ℕ} {seen out : List AppInstance} {values : List Json} :
    validateInstances index seen values = .ok out ↔
      (∀ value ∈ values, ∃ stored, parseInstance value = some stored) ∧ out = seen ++ parsedInstances values ∧
        (parsedInstances values).Pairwise InstancesApart ∧ ∀ a ∈ seen, ∀ b ∈ parsedInstances values, InstancesApart a b := by
  induction values generalizing index seen with
  | nil =>
    simp only [validateInstances, Except.ok.injEq, parsedInstances, filterMap_nil, map_nil, append_nil]
    simp [eq_comm]
  | cons value rest ih =>
    cases hparse : parseInstance value with
    | none => simp [validateInstances, hparse]
    | some stored =>
      have hparsed : parsedInstances (value :: rest) = stored.value :: parsedInstances rest := by
        simp [parsedInstances, hparse]
      have hall : (∀ v ∈ value :: rest, ∃ s, parseInstance v = some s) ↔ ∀ v ∈ rest, ∃ s, parseInstance v = some s := by
        simp [hparse]
      have hhead : (¬seen.any (·.id = stored.value.id) ∧ ¬seen.any (·.companionSessionId = stored.value.companionSessionId) ∧
          ¬seen.any (·.identity = stored.value.identity)) ↔ ∀ a ∈ seen, InstancesApart a stored.value := by
        simp only [any_eq_true, decide_eq_true_eq, not_exists, not_and, InstancesApart, ne_eq]
        exact ⟨fun h a ha => ⟨h.1 a ha,h.2.1 a ha,h.2.2 a ha⟩,
          fun h => ⟨fun a ha => (h a ha).1,fun a ha => (h a ha).2.1,fun a ha => (h a ha).2.2⟩⟩
      rw [hall, hparsed]
      by_cases hok : ∀ a ∈ seen, InstancesApart a stored.value
      · obtain ⟨hid,hcompanion,hidentity⟩ := hhead.mpr hok
        simp only [validateInstances, hparse, if_neg hid, if_neg hcompanion, if_neg hidentity]
        grind
      · have herror : ¬validateInstances index seen (value :: rest) = .ok out := by
          intro hno
          simp only [validateInstances, hparse] at hno
          split_ifs at hno with hid hcompanion hidentity
          exact hok (hhead.mp ⟨hid,hcompanion,hidentity⟩)
        refine iff_of_false herror fun h => hok fun a ha => h.2.2.2 a ha _ (mem_cons_self ..)

theorem sharedRequestId_eq_none {stored : StoredAppPresentation} (h : ∀ a ∈ seen, a.value.id ≠ stored.value.id) :
    sharedRequestId seen stored = none ↔ ∀ a ∈ seen, a.value.callerSessionId = stored.value.callerSessionId →
      ∀ requestId ∈ stored.recentRequestIds, requestId ∉ a.recentRequestIds := by
  simp only [sharedRequestId, find?_eq_none, any_eq_true, Bool.and_eq_true, decide_eq_true_eq,
    contains_iff_mem, not_exists, not_and]
  constructor
  · intro hnone a ha hcaller requestId hmem hshared
    exact hnone requestId hmem a ha ⟨hcaller,hshared⟩ (h a ha)
  · rintro hnone requestId hmem a ha ⟨hcaller,hshared⟩
    exact absurd hshared (hnone a ha hcaller requestId hmem)

theorem validatePresentations_eq_ok {instances : List AppInstance} {index : ℕ} {values : List Json} :
    validatePresentations instances index seen values = .ok () ↔
      (∀ value ∈ values, ∃ stored, parsePresentation value = some stored) ∧
        (values.filterMap parsePresentation).Pairwise PresentationsApart ∧
        (∀ a ∈ seen, ∀ b ∈ values.filterMap parsePresentation, PresentationsApart a b) ∧
        ∀ stored ∈ values.filterMap parsePresentation, ∃ i ∈ instances, i.id = stored.value.instanceId := by
  induction values generalizing index seen with
  | nil => simp [validatePresentations]
  | cons value rest ih =>
    cases hparse : parsePresentation value with
    | none => simp [validatePresentations, hparse]
    | some stored =>
      have hparsed : (value :: rest).filterMap parsePresentation = stored :: rest.filterMap parsePresentation := by
        simp [hparse]
      have hall : (∀ v ∈ value :: rest, ∃ s, parsePresentation v = some s) ↔
          ∀ v ∈ rest, ∃ s, parsePresentation v = some s := by
        simp [hparse]
      rw [hall, hparsed]
      by_cases hok : (∀ a ∈ seen, PresentationsApart a stored) ∧ ∃ i ∈ instances, i.id = stored.value.instanceId
      · obtain ⟨happart,i,hi,hinstance⟩ := hok
        have hid : ¬seen.any (·.value.id = stored.value.id) := by
          simp only [any_eq_true, decide_eq_true_eq, not_exists, not_and]
          exact fun a ha => (happart a ha).1
        have hbinding : ¬seen.any (·.value.binding = stored.value.binding) := by
          simp only [any_eq_true, decide_eq_true_eq, not_exists, not_and]
          exact fun a ha => (happart a ha).2.1
        have hmissing : ¬(!instances.any (·.id = stored.value.instanceId)) = true := by
          simp only [Bool.not_eq_true, Bool.not_eq_false', any_eq_true, decide_eq_true_eq]
          exact ⟨i,hi,hinstance⟩
        have hshared : sharedRequestId seen stored = none :=
          (sharedRequestId_eq_none fun a ha => (happart a ha).1).mpr fun a ha => (happart a ha).2.2
        simp only [validatePresentations, hparse, if_neg hid, if_neg hmissing, if_neg hbinding, hshared]
        rw [ih]
        simp only [mem_append, mem_cons, pairwise_cons]
        grind
      · have herror : ¬validatePresentations instances index seen (value :: rest) = .ok () := by
          intro hno
          simp only [validatePresentations, hparse] at hno
          split_ifs at hno with hid hmissing hbinding
          simp only [any_eq_true, decide_eq_true_eq, not_exists, not_and] at hid hbinding
          simp only [Bool.not_eq_true, Bool.not_eq_false', any_eq_true, decide_eq_true_eq] at hmissing
          cases hshared : sharedRequestId seen stored with
          | some requestId => simp [hshared] at hno
          | none =>
            have hrequests := (sharedRequestId_eq_none hid).mp hshared
            exact hok ⟨fun a ha => ⟨hid a ha,hbinding a ha,hrequests a ha⟩,hmissing⟩
        refine iff_of_false herror fun h => hok ⟨fun a ha => h.2.2.1 a ha _ (mem_cons_self ..),?_⟩
        exact h.2.2.2 _ (mem_cons_self ..)

theorem validateEnvelope_eq_ok {envelope : StoredEnvelope} : validateEnvelope envelope = .ok () ↔ ValidEnvelope envelope := by
  constructor
  · intro h
    cases hinstances : validateInstances 0 [] envelope.instances with
    | error error => simp [validateEnvelope, hinstances, Except.bind] at h
    | ok instances =>
      simp only [validateEnvelope, hinstances, Except.bind] at h
      obtain ⟨hparse,rfl,hapart,-⟩ := validateInstances_eq_ok.mp hinstances
      obtain ⟨hparse',hapart',-,hpresent⟩ := validatePresentations_eq_ok.mp h
      exact ⟨hparse,hapart,hparse',hapart',by simpa using hpresent⟩
  · intro h
    have hinstances : validateInstances 0 [] envelope.instances = .ok (parsedInstances envelope.instances) :=
      validateInstances_eq_ok.mpr ⟨h.instances_parse,rfl,h.instances_apart,fun _ hno => nomatch hno⟩
    simp only [validateEnvelope, hinstances, Except.bind]
    exact validatePresentations_eq_ok.mpr ⟨h.presentations_parse,h.presentations_apart,fun _ hno => (nomatch hno),h.present⟩

end Valid

def SafeSessionId (sessionId : Text) : Prop := ∀ field, validateAppPresentationSessionId field sessionId = .ok ()

def StoredEnvelope.Refers (envelope : StoredEnvelope) (sessionId : Text) : Prop :=
  (∃ stored ∈ envelope.instances.filterMap parseInstance, stored.value.companionSessionId = sessionId) ∨
    ∃ stored ∈ envelope.presentations.filterMap parsePresentation, stored.value.callerSessionId = sessionId

def StoredAppInstance.moved (nowMs : ℕ) (oldId : Text) (replacementId : Option Text) (stored : StoredAppInstance) :
    Option StoredAppInstance :=
  if stored.value.companionSessionId ≠ oldId then some stored
  else replacementId.map (stored.replaceCompanion · nowMs)

def StoredAppPresentation.moved (nowMs : ℕ) (oldId : Text) (replacementId : Option Text) (removed : List Text)
    (stored : StoredAppPresentation) : Option StoredAppPresentation :=
  if removed.contains stored.value.instanceId then none
  else if stored.value.callerSessionId ≠ oldId then some stored
  else replacementId.map (stored.replaceCaller · nowMs)

section Moves
variable {nowMs : ℕ} {oldId newId id : Text} {replacementId : Option Text} {removed : List Text} {envelope : StoredEnvelope}
variable {stored : StoredAppInstance}

theorem validateOpaque_eq_ok_iff (field field' value : Text) (maxBytes : ℕ) :
    validateOpaque field value maxBytes = .ok () ↔ validateOpaque field' value maxBytes = .ok () := by
  unfold validateOpaque
  split_ifs <;> simp

theorem safeSessionId_of_ok {field sessionId : Text} (h : validateAppPresentationSessionId field sessionId = .ok ()) :
    SafeSessionId sessionId := by
  intro field'
  unfold validateAppPresentationSessionId at h ⊢
  cases hsealed : validateOpaque field sessionId sessionIdMaxBytes with
  | error error => simp [hsealed, Except.bind] at h
  | ok done =>
    rw [(validateOpaque_eq_ok_iff field field' sessionId sessionIdMaxBytes).mp hsealed]
    simp only [hsealed, Except.bind] at h ⊢
    split_ifs at h ⊢ with hunsafe
    rfl

theorem validInstance_replaceCompanion (h : validInstance stored.value = true)
    (hsafe : SafeSessionId newId) : validInstance (stored.replaceCompanion newId nowMs).value = true := by
  simp only [validInstance, StoredAppInstance.replaceCompanion, Bool.and_eq_true, decide_eq_true_eq] at h ⊢
  exact ⟨⟨h.1.1,by rw [hsafe]; rfl⟩,
    decide_eq_true ((le_max_right nowMs _).trans (le_max_left _ _))⟩

theorem validPresentation_replaceCaller {stored : StoredAppPresentation} (h : validPresentation stored.value = true)
    (hsafe : SafeSessionId newId) : validPresentation (stored.replaceCaller newId nowMs).value = true := by
  simp only [validPresentation, StoredAppPresentation.replaceCaller, Bool.and_eq_true, decide_eq_true_eq] at h ⊢
  exact ⟨⟨⟨⟨h.1.1.1.1,by rw [hsafe]; rfl⟩,h.1.1.2⟩,h.1.2⟩,
    decide_eq_true ((le_max_right nowMs _).trans (le_max_left _ _))⟩

theorem parse_rewriteInstance (hsafe : ∀ newId ∈ replacementId, SafeSessionId newId) (value : Json) :
    (rewriteInstance nowMs oldId replacementId value).bind parseInstance =
      (parseInstance value).bind (·.moved nowMs oldId replacementId) := by
  unfold rewriteInstance
  cases hparse : parseInstance value with
  | none => simp [hparse]
  | some stored =>
    simp only [Option.bind_some, StoredAppInstance.moved]
    split_ifs with hother
    · exact hparse
    · cases replacementId with
      | none => rfl
      | some newId =>
        exact parseInstance_toValue (validInstance_replaceCompanion (valid_of_parseInstance hparse) (hsafe newId rfl))

theorem parse_rewritePresentation (hsafe : ∀ newId ∈ replacementId, SafeSessionId newId) (value : Json) :
    (rewritePresentation nowMs oldId replacementId removed value).bind parsePresentation =
      (parsePresentation value).bind (·.moved nowMs oldId replacementId removed) := by
  unfold rewritePresentation
  cases hparse : parsePresentation value with
  | none => simp [hparse]
  | some stored =>
    simp only [Option.bind_some, StoredAppPresentation.moved]
    split_ifs with hremoved hother
    · rfl
    · exact hparse
    · cases replacementId with
      | none => rfl
      | some newId =>
        obtain ⟨hvalid,hkept⟩ := valid_of_parsePresentation hparse
        exact parsePresentation_toValue (validPresentation_replaceCaller hvalid (hsafe newId rfl)) hkept

theorem parsed_instances (hsafe : ∀ newId ∈ replacementId, SafeSessionId newId) :
    (envelope.rewrite nowMs oldId replacementId).instances.filterMap parseInstance =
      (envelope.instances.filterMap parseInstance).filterMap (·.moved nowMs oldId replacementId) := by
  simp only [StoredEnvelope.rewrite, filterMap_filterMap, parse_rewriteInstance hsafe]

theorem parsed_presentations (hsafe : ∀ newId ∈ replacementId, SafeSessionId newId) :
    (envelope.rewrite nowMs oldId replacementId).presentations.filterMap parsePresentation =
      (envelope.presentations.filterMap parsePresentation).filterMap
        (·.moved nowMs oldId replacementId (removedInstanceIds oldId replacementId envelope.instances)) := by
  simp only [StoredEnvelope.rewrite, filterMap_filterMap, parse_rewritePresentation hsafe]

theorem StoredAppInstance.moved_cases {stored' : StoredAppInstance}
    (h : stored.moved nowMs oldId replacementId = some stored') :
    stored.value.companionSessionId ≠ oldId ∧ stored' = stored ∨
      stored.value.companionSessionId = oldId ∧ ∃ newId, replacementId = some newId ∧
        stored' = stored.replaceCompanion newId nowMs := by
  unfold StoredAppInstance.moved at h
  split_ifs at h with hother
  · exact .inl ⟨hother,(Option.some.inj h).symm⟩
  · obtain ⟨newId,hnew,rfl⟩ := Option.map_eq_some_iff.mp h
    exact .inr ⟨not_not.mp hother,newId,hnew,rfl⟩

theorem StoredAppPresentation.moved_cases {stored stored' : StoredAppPresentation}
    (h : stored.moved nowMs oldId replacementId removed = some stored') :
    stored.value.instanceId ∉ removed ∧ (stored.value.callerSessionId ≠ oldId ∧ stored' = stored ∨
      stored.value.callerSessionId = oldId ∧ ∃ newId, replacementId = some newId ∧
        stored' = stored.replaceCaller newId nowMs) := by
  unfold StoredAppPresentation.moved at h
  split_ifs at h with hremoved hother
  · exact ⟨by simpa using hremoved,.inl ⟨hother,(Option.some.inj h).symm⟩⟩
  · obtain ⟨newId,hnew,rfl⟩ := Option.map_eq_some_iff.mp h
    exact ⟨by simpa using hremoved,.inr ⟨not_not.mp hother,newId,hnew,rfl⟩⟩

theorem StoredEnvelope.refers_rewrite (hsafe : ∀ newId ∈ replacementId, SafeSessionId newId)
    (h : (envelope.rewrite nowMs oldId replacementId).Refers id) :
    envelope.Refers id ∧ id ≠ oldId ∨ replacementId = some id ∧ envelope.Refers oldId := by
  unfold StoredEnvelope.Refers at h
  rw [parsed_instances hsafe, parsed_presentations hsafe] at h
  rcases h with ⟨stored',hmem,rfl⟩ | ⟨stored',hmem,rfl⟩
  · obtain ⟨stored,hstored,hmoved⟩ := mem_filterMap.mp hmem
    rcases StoredAppInstance.moved_cases hmoved with ⟨hother,rfl⟩ | ⟨hold,newId,hnew,rfl⟩
    · exact .inl ⟨.inl ⟨stored',hstored,rfl⟩,hother⟩
    · exact .inr ⟨hnew,.inl ⟨stored,hstored,hold⟩⟩
  · obtain ⟨stored,hstored,hmoved⟩ := mem_filterMap.mp hmem
    rcases (StoredAppPresentation.moved_cases hmoved).2 with ⟨hother,rfl⟩ | ⟨hold,newId,hnew,rfl⟩
    · exact .inl ⟨.inr ⟨stored',hstored,rfl⟩,hother⟩
    · exact .inr ⟨hnew,.inr ⟨stored,hstored,hold⟩⟩

theorem StoredEnvelope.named (hsafe : SafeSessionId newId) (h : envelope.Refers oldId) :
    (envelope.rewrite nowMs oldId (some newId)).Refers newId := by
  have hsafe : ∀ newId' ∈ some newId, SafeSessionId newId' := by
    rintro _ ⟨⟩
    exact hsafe
  unfold StoredEnvelope.Refers
  rw [parsed_instances hsafe, parsed_presentations hsafe]
  rcases h with ⟨stored,hstored,hold⟩ | ⟨stored,hstored,hold⟩
  · refine .inl ⟨stored.replaceCompanion newId nowMs,mem_filterMap.mpr ⟨stored,hstored,?_⟩,rfl⟩
    simp [StoredAppInstance.moved, hold]
  · refine .inr ⟨stored.replaceCaller newId nowMs,mem_filterMap.mpr ⟨stored,hstored,?_⟩,rfl⟩
    simp [StoredAppPresentation.moved, removedInstanceIds, hold]

theorem mem_removedInstanceIds (hmem : stored ∈ envelope.instances.filterMap parseInstance)
    (hold : stored.value.companionSessionId = oldId) :
    stored.value.id ∈ removedInstanceIds oldId none envelope.instances := by
  obtain ⟨value,hvalue,hparse⟩ := mem_filterMap.mp hmem
  simp only [removedInstanceIds, if_true, mem_map]
  refine ⟨stored,mem_filterMap.mpr ⟨value,mem_filter.mpr ⟨hvalue,?_⟩,hparse⟩,rfl⟩
  simp [hasCompanion, hparse, hold]

theorem moved_instances_apart (hfresh : ∀ newId ∈ replacementId, ¬envelope.Refers newId)
    {a b a' b' : StoredAppInstance} (ha : a ∈ envelope.instances.filterMap parseInstance)
    (hb : b ∈ envelope.instances.filterMap parseInstance) (hapart : InstancesApart a.value b.value)
    (ha' : a.moved nowMs oldId replacementId = some a') (hb' : b.moved nowMs oldId replacementId = some b') :
    InstancesApart a'.value b'.value := by
  have hnew : ∀ newId, replacementId = some newId → ∀ stored ∈ envelope.instances.filterMap parseInstance,
      stored.value.companionSessionId ≠ newId := fun newId hrepl stored hmem hno => hfresh newId hrepl (.inl ⟨stored,hmem,hno⟩)
  obtain ⟨hid,hcompanion,hidentity⟩ := hapart
  rcases StoredAppInstance.moved_cases ha' with ⟨haold,rfl⟩ | ⟨haold,newId,hrepl,rfl⟩ <;>
    rcases StoredAppInstance.moved_cases hb' with ⟨hbold,rfl⟩ | ⟨hbold,newId',hrepl',rfl⟩
  · exact ⟨hid,hcompanion,hidentity⟩
  · exact ⟨hid,hnew newId' hrepl' _ ha,hidentity⟩
  · exact ⟨hid,(hnew newId hrepl _ hb).symm,hidentity⟩
  · exact absurd (haold.trans hbold.symm) hcompanion

theorem moved_presentations_apart (hfresh : ∀ newId ∈ replacementId, ¬envelope.Refers newId)
    {a b a' b' : StoredAppPresentation} (ha : a ∈ envelope.presentations.filterMap parsePresentation)
    (hb : b ∈ envelope.presentations.filterMap parsePresentation) (hapart : PresentationsApart a b)
    (ha' : a.moved nowMs oldId replacementId removed = some a')
    (hb' : b.moved nowMs oldId replacementId removed = some b') : PresentationsApart a' b' := by
  have hnew : ∀ newId, replacementId = some newId → ∀ stored ∈ envelope.presentations.filterMap parsePresentation,
      stored.value.callerSessionId ≠ newId := fun newId hrepl stored hmem hno => hfresh newId hrepl (.inr ⟨stored,hmem,hno⟩)
  obtain ⟨hid,hbinding,hrequests⟩ := hapart
  rcases (StoredAppPresentation.moved_cases ha').2 with ⟨haold,rfl⟩ | ⟨haold,newId,hrepl,rfl⟩ <;>
    rcases (StoredAppPresentation.moved_cases hb').2 with ⟨hbold,rfl⟩ | ⟨hbold,newId',hrepl',rfl⟩
  · exact ⟨hid,hbinding,hrequests⟩
  · have hcaller := hnew newId' hrepl' _ ha
    exact ⟨hid,fun heq => hcaller (congrArg Prod.fst heq),fun heq => absurd heq hcaller⟩
  · have hcaller := (hnew newId hrepl _ hb).symm
    exact ⟨hid,fun heq => hcaller (congrArg Prod.fst heq),fun heq => absurd heq hcaller⟩
  · refine ⟨hid,fun heq => hbinding ?_,fun _ => hrequests (haold.trans hbold.symm)⟩
    -- both callers were the old Session, and the rest of the binding is as it was
    have hrest := congrArg Prod.snd heq
    exact Prod.ext (haold.trans hbold.symm) hrest

theorem moved_present (h : ValidEnvelope envelope) {stored stored' : StoredAppPresentation}
    (hmem : stored ∈ envelope.presentations.filterMap parsePresentation)
    (hmoved : stored.moved nowMs oldId replacementId (removedInstanceIds oldId replacementId envelope.instances) =
      some stored') :
    ∃ i' ∈ (envelope.instances.filterMap parseInstance).filterMap (·.moved nowMs oldId replacementId),
      i'.value.id = stored'.value.instanceId := by
  obtain ⟨hkept,hcases⟩ := StoredAppPresentation.moved_cases hmoved
  have hsame : stored'.value.instanceId = stored.value.instanceId := by
    rcases hcases with ⟨-,rfl⟩ | ⟨-,newId,-,rfl⟩ <;> rfl
  obtain ⟨value,hvalue,hid⟩ := h.present stored hmem
  obtain ⟨i,hi,rfl⟩ := mem_map.mp hvalue
  by_cases hold : i.value.companionSessionId = oldId
  · cases replacementId with
    | none => exact absurd (hid ▸ mem_removedInstanceIds hi hold) hkept
    | some newId =>
      refine ⟨i.replaceCompanion newId nowMs,mem_filterMap.mpr ⟨i,hi,?_⟩,hid.trans hsame.symm⟩
      simp [StoredAppInstance.moved, hold]
  · exact ⟨i,mem_filterMap.mpr ⟨i,hi,if_pos hold⟩,hid.trans hsame.symm⟩

/-- The envelope stays valid. -/
theorem ValidEnvelope.rewrite (h : ValidEnvelope envelope) (hsafe : ∀ newId ∈ replacementId, SafeSessionId newId)
    (hfresh : ∀ newId ∈ replacementId, ¬envelope.Refers newId) :
    ValidEnvelope (envelope.rewrite nowMs oldId replacementId) where
  instances_parse := by
    intro value' hvalue'
    obtain ⟨value,hvalue,hrewrite⟩ := mem_filterMap.mp hvalue'
    obtain ⟨stored,hparse⟩ := h.instances_parse value hvalue
    have hmoved : (rewriteInstance nowMs oldId replacementId value).bind parseInstance = _ := parse_rewriteInstance hsafe value
    rw [hrewrite, hparse, Option.bind_some, Option.bind_some] at hmoved
    rw [hmoved]
    unfold rewriteInstance at hrewrite
    unfold StoredAppInstance.moved
    simp only [hparse] at hrewrite
    split_ifs at hrewrite ⊢ with hother
    · exact ⟨stored,rfl⟩
    · obtain ⟨newId,rfl,-⟩ := Option.map_eq_some_iff.mp hrewrite
      exact ⟨_,rfl⟩
  instances_apart := by
    unfold parsedInstances
    rw [parsed_instances hsafe, pairwise_map]
    have hbefore := pairwise_map.mp h.instances_apart
    refine List.Pairwise.filterMap _ ?_ (List.Pairwise.and_mem.mp hbefore)
    rintro a b ⟨ha,hb,hapart⟩ a' ha' b' hb'
    exact moved_instances_apart hfresh ha hb hapart ha' hb'
  presentations_parse := by
    intro value' hvalue'
    obtain ⟨value,hvalue,hrewrite⟩ := mem_filterMap.mp hvalue'
    obtain ⟨stored,hparse⟩ := h.presentations_parse value hvalue
    have hmoved : (rewritePresentation nowMs oldId replacementId (removedInstanceIds oldId replacementId envelope.instances)
        value).bind parsePresentation = _ := parse_rewritePresentation hsafe value
    rw [hrewrite, hparse, Option.bind_some, Option.bind_some] at hmoved
    rw [hmoved]
    unfold rewritePresentation at hrewrite
    unfold StoredAppPresentation.moved
    simp only [hparse] at hrewrite
    split_ifs at hrewrite ⊢ with hremoved hother
    · exact ⟨stored,rfl⟩
    · obtain ⟨newId,rfl,-⟩ := Option.map_eq_some_iff.mp hrewrite
      exact ⟨_,rfl⟩
  presentations_apart := by
    rw [parsed_presentations hsafe]
    refine List.Pairwise.filterMap _ ?_ (List.Pairwise.and_mem.mp h.presentations_apart)
    rintro a b ⟨ha,hb,hapart⟩ a' ha' b' hb'
    exact moved_presentations_apart hfresh ha hb hapart ha' hb'
  present := by
    unfold parsedInstances
    rw [parsed_instances hsafe, parsed_presentations hsafe]
    intro stored' hmem'
    obtain ⟨stored,hmem,hmoved⟩ := mem_filterMap.mp hmem'
    obtain ⟨i,hi,hid⟩ := moved_present h hmem hmoved
    exact ⟨i.value,mem_map_of_mem hi,hid⟩

end Moves

def PresentationRefers (root : Fields) (sessionId : Text) : Prop :=
  ∃ value envelope, root appPresentationsStateKey = some value ∧ StoredEnvelope.fromValue value = some envelope ∧
    envelope.Refers sessionId

def PresentationsValid (root : Fields) : Prop :=
  ∀ value, root appPresentationsStateKey = some value → ∃ envelope, StoredEnvelope.fromValue value = some envelope ∧
    envelope.version = appPresentationsStateVersion ∧ ValidEnvelope envelope

section Root
variable {serdeError : Json → Text} {nowMs : ℕ} {oldId : Text} {replacementId : Option Text} {root out : Fields}

theorem validatedEnvelopeFromRoot_eq_ok {value : Json} {envelope : StoredEnvelope}
    (hvalue : root appPresentationsStateKey = some value) :
    validatedEnvelopeFromRoot serdeError root = .ok envelope ↔
      StoredEnvelope.fromValue value = some envelope ∧ envelope.version = appPresentationsStateVersion ∧
        ValidEnvelope envelope := by
  unfold validatedEnvelopeFromRoot envelopeFromRoot
  cases hfrom : StoredEnvelope.fromValue value with
  | none => simp [hvalue, hfrom, Except.bind]
  | some parsed =>
    simp only [hvalue, hfrom, Option.some.injEq]
    by_cases hversion : parsed.version = appPresentationsStateVersion
    · simp only [hversion, ne_eq, not_true_eq_false, if_false, Except.bind]
      cases hvalid : validateEnvelope parsed with
      | error error =>
        refine iff_of_false (by simp [Except.map]) ?_
        rintro ⟨rfl,-,hno⟩
        rw [validateEnvelope_eq_ok.mpr hno] at hvalid
        cases hvalid
      | ok done =>
        simp only [Except.map, Except.ok.injEq]
        constructor
        · rintro rfl
          exact ⟨rfl,hversion,validateEnvelope_eq_ok.mp hvalid⟩
        · exact fun h => h.1
    · simp only [ne_eq, hversion, not_false_eq_true, if_true, Except.bind]
      refine iff_of_false (by simp) ?_
      rintro ⟨rfl,hno,-⟩
      exact hversion hno

theorem rewritePresentations_of_safe (hold : SafeSessionId oldId) (hnew : ∀ newId ∈ replacementId, SafeSessionId newId) :
    rewriteAppPresentationSessionReferences serdeError nowMs oldId replacementId root =
      match root appPresentationsStateKey with
      | none => .ok root
      | some _ => (validatedEnvelopeFromRoot serdeError root).bind fun envelope =>
        if envelope.changed oldId replacementId then
          (validateEnvelope (envelope.rewrite nowMs oldId replacementId)).map fun _ =>
            Function.update root appPresentationsStateKey (some (envelope.rewrite nowMs oldId replacementId).toValue)
        else .ok root := by
  unfold rewriteAppPresentationSessionReferences
  rw [hold]
  cases replacementId with
  | none => rfl
  | some newId =>
    have hsafe := hnew newId rfl "replacement_session_id".toList
    simp only [hsafe]
    rfl

theorem safe_of_rewritePresentations
    (h : rewriteAppPresentationSessionReferences serdeError nowMs oldId replacementId root = .ok out) :
    SafeSessionId oldId ∧ ∀ newId ∈ replacementId, SafeSessionId newId := by
  unfold rewriteAppPresentationSessionReferences at h
  cases hold : validateAppPresentationSessionId "old_session_id".toList oldId with
  | error error =>
    rw [hold] at h
    cases h
  | ok done =>
    refine ⟨safeSessionId_of_ok hold,?_⟩
    rintro newId rfl
    rw [hold] at h
    cases hnew : validateAppPresentationSessionId "replacement_session_id".toList newId with
    | error error =>
      simp only [hnew] at h
      cases h
    | ok done => exact safeSessionId_of_ok hnew

/-- The ways to succeed. -/
theorem rewritePresentations_eq_ok :
    rewriteAppPresentationSessionReferences serdeError nowMs oldId replacementId root = .ok out ↔
      (SafeSessionId oldId ∧ ∀ newId ∈ replacementId, SafeSessionId newId) ∧
      (root appPresentationsStateKey = none ∧ out = root ∨
        ∃ value envelope, root appPresentationsStateKey = some value ∧ StoredEnvelope.fromValue value = some envelope ∧
          envelope.version = appPresentationsStateVersion ∧ ValidEnvelope envelope ∧
          (envelope.changed oldId replacementId = false ∧ out = root ∨
            envelope.changed oldId replacementId = true ∧ ValidEnvelope (envelope.rewrite nowMs oldId replacementId) ∧
              out = Function.update root appPresentationsStateKey
                (some (envelope.rewrite nowMs oldId replacementId).toValue))) := by
  constructor
  · intro h
    have hsafe := safe_of_rewritePresentations h
    refine ⟨hsafe,?_⟩
    rw [rewritePresentations_of_safe hsafe.1 hsafe.2] at h
    cases hvalue : root appPresentationsStateKey with
    | none =>
      simp only [hvalue, Except.ok.injEq] at h
      exact .inl ⟨rfl,h.symm⟩
    | some value =>
      simp only [hvalue] at h
      cases henvelope : validatedEnvelopeFromRoot serdeError root with
      | error error => simp [henvelope, Except.bind] at h
      | ok envelope =>
        obtain ⟨hfrom,hversion,hvalid⟩ := (validatedEnvelopeFromRoot_eq_ok hvalue).mp henvelope
        refine .inr ⟨value,envelope,rfl,hfrom,hversion,hvalid,?_⟩
        simp only [henvelope, Except.bind] at h
        split_ifs at h with hchanged
        · cases hnext : validateEnvelope (envelope.rewrite nowMs oldId replacementId) with
          | error error => simp [hnext, Except.map] at h
          | ok done =>
            simp only [hnext, Except.map, Except.ok.injEq] at h
            exact .inr ⟨hchanged,validateEnvelope_eq_ok.mp hnext,h.symm⟩
        · exact .inl ⟨by simpa using hchanged,(Except.ok.inj h).symm⟩
  · rintro ⟨hsafe,⟨hnone,rfl⟩ | ⟨value,envelope,hvalue,hfrom,hversion,hvalid,hcases⟩⟩
    · rw [rewritePresentations_of_safe hsafe.1 hsafe.2, hnone]
    · have henvelope : validatedEnvelopeFromRoot serdeError root = .ok envelope :=
        (validatedEnvelopeFromRoot_eq_ok hvalue).mpr ⟨hfrom,hversion,hvalid⟩
      rw [rewritePresentations_of_safe hsafe.1 hsafe.2]
      simp only [hvalue, henvelope, Except.bind]
      rcases hcases with ⟨hchanged,rfl⟩ | ⟨hchanged,hnext,rfl⟩
      · simp [hchanged]
      · simp [hchanged, validateEnvelope_eq_ok.mpr hnext, Except.map]

end Root

end Unpeel.Lifecycle
