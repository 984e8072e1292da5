import Mathlib.Data.List.Pairwise
import Unpeel.Foundation.Fallible
import Unpeel.Foundation.SpacedLog
import Unpeel.Lifecycle.AppPresentations

/-! # Asking for the presentation of an App

A Session asks for a view of an App in its project. The instance and the presentation are made
where there are none; a request that is remembered is answered with what it made. Each new
request to reveal advances the revision of its presentation, and a Controller that dismisses a
revision keeps a receipt of it.
-/
namespace Unpeel.Lifecycle
open Manifest Fallible List

structure EnsureAppPresentation where
  callerSessionId : Text
  projectId : Text
  appId : Text
  viewId : Text
  resource : Option AppResourceRef
  target : AppPresentationTarget
  reveal : Bool
  requestId : Option Text
deriving DecidableEq

structure EnsureAppPresentationResult where
  appInstance : AppInstance
  presentation : AppPresentation
  createdInstance : Bool
  createdPresentation : Bool
  revealRequested : Bool
  deduplicatedRequest : Bool
deriving DecidableEq

def validateEnsure (request : EnsureAppPresentation) : Except Text Unit := do
  validateAppPresentationSessionId "caller_session_id".toList request.callerSessionId
  validateOpaque "project_id".toList request.projectId projectIdMaxBytes
  validateToken "app_id".toList request.appId appIdMaxBytes
  validateToken "view_id".toList request.viewId viewIdMaxBytes
  match request.resource with
  | some resource => validateResource resource
  | none => pure ()
  match request.requestId with
  | some requestId => validateOpaque "request_id".toList requestId requestIdMaxBytes
  | none => pure ()

/-- What `new_id` gives is an identifier that may name a Session. -/
structure MintedId where
  text : Text
  token : ∀ field, validateToken field text sessionIdMaxBytes = .ok ()
  safe : SafeSessionId text

structure MintedIds where
  instanceId : MintedId
  companionId : MintedId
  presentationId : MintedId

section Ensuring

def Extra.empty (known : List Text) : Extra known := ⟨fun _ => none,fun _ _ => rfl⟩

def sameEffect (request : EnsureAppPresentation) (i : AppInstance) (p : AppPresentation) : Bool :=
  i.appId = request.appId && i.projectId = request.projectId && i.resource = request.resource &&
    p.viewId = request.viewId && p.target = request.target

def conflictError (requestId : Text) : Text :=
  "request id '".toList ++ requestId ++ "' was already used for a different App presentation".toList

def findRemembered (instances : List Json) (request : EnsureAppPresentation) (requestId : Text) :
    List Json → Except Text (Option EnsureAppPresentationResult)
  | [] => .ok none
  | value :: rest =>
    match parsePresentation value with
    | none => .error "validated App presentation could not be decoded".toList
    | some stored =>
      if stored.value.callerSessionId ≠ request.callerSessionId ∨ ¬stored.recentRequestIds.contains requestId then
        findRemembered instances request requestId rest
      else
        match (instances.filterMap parseInstance).find? (·.value.id = stored.value.instanceId) with
        | none => .error "remembered App presentation references a missing instance".toList
        | some found =>
          if sameEffect request found.value stored.value then .ok (some ⟨found.value,stored.value,false,false,false,true⟩)
          else .error (conflictError requestId)

def remembered (envelope : StoredEnvelope) (request : EnsureAppPresentation) : Except Text (Option EnsureAppPresentationResult) :=
  match request.requestId with
  | none => .ok none
  | some requestId => findRemembered envelope.instances request requestId envelope.presentations

def findEntry {α : Type} (parse : Json → Option α) (fits : α → Bool) : List Json → Option (ℕ × α)
  | [] => none
  | value :: rest =>
    match (parse value).filter fits with
    | some stored => some (0,stored)
    | none => (findEntry parse fits rest).map fun (index,stored) => (index + 1,stored)

def fitsInstance (request : EnsureAppPresentation) (stored : StoredAppInstance) : Bool :=
  stored.value.appId = request.appId && stored.value.projectId = request.projectId && stored.value.resource = request.resource

def newInstance (ids : MintedIds) (nowMs : ℕ) (request : EnsureAppPresentation) : StoredAppInstance where
  value := ⟨ids.instanceId.text,request.appId,request.projectId,request.resource,ids.companionId.text,nowMs,nowMs⟩
  extra := .empty _

def ensureInstance (ids : MintedIds) (nowMs : ℕ) (request : EnsureAppPresentation) (instances : List Json) :
    List Json × ℕ × StoredAppInstance × Bool :=
  match findEntry parseInstance (fitsInstance request) instances with
  | some (index,stored) => (instances,index,stored,false)
  | none =>
    let stored := newInstance ids nowMs request
    (instances ++ [stored.toValue],instances.length,stored,true)

def fitsPresentation (request : EnsureAppPresentation) (instanceId : Text) (stored : StoredAppPresentation) : Bool :=
  stored.value.callerSessionId = request.callerSessionId && stored.value.instanceId = instanceId &&
    stored.value.viewId = request.viewId && stored.value.target = request.target

def rememberRequestId (requestId : Option Text) (stored : StoredAppPresentation) : StoredAppPresentation :=
  match requestId with
  | none => stored
  | some requestId =>
    let recent := stored.recentRequestIds ++ [requestId]
    { stored with recentRequestIds := recent.drop (recent.length - recentRequestIdLimit) }

def overflowError : Text := "App presentation reveal revision overflow".toList

/-- `checked_add`. -/
def advanceRevision (nowMs : ℕ) (stored : StoredAppPresentation) : Except Text StoredAppPresentation :=
  if stored.value.revealRevision + 1 < 2 ^ 64 then
    .ok { stored with value := { stored.value with
      revealRevision := stored.value.revealRevision + 1
      updatedAtUnixMs := monotonicTimestamp stored.value.createdAtUnixMs stored.value.updatedAtUnixMs nowMs } }
  else .error overflowError

def newPresentation (ids : MintedIds) (nowMs : ℕ) (request : EnsureAppPresentation) (instanceId : Text) : StoredAppPresentation where
  value := ⟨ids.presentationId.text,request.callerSessionId,instanceId,request.viewId,request.target,
    if request.reveal then 1 else 0,nowMs,nowMs⟩
  recentRequestIds := []
  extra := .empty _

def revealAgain (nowMs : ℕ) (request : EnsureAppPresentation) (stored : StoredAppPresentation) :
    Except Text (StoredAppPresentation × Bool) := do
  if request.requestId.any stored.recentRequestIds.contains then return (stored,true)
  else
    let advanced ← if request.reveal then advanceRevision nowMs stored else pure stored
    return (rememberRequestId request.requestId advanced,false)

/-- The presentations with the one for the request, the index of it, whether it is new and
whether the request was remembered. -/
def ensurePresentation (ids : MintedIds) (nowMs : ℕ) (request : EnsureAppPresentation) (instanceId : Text)
    (presentations : List Json) : Except Text (List Json × ℕ × StoredAppPresentation × Bool × Bool) := do
  match findEntry parsePresentation (fitsPresentation request instanceId) presentations with
  | some (index,stored) =>
    let (updated,deduplicated) ← revealAgain nowMs request stored
    return (presentations,index,updated,false,deduplicated)
  | none =>
    let stored := rememberRequestId request.requestId (newPresentation ids nowMs request instanceId)
    return (presentations ++ [stored.toValue],presentations.length,stored,true,false)

def ensureInRoot (serdeError : Json → Text) (ids : MintedIds) (nowMs : ℕ) (request : EnsureAppPresentation) (root : Fields) :
    Except Text (Fields × EnsureAppPresentationResult) := do
  validateEnsure request
  let envelope ← validatedEnvelopeFromRoot serdeError root
  match ← remembered envelope request with
  | some result => return (root,result)
  | none =>
    let (instances,instanceIndex,stored,createdInstance) := ensureInstance ids nowMs request envelope.instances
    let (presentations,presentationIndex,presentation,createdPresentation,deduplicated) ←
      ensurePresentation ids nowMs request stored.value.id envelope.presentations
    let next := { envelope with
      instances := instances.set instanceIndex stored.toValue
      presentations := presentations.set presentationIndex presentation.toValue }
    validateEnvelope next
    return (Function.update root appPresentationsStateKey (some next.toValue),
      ⟨stored.value,presentation.value,createdInstance,createdPresentation,request.reveal && !deduplicated,deduplicated⟩)

end Ensuring

section Dismissing

structure AppPresentationDismissal where
  presentationId : Text
  dismissedRevealRevision : ℕ
deriving DecidableEq

namespace AppPresentationDismissal

def forPresentation (presentation : AppPresentation) : AppPresentationDismissal := ⟨presentation.id,presentation.revealRevision⟩

def suppresses (dismissal : AppPresentationDismissal) (presentation : AppPresentation) : Bool :=
  dismissal.presentationId = presentation.id && presentation.revealRevision ≤ dismissal.dismissedRevealRevision

end AppPresentationDismissal

def recordAppPresentationDismissal (previous : Option AppPresentationDismissal) (presentation : AppPresentation) :
    AppPresentationDismissal :=
  match previous.filter (·.suppresses presentation) with
  | some previous => previous
  | none => .forPresentation presentation

def shouldRevealAppPresentation (presentation : AppPresentation) (dismissal : Option AppPresentationDismissal) : Bool :=
  0 < presentation.revealRevision && !dismissal.any (·.suppresses presentation)

end Dismissing

section Entries
variable {α : Type} {parse : Json → Option α} {fits : α → Bool} {values : List Json}
variable {stored : α} {written : Json}

theorem findEntry_eq_some {index : ℕ} (h : findEntry parse fits values = some (index,stored)) :
    ∃ front value back, values = front ++ value :: back ∧ front.length = index ∧ parse value = some stored ∧
      fits stored = true := by
  induction values generalizing index with
  | nil => cases h
  | cons value rest ih =>
    cases hfound : (parse value).filter fits with
    | some found =>
      simp only [findEntry, hfound, Option.some.injEq, Prod.mk.injEq] at h
      obtain ⟨rfl,rfl⟩ := h
      obtain ⟨hparse,hfits⟩ := Option.filter_eq_some_iff.mp hfound
      exact ⟨[],value,rest,rfl,rfl,hparse,hfits⟩
    | none =>
      simp only [findEntry, hfound] at h
      obtain ⟨⟨before,found⟩,hrest,heq⟩ := Option.map_eq_some_iff.mp h
      obtain ⟨rfl,rfl⟩ := Prod.mk.inj heq
      obtain ⟨front,entry,back,rfl,rfl,hparse,hfits⟩ := ih hrest
      exact ⟨value :: front,entry,back,rfl,rfl,hparse,hfits⟩

theorem findEntry_eq_none (h : findEntry parse fits values = none) : ∀ stored ∈ values.filterMap parse, fits stored = false := by
  induction values with
  | nil => simp
  | cons value rest ih =>
    cases hfound : (parse value).filter fits with
    | some found => simp [findEntry, hfound] at h
    | none =>
      simp only [findEntry, hfound, Option.map_eq_none_iff] at h
      intro stored hmem
      rw [mem_filterMap] at hmem
      obtain ⟨entry,hentry,hparse⟩ := hmem
      rcases mem_cons.mp hentry with rfl | hentry
      · simpa [hparse] using hfound
      · exact ih h stored (mem_filterMap.mpr ⟨entry,hentry,hparse⟩)

theorem filterMap_set_middle {front back : List Json} {value : Json} (h : parse written = some stored) :
    ((front ++ value :: back).set front.length written).filterMap parse =
      front.filterMap parse ++ stored :: back.filterMap parse := by
  rw [set_append_right _ _ (le_refl _), Nat.sub_self, set_cons_zero, filterMap_append,
    filterMap_cons_some h]

theorem set_parses {index : ℕ} (h : ∀ value ∈ values, ∃ stored, parse value = some stored)
    (hwritten : parse written = some stored) : ∀ value ∈ values.set index written, ∃ stored, parse value = some stored := by
  intro value hmem
  rcases mem_or_eq_of_mem_set hmem with hmem | rfl
  · exact h value hmem
  · exact ⟨stored,hwritten⟩

theorem append_parses (h : ∀ value ∈ values, ∃ stored, parse value = some stored)
    (hwritten : parse written = some stored) : ∀ value ∈ values ++ [written], ∃ stored, parse value = some stored := by
  intro value hmem
  rcases mem_append.mp hmem with hmem | hmem
  · exact h value hmem
  · rw [mem_singleton.mp hmem]
    exact ⟨stored,hwritten⟩

end Entries

section Requests
variable {request : EnsureAppPresentation} {ids : MintedIds} {nowMs : ℕ}

theorem validateToken_eq_ok_iff (field field' value : Text) (maxBytes : ℕ) :
    validateToken field value maxBytes = .ok () ↔ validateToken field' value maxBytes = .ok () := by
  unfold validateToken
  split_ifs <;> simp

/-- What `validate_ensure` checks. -/
structure ValidRequest (request : EnsureAppPresentation) : Prop where
  caller : SafeSessionId request.callerSessionId
  project : ∀ field, validateOpaque field request.projectId projectIdMaxBytes = .ok ()
  app : ∀ field, validateToken field request.appId appIdMaxBytes = .ok ()
  view : ∀ field, validateToken field request.viewId viewIdMaxBytes = .ok ()
  resource : ∀ resource ∈ request.resource, validateResource resource = .ok ()
  requestId : ∀ requestId ∈ request.requestId, ∀ field, validateOpaque field requestId requestIdMaxBytes = .ok ()

theorem validRequest_of_ok (h : validateEnsure request = .ok ()) : ValidRequest request := by
  obtain ⟨⟨⟩,hcaller,h⟩ := bind_eq_ok h
  obtain ⟨⟨⟩,hproject,h⟩ := bind_eq_ok h
  obtain ⟨⟨⟩,happ,h⟩ := bind_eq_ok h
  obtain ⟨⟨⟩,hview,h⟩ := bind_eq_ok h
  have hrest : (∀ resource ∈ request.resource, validateResource resource = .ok ()) ∧
      ∀ requestId ∈ request.requestId, validateOpaque "request_id".toList requestId requestIdMaxBytes = .ok () := by
    cases hresource : request.resource <;> cases hid : request.requestId <;> simp only [hresource, hid] at h
    · simp
    · simpa using h
    · obtain ⟨⟨⟩,hok,-⟩ := bind_eq_ok h
      simpa using hok
    · obtain ⟨⟨⟩,hok,h⟩ := bind_eq_ok h
      simpa using ⟨hok,h⟩
  exact {
    caller := safeSessionId_of_ok hcaller
    project := fun field => (validateOpaque_eq_ok_iff _ field _ _).mp hproject
    app := fun field => (validateToken_eq_ok_iff _ field _ _).mp happ
    view := fun field => (validateToken_eq_ok_iff _ field _ _).mp hview
    resource := hrest.1
    requestId := fun requestId hmem field => (validateOpaque_eq_ok_iff _ field _ _).mp (hrest.2 requestId hmem) }

theorem token_of_validInstance {i : AppInstance} (h : validInstance i = true) :
    ∀ field, validateToken field i.id sessionIdMaxBytes = .ok () := by
  intro field
  simp only [validInstance, Bool.and_eq_true] at h
  have hok := h.1.1.1.1.1
  rw [validateToken_eq_ok_iff field "instance.id".toList]
  cases htoken : validateToken "instance.id".toList i.id sessionIdMaxBytes with
  | ok done => rfl
  | error error =>
    rw [htoken] at hok
    cases hok

theorem ValidRequest.newInstance (h : ValidRequest request) : validInstance (newInstance ids nowMs request).value = true := by
  have hresource : request.resource.all (fun value => (validateResource value).isOk) = true := by
    rw [Option.all_eq_true]
    intro resource hmem
    rw [h.resource resource hmem]
    rfl
  simp only [validInstance, Lifecycle.newInstance, ids.instanceId.token, h.app, h.project, hresource, ids.companionId.safe _]
  simp [Except.isOk, Except.toBool]

theorem ValidRequest.newPresentation (h : ValidRequest request) {instanceId : Text}
    (hid : ∀ field, validateToken field instanceId sessionIdMaxBytes = .ok ()) :
    validPresentation (newPresentation ids nowMs request instanceId).value = true := by
  simp only [validPresentation, Lifecycle.newPresentation, ids.presentationId.token, h.caller _, hid, h.view]
  simp [Except.isOk, Except.toBool]

end Requests

def StoredEnvelope.storedInstances (envelope : StoredEnvelope) : List StoredAppInstance :=
  envelope.instances.filterMap parseInstance

def StoredEnvelope.storedPresentations (envelope : StoredEnvelope) : List StoredAppPresentation :=
  envelope.presentations.filterMap parsePresentation

def Remembers (request : EnsureAppPresentation) (requestId : Text) (stored : StoredAppPresentation) : Prop :=
  stored.value.callerSessionId = request.callerSessionId ∧ requestId ∈ stored.recentRequestIds

def answerAgain (request : EnsureAppPresentation) (requestId : Text) (i : AppInstance) (p : AppPresentation) :
    Except Text EnsureAppPresentationResult :=
  if sameEffect request i p then .ok ⟨i,p,false,false,false,true⟩ else .error (conflictError requestId)

def InstancesAfter (ids : MintedIds) (nowMs : ℕ) (request : EnsureAppPresentation) (before after : List StoredAppInstance)
    (stored : StoredAppInstance) : Prop :=
  stored ∈ before ∧ after = before ∨
    stored = newInstance ids nowMs request ∧ (∀ old ∈ before, fitsInstance request old = false) ∧ after = before ++ [stored]

section Outcomes
variable {request : EnsureAppPresentation} {ids : MintedIds} {nowMs : ℕ} {envelope : StoredEnvelope}

theorem ValidEnvelope.instance_of (h : ValidEnvelope envelope) {stored : StoredAppPresentation}
    (hmem : stored ∈ envelope.storedPresentations) :
    ∃ i ∈ envelope.storedInstances, i.value.id = stored.value.instanceId := by
  obtain ⟨value,hvalue,hid⟩ := h.present stored hmem
  obtain ⟨i,hi,rfl⟩ := mem_map.mp hvalue
  exact ⟨i,hi,hid⟩

theorem findRemembered_cases (request : EnsureAppPresentation) (requestId : Text) {instances values : List Json}
    (hparse : ∀ value ∈ values, ∃ stored, parsePresentation value = some stored)
    (hpresent : ∀ stored ∈ values.filterMap parsePresentation,
      ∃ i ∈ instances.filterMap parseInstance, i.value.id = stored.value.instanceId) :
    (findRemembered instances request requestId values = .ok none ∧
      ∀ stored ∈ values.filterMap parsePresentation, ¬Remembers request requestId stored) ∨
    ∃ stored ∈ values.filterMap parsePresentation, Remembers request requestId stored ∧
      ∃ i ∈ instances.filterMap parseInstance, i.value.id = stored.value.instanceId ∧
        findRemembered instances request requestId values = (answerAgain request requestId i.value stored.value).map some := by
  induction values with
  | nil => exact .inl ⟨rfl,fun stored hmem => nomatch hmem⟩
  | cons value rest ih =>
    obtain ⟨stored,hstored⟩ := hparse value (mem_cons_self ..)
    have hcons : (value :: rest).filterMap parsePresentation = stored :: rest.filterMap parsePresentation :=
      filterMap_cons_some hstored
    rw [hcons] at hpresent ⊢
    by_cases hremembers : Remembers request requestId stored
    · obtain ⟨i,hi,hid⟩ := hpresent stored (mem_cons_self ..)
      have hsome : ((instances.filterMap parseInstance).find? (·.value.id = stored.value.instanceId)).isSome := by
        rw [find?_isSome]
        exact ⟨i,hi,decide_eq_true hid⟩
      obtain ⟨found,hfound⟩ := Option.isSome_iff_exists.mp hsome
      have hfoundId := find?_some hfound
      refine .inr ⟨stored,mem_cons_self ..,hremembers,found,mem_of_find?_eq_some hfound,
        of_decide_eq_true hfoundId,?_⟩
      have hskip : ¬(stored.value.callerSessionId ≠ request.callerSessionId ∨ ¬stored.recentRequestIds.contains requestId) := by
        simpa [Remembers] using hremembers
      simp only [findRemembered, hstored, if_neg hskip, hfound, answerAgain]
      split_ifs <;> rfl
    · have hskip : stored.value.callerSessionId ≠ request.callerSessionId ∨ ¬stored.recentRequestIds.contains requestId := by
        simpa [Remembers, or_iff_not_imp_left] using hremembers
      simp only [findRemembered, hstored, if_pos hskip]
      rcases ih (fun value hmem => hparse value (mem_cons_of_mem _ hmem))
        (fun stored hmem => hpresent stored (mem_cons_of_mem _ hmem)) with ⟨hnone,hnot⟩ | ⟨other,hmem,hother⟩
      · exact .inl ⟨hnone,forall_mem_cons.mpr ⟨hremembers,hnot⟩⟩
      · exact .inr ⟨other,mem_cons_of_mem _ hmem,hother⟩

theorem remembered_cases (request : EnsureAppPresentation) (h : ValidEnvelope envelope) :
    (remembered envelope request = .ok none ∧ ∀ requestId ∈ request.requestId,
      ∀ stored ∈ envelope.storedPresentations, ¬Remembers request requestId stored) ∨
    ∃ requestId ∈ request.requestId, ∃ stored ∈ envelope.storedPresentations, Remembers request requestId stored ∧
      ∃ i ∈ envelope.storedInstances, i.value.id = stored.value.instanceId ∧
        remembered envelope request = (answerAgain request requestId i.value stored.value).map some := by
  unfold remembered
  cases hid : request.requestId with
  | none => exact .inl ⟨rfl,fun _ hno => nomatch hno⟩
  | some requestId =>
    rcases findRemembered_cases request requestId h.presentations_parse
      (fun stored hmem => h.instance_of hmem) with ⟨hnone,hnot⟩ | hfound
    · refine .inl ⟨hnone,?_⟩
      rintro _ ⟨⟩
      exact hnot
    · exact .inr ⟨requestId,rfl,hfound⟩

theorem ensureInstance_cases (ids : MintedIds) (nowMs : ℕ) (h : ValidEnvelope envelope) (hrequest : ValidRequest request) :
    ∃ instances index stored created,
      ensureInstance ids nowMs request envelope.instances = (instances,index,stored,created) ∧
      (∀ value ∈ instances.set index stored.toValue, ∃ stored, parseInstance value = some stored) ∧
      validInstance stored.value = true ∧ fitsInstance request stored = true ∧
      InstancesAfter ids nowMs request envelope.storedInstances
        ((instances.set index stored.toValue).filterMap parseInstance) stored := by
  unfold ensureInstance
  cases hfound : findEntry parseInstance (fitsInstance request) envelope.instances with
  | some found =>
    obtain ⟨front,value,back,hsplit,hindex,hparse,hfits⟩ := findEntry_eq_some hfound
    have hvalid := valid_of_parseInstance hparse
    have hwritten := parseInstance_toValue hvalid
    refine ⟨_,_,_,_,rfl,set_parses h.instances_parse hwritten,hvalid,hfits,.inl ⟨?_,?_⟩⟩
    · exact mem_filterMap.mpr ⟨value,by simp [hsplit],hparse⟩
    · unfold StoredEnvelope.storedInstances
      rw [hsplit, ← hindex, filterMap_set_middle hwritten, filterMap_append, filterMap_cons_some hparse]
  | none =>
    have hvalid : validInstance (newInstance ids nowMs request).value = true := hrequest.newInstance
    have hwritten := parseInstance_toValue hvalid
    have hfits : fitsInstance request (newInstance ids nowMs request) = true := by simp [fitsInstance, newInstance]
    refine ⟨_,_,_,_,rfl,set_parses (append_parses h.instances_parse hwritten) hwritten,hvalid,hfits,
      .inr ⟨rfl,findEntry_eq_none hfound,?_⟩⟩
    rw [filterMap_set_middle hwritten]
    rfl

end Outcomes

/-- What a request that is applied makes of a presentation with this revision and these request
ids. -/
def Revealed (request : EnsureAppPresentation) (revision : ℕ) (requestIds : List Text) (stored : StoredAppPresentation) : Prop :=
  stored.value.revealRevision = revision + request.reveal.toNat ∧
    stored.recentRequestIds = (requestIds ++ request.requestId.toList).rtake recentRequestIdLimit

section RequestIds
variable {requestIds : List Text} {stored : StoredAppPresentation} {requestId : Option Text}

theorem keptRequestIds_eq_self : keptRequestIds requestIds = requestIds ↔
    (∀ requestId ∈ requestIds, (validateOpaque "recent_request_id".toList requestId requestIdMaxBytes).isOk = true) ∧
      requestIds.length ≤ recentRequestIdLimit := by
  constructor
  · intro h
    rw [← h]
    refine ⟨fun requestId hmem => (mem_filter.mp (mem_of_mem_drop hmem)).2,?_⟩
    simp only [keptRequestIds, length_drop]
    omega
  · rintro ⟨hvalid,hshort⟩
    rw [keptRequestIds, filter_eq_self.mpr hvalid, Nat.sub_eq_zero_of_le hshort, drop_zero]

theorem rememberRequestId_recent (h : keptRequestIds stored.recentRequestIds = stored.recentRequestIds) :
    (rememberRequestId requestId stored).recentRequestIds =
      (stored.recentRequestIds ++ requestId.toList).rtake recentRequestIdLimit := by
  cases requestId with
  | none =>
    have hshort := (keptRequestIds_eq_self.mp h).2
    simp [rememberRequestId, List.rtake, Nat.sub_eq_zero_of_le hshort]
  | some requestId => rfl

theorem rememberRequestId_kept (h : keptRequestIds stored.recentRequestIds = stored.recentRequestIds)
    (hvalid : ∀ text ∈ requestId, ∀ field, validateOpaque field text requestIdMaxBytes = .ok ()) :
    keptRequestIds (rememberRequestId requestId stored).recentRequestIds =
      (rememberRequestId requestId stored).recentRequestIds := by
  rw [rememberRequestId_recent h, keptRequestIds_eq_self]
  constructor
  · intro text hmem
    rcases mem_append.mp (mem_of_mem_drop hmem) with hmem | hmem
    · exact (keptRequestIds_eq_self.mp h).1 text hmem
    · rw [hvalid text (Option.mem_toList.mp hmem)]
      rfl
  · simp only [List.rtake, length_drop]
    omega

@[simp] theorem rememberRequestId_value (requestId : Option Text) (stored : StoredAppPresentation) :
    (rememberRequestId requestId stored).value = stored.value := by
  cases requestId <;> rfl

end RequestIds

section Presentations
variable {request : EnsureAppPresentation} {ids : MintedIds} {nowMs : ℕ} {envelope : StoredEnvelope} {instanceId : Text}
  {stored : StoredAppPresentation}

def StoredAppPresentation.revealed (nowMs : ℕ) (request : EnsureAppPresentation) (stored : StoredAppPresentation) :
    StoredAppPresentation :=
  rememberRequestId request.requestId <| if request.reveal then { stored with value := { stored.value with
      revealRevision := stored.value.revealRevision + 1
      updatedAtUnixMs := monotonicTimestamp stored.value.createdAtUnixMs stored.value.updatedAtUnixMs nowMs } }
    else stored

theorem revealAgain_eq (h : ∀ requestId ∈ request.requestId, requestId ∉ stored.recentRequestIds) :
    revealAgain nowMs request stored =
      if request.reveal = true ∧ 2 ^ 64 ≤ stored.value.revealRevision + 1 then .error overflowError
      else .ok (stored.revealed nowMs request,false) := by
  have hnot : request.requestId.any stored.recentRequestIds.contains = false := by
    rw [← Bool.not_eq_true, Option.any_eq_true_iff_get]
    rintro ⟨hsome,hmem⟩
    exact h _ (Option.get_mem hsome) (contains_iff_mem.mp hmem)
  unfold revealAgain advanceRevision StoredAppPresentation.revealed
  simp only [hnot, Bool.false_eq_true, if_false]
  cases request.reveal with
  | false => simp; rfl
  | true =>
    by_cases hroom : stored.value.revealRevision + 1 < 2 ^ 64
    · simp only [if_true, if_pos hroom, true_and, not_le.mpr hroom, if_false]
      rfl
    · simp only [if_true, if_neg hroom, true_and, not_lt.mp hroom]
      rfl

theorem validPresentation_revealed (h : validPresentation stored.value = true) :
    validPresentation (stored.revealed nowMs request).value = true := by
  unfold StoredAppPresentation.revealed
  rw [rememberRequestId_value]
  split_ifs
  · simp only [validPresentation, Bool.and_eq_true, decide_eq_true_eq] at h ⊢
    exact ⟨h.1,(le_max_right nowMs _).trans (le_max_left _ _)⟩
  · exact h

theorem revealed_of_kept (h : keptRequestIds stored.recentRequestIds = stored.recentRequestIds) :
    Revealed request stored.value.revealRevision stored.recentRequestIds (stored.revealed nowMs request) := by
  unfold Revealed StoredAppPresentation.revealed
  cases request.reveal with
  | false | true => exact ⟨by simp,rememberRequestId_recent h⟩

structure PresentationsAfter (ids : MintedIds) (request : EnsureAppPresentation) (instanceId : Text)
    (before after : List StoredAppPresentation) (stored : StoredAppPresentation) (front back : List StoredAppPresentation) :
    Prop where
  split : after = front ++ stored :: back
  fits : fitsPresentation request instanceId stored = true
  cases : (∃ old, before = front ++ old :: back ∧ fitsPresentation request instanceId old = true ∧
      stored.value.id = old.value.id ∧ Revealed request old.value.revealRevision old.recentRequestIds stored) ∨
    before = front ∧ back = [] ∧ stored.value.id = ids.presentationId.text ∧ Revealed request 0 [] stored ∧
      ∀ old ∈ before, fitsPresentation request instanceId old = false

theorem fitsPresentation_revealed :
    fitsPresentation request instanceId (stored.revealed nowMs request) = fitsPresentation request instanceId stored := by
  unfold fitsPresentation StoredAppPresentation.revealed
  rw [rememberRequestId_value]
  split_ifs <;> rfl

theorem id_revealed : (stored.revealed nowMs request).value.id = stored.value.id := by
  unfold StoredAppPresentation.revealed
  rw [rememberRequestId_value]
  split_ifs <;> rfl

theorem kept_revealed (h : keptRequestIds stored.recentRequestIds = stored.recentRequestIds) (hrequest : ValidRequest request) :
    keptRequestIds (stored.revealed nowMs request).recentRequestIds = (stored.revealed nowMs request).recentRequestIds := by
  refine rememberRequestId_kept ?_ hrequest.requestId
  split_ifs <;> exact h

theorem ensurePresentation_cases (h : ValidEnvelope envelope) (hrequest : ValidRequest request)
    (hinstance : ∀ field, validateToken field instanceId sessionIdMaxBytes = .ok ())
    (hnew : ∀ requestId ∈ request.requestId, ∀ stored ∈ envelope.storedPresentations, ¬Remembers request requestId stored) :
    ensurePresentation ids nowMs request instanceId envelope.presentations = .error overflowError ∨
      ∃ presentations index stored created front back,
        ensurePresentation ids nowMs request instanceId envelope.presentations =
          .ok (presentations,index,stored,created,false) ∧
        (∀ value ∈ presentations.set index stored.toValue, ∃ stored, parsePresentation value = some stored) ∧
        PresentationsAfter ids request instanceId envelope.storedPresentations
          ((presentations.set index stored.toValue).filterMap parsePresentation) stored front back := by
  unfold ensurePresentation
  cases hfound : findEntry parsePresentation (fitsPresentation request instanceId) envelope.presentations with
  | some found =>
    obtain ⟨index,stored⟩ := found
    obtain ⟨front,value,back,hsplit,hindex,hparse,hfits⟩ := findEntry_eq_some hfound
    obtain ⟨hvalid,hkept⟩ := valid_of_parsePresentation hparse
    have hmem : stored ∈ envelope.storedPresentations := mem_filterMap.mpr ⟨value,by simp [hsplit],hparse⟩
    have hcaller : stored.value.callerSessionId = request.callerSessionId := by
      simp only [fitsPresentation, Bool.and_eq_true, decide_eq_true_eq] at hfits
      exact hfits.1.1.1
    have hfresh : ∀ requestId ∈ request.requestId, requestId ∉ stored.recentRequestIds := fun requestId hid hno =>
      hnew requestId hid stored hmem ⟨hcaller,hno⟩
    simp only [revealAgain_eq hfresh]
    by_cases hfull : request.reveal = true ∧ 2 ^ 64 ≤ stored.value.revealRevision + 1
    · exact .inl (by rw [if_pos hfull]; rfl)
    · have hwritten : parsePresentation (stored.revealed nowMs request).toValue = some (stored.revealed nowMs request) :=
        parsePresentation_toValue (validPresentation_revealed hvalid) (kept_revealed hkept hrequest)
      refine .inr ⟨envelope.presentations,index,stored.revealed nowMs request,false,front.filterMap parsePresentation,
        back.filterMap parsePresentation,by rw [if_neg hfull]; rfl,set_parses h.presentations_parse hwritten,?_,?_,?_⟩
      · rw [hsplit, ← hindex, filterMap_set_middle hwritten]
      · rw [fitsPresentation_revealed]
        exact hfits
      · refine .inl ⟨stored,?_,hfits,id_revealed,revealed_of_kept hkept⟩
        unfold StoredEnvelope.storedPresentations
        rw [hsplit, filterMap_append, filterMap_cons_some hparse]
  | none =>
    have hempty : keptRequestIds (newPresentation ids nowMs request instanceId).recentRequestIds =
        (newPresentation ids nowMs request instanceId).recentRequestIds := rfl
    have hvalid : validPresentation (newPresentation ids nowMs request instanceId).value = true :=
      hrequest.newPresentation hinstance
    have hkept := rememberRequestId_kept hempty hrequest.requestId
    have hvalue := rememberRequestId_value request.requestId (newPresentation ids nowMs request instanceId)
    have hrecent : (rememberRequestId request.requestId (newPresentation ids nowMs request instanceId)).recentRequestIds = _ :=
      rememberRequestId_recent hempty
    generalize hstored : rememberRequestId request.requestId (newPresentation ids nowMs request instanceId) = stored
      at hkept hvalue hrecent ⊢
    have hwritten : parsePresentation stored.toValue = some stored := parsePresentation_toValue (by rw [hvalue]; exact hvalid) hkept
    refine .inr ⟨_,_,stored,true,envelope.storedPresentations,[],rfl,
      set_parses (append_parses h.presentations_parse hwritten) hwritten,?_,?_,
      .inr ⟨rfl,rfl,?_,⟨?_,hrecent⟩,findEntry_eq_none hfound⟩⟩
    · rw [filterMap_set_middle hwritten]
      rfl
    · simp [fitsPresentation, hvalue, newPresentation]
    · rw [hvalue]
      rfl
    · rw [hvalue]
      cases hreveal : request.reveal <;> simp [newPresentation, hreveal]

end Presentations

def StoredEnvelope.withEntries (envelope : StoredEnvelope) (instances presentations : List Json) : StoredEnvelope :=
  { envelope with instances, presentations }

structure FreshIds (ids : MintedIds) (envelope : StoredEnvelope) : Prop where
  instances : ∀ i ∈ envelope.storedInstances, i.value.id ≠ ids.instanceId.text ∧ i.value.companionSessionId ≠ ids.companionId.text
  presentations : ∀ p ∈ envelope.storedPresentations, p.value.id ≠ ids.presentationId.text

section Validity
variable {request : EnsureAppPresentation} {ids : MintedIds} {nowMs : ℕ} {envelope : StoredEnvelope} {instanceId : Text}
variable {stored : StoredAppPresentation} {front back : List StoredAppPresentation}

theorem fitsInstance_iff {stored : StoredAppInstance} :
    fitsInstance request stored = true ↔ stored.value.identity = (request.appId,request.projectId,request.resource) := by
  simp [fitsInstance, AppInstance.identity, and_assoc]

theorem fitsPresentation_iff :
    fitsPresentation request instanceId stored = true ↔
      stored.value.binding = (request.callerSessionId,instanceId,request.viewId,request.target) := by
  simp [fitsPresentation, AppPresentation.binding, and_assoc]

theorem PresentationsApart.symm {a b : StoredAppPresentation} (h : PresentationsApart a b) : PresentationsApart b a := by
  obtain ⟨hid,hbinding,hrequests⟩ := h
  exact ⟨hid.symm,hbinding.symm,fun hcaller requestId hmem hno => hrequests hcaller.symm requestId hno hmem⟩

theorem instancesApart_new (hfresh : FreshIds ids envelope)
    (hunfit : ∀ old ∈ envelope.storedInstances, fitsInstance request old = false)
    (h : envelope.storedInstances.Pairwise fun a b => InstancesApart a.value b.value) :
    (envelope.storedInstances ++ [newInstance ids nowMs request]).Pairwise fun a b => InstancesApart a.value b.value := by
  rw [pairwise_append]
  refine ⟨h,pairwise_singleton _ _,?_⟩
  intro old hold new hnew
  obtain rfl := mem_singleton.mp hnew
  obtain ⟨hid,hcompanion⟩ := hfresh.instances old hold
  refine ⟨hid,hcompanion,fun hsame => ?_⟩
  have hno := hunfit old hold
  rw [fitsInstance_iff.mpr hsame] at hno
  cases hno

theorem presentationsApart_after {after : List StoredAppPresentation}
    (hfresh : ∀ p ∈ envelope.storedPresentations, p.value.id ≠ ids.presentationId.text)
    (hnew : ∀ requestId ∈ request.requestId, ∀ stored ∈ envelope.storedPresentations, ¬Remembers request requestId stored)
    (h : envelope.storedPresentations.Pairwise PresentationsApart)
    (hafter : PresentationsAfter ids request instanceId envelope.storedPresentations after stored front back) :
    after.Pairwise PresentationsApart := by
  have hbinding := fitsPresentation_iff.mp hafter.fits
  have hcaller : stored.value.callerSessionId = request.callerSessionId := congrArg Prod.fst hbinding
  -- the request ids of the presentation are those it had and the one of the request
  have hshared : ∀ old ∈ envelope.storedPresentations, stored.value.callerSessionId = old.value.callerSessionId →
      ∀ (revision : ℕ) (requestIds : List Text), Revealed request revision requestIds stored →
        (∀ requestId ∈ old.recentRequestIds, requestId ∉ requestIds) →
          ∀ requestId ∈ old.recentRequestIds, requestId ∉ stored.recentRequestIds := by
    intro old hold hsame revision requestIds hrevealed hapart requestId hmem hno
    rw [hrevealed.2] at hno
    rcases mem_append.mp (mem_of_mem_drop hno) with hno | hno
    · exact hapart requestId hmem hno
    · exact hnew requestId (Option.mem_toList.mp hno) old hold ⟨hsame.symm.trans hcaller,hmem⟩
  rw [hafter.split, pairwise_middle PresentationsApart.symm]
  rcases hafter.cases with ⟨old,hbefore,hfits,hid,hrevealed⟩ | ⟨hbefore,rfl,hid,hrevealed,hunfit⟩
  · have hold := h
    rw [hbefore, pairwise_middle PresentationsApart.symm, pairwise_cons] at hold
    refine pairwise_cons.mpr ⟨fun other hother => ?_,hold.2⟩
    obtain ⟨hotherId,hotherBinding,hrequests⟩ := hold.1 other hother
    have hsame : stored.value.binding = old.value.binding := hbinding.trans (fitsPresentation_iff.mp hfits).symm
    have hsameCaller : stored.value.callerSessionId = old.value.callerSessionId := congrArg Prod.fst hsame
    have hmem : other ∈ envelope.storedPresentations := by
      rw [hbefore]
      rcases mem_append.mp hother with hother | hother
      · exact mem_append_left _ hother
      · exact mem_append_right _ (mem_cons_of_mem _ hother)
    refine ⟨hid ▸ hotherId,hsame ▸ hotherBinding,fun heq => ?_⟩
    exact hshared other hmem heq _ _ hrevealed (hrequests (hsameCaller.symm.trans heq))
  · refine pairwise_cons.mpr ⟨fun other hother => ?_,by simpa [← hbefore] using h⟩
    rw [append_nil, ← hbefore] at hother
    refine ⟨hid ▸ (hfresh other hother).symm,fun hsame => ?_,fun heq => ?_⟩
    · have hno := hunfit other hother
      rw [fitsPresentation_iff.mpr (hsame.symm.trans hbinding)] at hno
      cases hno
    · exact hshared other hother heq 0 [] hrevealed fun _ _ hno => nomatch hno

theorem InstancesAfter.mem {before after : List StoredAppInstance} {stored : StoredAppInstance}
    (h : InstancesAfter ids nowMs request before after stored) : stored ∈ after ∧ ∀ old ∈ before, old ∈ after := by
  rcases h with ⟨hmem,rfl⟩ | ⟨-,-,rfl⟩
  · exact ⟨hmem,fun _ hold => hold⟩
  · exact ⟨mem_append_right _ (mem_singleton_self _),fun _ hold => mem_append_left _ hold⟩

theorem PresentationsAfter.mem_cases {before after : List StoredAppPresentation} {p : StoredAppPresentation}
    (h : PresentationsAfter ids request instanceId before after stored front back) (hp : p ∈ after) :
    p = stored ∨ p ∈ before := by
  rw [h.split] at hp
  rcases h.cases with ⟨old,rfl,-⟩ | ⟨rfl,rfl,-⟩
  · simp only [mem_append, mem_cons] at hp ⊢
    tauto
  · simp only [mem_append, mem_cons] at hp
    tauto

/-- The entries after an applied request are valid. -/
theorem ValidEnvelope.withEntries (h : ValidEnvelope envelope) {instances presentations : List Json}
    {i : StoredAppInstance} (hinstances : ∀ value ∈ instances, ∃ stored, parseInstance value = some stored)
    (hpresentations : ∀ value ∈ presentations, ∃ stored, parsePresentation value = some stored)
    (hfresh : FreshIds ids envelope)
    (hnew : ∀ requestId ∈ request.requestId, ∀ stored ∈ envelope.storedPresentations, ¬Remembers request requestId stored)
    (hi : InstancesAfter ids nowMs request envelope.storedInstances (instances.filterMap parseInstance) i)
    (hafter : PresentationsAfter ids request i.value.id envelope.storedPresentations
      (presentations.filterMap parsePresentation) stored front back) :
    ValidEnvelope (envelope.withEntries instances presentations) where
  instances_parse := hinstances
  instances_apart := by
    have hbefore := pairwise_map.mp h.instances_apart
    unfold parsedInstances
    rw [pairwise_map]
    rcases hi with ⟨-,hsame⟩ | ⟨rfl,hunfit,hsame⟩
    · exact hsame ▸ hbefore
    · exact hsame ▸ instancesApart_new hfresh hunfit hbefore
  presentations_parse := hpresentations
  presentations_apart := presentationsApart_after hfresh.presentations hnew h.presentations_apart hafter
  present := by
    intro p hp
    have hfound : ∃ found ∈ instances.filterMap parseInstance, found.value.id = p.value.instanceId := by
      rcases hafter.mem_cases hp with rfl | hp
      · have hbinding := fitsPresentation_iff.mp hafter.fits
        exact ⟨i,hi.mem.1,(congrArg (·.2.1) hbinding).symm⟩
      · obtain ⟨old,hold,hid⟩ := h.instance_of hp
        exact ⟨old,hi.mem.2 old hold,hid⟩
    obtain ⟨found,hmem,hid⟩ := hfound
    exact ⟨found.value,mem_map_of_mem hmem,hid⟩

end Validity

def storedEnvelope (root : Fields) : StoredEnvelope :=
  ((root appPresentationsStateKey).bind StoredEnvelope.fromValue).getD ⟨appPresentationsStateVersion,[],[],.empty _⟩

section Ensured
variable {serdeError : Json → Text} {ids : MintedIds} {nowMs : ℕ} {request : EnsureAppPresentation} {root : Fields}

theorem PresentationsValid.stored (h : PresentationsValid root) (serdeError : Json → Text) :
    validatedEnvelopeFromRoot serdeError root = .ok (storedEnvelope root) ∧ ValidEnvelope (storedEnvelope root) ∧
      (storedEnvelope root).version = appPresentationsStateVersion := by
  unfold storedEnvelope
  cases hvalue : root appPresentationsStateKey with
  | none =>
    have hempty : ValidEnvelope ⟨appPresentationsStateVersion,[],[],.empty _⟩ := validateEnvelope_eq_ok.mp rfl
    refine ⟨?_,hempty,rfl⟩
    unfold validatedEnvelopeFromRoot envelopeFromRoot
    rw [hvalue]
    rfl
  | some value =>
    obtain ⟨envelope,hfrom,hversion,hvalid⟩ := h value hvalue
    simp only [Option.bind_some, hfrom, Option.getD_some]
    exact ⟨(validatedEnvelopeFromRoot_eq_ok hvalue).mpr ⟨hfrom,hversion,hvalid⟩,hvalid,hversion⟩

theorem PresentationsValid.validEnvelope (h : PresentationsValid root) : ValidEnvelope (storedEnvelope root) :=
  (h.stored fun _ => []).2.1

theorem storedEnvelope_update {next : StoredEnvelope} (h : next.version = appPresentationsStateVersion) :
    storedEnvelope (Function.update root appPresentationsStateKey (some next.toValue)) = next := by
  unfold storedEnvelope
  have hfrom : StoredEnvelope.fromValue next.toValue = some next :=
    StoredEnvelope.fromValue_toValue (h.symm ▸ by decide)
  rw [Function.update_self, Option.bind_some, hfrom, Option.getD_some]

theorem presentationsValid_update {next : StoredEnvelope} (h : next.version = appPresentationsStateVersion)
    (hvalid : ValidEnvelope next) : PresentationsValid (Function.update root appPresentationsStateKey (some next.toValue)) := by
  intro value hvalue
  cases hvalue
  exact ⟨next,StoredEnvelope.fromValue_toValue (h.symm ▸ by decide),h,hvalid⟩

theorem ValidEnvelope.remembers_unique {envelope : StoredEnvelope} (h : ValidEnvelope envelope) {requestId : Text}
    {a b : StoredAppPresentation} (ha : a ∈ envelope.storedPresentations) (hb : b ∈ envelope.storedPresentations)
    (hra : Remembers request requestId a) (hrb : Remembers request requestId b) : a = b := by
  have hsymm : Std.Symm PresentationsApart := ⟨fun _ _ hapart => hapart.symm⟩
  by_contra hne
  obtain ⟨-,-,hrequests⟩ := h.presentations_apart.forall ha hb hne
  exact hrequests (hra.1.trans hrb.1.symm) requestId hrb.2 hra.2

theorem ensureInRoot_recall (h : PresentationsValid root) (hrequest : validateEnsure request = .ok ()) {requestId : Text}
    (hid : request.requestId = some requestId) {stored : StoredAppPresentation}
    (hmem : stored ∈ (storedEnvelope root).storedPresentations) (hremembers : Remembers request requestId stored) :
    ∃ i ∈ (storedEnvelope root).storedInstances, i.value.id = stored.value.instanceId ∧
      ensureInRoot serdeError ids nowMs request root = (answerAgain request requestId i.value stored.value).map (root,·) := by
  obtain ⟨henvelope,hvalid,-⟩ := h.stored serdeError
  rcases remembered_cases request hvalid with ⟨-,hnot⟩ | ⟨requestId',hid',other,hother,hotherRemembers,i,hi,hiId,hrecall⟩
  · exact absurd hremembers (hnot requestId hid stored hmem)
  · obtain rfl : requestId = requestId' := Option.some.inj (hid.symm.trans hid')
    obtain rfl := hvalid.remembers_unique hmem hother hremembers hotherRemembers
    refine ⟨i,hi,hiId,?_⟩
    unfold ensureInRoot
    rw [hrequest, henvelope]
    change (remembered (storedEnvelope root) request).bind _ = _
    rw [hrecall]
    cases answerAgain request requestId i.value stored.value <;> rfl

/-- A request that no presentation of the caller remembers is applied, unless a revision is at
its end. -/
theorem ensureInRoot_new (h : PresentationsValid root) (hrequest : validateEnsure request = .ok ())
    (hfresh : FreshIds ids (storedEnvelope root))
    (hnew : ∀ requestId ∈ request.requestId, ∀ stored ∈ (storedEnvelope root).storedPresentations,
      ¬Remembers request requestId stored) :
    ensureInRoot serdeError ids nowMs request root = .error overflowError ∨
      ∃ next result stored front back, ensureInRoot serdeError ids nowMs request root =
          .ok (Function.update root appPresentationsStateKey (some next.toValue),result) ∧
        next.version = appPresentationsStateVersion ∧ ValidEnvelope next ∧
        result.presentation = stored.value ∧ result.deduplicatedRequest = false ∧
        PresentationsAfter ids request result.appInstance.id (storedEnvelope root).storedPresentations next.storedPresentations
          stored front back := by
  obtain ⟨henvelope,hvalid,hversion⟩ := h.stored serdeError
  have hvalidRequest := validRequest_of_ok hrequest
  obtain ⟨instances,instanceIndex,i,createdInstance,hensure,hparse,hiValid,hfits,hinstances⟩ :=
    ensureInstance_cases ids nowMs hvalid hvalidRequest
  have htoken := token_of_validInstance hiValid
  have hnone : remembered (storedEnvelope root) request = .ok none := by
    rcases remembered_cases request hvalid with ⟨hnone,-⟩ | ⟨requestId,hid,other,hother,hremembers,-⟩
    · exact hnone
    · exact absurd hremembers (hnew requestId hid other hother)
  have hrest : ensureInRoot serdeError ids nowMs request root =
      (ensurePresentation ids nowMs request i.value.id (storedEnvelope root).presentations).bind fun found =>
        let next := (storedEnvelope root).withEntries (instances.set instanceIndex i.toValue)
          (found.1.set found.2.1 found.2.2.1.toValue)
        (validateEnvelope next).bind fun _ => .ok (Function.update root appPresentationsStateKey (some next.toValue),
          ⟨i.value,found.2.2.1.value,createdInstance,found.2.2.2.1,request.reveal && !found.2.2.2.2,found.2.2.2.2⟩) := by
    unfold ensureInRoot
    rw [hrequest, henvelope]
    change (remembered (storedEnvelope root) request).bind _ = _
    rw [hnone]
    simp only [Except.bind, hensure]
    rfl
  rcases ensurePresentation_cases hvalid hvalidRequest htoken hnew with
    hfull | ⟨presentations,index,stored,created,front,back,hok,hparses,hafter⟩
  · exact .inl (by rw [hrest, hfull]; rfl)
  · have hnext : ValidEnvelope ((storedEnvelope root).withEntries (instances.set instanceIndex i.toValue)
        (presentations.set index stored.toValue)) := by
      exact hvalid.withEntries hparse hparses hfresh hnew hinstances hafter
    rw [hok] at hrest
    simp only [Except.bind, validateEnvelope_eq_ok.mpr hnext] at hrest
    exact .inr ⟨_,_,stored,front,back,hrest,hversion,hnext,rfl,rfl,hafter⟩

end Ensured

end Unpeel.Lifecycle
