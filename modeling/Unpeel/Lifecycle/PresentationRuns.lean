import Unpeel.Foundation.Runs
import Unpeel.Lifecycle.EnsurePresentation

/-! # The registry of App presentations over its runs

Requests, rewrites of Session references and dismissals come in any order. The answers so far say
for each presentation which requests were applied to it: its revision counts those that reveal,
and its request ids are the last sixteen of theirs.
-/
namespace Unpeel.Lifecycle
open Manifest Runs SpacedLog List

structure Answer where
  request : EnsureAppPresentation
  result : EnsureAppPresentationResult
deriving DecidableEq

def Answer.applied (id : Text) (answer : Answer) : Bool :=
  answer.result.presentation.id = id && !answer.result.deduplicatedRequest

def revealsOf (id : Text) (answers : List Answer) : List Answer :=
  answers.filter fun answer => answer.applied id && answer.request.reveal

def requestIdsOf (id : Text) (answers : List Answer) : List Text :=
  (answers.filter (·.applied id)).filterMap (·.request.requestId)

def presentationsIn (root : Fields) : List AppPresentation := (storedEnvelope root).storedPresentations.map (·.value)

/-- The state of the Host with the answers so far, the presentations a Controller can have seen,
and its receipts. -/
structure Registry where
  root : Fields
  answers : List Answer
  snapshots : List AppPresentation
  receipts : Text → Option AppPresentationDismissal

def Registry.starting (root : Fields) : Registry := ⟨root,[],[],fun _ => none⟩

inductive RegistryAction where
  | ensure (ids : MintedIds) (nowMs : ℕ) (request : EnsureAppPresentation)
  | rewrite (nowMs : ℕ) (oldId : Text) (replacementId : Option Text)
  | dismiss (presentation : AppPresentation)

section Steps
variable (serdeError : Json → Text)

def registryStep (s : Registry) : RegistryAction → Option Registry
  | .ensure ids nowMs request =>
    match ensureInRoot serdeError ids nowMs request s.root with
    | .ok (root,result) => some { s with
        root
        answers := s.answers ++ [⟨request,result⟩]
        snapshots := s.snapshots ++ presentationsIn root }
    | .error _ => some s
  | .rewrite nowMs oldId replacementId =>
    match rewriteAppPresentationSessionReferences serdeError nowMs oldId replacementId s.root with
    | .ok root => some { s with
        root
        snapshots := s.snapshots ++ presentationsIn root }
    | .error _ => some s
  | .dismiss presentation => some { s with
      receipts := Function.update s.receipts presentation.id
        (some (recordAppPresentationDismissal (s.receipts presentation.id) presentation)) }

def Fresh (s : Registry) : RegistryAction → Prop
  | .ensure ids _ _ => FreshIds ids (storedEnvelope s.root) ∧
      ∀ answer ∈ s.answers, answer.result.presentation.id ≠ ids.presentationId.text
  | .rewrite .. => True
  | .dismiss presentation => presentation ∈ s.snapshots

end Steps

structure Recorded (answers : List Answer) (p : StoredAppPresentation) : Prop where
  revision : p.value.revealRevision = (revealsOf p.value.id answers).length
  requestIds : p.recentRequestIds = (requestIdsOf p.value.id answers).rtake recentRequestIdLimit
  instanceId : ∀ answer ∈ answers, answer.result.presentation.id = p.value.id → answer.result.appInstance.id = p.value.instanceId
  answered : ∃ answer ∈ answers, answer.result.presentation.id = p.value.id

structure RegistryInvariant (s : Registry) : Prop where
  valid : PresentationsValid s.root
  recorded : ∀ p ∈ (storedEnvelope s.root).storedPresentations, Recorded s.answers p
  spaced : ∀ id, Spaced recentRequestIdLimit (requestIdsOf id s.answers)
  seen : ∀ p ∈ s.snapshots, p.revealRevision ≤ (revealsOf p.id s.answers).length
  receipts : ∀ id, ∀ receipt ∈ s.receipts id,
    receipt.presentationId = id ∧ receipt.dismissedRevealRevision ≤ (revealsOf id s.answers).length

section Answers
variable {answers : List Answer} {answer : Answer} {id : Text}

theorem revealsOf_append (id : Text) (answers more : List Answer) :
    revealsOf id (answers ++ more) = revealsOf id answers ++ revealsOf id more := List.filter_append ..

theorem revealsOf_other (h : answer.applied id = false) : revealsOf id (answers ++ [answer]) = revealsOf id answers := by
  simp [revealsOf, h]

theorem requestIdsOf_other (h : answer.applied id = false) : requestIdsOf id (answers ++ [answer]) = requestIdsOf id answers := by
  simp [requestIdsOf, h]

theorem length_revealsOf_le (id : Text) (answers more : List Answer) :
    (revealsOf id answers).length ≤ (revealsOf id (answers ++ more)).length := by
  rw [revealsOf_append, length_append]
  omega

theorem revealsOf_unanswered (h : ∀ answer ∈ answers, answer.result.presentation.id ≠ id) :
    revealsOf id answers = [] ∧ requestIdsOf id answers = [] := by
  have hnone : ∀ answer ∈ answers, answer.applied id = false := by
    intro answer hmem
    simp [Answer.applied, h answer hmem]
  constructor
  · refine filter_eq_nil_iff.mpr fun answer hmem => ?_
    simp [hnone answer hmem]
  · unfold requestIdsOf
    rw [filter_eq_nil_iff.mpr fun answer hmem => by simp [hnone answer hmem], filterMap_nil]

theorem revealsOf_applied (h : answer.applied id = true) :
    (revealsOf id (answers ++ [answer])).length = (revealsOf id answers).length + answer.request.reveal.toNat := by
  cases hreveal : answer.request.reveal <;> simp [revealsOf, h, hreveal]

theorem requestIdsOf_applied (h : answer.applied id = true) :
    requestIdsOf id (answers ++ [answer]) = requestIdsOf id answers ++ answer.request.requestId.toList := by
  cases hid : answer.request.requestId <;> simp [requestIdsOf, h, hid]

end Answers

section Recording
variable {answers : List Answer} {answer : Answer} {p p' : StoredAppPresentation}

theorem Recorded.other (h : Recorded answers p) (hother : answer.applied p.value.id = false)
    (hinstance : answer.result.presentation.id = p.value.id → answer.result.appInstance.id = p.value.instanceId) :
    Recorded (answers ++ [answer]) p where
  revision := by rw [revealsOf_other hother, h.revision]
  requestIds := by rw [requestIdsOf_other hother, h.requestIds]
  instanceId := by
    intro other hmem
    rcases mem_append.mp hmem with hmem | hmem
    · exact h.instanceId other hmem
    · rw [mem_singleton.mp hmem]
      exact hinstance
  answered := by
    obtain ⟨other,hmem,hid⟩ := h.answered
    exact ⟨other,mem_append_left _ hmem,hid⟩

theorem Recorded.moved (h : Recorded answers p) (hid : p'.value.id = p.value.id)
    (hinstance : p'.value.instanceId = p.value.instanceId) (hrevision : p'.value.revealRevision = p.value.revealRevision)
    (hrequests : p'.recentRequestIds = p.recentRequestIds) : Recorded answers p' where
  revision := by rw [hrevision, hid, h.revision]
  requestIds := by rw [hrequests, hid, h.requestIds]
  instanceId := by
    rw [hid, hinstance]
    exact h.instanceId
  answered := by
    rw [hid]
    exact h.answered

/-- The presentation that a request was applied to. -/
theorem recorded_applied {revision : ℕ} {requestIds : List Text} (hanswer : answer.result.presentation = p.value)
    (happlied : answer.result.deduplicatedRequest = false) (hinstance : answer.result.appInstance.id = p.value.instanceId)
    (hrevealed : Revealed answer.request revision (requestIds.rtake recentRequestIdLimit) p)
    (hrevision : revision = (revealsOf p.value.id answers).length) (hrequests : requestIds = requestIdsOf p.value.id answers)
    (hbefore : ∀ answer ∈ answers, answer.result.presentation.id = p.value.id → answer.result.appInstance.id = p.value.instanceId) :
    Recorded (answers ++ [answer]) p := by
  have happlies : answer.applied p.value.id = true := by simp [Answer.applied, hanswer, happlied]
  constructor
  · rw [revealsOf_applied happlies, hrevealed.1, hrevision]
  · rw [requestIdsOf_applied happlies, hrevealed.2, ← hrequests]
    cases answer.request.requestId with
    | none =>
      simp only [Option.toList_none, append_nil, List.rtake, drop_drop, length_drop]
      congr 1
      omega
    | some requestId => exact rtake_concat_window ..
  · intro other hmem
    rcases mem_append.mp hmem with hmem | hmem
    · exact hbefore other hmem
    · rw [mem_singleton.mp hmem]
      exact fun _ => hinstance
  · exact ⟨answer,mem_append_right _ (mem_singleton_self _),congrArg (·.id) hanswer⟩

end Recording

section Invariant
variable {serdeError : Json → Text} {s t : Registry} {ids : MintedIds} {nowMs : ℕ} {request : EnsureAppPresentation}
variable {root : Fields}

/-- What a request does to the registry. -/
theorem ensureStep_cases (h : RegistryInvariant s) (hfresh : Fresh s (.ensure ids nowMs request))
    (hstep : registryStep serdeError s (.ensure ids nowMs request) = some t) :
    t = s ∨
    (∃ p ∈ (storedEnvelope s.root).storedPresentations, ∃ i ∈ (storedEnvelope s.root).storedInstances,
      i.value.id = p.value.instanceId ∧ t = { s with
        answers := s.answers ++ [⟨request,⟨i.value,p.value,false,false,false,true⟩⟩]
        snapshots := s.snapshots ++ presentationsIn s.root }) ∨
    ∃ next result stored front back, t = { s with
        root := Function.update s.root appPresentationsStateKey (some next.toValue)
        answers := s.answers ++ [⟨request,result⟩]
        snapshots := s.snapshots ++ next.storedPresentations.map (·.value) } ∧
      next.version = appPresentationsStateVersion ∧ ValidEnvelope next ∧ result.presentation = stored.value ∧
      result.deduplicatedRequest = false ∧ (∀ requestId ∈ request.requestId,
        ∀ stored ∈ (storedEnvelope s.root).storedPresentations, ¬Remembers request requestId stored) ∧
      PresentationsAfter ids request result.appInstance.id (storedEnvelope s.root).storedPresentations
        next.storedPresentations stored front back := by
  unfold registryStep at hstep
  dsimp only at hstep
  cases hvalidate : validateEnsure request with
  | error error =>
    have herror : ensureInRoot serdeError ids nowMs request s.root = .error error := by
      unfold ensureInRoot
      rw [hvalidate]
      rfl
    rw [herror] at hstep
    exact .inl (Option.some.inj hstep).symm
  | ok done =>
    by_cases hremembered : ∃ requestId ∈ request.requestId, ∃ p ∈ (storedEnvelope s.root).storedPresentations,
        Remembers request requestId p
    · obtain ⟨requestId,hid,p,hp,hremembers⟩ := hremembered
      obtain ⟨i,hi,hiId,hrecall⟩ := ensureInRoot_recall h.valid hvalidate hid hp hremembers
      rw [hrecall] at hstep
      unfold answerAgain at hstep
      split_ifs at hstep with hsame
      · exact .inr (.inl ⟨p,hp,i,hi,hiId,(Option.some.inj hstep).symm⟩)
      · exact .inl (Option.some.inj hstep).symm
    · have hnew : ∀ requestId ∈ request.requestId, ∀ p ∈ (storedEnvelope s.root).storedPresentations,
          ¬Remembers request requestId p := fun requestId hid p hp hno => hremembered ⟨requestId,hid,p,hp,hno⟩
      rcases ensureInRoot_new h.valid hvalidate hfresh.1 hnew with
        hfull | ⟨next,result,stored,front,back,hok,hversion,hvalid,hpresentation,hdedup,hafter⟩
      · rw [hfull] at hstep
        exact .inl (Option.some.inj hstep).symm
      · rw [hok] at hstep
        refine .inr (.inr ⟨next,result,stored,front,back,?_,hversion,hvalid,hpresentation,hdedup,hnew,hafter⟩)
        rw [← Option.some.inj hstep, presentationsIn, storedEnvelope_update hversion]

theorem RegistryInvariant.extend (h : RegistryInvariant s) {more : List Answer} (hvalid : PresentationsValid root)
    (hrecorded : ∀ p ∈ (storedEnvelope root).storedPresentations, Recorded (s.answers ++ more) p)
    (hspaced : ∀ id, Spaced recentRequestIdLimit (requestIdsOf id (s.answers ++ more))) :
    RegistryInvariant { s with
      root
      answers := s.answers ++ more
      snapshots := s.snapshots ++ presentationsIn root } where
  valid := hvalid
  recorded := hrecorded
  spaced := hspaced
  seen := by
    intro p hp
    rcases mem_append.mp hp with hp | hp
    · exact (h.seen p hp).trans (length_revealsOf_le ..)
    · obtain ⟨stored,hstored,rfl⟩ := mem_map.mp hp
      exact (hrecorded stored hstored).revision.le
  receipts := by
    intro id receipt hreceipt
    obtain ⟨hid,hle⟩ := h.receipts id receipt hreceipt
    exact ⟨hid,hle.trans (length_revealsOf_le ..)⟩

theorem ValidEnvelope.presentation_unique {envelope : StoredEnvelope} (h : ValidEnvelope envelope) {a b : StoredAppPresentation}
    (ha : a ∈ envelope.storedPresentations) (hb : b ∈ envelope.storedPresentations) (hid : a.value.id = b.value.id) : a = b := by
  have hsymm : Std.Symm PresentationsApart := ⟨fun _ _ hapart => hapart.symm⟩
  by_contra hne
  exact (h.presentations_apart.forall ha hb hne).1 hid

theorem RegistryInvariant.recalled (h : RegistryInvariant s) {p : StoredAppPresentation} {i : AppInstance}
    (hp : p ∈ (storedEnvelope s.root).storedPresentations) (hi : i.id = p.value.instanceId) :
    RegistryInvariant { s with
      answers := s.answers ++ [⟨request,⟨i,p.value,false,false,false,true⟩⟩]
      snapshots := s.snapshots ++ presentationsIn s.root } := by
  have hvalid := h.valid.validEnvelope
  have hnone : ∀ id, Answer.applied id ⟨request,⟨i,p.value,false,false,false,true⟩⟩ = false := by simp [Answer.applied]
  refine h.extend h.valid (fun other hother => ?_) fun id => ?_
  · refine (h.recorded other hother).other (hnone _) fun hid => ?_
    obtain rfl := hvalid.presentation_unique hp hother hid
    exact hi
  · rw [requestIdsOf_other (hnone id)]
    exact h.spaced id

theorem RegistryInvariant.applied (h : RegistryInvariant s) (hfresh : Fresh s (.ensure ids nowMs request))
    {next : StoredEnvelope} {result : EnsureAppPresentationResult} {stored : StoredAppPresentation}
    {front back : List StoredAppPresentation} (hversion : next.version = appPresentationsStateVersion)
    (hvalid : ValidEnvelope next) (hresult : result.presentation = stored.value) (hdedup : result.deduplicatedRequest = false)
    (hnew : ∀ requestId ∈ request.requestId, ∀ stored ∈ (storedEnvelope s.root).storedPresentations,
      ¬Remembers request requestId stored)
    (hafter : PresentationsAfter ids request result.appInstance.id (storedEnvelope s.root).storedPresentations
      next.storedPresentations stored front back) :
    RegistryInvariant { s with
      root := Function.update s.root appPresentationsStateKey (some next.toValue)
      answers := s.answers ++ [⟨request,result⟩]
      snapshots := s.snapshots ++ next.storedPresentations.map (·.value) } := by
  have hroot : storedEnvelope (Function.update s.root appPresentationsStateKey (some next.toValue)) = next :=
    storedEnvelope_update hversion
  have hsnapshots : next.storedPresentations.map (·.value) =
      presentationsIn (Function.update s.root appPresentationsStateKey (some next.toValue)) := by rw [presentationsIn, hroot]
  have hbinding := fitsPresentation_iff.mp hafter.fits
  have hinstance : stored.value.instanceId = result.appInstance.id := congrArg (·.2.1) hbinding
  have hother : ∀ id, id ≠ stored.value.id → Answer.applied id ⟨request,result⟩ = false := by
    intro id hid
    simp [Answer.applied, hresult, hid.symm]
  have hmem : stored ∈ next.storedPresentations := by rw [hafter.split]; simp
  -- the record of the presentation before, or of one that is new
  have hstored : Recorded (s.answers ++ [⟨request,result⟩]) stored ∧
      ∀ requestId ∈ request.requestId, requestId ∉ (requestIdsOf stored.value.id s.answers).rtake recentRequestIdLimit := by
    rcases hafter.cases with ⟨old,hbefore,hfits,hid,hrevealed⟩ | ⟨hbefore,hback,hid,hrevealed,hunfit⟩
    · have hold : old ∈ (storedEnvelope s.root).storedPresentations := by rw [hbefore]; simp
      have hrecorded := h.recorded old hold
      have holdBinding := fitsPresentation_iff.mp hfits
      have holdInstance : old.value.instanceId = result.appInstance.id := congrArg (·.2.1) holdBinding
      rw [hrecorded.requestIds] at hrevealed
      constructor
      · refine recorded_applied hresult hdedup hinstance.symm hrevealed ?_ ?_ ?_
        · rw [hid, hrecorded.revision]
        · rw [hid]
        · rw [hid, hinstance, ← holdInstance]
          exact hrecorded.instanceId
      · intro requestId hrequestId hno
        rw [hid, ← hrecorded.requestIds] at hno
        exact hnew requestId hrequestId old hold ⟨congrArg Prod.fst holdBinding,hno⟩
    · have hunanswered : ∀ answer ∈ s.answers, answer.result.presentation.id ≠ stored.value.id := by
        rw [hid]
        exact hfresh.2
      obtain ⟨hreveals,hrequests⟩ := revealsOf_unanswered hunanswered
      constructor
      · have hrevealed : Revealed request 0 (([] : List Text).rtake recentRequestIdLimit) stored := hrevealed
        refine recorded_applied hresult hdedup hinstance.symm hrevealed ?_ hrequests.symm ?_
        · rw [hreveals]
          rfl
        · exact fun answer hanswer hno => absurd hno (hunanswered answer hanswer)
      · rw [hrequests]
        simp
  rw [hsnapshots]
  refine h.extend (presentationsValid_update hversion hvalid) ?_ fun id => ?_
  · rw [hroot]
    intro p hp
    by_cases hid : p.value.id = stored.value.id
    · obtain rfl := hvalid.presentation_unique hp hmem hid
      exact hstored.1
    · rcases hafter.mem_cases hp with rfl | hbefore
      · exact absurd rfl hid
      · refine (h.recorded p hbefore).other (hother _ hid) fun hno => ?_
        rw [hresult] at hno
        exact absurd hno.symm hid
  · by_cases hid : id = stored.value.id
    · have happlied : Answer.applied id ⟨request,result⟩ = true := by simp [Answer.applied, hresult, hdedup, hid]
      rw [requestIdsOf_applied happlied]
      cases hrequest : request.requestId with
      | none => simpa using h.spaced id
      | some requestId =>
        rw [hid]
        exact spaced_concat.mpr ⟨h.spaced _,hstored.2 requestId hrequest⟩
    · rw [requestIdsOf_other (hother id hid)]
      exact h.spaced id

theorem RegistryInvariant.rewritten (h : RegistryInvariant s) {oldId : Text} {replacementId : Option Text}
    (hok : rewriteAppPresentationSessionReferences serdeError nowMs oldId replacementId s.root = .ok root) :
    RegistryInvariant { s with
      root
      snapshots := s.snapshots ++ presentationsIn root } := by
  have hkept : PresentationsValid root ∧ ∀ p ∈ (storedEnvelope root).storedPresentations, Recorded s.answers p := by
    obtain ⟨⟨-,hsafe⟩,⟨-,rfl⟩ | ⟨value,envelope,hvalue,hfrom,hversion,-,⟨-,rfl⟩ | ⟨-,hvalid,rfl⟩⟩⟩ := rewritePresentations_eq_ok.mp hok
    · exact ⟨h.valid,h.recorded⟩
    · exact ⟨h.valid,h.recorded⟩
    · have hstored : storedEnvelope s.root = envelope := by
        unfold storedEnvelope
        rw [hvalue, Option.bind_some, hfrom, Option.getD_some]
      have hversion : (envelope.rewrite nowMs oldId replacementId).version = appPresentationsStateVersion := hversion
      refine ⟨presentationsValid_update hversion hvalid,?_⟩
      rw [storedEnvelope_update hversion]
      intro p' hp'
      unfold StoredEnvelope.storedPresentations at hp'
      rw [parsed_presentations hsafe] at hp'
      obtain ⟨p,hp,hmoved⟩ := mem_filterMap.mp hp'
      have hrecorded := h.recorded p (hstored ▸ hp)
      rcases (StoredAppPresentation.moved_cases hmoved).2 with ⟨-,rfl⟩ | ⟨-,newId,-,rfl⟩
      · exact hrecorded
      · exact hrecorded.moved rfl rfl rfl rfl
  have hextended := h.extend hkept.1 (by rw [append_nil]; exact hkept.2) (by rw [append_nil]; exact h.spaced)
  rw [append_nil] at hextended
  exact hextended

theorem record_cases (previous : Option AppPresentationDismissal) (p : AppPresentation) :
    (∃ receipt ∈ previous, receipt.suppresses p = true ∧ recordAppPresentationDismissal previous p = receipt) ∨
      recordAppPresentationDismissal previous p = .forPresentation p := by
  unfold recordAppPresentationDismissal
  cases hprevious : previous.filter (·.suppresses p) with
  | none => exact .inr rfl
  | some receipt =>
    obtain ⟨hmem,hsuppresses⟩ := Option.filter_eq_some_iff.mp hprevious
    exact .inl ⟨receipt,hmem,hsuppresses,rfl⟩

theorem RegistryInvariant.dismissed (h : RegistryInvariant s) {p : AppPresentation} (hp : p ∈ s.snapshots) :
    RegistryInvariant { s with
      receipts := Function.update s.receipts p.id (some (recordAppPresentationDismissal (s.receipts p.id) p)) } where
  valid := h.valid
  recorded := h.recorded
  spaced := h.spaced
  seen := h.seen
  receipts := by
    intro id receipt hreceipt
    dsimp only at hreceipt ⊢
    by_cases hid : id = p.id
    · subst hid
      rw [Function.update_self] at hreceipt
      cases hreceipt
      rcases record_cases (s.receipts p.id) p with ⟨receipt,hmem,-,hrecord⟩ | hrecord
      · rw [hrecord]
        exact h.receipts p.id receipt hmem
      · rw [hrecord]
        exact ⟨rfl,h.seen p hp⟩
    · rw [Function.update_of_ne hid] at hreceipt
      exact h.receipts id receipt hreceipt

/-- One step keeps the invariant. -/
theorem registryInvariant_step {action : RegistryAction} (h : RegistryInvariant s) (hfresh : Fresh s action)
    (hstep : registryStep serdeError s action = some t) : RegistryInvariant t := by
  cases action with
  | ensure ids nowMs request =>
    rcases ensureStep_cases h hfresh hstep with rfl | ⟨p,hp,i,-,hi,rfl⟩ |
      ⟨next,result,stored,front,back,rfl,hversion,hvalid,hresult,hdedup,hnew,hafter⟩
    · exact h
    · exact h.recalled hp hi
    · exact h.applied hfresh hversion hvalid hresult hdedup hnew hafter
  | rewrite nowMs oldId replacementId =>
    unfold registryStep at hstep
    cases hok : rewriteAppPresentationSessionReferences serdeError nowMs oldId replacementId s.root with
    | error error =>
      simp only [hok] at hstep
      exact Option.some.inj hstep ▸ h
    | ok root =>
      simp only [hok] at hstep
      exact Option.some.inj hstep ▸ h.rewritten hok
  | dismiss p => exact Option.some.inj hstep ▸ h.dismissed hfresh

theorem registryInvariant_starting (hempty : root appPresentationsStateKey = none) :
    RegistryInvariant (.starting root) where
  valid := fun value hvalue => by
    have hno : root appPresentationsStateKey = some value := hvalue
    rw [hempty] at hno
    cases hno
  recorded := fun p hp => by
    have hnone : (storedEnvelope root).storedPresentations = [] := by
      unfold storedEnvelope
      rw [hempty]
      rfl
    have hmem : p ∈ (storedEnvelope root).storedPresentations := hp
    rw [hnone] at hmem
    cases hmem
  spaced := fun _ => spaced_nil _
  seen := fun _ hno => nomatch hno
  receipts := fun _ _ hno => nomatch hno

end Invariant

section Dismissals
variable {serdeError : Json → Text} {s t : Registry} {action : RegistryAction} {p : AppPresentation}

theorem answers_step (h : registryStep serdeError s action = some t) : ∃ more, t.answers = s.answers ++ more := by
  cases action with
  | ensure ids nowMs request =>
    unfold registryStep at h
    dsimp only at h
    split at h <;> cases h
    · exact ⟨_,rfl⟩
    · exact ⟨[],(append_nil _).symm⟩
  | rewrite nowMs oldId replacementId =>
    unfold registryStep at h
    dsimp only at h
    split at h <;> cases h <;> exact ⟨[],(append_nil _).symm⟩
  | dismiss q =>
    cases h
    exact ⟨[],(append_nil _).symm⟩

def Older (p : AppPresentation) : RegistryAction → Prop
  | .dismiss q => q.id = p.id → q.revealRevision ≤ p.revealRevision
  | _ => True

theorem receipt_step (h : s.receipts p.id = some (.forPresentation p)) (holder : Older p action)
    (hstep : registryStep serdeError s action = some t) : t.receipts p.id = some (.forPresentation p) := by
  cases action with
  | ensure ids nowMs request | rewrite nowMs oldId replacementId =>
    unfold registryStep at hstep
    dsimp only at hstep
    split at hstep <;> cases hstep <;> exact h
  | dismiss q =>
    cases hstep
    dsimp only
    by_cases hid : p.id = q.id
    · have hsuppresses : (AppPresentationDismissal.forPresentation p).suppresses q = true := by
        simp only [AppPresentationDismissal.suppresses, AppPresentationDismissal.forPresentation, hid, decide_true,
          Bool.true_and, decide_eq_true_eq]
        exact holder hid.symm
      rw [hid, Function.update_self, ← hid, h, recordAppPresentationDismissal, Option.filter_some, if_pos hsuppresses]
    · rw [Function.update_of_ne hid]
      exact h

theorem receipt_run {later : List RegistryAction} (h : s.receipts p.id = some (.forPresentation p))
    (holder : ∀ action ∈ later, Older p action) (hrun : run (registryStep serdeError) s later = some t) :
    t.receipts p.id = some (.forPresentation p) ∧ ∃ more, t.answers = s.answers ++ more := by
  induction later generalizing s with
  | nil =>
    cases hrun
    exact ⟨h,[],(append_nil _).symm⟩
  | cons action later ih =>
    obtain ⟨middle,hstep,hrest⟩ := run_cons.mp hrun
    have hmiddle := receipt_step h (holder action (mem_cons_self ..)) hstep
    obtain ⟨hreceipt,more,hmore⟩ := ih hmiddle (fun action hmem => holder action (mem_cons_of_mem _ hmem)) hrest
    obtain ⟨first,hfirst⟩ := answers_step hstep
    exact ⟨hreceipt,first ++ more,by rw [hmore, hfirst, append_assoc]⟩

theorem RegistryInvariant.record_current (h : RegistryInvariant s) (hp : p ∈ presentationsIn s.root) :
    recordAppPresentationDismissal (s.receipts p.id) p = .forPresentation p := by
  obtain ⟨stored,hstored,rfl⟩ := mem_map.mp hp
  rcases record_cases (s.receipts stored.value.id) stored.value with ⟨receipt,hmem,hsuppresses,hrecord⟩ | hrecord
  · obtain ⟨hid,hle⟩ := h.receipts _ receipt hmem
    rw [← (h.recorded stored hstored).revision] at hle
    simp only [AppPresentationDismissal.suppresses, Bool.and_eq_true, decide_eq_true_eq] at hsuppresses
    have hrevision := le_antisymm hle hsuppresses.2
    rw [hrecord]
    cases receipt
    cases hid
    cases hrevision
    rfl
  · exact hrecord

theorem shouldReveal_eq_false {p' : AppPresentation} (hid : p'.id = p.id) :
    shouldRevealAppPresentation p' (some (.forPresentation p)) = false ↔ p'.revealRevision ≤ p.revealRevision := by
  simp only [shouldRevealAppPresentation, AppPresentationDismissal.suppresses, AppPresentationDismissal.forPresentation,
    Option.any_some, hid, decide_true, Bool.true_and, Bool.and_eq_false_iff, decide_eq_false_iff_not, Bool.not_eq_false',
    decide_eq_true_eq]
  omega

end Dismissals

structure RegistrySound (serdeError : Json → Text) (s : Registry) : Prop where
  /-- The stored entries are valid. -/
  validates : ∃ envelope, validatedEnvelopeFromRoot serdeError s.root = .ok envelope
  /-- A request only fails where it was used for something else or a revision is at its end. -/
  errors : ∀ ids nowMs request error, Fresh s (.ensure ids nowMs request) → validateEnsure request = .ok () →
    ensureInRoot serdeError ids nowMs request s.root = .error error →
      error = overflowError ∨ ∃ requestId p, request.requestId = some requestId ∧ error = conflictError requestId ∧
        p ∈ (storedEnvelope s.root).storedPresentations ∧ Remembers request requestId p
  /-- A request that is repeated in time changes nothing and is answered with what it made. -/
  repeated : ∀ ids nowMs request requestId, ∀ p ∈ (storedEnvelope s.root).storedPresentations,
    validateEnsure request = .ok () → request.requestId = some requestId →
    p.value.callerSessionId = request.callerSessionId →
    requestId ∈ (requestIdsOf p.value.id s.answers).rtake recentRequestIdLimit →
      ∃ i ∈ (storedEnvelope s.root).storedInstances,
        (∀ answer ∈ s.answers, answer.result.presentation.id = p.value.id → answer.result.appInstance.id = i.value.id) ∧
        ensureInRoot serdeError ids nowMs request s.root =
          if sameEffect request i.value p.value then .ok (s.root,⟨i.value,p.value,false,false,false,true⟩)
          else .error (conflictError requestId)
  /-- The revision counts the requests that newly revealed. -/
  revisions : ∀ p ∈ presentationsIn s.root, p.revealRevision = (revealsOf p.id s.answers).length
  /-- No request is applied a second time while it is remembered. -/
  distinct : ∀ id, Spaced recentRequestIdLimit (requestIdsOf id s.answers)
  /-- What is dismissed stays away until it is newly revealed. -/
  dismissed : ∀ p ∈ presentationsIn s.root, ∀ later t,
    Guarded (registryStep serdeError) Fresh s (.dismiss p :: later) →
    run (registryStep serdeError) s (.dismiss p :: later) = some t → (∀ action ∈ later, Older p action) →
      ∀ p' ∈ presentationsIn t.root, p'.id = p.id →
        (shouldRevealAppPresentation p' (t.receipts p.id) = false ↔ revealsOf p.id t.answers = revealsOf p.id s.answers)

section Soundness
variable {serdeError : Json → Text} {s : Registry}

theorem RegistryInvariant.errors (h : RegistryInvariant s) {ids : MintedIds} {nowMs : ℕ} {request : EnsureAppPresentation}
    {error : Text} (hfresh : Fresh s (.ensure ids nowMs request)) (hvalidate : validateEnsure request = .ok ())
    (herror : ensureInRoot serdeError ids nowMs request s.root = .error error) :
    error = overflowError ∨ ∃ requestId p, request.requestId = some requestId ∧ error = conflictError requestId ∧
      p ∈ (storedEnvelope s.root).storedPresentations ∧ Remembers request requestId p := by
  by_cases hremembered : ∃ requestId ∈ request.requestId, ∃ p ∈ (storedEnvelope s.root).storedPresentations,
      Remembers request requestId p
  · obtain ⟨requestId,hid,p,hp,hremembers⟩ := hremembered
    obtain ⟨i,-,-,hrecall⟩ := ensureInRoot_recall h.valid hvalidate hid hp hremembers
    rw [hrecall] at herror
    unfold answerAgain at herror
    split_ifs at herror with hsame <;> cases herror
    exact .inr ⟨requestId,p,hid,rfl,hp,hremembers⟩
  · rcases ensureInRoot_new h.valid hvalidate hfresh.1
      (fun requestId hid p hp hno => hremembered ⟨requestId,hid,p,hp,hno⟩) with hfull | ⟨_,_,_,_,_,hok,_⟩
    · exact .inl (Except.error.inj (herror.symm.trans hfull))
    · rw [hok] at herror
      cases herror

theorem RegistryInvariant.dismissed_until_revealed (h : RegistryInvariant s) {p p' : AppPresentation} (hp : p ∈ presentationsIn s.root)
    {later : List RegistryAction} {t : Registry}
    (hg : Guarded (registryStep serdeError) Fresh s (.dismiss p :: later))
    (hrun : run (registryStep serdeError) s (.dismiss p :: later) = some t) (holder : ∀ action ∈ later, Older p action)
    (hp' : p' ∈ presentationsIn t.root) (hid : p'.id = p.id) :
    shouldRevealAppPresentation p' (t.receipts p.id) = false ↔ revealsOf p.id t.answers = revealsOf p.id s.answers := by
  obtain ⟨middle,hstep,hrest⟩ := run_cons.mp hrun
  have hmiddle : middle.receipts p.id = some (.forPresentation p) := by
    cases hstep
    exact (Function.update_self ..).trans (congrArg some (h.record_current hp))
  obtain ⟨hreceipt,more,hmore⟩ := receipt_run hmiddle holder hrest
  have hsame : middle.answers = s.answers := by
    cases hstep
    rfl
  have hinvariant : RegistryInvariant t :=
    (always_of_guarded (fun _ _ _ => registryInvariant_step) (fun _ hs => hs) h hg).last hrun
  obtain ⟨stored,hstored,rfl⟩ := mem_map.mp hp
  obtain ⟨stored',hstored',rfl⟩ := mem_map.mp hp'
  rw [hreceipt, shouldReveal_eq_false hid, (hinvariant.recorded stored' hstored').revision, hid,
    (h.recorded stored hstored).revision, hmore, hsame, revealsOf_append, length_append]
  constructor
  · intro hle
    have hnone : (revealsOf stored.value.id more).length = 0 := by omega
    rw [length_eq_zero_iff.mp hnone, append_nil]
  · intro heq
    rw [← length_append, heq]

theorem RegistryInvariant.sound (h : RegistryInvariant s) : RegistrySound serdeError s where
  validates := ⟨_,(h.valid.stored serdeError).1⟩
  errors := fun _ _ _ _ hfresh hvalidate herror => h.errors hfresh hvalidate herror
  repeated := by
    intro ids nowMs request requestId p hp hvalidate hid hcaller hmem
    have hrecorded := h.recorded p hp
    rw [← hrecorded.requestIds] at hmem
    obtain ⟨i,hi,hiId,hrecall⟩ := ensureInRoot_recall h.valid hvalidate hid hp ⟨hcaller,hmem⟩
    refine ⟨i,hi,fun answer hanswer hsame => (hrecorded.instanceId answer hanswer hsame).trans hiId.symm,?_⟩
    rw [hrecall]
    unfold answerAgain
    split_ifs <;> rfl
  revisions := by
    intro p hp
    obtain ⟨stored,hstored,rfl⟩ := mem_map.mp hp
    exact (h.recorded stored hstored).revision
  distinct := h.spaced
  dismissed := fun _ hp _ _ hg hrun holder _ hp' hid => h.dismissed_until_revealed hp hg hrun holder hp' hid

end Soundness

/-- Whatever requests, rewrites and dismissals come, the registry of App presentations is sound. -/
theorem app_presentation_registry_stays_sound (serdeError : Json → Text) (root : Fields)
    (hempty : root appPresentationsStateKey = none) (actions : List RegistryAction)
    (hfresh : Guarded (registryStep serdeError) Fresh (.starting root) actions) :
    Always (registryStep serdeError) (RegistrySound serdeError) (.starting root) actions :=
  always_of_guarded (fun _ _ _ => registryInvariant_step) (fun _ hs => hs.sound) (registryInvariant_starting hempty) hfresh

section Calendar

def letterId (c : Char) (htoken : validateToken [] [c] sessionIdMaxBytes = .ok ())
    (hsafe : validateAppPresentationSessionId [] [c] = .ok ()) : MintedId where
  text := [c]
  token := fun field => (validateToken_eq_ok_iff [] field [c] sessionIdMaxBytes).mp htoken
  safe := safeSessionId_of_ok hsafe

def calendarIds : MintedIds :=
  ⟨letterId 'i' (by decide) (by decide),letterId 'c' (by decide) (by decide),letterId 'p' (by decide) (by decide)⟩

def showCalendar : EnsureAppPresentation := ⟨['a'],['q'],['k'],['v'],none,.panel,true,some ['r']⟩

def shownCalendar : AppPresentation := ⟨['p'],['a'],['i'],['v'],.panel,1,5,5⟩

/-- The calendar is shown and dismissed. -/
theorem calendar_registry_stays_sound :
    Guarded (registryStep fun _ => []) Fresh (.starting fun _ => none)
      [.ensure calendarIds 5 showCalendar,.dismiss shownCalendar] ∧
    (run (registryStep fun _ => []) (.starting fun _ => none) [.ensure calendarIds 5 showCalendar,.dismiss shownCalendar]).map
      (fun t => (presentationsIn t.root,(revealsOf ['p'] t.answers).length,requestIdsOf ['p'] t.answers)) =
        some ([shownCalendar],1,[['r']]) ∧
    Always (registryStep fun _ => []) (RegistrySound fun _ => []) (.starting fun _ => none)
      [.ensure calendarIds 5 showCalendar,.dismiss shownCalendar] := by
  have hguarded : Guarded (registryStep fun _ => []) Fresh (.starting fun _ => none)
      [.ensure calendarIds 5 showCalendar,.dismiss shownCalendar] := by
    intro t ht
    refine ⟨⟨⟨fun _ hno => (nomatch hno),fun _ hno => nomatch hno⟩,fun _ hno => nomatch hno⟩,fun u _ => ⟨?_,trivial⟩⟩
    have hsnapshots : (registryStep (fun _ => []) (.starting fun _ => none) (.ensure calendarIds 5 showCalendar)).map
        (·.snapshots) = some [shownCalendar] := rfl
    rw [ht] at hsnapshots
    have hseen : t.snapshots = [shownCalendar] := Option.some.inj hsnapshots
    show shownCalendar ∈ t.snapshots
    rw [hseen]
    exact mem_singleton_self _
  exact ⟨hguarded,rfl,app_presentation_registry_stays_sound _ _ rfl _ hguarded⟩

end Calendar

end Unpeel.Lifecycle
