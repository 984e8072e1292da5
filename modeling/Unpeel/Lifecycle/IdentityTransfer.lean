import Unpeel.Lifecycle.AppPresentations

/-! # The identity of a Session

A Session that is replaced hands its pins, grants, approvals and App presentations to the
Session that replaces it, and a Session that is removed leaves none of them behind.
-/
namespace Unpeel.Lifecycle
open Manifest List

/-- `app-state.json` as it is read. -/
inductive StateFile where
  | missing
  | blank
  | unreadable (error : Text)
  | value (value : Json)

def emptyState : Fields := fun key =>
  if key = "projects".toList then some (.arr [])
  else if key = "active_project_id".toList then some .null
  else if key = "presets".toList then some (.arr [])
  else if key = "active_tabs".toList then some (.obj fun _ => none)
  else if key = "pinned_sessions".toList then some (.obj fun _ => none)
  else none

def loadForEdit : StateFile → Except Text Fields
  | .missing | .blank => .ok emptyState
  | .unreadable error => .error error
  | .value (.obj fields) => .ok fields
  | .value _ => .error "app-state.json is not a JSON object".toList

structure EditFaults where
  lock : Option Text
  write : Option Text

/-- `app_state::edit`: the file is replaced only after everything else has succeeded. -/
def editAppState (faults : EditFaults) (mutate : Fields → Except Text Fields) (file : StateFile) :
    Except Text Unit × StateFile :=
  match faults.lock with
  | some error => (.error error,file)
  | none =>
    match (loadForEdit file).bind mutate with
    | .error error => (.error error,file)
    | .ok state =>
      match faults.write with
      | some error => (.error error,file)
      | none => (.ok (),.value (.obj state))

/-- `rewrite_session_order_references_at`: a missing file is left alone. An order without the
id is not written, so that a fault of the write does not come there. -/
def rewriteSessionOrderReferencesAt (faults : EditFaults) (oldId : Text) (replacementId : Option Text) (file : StateFile) :
    Except Text Unit × StateFile :=
  match faults.lock with
  | some error => (.error error,file)
  | none =>
    match file with
    | .missing => (.ok (),file)
    | .blank => (.error "parse session-order.json".toList,file)
    | .unreadable error => (.error error,file)
    | .value value =>
      match faults.write with
      | some error => (.error error,file)
      | none => (.ok (),.value (rewriteSessionOrderValue oldId replacementId value))

def StateRefers (state : Fields) (id : Text) : Prop :=
  (∃ field value, state field = some value ∧ FieldRefers field value id) ∨ PresentationRefers state id

/-- The second value holds the envelope of the first, changed as `related` says. -/
def PresentationsRelated (related : StoredEnvelope → StoredEnvelope → Prop) (before after : Fields) : Prop :=
  after appPresentationsStateKey = before appPresentationsStateKey ∨
    ∃ value value' envelope envelope', before appPresentationsStateKey = some value ∧
      after appPresentationsStateKey = some value' ∧ StoredEnvelope.fromValue value = some envelope ∧
      StoredEnvelope.fromValue value' = some envelope' ∧ related envelope envelope'

structure EntriesRelated (instances presentations : Json → Json → Prop) (before after : StoredEnvelope) : Prop where
  version_eq : after.version = before.version
  extra_eq : after.extra = before.extra
  instances_rel : List.Forall₂ instances before.instances after.instances
  presentations_rel : List.Forall₂ presentations before.presentations after.presentations

/-- The entry is the same, or it named the old Session and reads as before, with the new
Session and a later time. -/
def InstanceRenamed (nowMs : ℕ) (oldId newId : Text) (value value' : Json) : Prop :=
  hasCompanion oldId value = false ∧ value' = value ∨
    ∃ stored, parseInstance value = some stored ∧ stored.value.companionSessionId = oldId ∧
      parseInstance value' = some (stored.replaceCompanion newId nowMs)

def PresentationRenamed (nowMs : ℕ) (oldId newId : Text) (value value' : Json) : Prop :=
  hasCaller oldId value = false ∧ value' = value ∨
    ∃ stored, parsePresentation value = some stored ∧ stored.value.callerSessionId = oldId ∧
      parsePresentation value' = some (stored.replaceCaller newId nowMs)

def InstanceRestored (value value' : Json) : Prop :=
  value' = value ∨ ∃ stored stored', parseInstance value = some stored ∧ parseInstance value' = some stored' ∧
    stored'.extra = stored.extra ∧ stored.value.updatedAtUnixMs ≤ stored'.value.updatedAtUnixMs ∧
    stored'.value = { stored.value with updatedAtUnixMs := stored'.value.updatedAtUnixMs }

def PresentationRestored (value value' : Json) : Prop :=
  value' = value ∨ ∃ stored stored', parsePresentation value = some stored ∧ parsePresentation value' = some stored' ∧
    stored'.extra = stored.extra ∧ stored'.recentRequestIds = stored.recentRequestIds ∧
    stored.value.updatedAtUnixMs ≤ stored'.value.updatedAtUnixMs ∧
    stored'.value = { stored.value with updatedAtUnixMs := stored'.value.updatedAtUnixMs }

/-- The instances of the Session are gone with their presentations, and so are its own
presentations. -/
structure EntriesRemoved (oldId : Text) (before after : StoredEnvelope) : Prop where
  version_eq : after.version = before.version
  extra_eq : after.extra = before.extra
  instances_eq : after.instances = before.instances.filter (!hasCompanion oldId ·)
  presentations_eq : after.presentations = before.presentations.filter fun value =>
    !hasCaller oldId value && !(parsePresentation value).any fun stored =>
      (before.instances.filterMap parseInstance).any fun i =>
        i.value.companionSessionId = oldId && i.value.id = stored.value.instanceId

section Rewriting
variable {serdeError : Json → Text} {nowMs : ℕ} {oldId newId id : Text} {replacementId : Option Text} {state out : Fields}
variable {envelope : StoredEnvelope} {value : Json}
variable {later : ℕ}

theorem rewriteUntyped_presentations :
    rewriteUntyped oldId replacementId state appPresentationsStateKey = state appPresentationsStateKey := by
  rw [rewriteUntyped_apply]
  exact Option.map_id' ..

theorem not_fieldRefers_presentations (value : Json) : ¬FieldRefers appPresentationsStateKey value id := fun h => h

theorem rewriteAppState_apply (h : rewriteAppStateSessionReferences serdeError nowMs oldId replacementId state = .ok out)
    {field : Text} (hfield : field ≠ appPresentationsStateKey) :
    out field = (state field).map (rewriteField field oldId replacementId) := by
  rw [← rewriteUntyped_apply]
  obtain ⟨-,⟨-,rfl⟩ | ⟨_,_,-,-,-,-,⟨-,rfl⟩ | ⟨-,-,rfl⟩⟩⟩ := rewritePresentations_eq_ok.mp h
  · rfl
  · rfl
  · exact Function.update_of_ne hfield ..

theorem hasCompanion_eq_false (h : ¬envelope.Refers id)
    (hvalue : value ∈ envelope.instances) : hasCompanion id value = false := by
  cases hparse : parseInstance value with
  | none => simp [hasCompanion, hparse]
  | some stored =>
    have hother : stored.value.companionSessionId ≠ id := fun hid =>
      h (.inl ⟨stored,mem_filterMap.mpr ⟨value,hvalue,hparse⟩,hid⟩)
    simp [hasCompanion, hparse, hother]

theorem hasCaller_eq_false (h : ¬envelope.Refers id)
    (hvalue : value ∈ envelope.presentations) : hasCaller id value = false := by
  cases hparse : parsePresentation value with
  | none => simp [hasCaller, hparse]
  | some stored =>
    have hother : stored.value.callerSessionId ≠ id := fun hid =>
      h (.inr ⟨stored,mem_filterMap.mpr ⟨value,hvalue,hparse⟩,hid⟩)
    simp [hasCaller, hparse, hother]

theorem removedInstanceIds_eq_nil (h : ¬envelope.Refers oldId) :
    removedInstanceIds oldId replacementId envelope.instances = [] := by
  have hnone : envelope.instances.filter (hasCompanion oldId) = [] :=
    filter_eq_nil_iff.mpr fun value hvalue => by simp [hasCompanion_eq_false h hvalue]
  simp [removedInstanceIds, hnone]

theorem rewriteInstance_other (h : hasCompanion oldId value = false) :
    rewriteInstance nowMs oldId replacementId value = some value := by
  unfold rewriteInstance
  cases hparse : parseInstance value with
  | none => rfl
  | some stored =>
    have hother : stored.value.companionSessionId ≠ oldId := by simpa [hasCompanion, hparse] using h
    exact if_pos hother

theorem rewritePresentation_other (h : hasCaller oldId value = false) :
    rewritePresentation nowMs oldId replacementId [] value = some value := by
  unfold rewritePresentation
  cases hparse : parsePresentation value with
  | none => rfl
  | some stored =>
    have hother : stored.value.callerSessionId ≠ oldId := by simpa [hasCaller, hparse] using h
    exact if_pos hother

theorem StoredEnvelope.rewrite_of_not_refers (h : ¬envelope.Refers oldId) :
    envelope.rewrite nowMs oldId replacementId = envelope := by
  have hinstances : envelope.instances.filterMap (rewriteInstance nowMs oldId replacementId) = envelope.instances := by
    conv_rhs => rw [← filterMap_some (l := envelope.instances)]
    exact filterMap_congr fun value hvalue => rewriteInstance_other (hasCompanion_eq_false h hvalue)
  have hpresentations : envelope.presentations.filterMap (rewritePresentation nowMs oldId replacementId []) =
      envelope.presentations := by
    conv_rhs => rw [← filterMap_some (l := envelope.presentations)]
    exact filterMap_congr fun value hvalue => rewritePresentation_other (hasCaller_eq_false h hvalue)
  unfold StoredEnvelope.rewrite
  rw [removedInstanceIds_eq_nil h, hinstances, hpresentations]

theorem StoredEnvelope.changed_iff :
    envelope.changed oldId replacementId = true ↔ envelope.Refers oldId := by
  constructor
  · intro hchanged
    by_contra hno
    simp only [StoredEnvelope.changed, removedInstanceIds_eq_nil hno, Bool.or_eq_true, any_eq_true] at hchanged
    rcases hchanged with ⟨value,hvalue,hhas⟩ | ⟨value,hvalue,hpresents | hhas⟩
    · exact absurd hhas (by simp [hasCompanion_eq_false hno hvalue])
    · cases hparse : parsePresentation value <;> simp [presents, hparse] at hpresents
    · exact absurd hhas (by simp [hasCaller_eq_false hno hvalue])
  · rintro (⟨stored,hmem,hold⟩ | ⟨stored,hmem,hold⟩)
    · obtain ⟨value,hvalue,hparse⟩ := mem_filterMap.mp hmem
      have hany : envelope.instances.any (hasCompanion oldId) = true :=
        any_eq_true.mpr ⟨value,hvalue,by simp [hasCompanion, hparse, hold]⟩
      simp [StoredEnvelope.changed, hany]
    · obtain ⟨value,hvalue,hparse⟩ := mem_filterMap.mp hmem
      refine Bool.or_eq_true_iff.mpr (.inr (any_eq_true.mpr ⟨value,hvalue,?_⟩))
      simp [hasCaller, hparse, hold]

/-- The state has no presentations, or their envelope is rewritten. -/
theorem rewriteAppState_presentations
    (h : rewriteAppStateSessionReferences serdeError nowMs oldId replacementId state = .ok out) :
    state appPresentationsStateKey = none ∧ out appPresentationsStateKey = none ∨
      ∃ value envelope value', state appPresentationsStateKey = some value ∧
        StoredEnvelope.fromValue value = some envelope ∧ ValidEnvelope envelope ∧
        out appPresentationsStateKey = some value' ∧
        StoredEnvelope.fromValue value' = some (envelope.rewrite nowMs oldId replacementId) ∧
        envelope.version = appPresentationsStateVersion ∧ ValidEnvelope (envelope.rewrite nowMs oldId replacementId) := by
  obtain ⟨-,hcases⟩ := rewritePresentations_eq_ok.mp h
  rw [rewriteUntyped_presentations] at hcases
  rcases hcases with ⟨hnone,rfl⟩ | ⟨value,envelope,hvalue,hfrom,hversion,hvalid,hcases⟩
  · exact .inl ⟨hnone,rewriteUntyped_presentations.trans hnone⟩
  · right
    rcases hcases with ⟨hchanged,rfl⟩ | ⟨-,hnext,rfl⟩
    · have hother : ¬envelope.Refers oldId := fun hno => by simp [StoredEnvelope.changed_iff.mpr hno] at hchanged
      refine ⟨value,envelope,value,hvalue,hfrom,hvalid,rewriteUntyped_presentations.trans hvalue,?_⟩
      rw [StoredEnvelope.rewrite_of_not_refers hother]
      exact ⟨hfrom,hversion,hvalid⟩
    · refine ⟨value,envelope,_,hvalue,hfrom,hvalid,Function.update_self ..,StoredEnvelope.fromValue_toValue ?_,hversion,hnext⟩
      change envelope.version < 2 ^ 16
      rw [hversion]
      decide

/-- The Sessions that are named afterwards were named before, or one is the replacement. -/
theorem stateRefers_rewrite (h : rewriteAppStateSessionReferences serdeError nowMs oldId replacementId state = .ok out)
    (hrefers : StateRefers out id) :
    StateRefers state id ∧ id ≠ oldId ∨ replacementId = some id ∧ StateRefers state oldId := by
  rcases hrefers with ⟨field,value',hvalue',hid⟩ | ⟨value',envelope',hvalue',hfrom',hid⟩
  · by_cases hfield : field = appPresentationsStateKey
    · subst hfield
      exact absurd hid (not_fieldRefers_presentations value')
    · rw [rewriteAppState_apply h hfield] at hvalue'
      obtain ⟨value,hvalue,rfl⟩ := Option.map_eq_some_iff.mp hvalue'
      rcases (rewrites_field field).refers_rewrite hid with ⟨hold,hne⟩ | ⟨hnew,hold⟩
      · exact .inl ⟨.inl ⟨field,value,hvalue,hold⟩,hne⟩
      · exact .inr ⟨hnew,.inl ⟨field,value,hvalue,hold⟩⟩
  · have hsafe := (safe_of_rewritePresentations h).2
    rcases rewriteAppState_presentations h with ⟨-,hnone⟩ | ⟨value,envelope,_,hvalue,hfrom,-,hnext,hback,-⟩
    · rw [hnone] at hvalue'
      cases hvalue'
    · obtain rfl := Option.some.inj (hnext.symm.trans hvalue')
      obtain rfl := Option.some.inj (hback.symm.trans hfrom')
      rcases StoredEnvelope.refers_rewrite hsafe hid with ⟨hold,hne⟩ | ⟨hnew,hold⟩
      · exact .inl ⟨.inr ⟨value,envelope,hvalue,hfrom,hold⟩,hne⟩
      · exact .inr ⟨hnew,.inr ⟨value,envelope,hvalue,hfrom,hold⟩⟩

theorem stateRefers_named (h : rewriteAppStateSessionReferences serdeError nowMs oldId (some newId) state = .ok out)
    (hrefers : StateRefers state oldId) : StateRefers out newId := by
  rcases hrefers with ⟨field,value,hvalue,hold⟩ | ⟨value,envelope,hvalue,hfrom,hold⟩
  · by_cases hfield : field = appPresentationsStateKey
    · subst hfield
      exact absurd hold (not_fieldRefers_presentations value)
    · refine .inl ⟨field,_,?_,(rewrites_field field).named hold⟩
      rw [rewriteAppState_apply h hfield, hvalue, Option.map_some]
  · have hsafe := (safe_of_rewritePresentations h).2 newId rfl
    rcases rewriteAppState_presentations h with ⟨hnone,-⟩ | ⟨_,_,value',hsame,hsame',-,hvalue',hfrom',-⟩
    · rw [hnone] at hvalue
      cases hvalue
    · obtain rfl := Option.some.inj (hvalue.symm.trans hsame)
      obtain rfl := Option.some.inj (hfrom.symm.trans hsame')
      exact .inr ⟨value',_,hvalue',hfrom',StoredEnvelope.named hsafe hold⟩

/-- Nothing changes where the Session is not named. -/
theorem rewriteAppState_of_not_refers
    (h : rewriteAppStateSessionReferences serdeError nowMs oldId replacementId state = .ok out)
    (hno : ¬StateRefers state oldId) : out = state := by
  have huntyped : rewriteUntyped oldId replacementId state = state := by
    funext field
    rw [rewriteUntyped_apply]
    cases hvalue : state field with
    | none => rfl
    | some value =>
      have hother : ¬FieldRefers field value oldId := fun hrefers => hno (.inl ⟨field,value,hvalue,hrefers⟩)
      exact congrArg some ((rewrites_field field).of_not_refers replacementId hother)
  unfold rewriteAppStateSessionReferences at h
  rw [huntyped] at h
  obtain ⟨-,⟨-,rfl⟩ | ⟨value,envelope,hvalue,hfrom,-,-,⟨-,rfl⟩ | ⟨hchanged,-⟩⟩⟩ := rewritePresentations_eq_ok.mp h
  · rfl
  · rfl
  · exact absurd (.inr ⟨value,envelope,hvalue,hfrom,StoredEnvelope.changed_iff.mp hchanged⟩) hno

theorem rewriteAppState_ok (hvalid : PresentationsValid state) (hold : SafeSessionId oldId)
    (hnew : ∀ newId ∈ replacementId, SafeSessionId newId) (hfresh : ∀ newId ∈ replacementId, ¬StateRefers state newId) :
    ∃ out, rewriteAppStateSessionReferences serdeError nowMs oldId replacementId state = .ok out := by
  unfold rewriteAppStateSessionReferences
  simp only [rewritePresentations_eq_ok, rewriteUntyped_presentations]
  cases hvalue : state appPresentationsStateKey with
  | none => exact ⟨_,⟨hold,hnew⟩,.inl ⟨rfl,rfl⟩⟩
  | some value =>
    obtain ⟨envelope,hfrom,hversion,henvelope⟩ := hvalid value hvalue
    have hunnamed : ∀ newId ∈ replacementId, ¬envelope.Refers newId := fun newId hrepl hrefers =>
      hfresh newId hrepl (.inr ⟨value,envelope,hvalue,hfrom,hrefers⟩)
    cases hchanged : envelope.changed oldId replacementId with
    | false => exact ⟨_,⟨hold,hnew⟩,.inr ⟨value,envelope,rfl,hfrom,hversion,henvelope,.inl ⟨hchanged,rfl⟩⟩⟩
    | true =>
      exact ⟨_,⟨hold,hnew⟩,.inr ⟨value,envelope,rfl,hfrom,hversion,henvelope,
        .inr ⟨hchanged,henvelope.rewrite hnew hunnamed,rfl⟩⟩⟩

theorem forall₂_filterMap {R : Json → Json → Prop} {f : Json → Option Json} {values : List Json}
    (h : ∀ value ∈ values, ∃ value', f value = some value' ∧ R value value') :
    List.Forall₂ R values (values.filterMap f) := by
  induction values with
  | nil => exact .nil
  | cons value rest ih =>
    obtain ⟨value',hvalue',hrel⟩ := h value (mem_cons_self ..)
    rw [filterMap_cons_some hvalue']
    exact .cons hrel (ih fun other hother => h other (mem_cons_of_mem _ hother))

theorem hasCompanion_iff : hasCompanion id value = true ↔
    ∃ stored, parseInstance value = some stored ∧ stored.value.companionSessionId = id := by
  simp [hasCompanion, Option.any_eq_true]

theorem hasCaller_iff : hasCaller id value = true ↔
    ∃ stored, parsePresentation value = some stored ∧ stored.value.callerSessionId = id := by
  simp [hasCaller, Option.any_eq_true]

theorem rewriteInstance_renamed (hsafe : SafeSessionId newId) (value : Json) :
    ∃ value', rewriteInstance nowMs oldId (some newId) value = some value' ∧
      InstanceRenamed nowMs oldId newId value value' := by
  cases hcompanion : hasCompanion oldId value with
  | false => exact ⟨value,rewriteInstance_other hcompanion,.inl ⟨hcompanion,rfl⟩⟩
  | true =>
    obtain ⟨stored,hparse,hold⟩ := hasCompanion_iff.mp hcompanion
    refine ⟨(stored.replaceCompanion newId nowMs).toValue,?_,.inr ⟨stored,hparse,hold,?_⟩⟩
    · simp [rewriteInstance, hparse, hold]
    · exact parseInstance_toValue (validInstance_replaceCompanion (valid_of_parseInstance hparse) hsafe)

theorem rewritePresentation_renamed (hsafe : SafeSessionId newId) (value : Json) :
    ∃ value', rewritePresentation nowMs oldId (some newId) [] value = some value' ∧
      PresentationRenamed nowMs oldId newId value value' := by
  cases hcaller : hasCaller oldId value with
  | false => exact ⟨value,rewritePresentation_other hcaller,.inl ⟨hcaller,rfl⟩⟩
  | true =>
    obtain ⟨stored,hparse,hold⟩ := hasCaller_iff.mp hcaller
    obtain ⟨hvalid,hkept⟩ := valid_of_parsePresentation hparse
    refine ⟨(stored.replaceCaller newId nowMs).toValue,?_,.inr ⟨stored,hparse,hold,?_⟩⟩
    · simp [rewritePresentation, hparse, hold]
    · exact parsePresentation_toValue (validPresentation_replaceCaller hvalid hsafe) hkept

theorem StoredEnvelope.renamed (envelope : StoredEnvelope) (hsafe : SafeSessionId newId) :
    EntriesRelated (InstanceRenamed nowMs oldId newId) (PresentationRenamed nowMs oldId newId) envelope
      (envelope.rewrite nowMs oldId (some newId)) where
  version_eq := rfl
  extra_eq := rfl
  instances_rel := forall₂_filterMap fun value _ => rewriteInstance_renamed hsafe value
  presentations_rel := forall₂_filterMap fun value _ => rewritePresentation_renamed hsafe value

/-- An entry that has been renamed is renamed back. -/
theorem rewriteInstance_restored (hold : SafeSessionId oldId) (hnew : SafeSessionId newId)
    (hfresh : hasCompanion newId value = false) :
    ∃ value', ((rewriteInstance nowMs oldId (some newId) value).bind (rewriteInstance later newId (some oldId))) =
      some value' ∧ InstanceRestored value value' := by
  obtain ⟨value',hvalue',hrenamed⟩ : ∃ value', rewriteInstance nowMs oldId (some newId) value = some value' ∧
    InstanceRenamed nowMs oldId newId value value' := rewriteInstance_renamed hnew value
  rw [hvalue', Option.bind_some]
  rcases hrenamed with ⟨-,rfl⟩ | ⟨stored,hparse,hcompanion,hparse'⟩
  · exact ⟨value',rewriteInstance_other hfresh,.inl rfl⟩
  · obtain ⟨value'',hvalue'',hback⟩ : ∃ value'', rewriteInstance later newId (some oldId) value' = some value'' ∧
      InstanceRenamed later newId oldId value' value'' := rewriteInstance_renamed hold value'
    refine ⟨value'',hvalue'',.inr ⟨stored,?_⟩⟩
    have hnamed : hasCompanion newId value' = true := hasCompanion_iff.mpr ⟨_,hparse',rfl⟩
    rcases hback with ⟨hno,-⟩ | ⟨stored',hstored',-,hparse''⟩
    · rw [hnamed] at hno
      cases hno
    · obtain rfl := Option.some.inj (hparse'.symm.trans hstored')
      refine ⟨_,hparse,hparse'',rfl,(le_max_right _ _).trans (le_max_right _ _),?_⟩
      rw [← hcompanion]
      rfl

theorem rewritePresentation_restored (hold : SafeSessionId oldId) (hnew : SafeSessionId newId)
    (hfresh : hasCaller newId value = false) :
    ∃ value', ((rewritePresentation nowMs oldId (some newId) [] value).bind
      (rewritePresentation later newId (some oldId) [])) = some value' ∧ PresentationRestored value value' := by
  obtain ⟨value',hvalue',hrenamed⟩ : ∃ value', rewritePresentation nowMs oldId (some newId) [] value = some value' ∧
    PresentationRenamed nowMs oldId newId value value' := rewritePresentation_renamed hnew value
  rw [hvalue', Option.bind_some]
  rcases hrenamed with ⟨-,rfl⟩ | ⟨stored,hparse,hcaller,hparse'⟩
  · exact ⟨value',rewritePresentation_other hfresh,.inl rfl⟩
  · obtain ⟨value'',hvalue'',hback⟩ : ∃ value'', rewritePresentation later newId (some oldId) [] value' = some value'' ∧
      PresentationRenamed later newId oldId value' value'' := rewritePresentation_renamed hold value'
    refine ⟨value'',hvalue'',.inr ⟨stored,?_⟩⟩
    have hnamed : hasCaller newId value' = true := hasCaller_iff.mpr ⟨_,hparse',rfl⟩
    rcases hback with ⟨hno,-⟩ | ⟨stored',hstored',-,hparse''⟩
    · rw [hnamed] at hno
      cases hno
    · obtain rfl := Option.some.inj (hparse'.symm.trans hstored')
      refine ⟨_,hparse,hparse'',rfl,rfl,(le_max_right _ _).trans (le_max_right _ _),?_⟩
      rw [← hcaller]
      rfl

theorem StoredEnvelope.restored (hold : SafeSessionId oldId)
    (hnew : SafeSessionId newId) (hfresh : ¬envelope.Refers newId) :
    EntriesRelated InstanceRestored PresentationRestored envelope
      ((envelope.rewrite nowMs oldId (some newId)).rewrite later newId (some oldId)) where
  version_eq := rfl
  extra_eq := rfl
  instances_rel := by
    simp only [StoredEnvelope.rewrite, filterMap_filterMap]
    exact forall₂_filterMap fun value hvalue => rewriteInstance_restored hold hnew (hasCompanion_eq_false hfresh hvalue)
  presentations_rel := by
    simp only [StoredEnvelope.rewrite, filterMap_filterMap]
    exact forall₂_filterMap fun value hvalue => rewritePresentation_restored hold hnew (hasCaller_eq_false hfresh hvalue)

theorem filterMap_eq_filter {f : Json → Option Json} {keep : Json → Bool} {values : List Json}
    (h : ∀ value ∈ values, f value = if keep value then some value else none) : values.filterMap f = values.filter keep := by
  rw [← List.filterMap_eq_filter]
  refine filterMap_congr fun value hvalue => ?_
  rw [h value hvalue, Option.guard]

theorem removedInstanceIds_contains (instances : List Json) (instanceId : Text) :
    (removedInstanceIds oldId none instances).contains instanceId =
      (instances.filterMap parseInstance).any fun i => i.value.companionSessionId = oldId && i.value.id = instanceId := by
  rw [Bool.eq_iff_iff, contains_iff_mem]
  simp only [removedInstanceIds, if_true, mem_map, mem_filterMap, mem_filter, any_eq_true,
    Bool.and_eq_true, decide_eq_true_eq]
  constructor
  · rintro ⟨stored,⟨value,⟨hvalue,hcompanion⟩,hparse⟩,hid⟩
    obtain ⟨other,hother,hold⟩ := hasCompanion_iff.mp hcompanion
    obtain rfl := Option.some.inj (hparse.symm.trans hother)
    exact ⟨stored,⟨value,hvalue,hparse⟩,hold,hid⟩
  · rintro ⟨stored,⟨value,hvalue,hparse⟩,hold,hid⟩
    exact ⟨stored,⟨value,⟨hvalue,hasCompanion_iff.mpr ⟨stored,hparse,hold⟩⟩,hparse⟩,hid⟩

theorem StoredEnvelope.removed (envelope : StoredEnvelope) :
    EntriesRemoved oldId envelope (envelope.rewrite nowMs oldId none) where
  version_eq := rfl
  extra_eq := rfl
  instances_eq := by
    refine filterMap_eq_filter fun value _ => ?_
    cases hcompanion : hasCompanion oldId value with
    | false => exact rewriteInstance_other hcompanion
    | true =>
      obtain ⟨stored,hparse,hold⟩ := hasCompanion_iff.mp hcompanion
      simp [rewriteInstance, hparse, hold]
  presentations_eq := by
    refine filterMap_eq_filter fun value _ => ?_
    unfold rewritePresentation hasCaller
    cases hparse : parsePresentation value with
    | none => rfl
    | some stored =>
      simp only [removedInstanceIds_contains, Option.any_some]
      by_cases hcaller : stored.value.callerSessionId = oldId
      · simp [hcaller]
      · simp only [ne_eq, hcaller, not_false_eq_true, if_true, decide_false, Bool.not_false, Bool.true_and,
          Bool.not_eq_true', ← Bool.not_eq_true]
        split_ifs <;> rfl

end Rewriting

def referenceFields : List Text :=
  [pinnedSessions,mcpOrchestrators,mcpWriteApprovals,mcpAppOpenApprovals,browserApprovals,computerApprovals]

structure Transferred (nowMs : ℕ) (oldId newId : Text) (state out : Fields) : Prop where
  gone : ¬StateRefers out oldId
  others : ∀ field, field ∉ referenceFields → field ≠ appPresentationsStateKey → out field = state field
  renamed : ∀ field, field ≠ appPresentationsStateKey → Option.Rel (Renamed oldId newId) (state field) (out field)
  presentations : PresentationsRelated
    (EntriesRelated (InstanceRenamed nowMs oldId newId) (PresentationRenamed nowMs oldId newId)) state out

structure Restored (state back : Fields) : Prop where
  fields : ∀ field, field ≠ appPresentationsStateKey → back field = state field
  presentations : PresentationsRelated (EntriesRelated InstanceRestored PresentationRestored) state back

structure Pruned (oldId : Text) (state out : Fields) : Prop where
  gone : ¬StateRefers out oldId
  others : ∀ field, field ∉ referenceFields → field ≠ appPresentationsStateKey → out field = state field
  removed : ∀ field, field ≠ appPresentationsStateKey → Option.Rel (Removed oldId) (state field) (out field)
  presentations : PresentationsRelated (EntriesRemoved oldId) state out
  valid : PresentationsValid out

section Transfer
variable {serdeError : Json → Text} {nowMs later : ℕ} {oldId newId : Text} {replacementId : Option Text} {state out : Fields}

theorem rewriteField_other {field : Text} (h : field ∉ referenceFields) (value : Json) :
    rewriteField field oldId replacementId value = value := by
  simp only [referenceFields, mem_cons, not_mem_nil, or_false, not_or] at h
  simp [rewriteField, h]

section Rewritten
variable (h : rewriteAppStateSessionReferences serdeError nowMs oldId replacementId state = .ok out)
include h

theorem rewriteAppState_others {field : Text} (hplace : field ∉ referenceFields) (hfield : field ≠ appPresentationsStateKey) :
    out field = state field := by
  rw [rewriteAppState_apply h hfield]
  cases state field with
  | none => rfl
  | some value => exact congrArg some (rewriteField_other hplace value)

theorem presentationsValid_rewrite : PresentationsValid out := by
  intro value hvalue
  rcases rewriteAppState_presentations h with ⟨-,hnone⟩ | ⟨_,envelope,value',-,-,-,hnext,hfrom,hversion,hvalid⟩
  · rw [hnone] at hvalue
    cases hvalue
  · obtain rfl := Option.some.inj (hnext.symm.trans hvalue)
    exact ⟨_,hfrom,hversion,hvalid⟩

theorem not_stateRefers_old (hfresh : ∀ newId ∈ replacementId, ¬StateRefers state newId) : ¬StateRefers out oldId := by
  intro hrefers
  rcases stateRefers_rewrite h hrefers with ⟨-,hne⟩ | ⟨hsame,hold⟩
  · exact hne rfl
  · exact hfresh oldId hsame hold

end Rewritten

theorem transferred (h : rewriteAppStateSessionReferences serdeError nowMs oldId (some newId) state = .ok out)
    (hfresh : ¬StateRefers state newId) : Transferred nowMs oldId newId state out where
  gone := not_stateRefers_old h (by rintro _ ⟨⟩; exact hfresh)
  others := fun _ hplace hfield => rewriteAppState_others h hplace hfield
  renamed := by
    intro field hfield
    rw [rewriteAppState_apply h hfield]
    cases hvalue : state field with
    | none => exact .none
    | some value => exact .some ((rewrites_field field).renamed fun hrefers => hfresh (.inl ⟨field,value,hvalue,hrefers⟩))
  presentations := by
    have hsafe := (safe_of_rewritePresentations h).2 newId rfl
    rcases rewriteAppState_presentations h with ⟨hnone,hnone'⟩ | ⟨value,envelope,value',hvalue,hfrom,-,hvalue',hfrom',-⟩
    · exact .inl (hnone'.trans hnone.symm)
    · exact .inr ⟨value,value',envelope,_,hvalue,hvalue',hfrom,hfrom',envelope.renamed hsafe⟩

theorem restored {back : Fields} (h : rewriteAppStateSessionReferences serdeError nowMs oldId (some newId) state = .ok out)
    (hfresh : ¬StateRefers state newId)
    (hback : rewriteAppStateSessionReferences serdeError later newId (some oldId) out = .ok back) : Restored state back where
  fields := by
    intro field hfield
    rw [rewriteAppState_apply hback hfield, rewriteAppState_apply h hfield]
    cases hvalue : state field with
    | none => rfl
    | some value =>
      have hother : ¬FieldRefers field value newId := fun hrefers => hfresh (.inl ⟨field,value,hvalue,hrefers⟩)
      exact congrArg some ((rewrites_field field).back hother)
  presentations := by
    have hnew := (safe_of_rewritePresentations h).2 newId rfl
    have hold := (safe_of_rewritePresentations hback).2 oldId rfl
    rcases rewriteAppState_presentations h with ⟨hnone,hnone'⟩ | ⟨value,envelope,value',hvalue,hfrom,-,hvalue',hfrom',-⟩
    · rcases rewriteAppState_presentations hback with ⟨-,hnone''⟩ | ⟨_,_,_,hno,-⟩
      · exact .inl (hnone''.trans hnone.symm)
      · rw [hnone'] at hno
        cases hno
    · rcases rewriteAppState_presentations hback with ⟨hno,-⟩ | ⟨_,_,value'',hsame,hsame',-,hvalue'',hfrom'',-⟩
      · rw [hvalue'] at hno
        cases hno
      · obtain rfl := Option.some.inj (hvalue'.symm.trans hsame)
        obtain rfl := Option.some.inj (hfrom'.symm.trans hsame')
        refine .inr ⟨value,value'',envelope,_,hvalue,hvalue'',hfrom,hfrom'',StoredEnvelope.restored hold hnew ?_⟩
        exact fun hrefers => hfresh (.inr ⟨value,envelope,hvalue,hfrom,hrefers⟩)

theorem pruned (h : rewriteAppStateSessionReferences serdeError nowMs oldId none state = .ok out) : Pruned oldId state out where
  gone := not_stateRefers_old h (fun _ hno => nomatch hno)
  others := fun _ hplace hfield => rewriteAppState_others h hplace hfield
  removed := by
    intro field hfield
    rw [rewriteAppState_apply h hfield]
    cases state field with
    | none => exact .none
    | some value => exact .some (rewrites_field field).removed
  presentations := by
    rcases rewriteAppState_presentations h with ⟨hnone,hnone'⟩ | ⟨value,envelope,value',hvalue,hfrom,-,hvalue',hfrom',-⟩
    · exact .inl (hnone'.trans hnone.symm)
    · exact .inr ⟨value,value',envelope,_,hvalue,hvalue',hfrom,hfrom',envelope.removed⟩
  valid := presentationsValid_rewrite h

theorem not_orderRefers_old {value : Json} (hfresh : ∀ newId ∈ replacementId, ¬OrderRefers value newId) :
    ¬OrderRefers (rewriteSessionOrderValue oldId replacementId value) oldId := by
  intro hrefers
  rcases rewrites_order.refers_rewrite hrefers with ⟨-,hne⟩ | ⟨hsame,hold⟩
  · exact hne rfl
  · exact hfresh oldId hsame hold

theorem editAppState_error {faults : EditFaults} {mutate : Fields → Except Text Fields} {file : StateFile} {error : Text}
    (h : (editAppState faults mutate file).1 = .error error) : (editAppState faults mutate file).2 = file := by
  unfold editAppState at h ⊢
  split
  · rfl
  · split
    · rfl
    · split <;> simp_all

theorem rewriteSessionOrder_error {faults : EditFaults} {file : StateFile} {error : Text}
    (h : (rewriteSessionOrderReferencesAt faults oldId replacementId file).1 = .error error) :
    (rewriteSessionOrderReferencesAt faults oldId replacementId file).2 = file := by
  unfold rewriteSessionOrderReferencesAt at h ⊢
  split
  · rfl
  · split
    · rfl
    · rfl
    · rfl
    · split <;> simp_all

end Transfer

/-- A Session that gets a new id takes along what names it, and one that goes leaves nothing
behind; a failure leaves the files as they were. -/
theorem session_identity_is_transferred (serdeError : Json → Text) :
    (∀ nowMs oldId newId state, PresentationsValid state → ¬StateRefers state newId → SafeSessionId oldId →
      SafeSessionId newId →
        ∃ out, rewriteAppStateSessionReferences serdeError nowMs oldId (some newId) state = .ok out ∧
          Transferred nowMs oldId newId state out ∧
          ∀ later, ∃ back, rewriteAppStateSessionReferences serdeError later newId (some oldId) out = .ok back ∧
            Restored state back) ∧
    (∀ nowMs oldId state, PresentationsValid state → SafeSessionId oldId →
      ∃ out, rewriteAppStateSessionReferences serdeError nowMs oldId none state = .ok out ∧ Pruned oldId state out) ∧
    (∀ oldId newId value, ¬OrderRefers value newId →
      ¬OrderRefers (rewriteSessionOrderValue oldId (some newId) value) oldId ∧
        Renamed oldId newId value (rewriteSessionOrderValue oldId (some newId) value) ∧
        rewriteSessionOrderValue newId (some oldId) (rewriteSessionOrderValue oldId (some newId) value) = value) ∧
    (∀ oldId value, ¬OrderRefers (rewriteSessionOrderValue oldId none value) oldId ∧
      Removed oldId value (rewriteSessionOrderValue oldId none value)) ∧
    (∀ faults nowMs oldId replacementId file error,
      (editAppState faults (rewriteAppStateSessionReferences serdeError nowMs oldId replacementId) file).1 = .error error →
        (editAppState faults (rewriteAppStateSessionReferences serdeError nowMs oldId replacementId) file).2 = file) ∧
    ∀ faults oldId replacementId file error,
      (rewriteSessionOrderReferencesAt faults oldId replacementId file).1 = .error error →
        (rewriteSessionOrderReferencesAt faults oldId replacementId file).2 = file := by
  refine ⟨?_,?_,?_,?_,?_,?_⟩
  · intro nowMs oldId newId state hvalid hfresh hold hnew
    obtain ⟨out,hout⟩ : ∃ out, rewriteAppStateSessionReferences serdeError nowMs oldId (some newId) state = .ok out :=
      rewriteAppState_ok hvalid hold (by rintro _ ⟨⟩; exact hnew) (by rintro _ ⟨⟩; exact hfresh)
    have htransferred := transferred hout hfresh
    refine ⟨out,hout,htransferred,fun later => ?_⟩
    obtain ⟨back,hback⟩ : ∃ back, rewriteAppStateSessionReferences serdeError later newId (some oldId) out = .ok back :=
      rewriteAppState_ok (presentationsValid_rewrite hout) hnew (by rintro _ ⟨⟩; exact hold)
        (by rintro _ ⟨⟩; exact htransferred.gone)
    exact ⟨back,hback,restored hout hfresh hback⟩
  · intro nowMs oldId state hvalid hold
    obtain ⟨out,hout⟩ : ∃ out, rewriteAppStateSessionReferences serdeError nowMs oldId none state = .ok out :=
      rewriteAppState_ok hvalid hold (fun _ hno => nomatch hno) (fun _ hno => nomatch hno)
    exact ⟨out,hout,pruned hout⟩
  · intro oldId newId value hfresh
    exact ⟨not_orderRefers_old (by rintro _ ⟨⟩; exact hfresh),rewrites_order.renamed hfresh,rewrites_order.back hfresh⟩
  · exact fun oldId value => ⟨not_orderRefers_old (fun _ hno => nomatch hno),rewrites_order.removed⟩
  · exact fun _ _ _ _ _ _ h => editAppState_error h
  · exact fun _ _ _ _ _ h => rewriteSessionOrder_error h

/-- An instance of an App that runs in the Session `o`. -/
def calendarInstance : StoredAppInstance := ⟨⟨['i'],['a'],['p'],none,['o'],0,0⟩,⟨fun _ => none,fun _ _ => rfl⟩⟩

def calendarEnvelope : StoredEnvelope :=
  ⟨appPresentationsStateVersion,[calendarInstance.toValue],[],.collect envelopeFields fun _ => none⟩

def calendarState : Fields := fun key => if key = appPresentationsStateKey then some calendarEnvelope.toValue else none

section Calendar

theorem calendarState_eq_some {field : Text} {value : Json} (h : calendarState field = some value) :
    field = appPresentationsStateKey ∧ value = calendarEnvelope.toValue := by
  unfold calendarState at h
  split_ifs at h with hfield
  exact ⟨hfield,(Option.some.inj h).symm⟩

theorem calendarEnvelope_fromValue : StoredEnvelope.fromValue calendarEnvelope.toValue = some calendarEnvelope :=
  StoredEnvelope.fromValue_toValue (by decide)

theorem calendarState_valid : PresentationsValid calendarState := by
  intro value hvalue
  obtain ⟨-,rfl⟩ := calendarState_eq_some hvalue
  exact ⟨calendarEnvelope,calendarEnvelope_fromValue,rfl,validateEnvelope_eq_ok.mp rfl⟩

theorem calendarState_fresh : ¬StateRefers calendarState ['n'] := by
  rintro (⟨field,value,hvalue,hrefers⟩ | ⟨value,envelope,hvalue,hfrom,hrefers⟩)
  · obtain ⟨rfl,-⟩ := calendarState_eq_some hvalue
    exact not_fieldRefers_presentations value hrefers
  · obtain ⟨-,rfl⟩ := calendarState_eq_some hvalue
    obtain rfl := Option.some.inj (calendarEnvelope_fromValue.symm.trans hfrom)
    have hinstances : calendarEnvelope.instances.filterMap parseInstance = [calendarInstance] := by
      rw [calendarEnvelope, filterMap_cons_some (parseInstance_toValue rfl), filterMap_nil]
    rcases hrefers with ⟨stored,hmem,hid⟩ | ⟨stored,hmem,-⟩
    · rw [hinstances, mem_singleton] at hmem
      subst hmem
      exact absurd hid (by decide)
    · exact nomatch hmem

end Calendar

theorem calendar_is_transferred : ∃ out,
    rewriteAppStateSessionReferences (fun _ => []) 5 ['o'] (some ['n']) calendarState = .ok out ∧
      Transferred 5 ['o'] ['n'] calendarState out := by
  obtain ⟨out,hout,htransferred,-⟩ := (session_identity_is_transferred fun _ => []).1 5 ['o'] ['n'] calendarState
    calendarState_valid calendarState_fresh (fun _ => rfl) (fun _ => rfl)
  exact ⟨out,hout,htransferred⟩

/-- The time of the instance is not the one it had. -/
theorem renaming_is_not_undone :
    ¬∀ nowMs later oldId newId state out back, PresentationsValid state → ¬StateRefers state newId →
      rewriteAppStateSessionReferences (fun _ => []) nowMs oldId (some newId) state = .ok out →
      rewriteAppStateSessionReferences (fun _ => []) later newId (some oldId) out = .ok back → back = state := by
  intro h
  have hsame := h 5 5 ['o'] ['n'] calendarState _ _ calendarState_valid calendarState_fresh rfl rfl
  have htimes := congrArg (fun state => ((state appPresentationsStateKey).bind StoredEnvelope.fromValue).map
    fun envelope => (parsedInstances envelope.instances).map (·.updatedAtUnixMs)) hsame
  exact absurd htimes (by decide)

end Unpeel.Lifecycle
