import Mathlib.Data.List.Infix
import Unpeel.Lifecycle.IdentityTransfer

/-! # Replacing a Session

`restart_session`, `resume_session` and `reload_session` hold the lifecycle lock of the Session
while its directory is removed and a new Host is spawned, under a fresh id or under the same one.
When the spawn or the transfer of the references fails, the replacement is removed again, under
the lock of its own id. A lock is not reentrant: a call that takes one it holds never returns.
-/
namespace Unpeel.Lifecycle
open Manifest List

/-- The Session directories, the two files that name Sessions, and the locks of the call.
`appErrors` and `orderErrors` have the rewrites that have failed so far, by the id that was to be
rewritten, and `tornDown` says that the Session's directory has been removed. -/
structure World where
  dirs : Text → Bool
  appState : StateFile
  order : StateFile
  held : List Text
  appErrors : List (Text × Text)
  orderErrors : List (Text × Text)
  tornDown : Bool

def World.start (dirs : Text → Bool) (appState order : StateFile) : World := ⟨dirs,appState,order,[],[],[],false⟩

inductive SocketAnswer where
  | accepted
  | rejected (error : Text)
  | unreachable (error : Text)

structure StopFaults where
  socket : SocketAnswer
  exits : Bool
  directStopNote : Text

/-- `remains` is a directory that cannot be deleted, `path` its path. -/
structure TeardownFaults where
  stop : StopFaults
  remains : Bool
  path : Text

structure SharedFaults where
  appState : EditFaults
  order : EditFaults
  nowMs : ℕ

/-- `storage` is the error of the removal of managed storage. -/
structure RemoveFaults where
  teardown : TeardownFaults
  storage : Option Text
  prune : SharedFaults

structure CleanupFaults where
  lock : Option Text
  remove : RemoveFaults
  prune : SharedFaults

/-- `freshId` is the id that is drawn, and `created` says that the new Host has made its
directory by the time it is needed. -/
structure RestartFaults where
  readable : Bool
  teardown : TeardownFaults
  freshId : Text
  spawn : Option Text
  created : Bool
  transfer : SharedFaults
  cleanup : CleanupFaults

/-- `health` is the manifest after `refresh_manifest_health`. -/
structure CallFaults where
  lock : Option Text
  health : Option HostedSessionState
  stop : StopFaults
  restart : RestartFaults

inductive LifecycleCall where
  | restart
  | resume
  | reload
deriving DecidableEq

def errorOf (id : Text) (result : Except Text Unit) : List (Text × Text) :=
  match result with
  | .error error => [(id,error)]
  | .ok _ => []

def appStateReport (error : Text) : Text := "update app-state.json: ".toList ++ error

def orderReport (error : Text) : Text := "update session-order.json: ".toList ++ error

section Calls
variable (serdeError : Json → Text)

def stopSessionUnlocked (faults : StopFaults) (sessionId : Text) (w : World) : Except Text Unit :=
  match faults.socket with
  | .rejected error => .error error
  | socket =>
    if faults.exits || !w.dirs sessionId then .ok ()
    else .error ("session ".toList ++ sessionId ++ " host did not publish an exited manifest within 8000ms".toList ++
      (match socket with
        | .unreachable error => "; socket request failed: ".toList ++ error
        | _ => []) ++ faults.directStopNote)

def teardownSessionFiles (faults : TeardownFaults) (sessionId : Text) (w : World) : Except Text Unit × World :=
  match stopSessionUnlocked faults.stop sessionId w with
  | .error error => (.error error,w)
  | .ok _ =>
    if faults.remains then
      (.error ("session directory still exists after teardown: ".toList ++ faults.path),
        { w with dirs := Function.update w.dirs sessionId true })
    else (.ok (),{ w with dirs := Function.update w.dirs sessionId false })

def rewriteSharedSessionReferences (faults : SharedFaults) (oldId : Text) (replacementId : Option Text) (w : World) :
    Except Text Unit × World :=
  let appState := editAppState faults.appState
    (rewriteAppStateSessionReferences serdeError faults.nowMs oldId replacementId) w.appState
  let order := rewriteSessionOrderReferencesAt faults.order oldId replacementId w.order
  (match appState.1,order.1 with
    | .ok _,.ok _ => .ok ()
    | .error appState,.ok _ => .error (appStateReport appState)
    | .ok _,.error order => .error (orderReport order)
    | .error appState,.error order => .error (appStateReport appState ++ "; ".toList ++ orderReport order),
    { w with
      appState := appState.2
      order := order.2
      appErrors := w.appErrors ++ errorOf oldId appState.1
      orderErrors := w.orderErrors ++ errorOf oldId order.1 })

def removeSessionUnlocked (faults : RemoveFaults) (sessionId : Text) (w : World) : Except Text Unit × World :=
  match teardownSessionFiles faults.teardown sessionId w with
  | (.error error,w) => (.error error,w)
  | (.ok _,w) =>
    let (pruned,w) := rewriteSharedSessionReferences serdeError faults.prune sessionId none w
    (match pruned,faults.storage with
      | .ok _,none => .ok ()
      | .error prune,none => .error prune
      | .ok _,some storage => .error ("session removed, but ".toList ++ storage)
      | .error prune,some storage => .error (prune ++ "; additionally, ".toList ++ storage),w)

/-- `none` is a call that waits for ever. -/
def lockSessionLifecycle (fault : Option Text) (sessionId : Text) (w : World) : Option (Except Text World) :=
  match fault with
  | some error => some (.error error)
  | none => if w.held.contains sessionId then none else some (.ok { w with held := sessionId :: w.held })

def World.unlock (w : World) (sessionId : Text) : World := { w with held := w.held.erase sessionId }

def pruneOriginal (faults : SharedFaults) (oldId : Text) (errors : List Text) (w : World) : List Text × World :=
  let (pruned,w) := rewriteSharedSessionReferences serdeError faults oldId none w
  (match pruned with
    | .ok _ => errors
    | .error error => errors ++ ["prune original ".toList ++ oldId ++ ": ".toList ++ error],w)

def cleanupFailedRestart (faults : CleanupFaults) (oldId replacementId : Text) (w : World) : Option (List Text × World) :=
  match lockSessionLifecycle faults.lock replacementId w with
  | none => none
  | some (.error error) =>
    some (pruneOriginal serdeError faults.prune oldId
      ["lock replacement ".toList ++ replacementId ++ " for removal: ".toList ++ error] w)
  | some (.ok w) =>
    let (removed,w) := removeSessionUnlocked serdeError faults.remove replacementId w
    some (pruneOriginal serdeError faults.prune oldId
      (match removed with
        | .ok _ => []
        | .error error => ["remove replacement ".toList ++ replacementId ++ ": ".toList ++ error])
      (w.unlock replacementId))

/-- `validate_session_order_references_at`. -/
def validateSessionOrder : StateFile → Except Text Unit
  | .missing => .ok ()
  | .value (.obj _) => .ok ()
  | .unreadable error => .error error
  | .blank => .error "parse session-order.json".toList
  | .value _ => .error "session-order.json is not a JSON object".toList

def validateSharedSessionReferenceFiles (w : World) : Except Text Unit := do
  let state ← (loadForEdit w.appState).mapError ("read app-state.json: ".toList ++ ·)
  let _ ← validatedEnvelopeFromRoot serdeError state
  validateSessionOrder w.order

def joinErrors (errors : List Text) : Text := ("; ".toList).intercalate errors

def spawnFailure (sessionId spawnError : Text) (cleanupErrors : List Text) : Text :=
  "failed to spawn replacement for ".toList ++ sessionId ++ " after removing the original: ".toList ++ spawnError ++
    if cleanupErrors = [] then [] else "; cleanup errors: ".toList ++ joinErrors cleanupErrors

def transferFailure (replacementId stateError : Text) (cleanupErrors : List Text) : Text :=
  "replacement ".toList ++ replacementId ++ " started, but its shared identity could not be transferred: ".toList ++
    stateError ++
    if cleanupErrors = [] then "; the replacement was removed".toList
    else "; cleanup errors: ".toList ++ joinErrors cleanupErrors

def launchReplacement (faults : RestartFaults) (sessionId replacementId : Text) (w : World) :
    Option (Except Text Text × World) :=
  let w := { w with tornDown := true, dirs := Function.update w.dirs replacementId faults.created }
  match faults.spawn with
  | some spawnError =>
    (cleanupFailedRestart serdeError faults.cleanup sessionId replacementId w).map fun (errors,w) =>
      (.error (spawnFailure sessionId spawnError errors),w)
  | none =>
    match rewriteSharedSessionReferences serdeError faults.transfer sessionId (some replacementId) w with
    | (.error stateError,w) =>
      (cleanupFailedRestart serdeError faults.cleanup sessionId replacementId w).map fun (errors,w) =>
        (.error (transferFailure replacementId stateError errors),w)
    | (.ok _,w) => some (.ok replacementId,w)

def restartSessionUnlocked (faults : RestartFaults) (sessionId : Text) (keepId : Bool) (w : World) :
    Option (Except Text Text × World) :=
  if !(faults.readable && w.dirs sessionId) then some (.error ("no manifest for ".toList ++ sessionId),w) else
  match validateSharedSessionReferenceFiles serdeError w with
  | .error error => some (.error error,w)
  | .ok _ =>
    match teardownSessionFiles faults.teardown sessionId w with
    | (.error error,w) => some (.error error,w)
    | (.ok _,w) => launchReplacement serdeError faults sessionId (if keepId then sessionId else faults.freshId) w

def lifecycleCall (faults : CallFaults) (call : LifecycleCall) (sessionId : Text) (w : World) :
    Option (Except Text Text × World) :=
  match lockSessionLifecycle faults.lock sessionId w with
  | none => none
  | some (.error error) => some (.error error,w)
  | some (.ok w) =>
    match call with
    | .restart => restartSessionUnlocked serdeError faults.restart sessionId false w
    | .resume =>
      match faults.health with
      | none => some (.error ("no manifest for ".toList ++ sessionId),w)
      | some .running => some (.error ("session ".toList ++ sessionId ++ " is still running".toList),w)
      | some .exited => restartSessionUnlocked serdeError faults.restart sessionId false w
    | .reload =>
      match faults.health with
      | none => some (.error ("no manifest for ".toList ++ sessionId),w)
      | some .exited => restartSessionUnlocked serdeError faults.restart sessionId true w
      | some .running =>
        match stopSessionUnlocked faults.stop sessionId w with
        | .error error => some (.error error,w)
        | .ok _ => restartSessionUnlocked serdeError faults.restart sessionId true w

end Calls

def AppStateRefers (file : StateFile) (id : Text) : Prop := ∃ fields, file = .value (.obj fields) ∧ StateRefers fields id

def OrderFileRefers (file : StateFile) (id : Text) : Prop := ∃ value, file = .value value ∧ OrderRefers value id

structure FileRewrite (refers : StateFile → Text → Prop) (oldId : Text) (replacementId : Option Text) (before : StateFile)
    (result : Except Text Unit × StateFile) : Prop where
  kept : ∀ error, result.1 = .error error → result.2 = before
  bound : ∀ done, result.1 = .ok done → ∀ id, refers result.2 id →
    refers before id ∧ id ≠ oldId ∨ replacementId = some id ∧ refers before oldId
  named : ∀ done, result.1 = .ok done → ∀ newId, replacementId = some newId → refers before oldId → refers result.2 newId
  unnamed : ∀ done, result.1 = .ok done → ¬refers before oldId → ∀ id, refers before id → refers result.2 id

section Files
variable {serdeError : Json → Text} {nowMs : ℕ} {oldId id : Text} {replacementId : Option Text} {faults : EditFaults}
  {file : StateFile}

theorem not_stateRefers_empty : ¬StateRefers emptyState id := by
  rintro (⟨field,value,hvalue,hrefers⟩ | ⟨value,envelope,hvalue,-⟩)
  · by_cases hpinned : field = pinnedSessions
    · subst hpinned
      obtain rfl : .obj (fun _ => none) = value := Option.some.inj hvalue
      rcases hrefers with ⟨fields,hfields,key,entries,hentries,-⟩ | ⟨values,hvalues,-⟩
      · cases hfields
        cases hentries
      · cases hvalues
    · have hplace : field ∉ referenceFields := by
        intro hplace
        simp only [referenceFields, mem_cons, not_mem_nil, or_false, hpinned, false_or] at hplace
        rcases hplace with rfl | rfl | rfl | rfl | rfl <;> cases hvalue
      simp only [referenceFields, mem_cons, not_mem_nil, or_false, not_or] at hplace
      simp [FieldRefers, hplace] at hrefers
  · cases hvalue

/-- The state that is edited names the Sessions that the file names. -/
theorem stateRefers_loadForEdit {fields : Fields} (h : loadForEdit file = .ok fields) :
    StateRefers fields id ↔ AppStateRefers file id := by
  cases file with
  | missing | blank =>
    cases h
    exact iff_of_false not_stateRefers_empty fun ⟨_,hno,_⟩ => nomatch hno
  | unreadable error => cases h
  | value value =>
    cases value with
    | obj fields' =>
      cases h
      refine ⟨fun hrefers => ⟨fields,rfl,hrefers⟩,?_⟩
      rintro ⟨_,⟨⟩,hrefers⟩
      exact hrefers
    | _ => cases h

theorem editAppState_ok {mutate : Fields → Except Text Fields} {done : Unit}
    (h : (editAppState faults mutate file).1 = .ok done) :
    ∃ fields out, loadForEdit file = .ok fields ∧ mutate fields = .ok out ∧
      (editAppState faults mutate file).2 = .value (.obj out) := by
  unfold editAppState at h ⊢
  cases hlock : faults.lock with
  | some error => simp [hlock] at h
  | none =>
    cases hload : loadForEdit file with
    | error error => simp [hlock, hload, Except.bind] at h
    | ok fields =>
      cases hmutate : mutate fields with
      | error error => simp [hlock, hload, hmutate, Except.bind] at h
      | ok out =>
        cases hwrite : faults.write with
        | some error => simp [hlock, hload, hmutate, hwrite, Except.bind] at h
        | none => exact ⟨fields,out,rfl,hmutate,by simp [hmutate, Except.bind]⟩

theorem appState_rewrite : FileRewrite AppStateRefers oldId replacementId file
    (editAppState faults (rewriteAppStateSessionReferences serdeError nowMs oldId replacementId) file) where
  kept := fun _ => editAppState_error
  bound := by
    rintro done hok id ⟨out',hout',hrefers⟩
    obtain ⟨fields,out,hload,hmutate,hfile⟩ := editAppState_ok hok
    rw [hfile] at hout'
    cases hout'
    rw [← stateRefers_loadForEdit hload, ← stateRefers_loadForEdit hload]
    exact stateRefers_rewrite hmutate hrefers
  named := by
    rintro done hok newId rfl hrefers
    obtain ⟨fields,out,hload,hmutate,hfile⟩ := editAppState_ok hok
    rw [hfile]
    exact ⟨out,rfl,stateRefers_named hmutate ((stateRefers_loadForEdit hload).mpr hrefers)⟩
  unnamed := by
    rintro done hok hno id hrefers
    obtain ⟨fields,out,hload,hmutate,hfile⟩ := editAppState_ok hok
    rw [← stateRefers_loadForEdit hload] at hno hrefers
    rw [hfile, rewriteAppState_of_not_refers hmutate hno]
    exact ⟨fields,rfl,hrefers⟩

theorem rewriteSessionOrder_ok {done : Unit}
    (h : (rewriteSessionOrderReferencesAt faults oldId replacementId file).1 = .ok done) :
    file = .missing ∧ (rewriteSessionOrderReferencesAt faults oldId replacementId file).2 = .missing ∨
      ∃ value, file = .value value ∧ (rewriteSessionOrderReferencesAt faults oldId replacementId file).2 =
        .value (rewriteSessionOrderValue oldId replacementId value) := by
  unfold rewriteSessionOrderReferencesAt at h ⊢
  cases hlock : faults.lock with
  | some error => simp [hlock] at h
  | none =>
    cases file with
    | missing => exact .inl ⟨rfl,rfl⟩
    | blank | unreadable error => simp [hlock] at h
    | value value =>
      cases hwrite : faults.write with
      | some error => simp [hlock, hwrite] at h
      | none => exact .inr ⟨value,rfl,rfl⟩

theorem order_rewrite : FileRewrite OrderFileRefers oldId replacementId file
    (rewriteSessionOrderReferencesAt faults oldId replacementId file) where
  kept := fun _ => rewriteSessionOrder_error
  bound := by
    rintro done hok id ⟨value',hvalue',hrefers⟩
    rcases rewriteSessionOrder_ok hok with ⟨-,hmissing⟩ | ⟨value,rfl,hfile⟩
    · rw [hmissing] at hvalue'
      cases hvalue'
    · rw [hfile] at hvalue'
      cases hvalue'
      rcases rewrites_order.refers_rewrite hrefers with ⟨hold,hne⟩ | ⟨hnew,hold⟩
      · exact .inl ⟨⟨value,rfl,hold⟩,hne⟩
      · exact .inr ⟨hnew,value,rfl,hold⟩
  named := by
    rintro done hok newId rfl ⟨value',hvalue',hrefers⟩
    rcases rewriteSessionOrder_ok hok with ⟨hmissing,-⟩ | ⟨value,rfl,hfile⟩
    · rw [hmissing] at hvalue'
      cases hvalue'
    · cases hvalue'
      exact ⟨_,hfile,rewrites_order.named hrefers⟩
  unnamed := by
    rintro done hok hno id ⟨value',hvalue',hrefers⟩
    rcases rewriteSessionOrder_ok hok with ⟨hmissing,-⟩ | ⟨value,rfl,hfile⟩
    · rw [hmissing] at hvalue'
      cases hvalue'
    · cases hvalue'
      refine ⟨_,hfile,?_⟩
      rw [rewrites_order.of_not_refers replacementId fun hold => hno ⟨value',rfl,hold⟩]
      exact hrefers

end Files

/-- No file has come to name a Session without a directory, unless the message has the error of
the rewrite. -/
structure NothingDangles (before after : World) (message : Text) : Prop where
  appState : ∀ id, AppStateRefers after.appState id → after.dirs id = false →
    AppStateRefers before.appState id ∧ before.dirs id = false ∨
      ∃ error, (id,error) ∈ after.appErrors ∧ appStateReport error <:+: message
  order : ∀ id, OrderFileRefers after.order id → after.dirs id = false →
    OrderFileRefers before.order id ∧ before.dirs id = false ∨
      ∃ error, (id,error) ∈ after.orderErrors ∧ orderReport error <:+: message

def Settles (before : World) (result : Option (Except Text Text × World)) : Prop :=
  ∃ outcome after, result = some (outcome,after) ∧
    ∀ message, outcome = .error message → after.tornDown = true → NothingDangles before after message

def CleanupFaults.CutShort (faults : CleanupFaults) : Prop :=
  faults.lock ≠ none ∨ ∃ error, faults.remove.teardown.stop.socket = .rejected error

section Conditions
variable (serdeError : Json → Text)

def GetsToLaunch (faults : CallFaults) (call : LifecycleCall) (sessionId : Text) (w : World) : Prop :=
  faults.lock = none ∧
  (call = .resume → faults.health = some .exited) ∧
  (call = .reload → faults.health = some .exited ∨
    faults.health = some .running ∧ stopSessionUnlocked faults.stop sessionId w = .ok ()) ∧
  faults.restart.readable = true ∧ w.dirs sessionId = true ∧
  validateSharedSessionReferenceFiles serdeError w = .ok () ∧
  (teardownSessionFiles faults.restart.teardown sessionId w).1 = .ok ()

def HalfTransferred (faults : SharedFaults) (sessionId replacementId : Text) (w : World) : Prop :=
  let appState := (editAppState faults.appState
    (rewriteAppStateSessionReferences serdeError faults.nowMs sessionId (some replacementId)) w.appState).1
  let order := (rewriteSessionOrderReferencesAt faults.order sessionId (some replacementId) w.order).1
  appState = .ok () ∧ order ≠ .ok () ∧ AppStateRefers w.appState sessionId ∨
    appState ≠ .ok () ∧ order = .ok () ∧ OrderFileRefers w.order sessionId

/-- Past the teardown, a reload does not fail (or at least not its cleanup gets to the lock it
holds), and no other call fails with the references half transferred to a replacement that has no
directory and that the cleanup does not get to. -/
def CleansUp (faults : CallFaults) (call : LifecycleCall) (sessionId : Text) (w : World) : Prop :=
  GetsToLaunch serdeError faults call sessionId w →
    if call = .reload then
      faults.restart.spawn = none ∧
        (rewriteSharedSessionReferences serdeError faults.restart.transfer sessionId (some sessionId) w).1 = .ok () ∨
      faults.restart.cleanup.lock ≠ none
    else
      ¬(faults.restart.spawn = none ∧ faults.restart.created = false ∧ faults.restart.cleanup.CutShort ∧
        HalfTransferred serdeError faults.restart.transfer sessionId faults.restart.freshId w)

end Conditions

/-- What the cleanup does to one of the two files: it may prune the replacement, and prunes the
original. -/
structure FileCleaned (refers : StateFile → Text → Prop) (report : Text → Text) (pruned : Bool) (oldId replacementId : Text)
    (before after : StateFile) (failed : List (Text × Text)) (errors : List Text) : Prop where
  steps : ∃ replacement original file,
    (pruned = false → replacement = none ∧ file = before) ∧
    (pruned = true → ∃ result, replacement = some result ∧ FileRewrite refers replacementId none before (result,file)) ∧
    FileRewrite refers oldId none file (original,after) ∧
    (∀ error, replacement = some (.error error) → (replacementId,error) ∈ failed ∧ ∃ text ∈ errors, report error <:+: text) ∧
    ∀ error, original = .error error → (oldId,error) ∈ failed ∧ ∃ text ∈ errors, report error <:+: text

section Steps
variable {refers : StateFile → Text → Prop} {report : Text → Text} {pruned : Bool} {oldId replacementId id : Text}
  {before moved after : StateFile} {failed : List (Text × Text)} {errors : List Text}

/-- A Session that is named after the cleanup was named before it, or the message has the
error of its rewrite. -/
theorem FileCleaned.refers_after (h : FileCleaned refers report pruned oldId replacementId moved after failed errors)
    (hrefers : refers after id) :
    refers moved id ∧ (id ≠ oldId ∧ (id ≠ replacementId ∨ pruned = false) ∨
      ∃ error, (id,error) ∈ failed ∧ ∃ text ∈ errors, report error <:+: text) := by
  obtain ⟨replacement,original,file,hskipped,hpruned,hprune,hreplacementError,horiginalError⟩ := h.steps
  have hfile : refers file id ∧ (id ≠ oldId ∨ ∃ error, original = .error error) := by
    cases original with
    | error error =>
      rw [← hprune.kept error rfl]
      exact ⟨hrefers,.inr ⟨error,rfl⟩⟩
    | ok done =>
      rcases hprune.bound done rfl id hrefers with ⟨hfile,hne⟩ | ⟨hno,-⟩
      · exact ⟨hfile,.inl hne⟩
      · cases hno
  have hmoved : refers moved id ∧ (id ≠ replacementId ∨ pruned = false ∨ ∃ error, replacement = some (.error error)) := by
    cases pruned with
    | false =>
      obtain ⟨-,rfl⟩ := hskipped rfl
      exact ⟨hfile.1,.inr (.inl rfl)⟩
    | true =>
      obtain ⟨result,rfl,hrewrite⟩ := hpruned rfl
      cases result with
      | error error =>
        have hsame := hrewrite.kept error rfl
        rw [← hsame]
        exact ⟨hfile.1,.inr (.inr ⟨error,rfl⟩)⟩
      | ok done =>
        rcases hrewrite.bound done rfl id hfile.1 with ⟨hmoved,hne⟩ | ⟨hno,-⟩
        · exact ⟨hmoved,.inl hne⟩
        · cases hno
  refine ⟨hmoved.1,?_⟩
  by_cases hold : id = oldId
  · subst hold
    obtain ⟨error,herror⟩ := hfile.2.resolve_left (fun hno => hno rfl)
    exact .inr ⟨error,horiginalError error herror⟩
  · by_cases hreplacement : id = replacementId
    · subst hreplacement
      rcases hmoved.2.resolve_left (fun hno => hno rfl) with hskip | ⟨error,herror⟩
      · exact .inl ⟨hold,.inr hskip⟩
      · exact .inr ⟨error,hreplacementError error herror⟩
    · exact .inl ⟨hold,.inl hreplacement⟩

theorem FileCleaned.refers_replacement
    (h : FileCleaned refers report false oldId replacementId moved after failed errors)
    (hold : ¬refers moved oldId) (hrefers : refers moved replacementId) : refers after replacementId := by
  obtain ⟨replacement,original,file,hskipped,-,hprune,-,-⟩ := h.steps
  obtain ⟨-,rfl⟩ := hskipped rfl
  cases original with
  | error error =>
    have hsame := hprune.kept error rfl
    dsimp only at hsame
    rw [hsame]
    exact hrefers
  | ok done => exact hprune.unnamed done rfl hold _ hrefers

end Steps

/-- A rewrite of both files, seen from one of them: `result` is its part of the rewrite. -/
structure SharedRewrite (refers : StateFile → Text → Prop) (report : Text → Text) (oldId : Text) (replacementId : Option Text)
    (before after : StateFile) (failed failed' : List (Text × Text)) (outcome result : Except Text Unit) : Prop where
  rewrite : FileRewrite refers oldId replacementId before (result,after)
  earlier : ∀ entry ∈ failed, entry ∈ failed'
  failed : ∀ error, result = .error error →
    (oldId,error) ∈ failed' ∧ ∃ message, outcome = .error message ∧ report error <:+: message
  ok : ∀ done, outcome = .ok done → result = .ok ()

section Shared
variable (serdeError : Json → Text) (faults : SharedFaults) (oldId : Text) (replacementId : Option Text) (w : World)

theorem shared_appState : SharedRewrite AppStateRefers appStateReport oldId replacementId w.appState
    (rewriteSharedSessionReferences serdeError faults oldId replacementId w).2.appState w.appErrors
    (rewriteSharedSessionReferences serdeError faults oldId replacementId w).2.appErrors
    (rewriteSharedSessionReferences serdeError faults oldId replacementId w).1
    (editAppState faults.appState (rewriteAppStateSessionReferences serdeError faults.nowMs oldId replacementId)
      w.appState).1 where
  rewrite := appState_rewrite
  earlier := fun _ hentry => mem_append_left _ hentry
  failed := by
    intro error herror
    unfold rewriteSharedSessionReferences
    refine ⟨mem_append_right _ (by simp [herror, errorOf]),?_⟩
    cases horder : (rewriteSessionOrderReferencesAt faults.order oldId replacementId w.order).1 with
    | ok done => exact ⟨_,by simp only [herror, horder],infix_rfl⟩
    | error order =>
      refine ⟨appStateReport error ++ "; ".toList ++ orderReport order,by simp only [herror, horder],?_⟩
      rw [append_assoc]
      exact (prefix_append ..).isInfix
  ok := by
    intro done hok
    unfold rewriteSharedSessionReferences at hok
    dsimp only at hok
    split at hok
    · assumption
    all_goals cases hok

theorem shared_order : SharedRewrite OrderFileRefers orderReport oldId replacementId w.order
    (rewriteSharedSessionReferences serdeError faults oldId replacementId w).2.order w.orderErrors
    (rewriteSharedSessionReferences serdeError faults oldId replacementId w).2.orderErrors
    (rewriteSharedSessionReferences serdeError faults oldId replacementId w).1
    (rewriteSessionOrderReferencesAt faults.order oldId replacementId w.order).1 where
  rewrite := order_rewrite
  earlier := fun _ hentry => mem_append_left _ hentry
  failed := by
    intro error herror
    unfold rewriteSharedSessionReferences
    refine ⟨mem_append_right _ (by simp [herror, errorOf]),?_⟩
    cases happ : (editAppState faults.appState
        (rewriteAppStateSessionReferences serdeError faults.nowMs oldId replacementId) w.appState).1 with
    | ok done => exact ⟨_,by simp only [herror, happ],infix_rfl⟩
    | error app =>
      refine ⟨appStateReport app ++ "; ".toList ++ orderReport error,by simp only [herror, happ],?_⟩
      exact (suffix_append ..).isInfix
  ok := by
    intro done hok
    unfold rewriteSharedSessionReferences at hok
    dsimp only at hok
    split at hok
    · assumption
    all_goals cases hok

theorem shared_error {error : Text}
    (h : (rewriteSharedSessionReferences serdeError faults oldId replacementId w).1 = .error error) :
    (editAppState faults.appState (rewriteAppStateSessionReferences serdeError faults.nowMs oldId replacementId)
      w.appState).1 ≠ .ok () ∨ (rewriteSessionOrderReferencesAt faults.order oldId replacementId w.order).1 ≠ .ok () := by
  by_contra hno
  rw [not_or, not_not, not_not] at hno
  unfold rewriteSharedSessionReferences at h
  simp [hno] at h

end Shared

/-- What the cleanup does; `pruned` says that it got to the references of the replacement. -/
structure CleanedUp (faults : CleanupFaults) (oldId replacementId : Text) (w : World) (errors : List Text) (after : World)
    (pruned : Bool) : Prop where
  appState : FileCleaned AppStateRefers appStateReport pruned oldId replacementId w.appState after.appState
    after.appErrors errors
  order : FileCleaned OrderFileRefers orderReport pruned oldId replacementId w.order after.order after.orderErrors errors
  dirs_of_ne : ∀ id, id ≠ replacementId → after.dirs id = w.dirs id
  cutShort : pruned = false → after.dirs replacementId = false → faults.CutShort ∧ w.dirs replacementId = false
  of_cutShort : faults.CutShort → pruned = false ∧ after.dirs replacementId = w.dirs replacementId
  tornDown_eq : after.tornDown = w.tornDown
  unpruned : pruned = false → oldId ≠ replacementId → ∀ error,
    ((replacementId,error) ∈ after.appErrors → (replacementId,error) ∈ w.appErrors) ∧
      ((replacementId,error) ∈ after.orderErrors → (replacementId,error) ∈ w.orderErrors)

section Cleanup
variable {serdeError : Json → Text} {refers : StateFile → Text → Prop} {report : Text → Text} {oldId replacementId : Text}
variable {result : Except Text Unit} {w : World}

theorem SharedRewrite.cleaned_skipped {before after : StateFile} {failed failed' : List (Text × Text)}
    {outcome : Except Text Unit} {errors : List Text}
    (h : SharedRewrite refers report oldId none before after failed failed' outcome result)
    (herrors : ∀ message, outcome = .error message → ∃ text ∈ errors, message <:+: text) :
    FileCleaned refers report false oldId replacementId before after failed' errors := by
  refine ⟨none,result,before,fun _ => ⟨rfl,rfl⟩,fun hno => (nomatch hno),h.rewrite,fun _ hno => (nomatch hno),?_⟩
  intro error herror
  obtain ⟨hmem,message,hmessage,hreport⟩ := h.failed error herror
  obtain ⟨text,htext,hwithin⟩ := herrors message hmessage
  exact ⟨hmem,text,htext,hreport.trans hwithin⟩

theorem SharedRewrite.cleaned_pruned {before file after : StateFile} {failed failed' failed'' : List (Text × Text)}
    {outcome outcome' result' : Except Text Unit} {errors : List Text}
    (hreplacement : SharedRewrite refers report replacementId none before file failed failed' outcome result)
    (horiginal : SharedRewrite refers report oldId none file after failed' failed'' outcome' result')
    (herrors : ∀ message, outcome = .error message → ∃ text ∈ errors, message <:+: text)
    (herrors' : ∀ message, outcome' = .error message → ∃ text ∈ errors, message <:+: text) :
    FileCleaned refers report true oldId replacementId before after failed'' errors := by
  refine ⟨some result,result',file,fun hno => (nomatch hno),fun _ => ⟨result,rfl,hreplacement.rewrite⟩,horiginal.rewrite,?_,?_⟩
  · rintro error herror
    obtain ⟨hmem,message,hmessage,hreport⟩ := hreplacement.failed error (Option.some.inj herror)
    obtain ⟨text,htext,hwithin⟩ := herrors message hmessage
    exact ⟨horiginal.earlier _ hmem,text,htext,hreport.trans hwithin⟩
  · intro error herror
    obtain ⟨hmem,message,hmessage,hreport⟩ := horiginal.failed error herror
    obtain ⟨text,htext,hwithin⟩ := herrors' message hmessage
    exact ⟨hmem,text,htext,hreport.trans hwithin⟩

theorem pruneOriginal_errors {faults : SharedFaults} {errors : List Text} :
    (∀ text ∈ errors, text ∈ (pruneOriginal serdeError faults oldId errors w).1) ∧
      ∀ message, (rewriteSharedSessionReferences serdeError faults oldId none w).1 = .error message →
        ∃ text ∈ (pruneOriginal serdeError faults oldId errors w).1, message <:+: text := by
  cases hpruned : (rewriteSharedSessionReferences serdeError faults oldId none w).1 with
  | ok done => exact ⟨fun text htext => by simpa [pruneOriginal, hpruned] using htext,fun _ hno => nomatch hno⟩
  | error error =>
    refine ⟨fun text htext => by simpa [pruneOriginal, hpruned] using .inl htext,?_⟩
    rintro _ ⟨⟩
    refine ⟨"prune original ".toList ++ oldId ++ ": ".toList ++ error,?_,(suffix_append ..).isInfix⟩
    simp only [pruneOriginal, hpruned]
    exact mem_append_right _ (mem_singleton_self _)

theorem not_mem_errorOf {id error : Text} (h : oldId ≠ id) : (id,error) ∉ errorOf oldId result := by
  cases result with
  | ok done => simp [errorOf]
  | error error' => simp [errorOf, h.symm]

theorem pruneOriginal_cleanedUp (faults : CleanupFaults) (errors : List Text) {w' : World} (hcut : faults.CutShort ∨
    w.dirs replacementId = true) (happ : w.appState = w'.appState) (horder : w.order = w'.order)
    (hdirs : ∀ id, id ≠ replacementId → w.dirs id = w'.dirs id)
    (hsame : faults.CutShort → w.dirs replacementId = w'.dirs replacementId) (htorn : w.tornDown = w'.tornDown)
    (happErrors : w.appErrors = w'.appErrors) (horderErrors : w.orderErrors = w'.orderErrors) :
    CleanedUp faults oldId replacementId w' (pruneOriginal serdeError faults.prune oldId errors w).1
      (pruneOriginal serdeError faults.prune oldId errors w).2 false where
  appState := happ ▸ (shared_appState serdeError faults.prune oldId none w).cleaned_skipped pruneOriginal_errors.2
  order := horder ▸ (shared_order serdeError faults.prune oldId none w).cleaned_skipped pruneOriginal_errors.2
  dirs_of_ne := hdirs
  cutShort := by
    intro _ hnone
    rcases hcut with hcut | hdir
    · exact ⟨hcut,(hsame hcut).symm.trans hnone⟩
    · have hno : w.dirs replacementId = false := hnone
      rw [hdir] at hno
      cases hno
  of_cutShort := fun hcut => ⟨rfl,hsame hcut⟩
  tornDown_eq := htorn
  unpruned := by
    intro _ hne error
    rw [← happErrors, ← horderErrors]
    exact ⟨fun hmem => (mem_append.mp hmem).resolve_right (not_mem_errorOf hne),
      fun hmem => (mem_append.mp hmem).resolve_right (not_mem_errorOf hne)⟩

theorem stop_error_cases {faults : StopFaults} {sessionId error : Text}
    (h : stopSessionUnlocked faults sessionId w = .error error) :
    (∃ error, faults.socket = .rejected error) ∨ w.dirs sessionId = true := by
  unfold stopSessionUnlocked at h
  split at h
  · next error hsocket => exact .inl ⟨error,hsocket⟩
  · split_ifs at h with hexits
    simp only [Bool.or_eq_true, Bool.not_eq_true', not_or, Bool.not_eq_false] at hexits
    exact .inr hexits.2

theorem not_cutShort {faults : CleanupFaults} (hlock : faults.lock = none)
    (hstop : stopSessionUnlocked faults.remove.teardown.stop replacementId w = .ok ()) : ¬faults.CutShort := by
  rintro (hno | ⟨error,hrejected⟩)
  · exact hno hlock
  · simp [stopSessionUnlocked, hrejected] at hstop

theorem removal_errors {pruned : Except Text Unit} {storage : Option Text} {message : Text} (h : pruned = .error message) :
    ∃ text ∈ (match (match pruned,storage with
      | .ok _,none => .ok ()
      | .error prune,none => .error prune
      | .ok _,some storage => .error ("session removed, but ".toList ++ storage)
      | .error prune,some storage => .error (prune ++ "; additionally, ".toList ++ storage) : Except Text Unit) with
      | .ok _ => []
      | .error error => ["remove replacement ".toList ++ replacementId ++ ": ".toList ++ error]), message <:+: text := by
  subst h
  cases storage with
  | none => exact ⟨_,mem_singleton_self _,(suffix_append ..).isInfix⟩
  | some storage =>
    refine ⟨_,mem_singleton_self _,List.IsInfix.trans ?_ (suffix_append ..).isInfix⟩
    rw [append_assoc]
    exact (prefix_append ..).isInfix

theorem cleanup_spec (serdeError : Json → Text) (faults : CleanupFaults) (oldId : Text)
    (hfree : faults.lock = none → replacementId ∉ w.held) :
    ∃ errors after pruned, cleanupFailedRestart serdeError faults oldId replacementId w = some (errors,after) ∧
      CleanedUp faults oldId replacementId w errors after pruned := by
  unfold cleanupFailedRestart lockSessionLifecycle
  cases hlock : faults.lock with
  | some error =>
    exact ⟨_,_,false,rfl,pruneOriginal_cleanedUp faults _ (.inl (.inl (by simp [hlock]))) rfl rfl (fun _ _ => rfl)
      (fun _ => rfl) rfl rfl rfl⟩
  | none =>
    have hheld : ¬w.held.contains replacementId = true := by simpa using hfree hlock
    simp only [if_neg hheld, removeSessionUnlocked, teardownSessionFiles]
    cases hstop : stopSessionUnlocked faults.remove.teardown.stop replacementId
        { w with held := replacementId :: w.held } with
    | error error =>
      have hcut : faults.CutShort ∨ w.dirs replacementId = true := (stop_error_cases hstop).imp .inr id
      exact ⟨_,_,false,rfl,pruneOriginal_cleanedUp faults _ hcut rfl rfl (fun _ _ => rfl) (fun _ => rfl) rfl rfl rfl⟩
    | ok done =>
      have hnot := not_cutShort hlock hstop
      cases hremains : faults.remove.teardown.remains with
      | true =>
        refine ⟨_,_,false,rfl,pruneOriginal_cleanedUp faults _ (.inr (Function.update_self ..)) rfl rfl
          (fun _ hne => Function.update_of_ne hne ..) (fun hcut => absurd hcut hnot) rfl rfl rfl⟩
      | false =>
        refine ⟨_,_,true,rfl,?_,?_,fun _ hne => Function.update_of_ne hne ..,fun hno => (nomatch hno),
          fun hcut => absurd hcut hnot,rfl,fun hno => (nomatch hno)⟩
        · refine (shared_appState serdeError faults.remove.prune replacementId none _).cleaned_pruned
            (shared_appState serdeError faults.prune oldId none _) (fun message hmessage => ?_) pruneOriginal_errors.2
          obtain ⟨text,htext,hwithin⟩ := removal_errors hmessage
          exact ⟨text,pruneOriginal_errors.1 text htext,hwithin⟩
        · refine (shared_order serdeError faults.remove.prune replacementId none _).cleaned_pruned
            (shared_order serdeError faults.prune oldId none _) (fun message hmessage => ?_) pruneOriginal_errors.2
          obtain ⟨text,htext,hwithin⟩ := removal_errors hmessage
          exact ⟨text,pruneOriginal_errors.1 text htext,hwithin⟩

end Cleanup

section Launch
variable {serdeError : Json → Text} {refers : StateFile → Text → Prop} {report : Text → Text} {oldId replacementId : Text}
variable {before after : StateFile} {failed : List (Text × Text)} {moved : World}

theorem failedRewrite (error : Text) (file : StateFile) :
    FileRewrite refers oldId (some replacementId) file (.error error,file) where
  kept := fun _ _ => rfl
  bound := fun _ hno => (nomatch hno)
  named := fun _ hno => (nomatch hno)
  unnamed := fun _ hno => (nomatch hno)

/-- What may still be named after a failed restart. -/
theorem FileCleaned.refers_after_transfer {pruned : Bool} {id : Text} {moved : StateFile}
    {errors : List Text} {result : Except Text Unit}
    (h : FileCleaned refers report pruned oldId replacementId moved after failed errors)
    (htransfer : FileRewrite refers oldId (some replacementId) before (result,moved))
    (hfresh : ¬refers before replacementId) (hrefers : refers after id) :
    (∃ error, (id,error) ∈ failed ∧ ∃ text ∈ errors, report error <:+: text) ∨
      refers before id ∧ id ≠ oldId ∧ id ≠ replacementId ∨
      id = replacementId ∧ pruned = false ∧ result = .ok () ∧ refers before oldId := by
  obtain ⟨hmoved,⟨hold,hreplacement⟩ | hreported⟩ := h.refers_after hrefers
  · right
    cases result with
    | error error =>
      have hsame := htransfer.kept error rfl
      dsimp only at hsame
      rw [hsame] at hmoved
      refine .inl ⟨hmoved,hold,?_⟩
      rintro rfl
      exact hfresh hmoved
    | ok done =>
      rcases htransfer.bound done rfl id hmoved with ⟨hbefore,-⟩ | ⟨hnew,hbefore⟩
      · refine .inl ⟨hbefore,hold,?_⟩
        rintro rfl
        exact hfresh hbefore
      · obtain rfl := Option.some.inj hnew
        exact .inr ⟨rfl,hreplacement.resolve_left (fun hno => hno rfl),rfl,hbefore⟩
  · exact .inl hreported

theorem FileCleaned.stays_named {moved : StateFile} {errors : List Text}
    (h : FileCleaned refers report false oldId replacementId moved after failed errors)
    (htransfer : FileRewrite refers oldId (some replacementId) before (.ok (),moved)) (hne : oldId ≠ replacementId)
    (hrefers : refers before oldId) : refers after replacementId := by
  refine h.refers_replacement (fun hno => ?_) (htransfer.named () rfl replacementId rfl hrefers)
  rcases htransfer.bound () rfl oldId hno with ⟨-,hsame⟩ | ⟨hsame,-⟩
  · exact hsame rfl
  · exact hne (Option.some.inj hsame).symm

theorem infix_joinErrors {errors : List Text} {text : Text} (h : text ∈ errors) : text <:+: joinErrors errors := by
  unfold joinErrors
  induction errors with
  | nil => cases h
  | cons first rest ih =>
    cases rest with
    | nil =>
      rw [mem_singleton.mp h]
      simp
    | cons second rest =>
      rw [intercalate_cons_cons]
      rcases mem_cons.mp h with rfl | hrest
      · rw [append_assoc]
        exact (prefix_append ..).isInfix
      · exact (ih hrest).trans (suffix_append ..).isInfix

theorem infix_spawnFailure {sessionId spawnError text : Text} {errors : List Text} (h : text ∈ errors) :
    text <:+: spawnFailure sessionId spawnError errors := by
  have hsome : errors ≠ [] := ne_nil_of_mem h
  unfold spawnFailure
  rw [if_neg hsome, ← append_assoc]
  exact (infix_joinErrors h).trans (suffix_append ..).isInfix

theorem infix_transferFailure {stateError text : Text} {errors : List Text} (h : text ∈ errors) :
    text <:+: transferFailure replacementId stateError errors := by
  have hsome : errors ≠ [] := ne_nil_of_mem h
  unfold transferFailure
  rw [if_neg hsome, ← append_assoc]
  exact (infix_joinErrors h).trans (suffix_append ..).isInfix

section Cleaned
variable {faults : CleanupFaults} {before after : World} {errors : List Text} {pruned : Bool}
variable {appState order : Except Text Unit} {message : Text}
variable (h : CleanedUp faults oldId replacementId moved errors after pruned)
variable (happ : FileRewrite AppStateRefers oldId (some replacementId) before.appState (appState,moved.appState))
variable (horder : FileRewrite OrderFileRefers oldId (some replacementId) before.order (order,moved.order))
variable (hfresh : ¬AppStateRefers before.appState replacementId ∧ ¬OrderFileRefers before.order replacementId)
include h happ horder hfresh

/-- A failed restart leaves nothing behind, but for a transfer that the cleanup does not get to. -/
theorem CleanedUp.nothingDangles
    (hdirs : ∀ id, id ≠ oldId → id ≠ replacementId → moved.dirs id = before.dirs id)
    (hmessage : ∀ text ∈ errors, text <:+: message) (hclean : moved.dirs replacementId = false → faults.CutShort →
      ¬(appState = .ok () ∧ AppStateRefers before.appState oldId) ∧ ¬(order = .ok () ∧ OrderFileRefers before.order oldId)) :
    NothingDangles before after message where
  appState := by
    intro id hrefers hnone
    rcases h.appState.refers_after_transfer happ hfresh.1 hrefers with
      ⟨error,hmem,text,htext,hreport⟩ | ⟨hbefore,hold,hnew⟩ | ⟨rfl,rfl,hok,hbefore⟩
    · exact .inr ⟨error,hmem,hreport.trans (hmessage text htext)⟩
    · rw [h.dirs_of_ne id hnew, hdirs id hold hnew] at hnone
      exact .inl ⟨hbefore,hnone⟩
    · obtain ⟨hcut,hdir⟩ := h.cutShort rfl hnone
      exact absurd ⟨hok,hbefore⟩ (hclean hdir hcut).1
  order := by
    intro id hrefers hnone
    rcases h.order.refers_after_transfer horder hfresh.2 hrefers with
      ⟨error,hmem,text,htext,hreport⟩ | ⟨hbefore,hold,hnew⟩ | ⟨rfl,rfl,hok,hbefore⟩
    · exact .inr ⟨error,hmem,hreport.trans (hmessage text htext)⟩
    · rw [h.dirs_of_ne id hnew, hdirs id hold hnew] at hnone
      exact .inl ⟨hbefore,hnone⟩
    · obtain ⟨hcut,hdir⟩ := h.cutShort rfl hnone
      exact absurd ⟨hok,hbefore⟩ (hclean hdir hcut).2

theorem CleanedUp.dangles (hne : oldId ≠ replacementId)
    (herrors : ∀ error, (replacementId,error) ∉ moved.appErrors ∧ (replacementId,error) ∉ moved.orderErrors)
    (hcut : faults.CutShort) (hdir : moved.dirs replacementId = false) (hdone : NothingDangles before after message) :
    ¬(appState = .ok () ∧ AppStateRefers before.appState oldId) ∧
      ¬(order = .ok () ∧ OrderFileRefers before.order oldId) := by
  obtain ⟨rfl,hsame⟩ := h.of_cutShort hcut
  have hnone : after.dirs replacementId = false := hsame.trans hdir
  constructor
  · rintro ⟨rfl,hrefers⟩
    rcases hdone.appState replacementId (h.appState.stays_named happ hne hrefers) hnone with ⟨hno,-⟩ | ⟨error,hmem,-⟩
    · exact hfresh.1 hno
    · exact (herrors error).1 ((h.unpruned rfl hne error).1 hmem)
  · rintro ⟨rfl,hrefers⟩
    rcases hdone.order replacementId (h.order.stays_named horder hne hrefers) hnone with ⟨hno,-⟩ | ⟨error,hmem,-⟩
    · exact hfresh.2 hno
    · exact (herrors error).2 ((h.unpruned rfl hne error).2 hmem)

end Cleaned

theorem settles_ok {before after : World} {replacementId : Text} : Settles before (some (.ok replacementId,after)) :=
  ⟨_,_,rfl,fun _ hno => nomatch hno⟩

theorem settles_before {before after : World} {error : Text} (h : after.tornDown = false) :
    Settles before (some (.error error,after)) := by
  refine ⟨_,_,rfl,?_⟩
  intro _ _ htorn
  rw [h] at htorn
  cases htorn

variable {dirs : Text → Bool} {appState order : StateFile}

def afterTeardown (dirs : Text → Bool) (appState order : StateFile) (sessionId : Text) : World :=
  ⟨Function.update dirs sessionId false,appState,order,[sessionId],[],[],false⟩

def afterSpawn (dirs : Text → Bool) (appState order : StateFile) (sessionId replacementId : Text) (created : Bool) : World :=
  { afterTeardown dirs appState order sessionId with
    tornDown := true, dirs := Function.update (Function.update dirs sessionId false) replacementId created }

theorem afterSpawn_dirs {created : Bool} {id : Text} (hold : id ≠ oldId) (hnew : id ≠ replacementId) :
    (afterSpawn dirs appState order oldId replacementId created).dirs id = dirs id :=
  (Function.update_of_ne hnew ..).trans (Function.update_of_ne hold ..)

theorem halfTransferred_iff {faults : SharedFaults} {sessionId stateError : Text} {created : Bool}
    (h : (rewriteSharedSessionReferences serdeError faults sessionId (some replacementId)
      (afterSpawn dirs appState order sessionId replacementId created)).1 = .error stateError) :
    ¬HalfTransferred serdeError faults sessionId replacementId (World.start dirs appState order) ↔
      ¬((editAppState faults.appState
          (rewriteAppStateSessionReferences serdeError faults.nowMs sessionId (some replacementId)) appState).1 = .ok () ∧
        AppStateRefers appState sessionId) ∧
      ¬((rewriteSessionOrderReferencesAt faults.order sessionId (some replacementId) order).1 = .ok () ∧
        OrderFileRefers order sessionId) := by
  have hfailed := shared_error serdeError faults sessionId (some replacementId) _ h
  simp only [HalfTransferred, World.start]
  tauto

def afterTransfer (serdeError : Json → Text) (faults : RestartFaults) (dirs : Text → Bool) (appState order : StateFile)
    (oldId replacementId : Text) : Except Text Unit × World :=
  rewriteSharedSessionReferences serdeError faults.transfer oldId (some replacementId)
    (afterSpawn dirs appState order oldId replacementId faults.created)

section Spawned
variable {faults : RestartFaults}

theorem afterTransfer_appState : FileRewrite AppStateRefers oldId (some replacementId) (World.start dirs appState order).appState
    ((editAppState faults.transfer.appState (rewriteAppStateSessionReferences serdeError faults.transfer.nowMs oldId
      (some replacementId)) appState).1,(afterTransfer serdeError faults dirs appState order oldId replacementId).2.appState) :=
  (shared_appState serdeError faults.transfer ..).rewrite

theorem afterTransfer_order : FileRewrite OrderFileRefers oldId (some replacementId) (World.start dirs appState order).order
    ((rewriteSessionOrderReferencesAt faults.transfer.order oldId (some replacementId) order).1,
      (afterTransfer serdeError faults dirs appState order oldId replacementId).2.order) :=
  (shared_order serdeError faults.transfer ..).rewrite

theorem launch_spawned (h : faults.spawn = none) :
    launchReplacement serdeError faults oldId replacementId (afterTeardown dirs appState order oldId) =
      match (afterTransfer serdeError faults dirs appState order oldId replacementId).1 with
      | .ok _ => some (.ok replacementId,(afterTransfer serdeError faults dirs appState order oldId replacementId).2)
      | .error stateError =>
        (cleanupFailedRestart serdeError faults.cleanup oldId replacementId
          (afterTransfer serdeError faults dirs appState order oldId replacementId).2).map fun (errors,w) =>
            (.error (transferFailure replacementId stateError errors),w) := by
  simp only [launchReplacement, h]
  change (match afterTransfer serdeError faults dirs appState order oldId replacementId with
    | (.error stateError,w) => _
    | (.ok _,w) => _) = _
  rcases afterTransfer serdeError faults dirs appState order oldId replacementId with ⟨outcome,moved⟩
  cases outcome with
  | ok done | error error => rfl

/-- A replacement under a fresh id. -/
theorem launch_fresh_iff (hne : oldId ≠ replacementId)
    (hfresh : ¬AppStateRefers appState replacementId ∧ ¬OrderFileRefers order replacementId) :
    Settles (World.start dirs appState order)
        (launchReplacement serdeError faults oldId replacementId (afterTeardown dirs appState order oldId)) ↔
      ¬(faults.spawn = none ∧ faults.created = false ∧ faults.cleanup.CutShort ∧
        HalfTransferred serdeError faults.transfer oldId replacementId (World.start dirs appState order)) := by
  have hheld : replacementId ∉ [oldId] := by simpa using hne.symm
  have hdirs : ∀ id, id ≠ oldId → id ≠ replacementId →
    (afterSpawn dirs appState order oldId replacementId faults.created).dirs id = dirs id := fun _ => afterSpawn_dirs
  cases hspawn : faults.spawn with
  | some spawnError =>
    simp only [reduceCtorEq, false_and, not_false_eq_true, iff_true]
    obtain ⟨errors,after,pruned,hcleanup,hcleaned⟩ := cleanup_spec serdeError faults.cleanup oldId
      (w := afterSpawn dirs appState order oldId replacementId faults.created) fun _ => hheld
    refine ⟨.error (spawnFailure oldId spawnError errors),after,?_,?_⟩
    · simp only [launchReplacement, hspawn]
      exact congrArg _ hcleanup
    · rintro _ ⟨⟩ -
      exact hcleaned.nothingDangles (failedRewrite [] appState) (failedRewrite [] order) hfresh hdirs
        (fun text htext => infix_spawnFailure htext)
        (fun _ _ => ⟨fun hno => (nomatch hno.1),fun hno => (nomatch hno.1)⟩)
  | none =>
    cases htransfer : (afterTransfer serdeError faults dirs appState order oldId replacementId).1 with
    | ok done =>
      have happOk := (shared_appState serdeError faults.transfer oldId (some replacementId) _).ok done htransfer
      have horderOk := (shared_order serdeError faults.transfer oldId (some replacementId) _).ok done htransfer
      rw [launch_spawned hspawn, htransfer]
      refine iff_of_true settles_ok ?_
      rintro ⟨-,-,-,⟨-,hno,-⟩ | ⟨hno,-⟩⟩
      · exact hno horderOk
      · exact hno happOk
    | error stateError =>
      rw [launch_spawned hspawn, htransfer]
      obtain ⟨errors,after,pruned,hcleanup,hcleaned⟩ := cleanup_spec serdeError faults.cleanup oldId
        (w := (afterTransfer serdeError faults dirs appState order oldId replacementId).2) fun _ => hheld
      have hhalf := halfTransferred_iff htransfer
      have hdir : (afterTransfer serdeError faults dirs appState order oldId replacementId).2.dirs replacementId = faults.created :=
        Function.update_self ..
      simp only [hcleanup, Option.map_some, true_and]
      constructor
      · rintro ⟨_,_,⟨⟩,hsettled⟩ ⟨hcreated,hcut,hno⟩
        have hdone := hsettled _ rfl hcleaned.tornDown_eq
        refine absurd hno (hhalf.mpr (hcleaned.dangles afterTransfer_appState afterTransfer_order hfresh hne ?_ hcut (hdir.trans hcreated) hdone))
        exact fun error => ⟨not_mem_errorOf hne,not_mem_errorOf hne⟩
      · intro hclean
        refine ⟨_,_,rfl,?_⟩
        rintro _ ⟨⟩ -
        refine hcleaned.nothingDangles afterTransfer_appState afterTransfer_order hfresh hdirs
          (fun text htext => infix_transferFailure htext) fun hnone hcut => hhalf.mp fun hno => ?_
        exact hclean ⟨hdir.symm.trans hnone,hcut,hno⟩

theorem FileCleaned.refers_kept {pruned : Bool} {id : Text} {moved : StateFile}
    {errors : List Text} {result : Except Text Unit}
    (h : FileCleaned refers report pruned oldId oldId moved after failed errors)
    (htransfer : FileRewrite refers oldId (some oldId) before (result,moved)) (hrefers : refers after id) :
    (∃ error, (id,error) ∈ failed ∧ ∃ text ∈ errors, report error <:+: text) ∨ refers before id ∧ id ≠ oldId := by
  obtain ⟨hmoved,⟨hold,-⟩ | hreported⟩ := h.refers_after hrefers
  · right
    cases result with
    | error error =>
      have hsame := htransfer.kept error rfl
      dsimp only at hsame
      rw [hsame] at hmoved
      exact ⟨hmoved,hold⟩
    | ok done =>
      rcases htransfer.bound done rfl id hmoved with hbefore | ⟨hsame,-⟩
      · exact hbefore
      · exact absurd (Option.some.inj hsame).symm hold
  · exact .inl hreported

theorem CleanedUp.nothingDangles_kept {faults : CleanupFaults} {before after : World} {errors : List Text}
    {pruned : Bool} {appState order : Except Text Unit} {message : Text}
    (h : CleanedUp faults oldId oldId moved errors after pruned)
    (happ : FileRewrite AppStateRefers oldId (some oldId) before.appState (appState,moved.appState))
    (horder : FileRewrite OrderFileRefers oldId (some oldId) before.order (order,moved.order))
    (hdirs : ∀ id, id ≠ oldId → moved.dirs id = before.dirs id) (hmessage : ∀ text ∈ errors, text <:+: message) :
    NothingDangles before after message where
  appState := by
    intro id hrefers hnone
    rcases h.appState.refers_kept happ hrefers with ⟨error,hmem,text,htext,hreport⟩ | ⟨hbefore,hold⟩
    · exact .inr ⟨error,hmem,hreport.trans (hmessage text htext)⟩
    · rw [h.dirs_of_ne id hold, hdirs id hold] at hnone
      exact .inl ⟨hbefore,hnone⟩
  order := by
    intro id hrefers hnone
    rcases h.order.refers_kept horder hrefers with ⟨error,hmem,text,htext,hreport⟩ | ⟨hbefore,hold⟩
    · exact .inr ⟨error,hmem,hreport.trans (hmessage text htext)⟩
    · rw [h.dirs_of_ne id hold, hdirs id hold] at hnone
      exact .inl ⟨hbefore,hnone⟩

theorem cleanup_blocks {faults : CleanupFaults} {w : World} (hlock : faults.lock = none) (hheld : w.held = [oldId]) :
    cleanupFailedRestart serdeError faults oldId oldId w = none := by
  simp [cleanupFailedRestart, lockSessionLifecycle, hlock, hheld]

/-- A replacement under the id of the Session. -/
theorem launch_kept_iff :
    Settles (World.start dirs appState order)
        (launchReplacement serdeError faults oldId oldId (afterTeardown dirs appState order oldId)) ↔
      faults.spawn = none ∧ (rewriteSharedSessionReferences serdeError faults.transfer oldId (some oldId)
        (World.start dirs appState order)).1 = .ok () ∨ faults.cleanup.lock ≠ none := by
  have hdirs : ∀ id, id ≠ oldId → (afterSpawn dirs appState order oldId oldId faults.created).dirs id = dirs id :=
    fun _ hold => afterSpawn_dirs hold hold
  cases hspawn : faults.spawn with
  | some spawnError =>
    simp only [reduceCtorEq, false_and, false_or, launchReplacement, hspawn]
    constructor
    · rintro ⟨_,_,hreturned,-⟩ hlock
      have hblocked : cleanupFailedRestart serdeError faults.cleanup oldId oldId
          (afterSpawn dirs appState order oldId oldId faults.created) = none := cleanup_blocks hlock rfl
      obtain ⟨_,hno,-⟩ := Option.map_eq_some_iff.mp hreturned
      exact absurd (hblocked.symm.trans hno) (by simp)
    · intro hlock
      obtain ⟨errors,after,pruned,hcleanup,hcleaned⟩ := cleanup_spec serdeError faults.cleanup oldId
        (w := afterSpawn dirs appState order oldId oldId faults.created) fun hno => absurd hno hlock
      refine ⟨.error (spawnFailure oldId spawnError errors),after,congrArg _ hcleanup,?_⟩
      rintro _ ⟨⟩ -
      exact hcleaned.nothingDangles_kept (failedRewrite [] appState) (failedRewrite [] order) hdirs
        (fun text htext => infix_spawnFailure htext)
  | none =>
    rw [launch_spawned hspawn]
    have hsame : (rewriteSharedSessionReferences serdeError faults.transfer oldId (some oldId)
        (World.start dirs appState order)).1 = (afterTransfer serdeError faults dirs appState order oldId oldId).1 := rfl
    rw [hsame]
    cases htransfer : (afterTransfer serdeError faults dirs appState order oldId oldId).1 with
    | ok done => exact iff_of_true settles_ok (.inl ⟨rfl,rfl⟩)
    | error stateError =>
      simp only [reduceCtorEq, and_false, false_or]
      constructor
      · rintro ⟨_,_,hreturned,-⟩ hlock
        have hblocked : cleanupFailedRestart serdeError faults.cleanup oldId oldId
            (afterTransfer serdeError faults dirs appState order oldId oldId).2 = none := cleanup_blocks hlock rfl
        obtain ⟨_,hno,-⟩ := Option.map_eq_some_iff.mp hreturned
        exact absurd (hblocked.symm.trans hno) (by simp)
      · intro hlock
        obtain ⟨errors,after,pruned,hcleanup,hcleaned⟩ := cleanup_spec serdeError faults.cleanup oldId
          (w := (afterTransfer serdeError faults dirs appState order oldId oldId).2) fun hno => absurd hno hlock
        refine ⟨.error (transferFailure oldId stateError errors),after,by rw [hcleanup]; rfl,?_⟩
        rintro _ ⟨⟩ -
        exact hcleaned.nothingDangles_kept afterTransfer_appState afterTransfer_order hdirs
          (fun text htext => infix_transferFailure htext)

end Spawned

end Launch

section Calls
variable {serdeError : Json → Text} {faults : CallFaults} {sessionId : Text} {dirs : Text → Bool} {appState order : StateFile}

def afterLock (dirs : Text → Bool) (appState order : StateFile) (sessionId : Text) : World :=
  { World.start dirs appState order with held := [sessionId] }

theorem teardown_locked {faults : TeardownFaults} :
    (teardownSessionFiles faults sessionId (World.start dirs appState order)).1 = .ok () ∧
        teardownSessionFiles faults sessionId (afterLock dirs appState order sessionId) =
          (.ok (),afterTeardown dirs appState order sessionId) ∨
      (teardownSessionFiles faults sessionId (World.start dirs appState order)).1 ≠ .ok () ∧
        ∃ error w, teardownSessionFiles faults sessionId (afterLock dirs appState order sessionId) = (.error error,w) ∧
          w.tornDown = false := by
  have hsame : stopSessionUnlocked faults.stop sessionId (afterLock dirs appState order sessionId) =
      stopSessionUnlocked faults.stop sessionId (World.start dirs appState order) := rfl
  unfold teardownSessionFiles
  rw [hsame]
  cases stopSessionUnlocked faults.stop sessionId (World.start dirs appState order) with
  | error error => exact .inr ⟨by simp,error,_,rfl,rfl⟩
  | ok done =>
    cases faults.remains with
    | true => exact .inr ⟨by simp,_,_,rfl,rfl⟩
    | false => exact .inl ⟨rfl,rfl⟩

/-- A restart settles if what follows its teardown does. -/
theorem restart_iff {faults : RestartFaults} {keepId : Bool} :
    Settles (World.start dirs appState order)
        (restartSessionUnlocked serdeError faults sessionId keepId (afterLock dirs appState order sessionId)) ↔
      (faults.readable = true ∧ dirs sessionId = true ∧
        validateSharedSessionReferenceFiles serdeError (World.start dirs appState order) = .ok () ∧
        (teardownSessionFiles faults.teardown sessionId (World.start dirs appState order)).1 = .ok () →
          Settles (World.start dirs appState order) (launchReplacement serdeError faults sessionId
            (if keepId then sessionId else faults.freshId) (afterTeardown dirs appState order sessionId))) := by
  have hvalidate : validateSharedSessionReferenceFiles serdeError (afterLock dirs appState order sessionId) =
      validateSharedSessionReferenceFiles serdeError (World.start dirs appState order) := rfl
  have hdirs : (afterLock dirs appState order sessionId).dirs sessionId = dirs sessionId := rfl
  unfold restartSessionUnlocked
  rw [hvalidate, hdirs]
  by_cases hmanifest : faults.readable = true ∧ dirs sessionId = true
  · have hreadable : ¬(!(faults.readable && dirs sessionId)) = true := by simp [hmanifest]
    rw [if_neg hreadable]
    cases hvalid : validateSharedSessionReferenceFiles serdeError (World.start dirs appState order) with
    | error error =>
      refine iff_of_true (settles_before rfl) ?_
      rintro ⟨-,-,hno,-⟩
      cases hno
    | ok done =>
      rcases @teardown_locked sessionId dirs appState order faults.teardown with ⟨hok,htorn⟩ | ⟨hno,error,w,htorn,hearly⟩
      · simp [htorn, hmanifest, hok]
      · simp only [htorn]
        exact iff_of_true (settles_before hearly) fun hreached => absurd hreached.2.2.2 hno
  · have hunreadable : (!(faults.readable && dirs sessionId)) = true := by
      rw [Bool.not_eq_true', Bool.and_eq_false_iff]
      by_contra hboth
      simp only [not_or, Bool.not_eq_false] at hboth
      exact hmanifest hboth
    rw [if_pos hunreadable]
    exact iff_of_true (settles_before rfl) fun hreached => absurd ⟨hreached.1,hreached.2.1⟩ hmanifest

end Calls

/-- A call returns, and leaves no file naming a Session without a directory that its message is
silent about, exactly if it cleans up. -/
theorem lifecycle_calls_settle_iff (serdeError : Json → Text) (faults : CallFaults) (call : LifecycleCall) (sessionId : Text)
    (dirs : Text → Bool) (appState order : StateFile) (hdrawn : faults.restart.freshId ≠ sessionId)
    (happ : ¬AppStateRefers appState faults.restart.freshId) (horder : ¬OrderFileRefers order faults.restart.freshId) :
    Settles (World.start dirs appState order)
        (lifecycleCall serdeError faults call sessionId (World.start dirs appState order)) ↔
      CleansUp serdeError faults call sessionId (World.start dirs appState order) := by
  have hlaunch := @launch_fresh_iff serdeError sessionId faults.restart.freshId dirs appState order faults.restart
    hdrawn.symm ⟨happ,horder⟩
  have hkept := @launch_kept_iff serdeError sessionId dirs appState order faults.restart
  unfold CleansUp GetsToLaunch
  cases hlock : faults.lock with
  | some error =>
    simp only [lifecycleCall, lockSessionLifecycle, hlock, reduceCtorEq, false_and, false_implies, iff_true]
    exact settles_before rfl
  | none =>
    have hlocked : lockSessionLifecycle faults.lock sessionId (World.start dirs appState order) =
      some (.ok (afterLock dirs appState order sessionId)) := by
        rw [hlock]
        rfl
    rw [lifecycleCall, hlocked]
    cases call with
    | restart =>
      simp only [restart_iff, Bool.false_eq_true, if_false, hlaunch, reduceCtorEq, false_implies, true_and]
      rfl
    | resume =>
      cases hhealth : faults.health with
      | none => exact iff_of_true (settles_before rfl) (by simp)
      | some state =>
        cases state with
        | running => exact iff_of_true (settles_before rfl) (by simp)
        | exited =>
          simp only [restart_iff, Bool.false_eq_true, if_false, hlaunch, reduceCtorEq, false_implies, true_and, true_implies]
          rfl
    | reload =>
      have hstop : stopSessionUnlocked faults.stop sessionId (afterLock dirs appState order sessionId) =
        stopSessionUnlocked faults.stop sessionId (World.start dirs appState order) := rfl
      cases hhealth : faults.health with
      | none => exact iff_of_true (settles_before rfl) (by simp)
      | some state =>
        cases state with
        | running =>
          simp only [hstop]
          cases hstopped : stopSessionUnlocked faults.stop sessionId (World.start dirs appState order) with
          | error error => exact iff_of_true (settles_before rfl) (by simp)
          | ok done =>
            simp only [restart_iff, if_true, hkept, reduceCtorEq, false_implies, true_and, true_implies, and_self, or_true]
            rfl
        | exited =>
          simp only [restart_iff, if_true, hkept, reduceCtorEq, false_implies, true_and, true_implies, true_or]
          rfl

def spawnFails : CallFaults where
  lock := none
  health := some .exited
  stop := ⟨.accepted,true,[]⟩
  restart :=
    { readable := true
      teardown := ⟨⟨.unreachable [],true,[]⟩,false,[]⟩
      freshId := ['n']
      spawn := some ['e']
      created := false
      transfer := ⟨⟨none,none⟩,⟨none,none⟩,0⟩
      cleanup := ⟨none,⟨⟨⟨.unreachable [],true,[]⟩,false,[]⟩,none,⟨⟨none,none⟩,⟨none,none⟩,0⟩⟩,⟨⟨none,none⟩,⟨none,none⟩,0⟩⟩ }

/-- A restart that fails this way settles. -/
theorem restart_without_spawn_settles :
    Settles (World.start (fun _ => true) .missing .missing)
      (lifecycleCall (fun _ => []) spawnFails .restart ['o'] (World.start (fun _ => true) .missing .missing)) := by
  refine (lifecycle_calls_settle_iff (fun _ => []) spawnFails .restart ['o'] (fun _ => true) .missing .missing (by decide)
    (fun ⟨_,hno,_⟩ => nomatch hno) (fun ⟨_,hno,_⟩ => nomatch hno)).mpr ?_
  rintro - ⟨hno,-⟩
  cases hno

/-- A reload takes its own lock again. -/
theorem reload_without_spawn_blocks :
    ¬Settles (World.start (fun _ => true) .missing .missing)
      (lifecycleCall (fun _ => []) spawnFails .reload ['o'] (World.start (fun _ => true) .missing .missing)) := by
  rintro ⟨_,_,hreturned,-⟩
  cases hreturned

end Unpeel.Lifecycle
