import Unpeel.Foundation.Runs
import Unpeel.Foundation.SharedFiles
import Unpeel.Manifest.PromptTitle
import Unpeel.Markers.MarkerText

/-! # Session markers

A frontend leaves what it knows about a Session in small files of the Session's directory. A
marker is written to a temporary file beside it, whose name every writer uses, and renamed.
The marker of the provider conversation is first read, so that an event that has only the id
does not erase the path, and the other way round.
-/
namespace Unpeel.Markers
open Runs Manifest List Function

inductive Marker where
  | projectOverride
  | provider
  | title
  | read
deriving DecidableEq

/-- The names in the directory: `.title.json.tmp` is `temporary title`. -/
inductive MarkerName where
  | temporary (marker : Marker)
  | marker (marker : Marker)
deriving DecidableEq

/-- The part of `serde_json` that is used: `to_vec` of an object, and a string field of what
`from_slice` reads. -/
structure SerdeJson (β : Type*) where
  toVec : Body → List β
  strField : List β → Text → Option Text
  strField_toVec : ∀ body key, (body.map (·.1)).Nodup →
    strField (toVec body) key = (body.lookup key).bind FieldValue.asStr

section Provider

inductive ProviderKey where
  | providerSessionId
  | providerTranscriptPath
  | providerRuntime
deriving DecidableEq

def ProviderKey.text : ProviderKey → Text
  | .providerSessionId => "provider_session_id".toList
  | .providerTranscriptPath => "provider_transcript_path".toList
  | .providerRuntime => "provider_runtime".toList

def clean (text : Option Text) : Option Text := (text.map trim).filter (· ≠ [])

structure Capture where
  providerSessionId : Option Text
  transcriptPath : Option Text
  runtime : Option Text
deriving DecidableEq

def Capture.get (capture : Capture) : ProviderKey → Option Text
  | .providerSessionId => capture.providerSessionId
  | .providerTranscriptPath => capture.transcriptPath
  | .providerRuntime => clean capture.runtime

def Capture.next (capture : Capture) (current : ProviderKey → Option Text) (key : ProviderKey) : Option Text :=
  (capture.get key).or (current key)

def unchanged (next current : ProviderKey → Option Text) : Bool :=
  next .providerSessionId = current .providerSessionId && next .providerTranscriptPath = current .providerTranscriptPath &&
    next .providerRuntime = current .providerRuntime

def providerField (next : ProviderKey → Option Text) (key : ProviderKey) : Body :=
  ((next key).map fun text => (key.text,FieldValue.str text)).toList

def providerBody (next : ProviderKey → Option Text) (nowMs : ℕ) : Body :=
  ("captured_at".toList,.num nowMs) :: (providerField next .providerRuntime ++
    (providerField next .providerSessionId ++ providerField next .providerTranscriptPath))

end Provider

def titleBody (title : Text) (nowMs : ℕ) : Body := [("title".toList,.str title),("updated_at".toList,.num nowMs)]

def projectOverrideBody (projectId : Text) (nowMs : ℕ) : Body :=
  [("moved_at".toList,.num nowMs),("project_id".toList,.str projectId)]

def readBody (nowMs : ℕ) : Body := [("read_at".toList,.num nowMs)]

inductive Returned where
  | changed
  | unchanged
  | noDirectory
  | renameFailed
deriving DecidableEq

/-- Where a call is. A call that read the provider marker knows which file it was, if there
was one. -/
inductive Stage (β : Type*) where
  | begun (capture : Capture)
  | looked (capture : Capture) (seen : Option ℕ) (current : ProviderKey → Option Text)
  | preparing (marker : Marker) (body : List β) (merged : Option (Capture × Option ℕ))
  | writing (marker : Marker) (file written : ℕ) (body : List β) (merged : Option Capture)
  | returned (result : Returned)

/-- The directory of a Session with the calls so far, the bodies they made for each marker,
and the captures of those that returned, in the order in which they did. -/
structure MarkerDir (β : Type*) where
  present : Bool
  files : SharedFiles MarkerName β
  calls : ℕ → Option (Stage β)
  bodies : Marker → List (List β)
  captured : List Capture

inductive Action where
  | setTitle (call : ℕ) (title : Text) (nowMs : ℕ)
  | setProjectOverride (call : ℕ) (projectId : Text) (nowMs : ℕ)
  | markRead (call : ℕ) (nowMs : ℕ)
  | setProviderSession (call : ℕ) (capture : Capture)
  /-- `provider_session_marker_at`. -/
  | lookUp (call : ℕ)
  /-- `provider_session_runtime_at`, and the decision whether anything changes. -/
  | lookUpRuntime (call : ℕ) (nowMs : ℕ)
  | openTemporary (call : ℕ)
  /-- Some more of the body reaches the file. -/
  | write (call count : ℕ)
  | rename (call : ℕ)

namespace MarkerDir
variable {β : Type*} (json : SerdeJson β) (zero : β)

def start (present : Bool) (files : SharedFiles MarkerName β) : MarkerDir β :=
  ⟨present,files,fun _ => none,fun _ => [],[]⟩

def current (files : SharedFiles MarkerName β) (key : ProviderKey) : Option Text :=
  clean ((files.read (.marker .provider)).bind (json.strField · key.text))

def setCall (dir : MarkerDir β) (call : ℕ) (stage : Stage β) : MarkerDir β :=
  { dir with calls := Function.update dir.calls call (some stage) }

def setFiles (dir : MarkerDir β) (files : SharedFiles MarkerName β) : MarkerDir β := { dir with files }

def prepare (dir : MarkerDir β) (call : ℕ) (marker : Marker) (body : List β) (merged : Option (Capture × Option ℕ)) :
    MarkerDir β :=
  { dir with
    calls := Function.update dir.calls call (some (.preparing marker body merged))
    bodies := Function.update dir.bodies marker (body :: dir.bodies marker) }

def capture (dir : MarkerDir β) (capture : Option Capture) : MarkerDir β :=
  { dir with captured := dir.captured ++ capture.toList }

def setMarker (dir : MarkerDir β) (call : ℕ) (marker : Marker) (body : Body) : Option (MarkerDir β) :=
  match dir.calls call with
  | some _ => none
  | none =>
    if dir.present then some (dir.prepare call marker (json.toVec body) none)
    else some (dir.setCall call (.returned .noDirectory))

def step (dir : MarkerDir β) : Action → Option (MarkerDir β)
  | .setTitle call title nowMs => dir.setMarker json call .title (titleBody title nowMs)
  | .setProjectOverride call projectId nowMs => dir.setMarker json call .projectOverride (projectOverrideBody projectId nowMs)
  | .markRead call nowMs => dir.setMarker json call .read (readBody nowMs)
  | .setProviderSession call capture =>
    match dir.calls call with
    | some _ => none
    | none =>
      if capture.providerSessionId = none ∧ capture.transcriptPath = none then
        some (dir.setCall call (.returned .unchanged))
      else if dir.present then some (dir.setCall call (.begun capture))
      else some (dir.setCall call (.returned .noDirectory))
  | .lookUp call =>
    match dir.calls call with
    | some (.begun capture) =>
      some (dir.setCall call (.looked capture (dir.files.names (.marker .provider)) (current json dir.files)))
    | _ => none
  | .lookUpRuntime call nowMs =>
    match dir.calls call with
    | some (.looked capture seen before) =>
      -- the runtime is from this reading, the other two fields from the one before
      let found := Function.update before .providerRuntime (current json dir.files .providerRuntime)
      if unchanged (capture.next found) found then
        some ((dir.setCall call (.returned .unchanged)).capture (some capture))
      else some (dir.prepare call .provider (json.toVec (providerBody (capture.next found) nowMs)) (some (capture,seen)))
    | _ => none
  | .openTemporary call =>
    match dir.calls call with
    | some (.preparing marker body merged) =>
      let (file,files) := dir.files.openTruncate (.temporary marker)
      some ((dir.setFiles files).setCall call (.writing marker file 0 body (merged.map (·.1))))
    | _ => none
  | .write call count =>
    match dir.calls call with
    | some (.writing marker file written body merged) =>
      let bytes := (body.drop written).take count
      let files := dir.files.writeAt zero file written bytes
      some ((dir.setFiles files).setCall call (.writing marker file (written + bytes.length) body merged))
    | _ => none
  | .rename call =>
    match dir.calls call with
    | some (.writing marker _ written body merged) =>
      if written < body.length then none
      else match dir.files.rename (.temporary marker) (.marker marker) with
        | none => some (dir.setCall call (.returned .renameFailed))
        | some files => some (((dir.setFiles files).setCall call (.returned .changed)).capture merged)
    | _ => none

section Property

def lastCaptured (captured : List Capture) (key : ProviderKey) : Option Text := captured.reverse.findSome? (·.get key)

structure Faithful (initial : SharedFiles MarkerName β) (dir : MarkerDir β) : Prop where
  /-- Every version that can be seen is the whole body of one call. -/
  whole : ∀ marker content, dir.files.read (.marker marker) = some content →
    initial.read (.marker marker) = some content ∨ content ∈ dir.bodies marker
  /-- The temporary file of a call is there when the call renames it. -/
  renamed : ∀ call, dir.calls call ≠ some (.returned .renameFailed)
  /-- Each field has what was captured for it last by the calls that have returned. -/
  merged : ∀ key, current json dir.files key =
    (lastCaptured dir.captured key).elim (current json initial key) fun text => clean (some text)

/-- No call opens the temporary file of a marker while another is writing it, and the
provider marker is still the one that the call has read when it decides and when it opens
the temporary file. -/
def Alone (dir : MarkerDir β) : Action → Prop
  | .lookUpRuntime call _ => ∀ capture seen before, dir.calls call = some (.looked capture seen before) →
      dir.files.names (.marker .provider) = seen
  | .openTemporary call => ∀ marker body merged, dir.calls call = some (.preparing marker body merged) →
      (∀ other file written text merged, dir.calls other ≠ some (.writing marker file written text merged)) ∧
      ∀ capture seen, merged = some (capture,seen) → dir.files.names (.marker .provider) = seen
  | _ => True

end Property

end MarkerDir

section Cleaning

theorem trim_trim (text : Text) : trim (trim text) = trim text := by
  have hstart : trimStart (trim text) = trim text := by
    apply List.dropWhile_eq_self_iff.mpr
    intro hpos
    have hprefix : trim text <+: trimStart text := rdropWhile_prefix _ _
    have hpos' : 0 < (trimStart text).length := Nat.lt_of_lt_of_le hpos hprefix.length_le
    have hhead : (trim text)[0] = (trimStart text)[0] := hprefix.getElem hpos
    rw [hhead]
    exact dropWhile_get_zero_not isWhitespace text hpos'
  unfold trim at hstart ⊢
  rw [hstart]
  exact rdropWhile_idempotent isWhitespace (trimStart text)

theorem clean_some (text : Text) : clean (some text) = if trim text = [] then none else some (trim text) := by
  unfold clean
  rw [Option.map_some, Option.filter_some]
  by_cases h : trim text = []
  · rw [if_pos h, if_neg (by rw [h]; decide)]
  · rw [if_neg h, if_pos (decide_eq_true h)]

theorem clean_clean (text : Option Text) : clean (clean text) = clean text := by
  cases text with
  | none => rfl
  | some text =>
    rw [clean_some]
    split
    · rfl
    · rename_i h
      rw [clean_some, trim_trim, if_neg h]

theorem text_injective : Function.Injective ProviderKey.text := by
  intro a b h
  cases a <;> cases b <;> first | rfl | exact absurd h (by decide)

theorem providerField_keys (next : ProviderKey → Option Text) (key : ProviderKey) :
    ((providerField next key).map (·.1)).Sublist [key.text] := by
  unfold providerField
  cases next key with
  | none => exact nil_sublist _
  | some text => exact List.Sublist.refl _

theorem providerBody_keys (next : ProviderKey → Option Text) (nowMs : ℕ) :
    ((providerBody next nowMs).map (·.1)).Nodup := by
  have hall : ["captured_at".toList,ProviderKey.providerRuntime.text,ProviderKey.providerSessionId.text,
      ProviderKey.providerTranscriptPath.text].Nodup := by decide
  apply List.Nodup.sublist _ hall
  rw [providerBody, map_cons, map_append, map_append]
  exact ((providerField_keys next _).append ((providerField_keys next _).append (providerField_keys next _))).cons_cons _

theorem lookup_providerField (next : ProviderKey → Option Text) (key other : ProviderKey) :
    (providerField next other).lookup key.text = if key = other then (next key).map .str else none := by
  unfold providerField
  by_cases h : key = other
  · subst h
    rw [if_pos rfl]
    cases next key with
    | none => rfl
    | some text => exact lookup_cons_self
  · rw [if_neg h]
    cases next other with
    | none => rfl
    | some text =>
      have hkey : (key.text == other.text) = false := beq_eq_false_iff_ne.mpr fun heq => h (text_injective heq)
      show List.lookup key.text [(other.text,_)] = none
      rw [lookup_cons, hkey]
      rfl

theorem lookup_providerBody (next : ProviderKey → Option Text) (nowMs : ℕ) (key : ProviderKey) :
    ((providerBody next nowMs).lookup key.text).bind FieldValue.asStr = next key := by
  have hstamp : (key.text == "captured_at".toList) = false := by cases key <;> decide
  have hfields : (providerBody next nowMs).lookup key.text = (next key).map .str := by
    rw [providerBody, lookup_cons, hstamp]
    rw [lookup_append, lookup_append, lookup_providerField, lookup_providerField, lookup_providerField]
    cases key <;> simp
  rw [hfields]
  cases next key <;> rfl

end Cleaning

namespace MarkerDir
variable {β : Type*} {json : SerdeJson β} {zero : β}

section Files
variable {files : SharedFiles MarkerName β} {marker : Marker} {file : ℕ}

theorem read_openTruncate (files : SharedFiles MarkerName β) (opened marker : Marker) :
    (files.openTruncate (.temporary opened)).2.read (.marker marker) = files.read (.marker marker) := by
  have hne : MarkerName.marker marker ≠ .temporary opened := nofun
  unfold SharedFiles.read
  rw [SharedFiles.openTruncate_names_of_ne hne]
  cases hname : files.names (.marker marker) with
  | none => rfl
  | some file =>
    have hfile : file ≠ (files.openTruncate (.temporary opened)).1 := by
      rintro rfl
      exact hne ((files.openTruncate _).2.distinct _ _ _ ((SharedFiles.openTruncate_names_of_ne hne).trans hname)
        SharedFiles.openTruncate_names_self)
    rw [Option.map_some, Option.map_some, SharedFiles.openTruncate_contents_of_ne hfile]

theorem read_writeAt {writer : Marker} (h : files.names (.temporary writer) = some file) (offset : ℕ) (bytes : List β)
    (marker : Marker) : (files.writeAt zero file offset bytes).read (.marker marker) = files.read (.marker marker) := by
  unfold SharedFiles.read
  show Option.map _ (files.names (.marker marker)) = _
  cases hname : files.names (.marker marker) with
  | none => rfl
  | some other =>
    have hother : other ≠ file := by
      rintro rfl
      exact nomatch files.distinct _ _ _ hname h
    exact congrArg some (update_of_ne hother ..)

theorem current_congr {other : SharedFiles MarkerName β}
    (h : other.read (.marker .provider) = files.read (.marker .provider)) : current json other = current json files := by
  funext key
  unfold current
  rw [h]

theorem current_of_body {next : ProviderKey → Option Text} {nowMs : ℕ}
    (h : files.read (.marker .provider) = some (json.toVec (providerBody next nowMs))) (key : ProviderKey) :
    current json files key = clean (next key) := by
  unfold current
  rw [h, Option.bind_some, json.strField_toVec _ _ (providerBody_keys next nowMs), lookup_providerBody]

theorem clean_current (files : SharedFiles MarkerName β) (key : ProviderKey) :
    clean (current json files key) = current json files key := clean_clean _

end Files

section Merging

theorem lastCaptured_concat (captured : List Capture) (capture : Capture) (key : ProviderKey) :
    lastCaptured (captured ++ [capture]) key = (capture.get key).or (lastCaptured captured key) := by
  unfold lastCaptured
  rw [reverse_append, reverse_singleton, singleton_append, findSome?_cons]
  cases capture.get key <;> rfl

theorem merged_concat {captured : List Capture} {capture : Capture} {key : ProviderKey} {before initial after : Option Text}
    (h : before = (lastCaptured captured key).elim initial fun text => clean (some text)) (hclean : clean before = before)
    (hafter : after = clean ((capture.get key).or before)) :
    after = (lastCaptured (captured ++ [capture]) key).elim initial fun text => clean (some text) := by
  rw [hafter, lastCaptured_concat]
  cases capture.get key with
  | some text => rfl
  | none =>
    rw [Option.none_or, Option.none_or, hclean]
    exact h

end Merging

section Invariant
variable {call : ℕ} {stage : Stage β} {marker : Marker} {body : List β} {files : SharedFiles MarkerName β}
variable {merged : Option (Capture × Option ℕ)} {other : SharedFiles MarkerName β} {bodies : Marker → List (List β)}

def Merges (json : SerdeJson β) (files : SharedFiles MarkerName β) (marker : Marker) (body : List β) : Option Capture → Prop
  | none => marker ≠ .provider
  | some capture => marker = .provider ∧
      ∃ nowMs, body = json.toVec (providerBody (capture.next (current json files)) nowMs)

def Seen (files : SharedFiles MarkerName β) (seen : Option ℕ) : Prop :=
  ∀ file, seen = some file → file < files.nextFile ∧ files.names (.temporary .provider) ≠ some file

def StageOk (json : SerdeJson β) (files : SharedFiles MarkerName β) (bodies : Marker → List (List β)) : Stage β → Prop
  | .begun _ => True
  | .looked _ seen before => Seen files seen ∧ (files.names (.marker .provider) = seen →
      ∀ key, key ≠ .providerRuntime → before key = current json files key)
  | .preparing marker body merged => body ∈ bodies marker ∧ match merged with
      | none => marker ≠ .provider
      | some (capture,seen) => marker = .provider ∧ Seen files seen ∧
          (files.names (.marker .provider) = seen → Merges json files marker body (some capture))
  | .writing marker file written body merged => files.names (.temporary marker) = some file ∧
      files.contents file = body.take written ∧ written ≤ body.length ∧ body ∈ bodies marker ∧
      Merges json files marker body merged
  | .returned result => result ≠ .renameFailed

def Writes (marker : Marker) : Stage β → Prop
  | .writing other _ _ _ _ => other = marker
  | _ => False

structure Kept (json : SerdeJson β) (initial : SharedFiles MarkerName β) (dir : MarkerDir β) : Prop where
  whole : ∀ marker content, dir.files.read (.marker marker) = some content →
    initial.read (.marker marker) = some content ∨ content ∈ dir.bodies marker
  merged : ∀ key, current json dir.files key =
    (lastCaptured dir.captured key).elim (current json initial key) fun text => clean (some text)
  stages : ∀ call stage, dir.calls call = some stage → StageOk json dir.files dir.bodies stage
  single : ∀ marker call other stage stage', dir.calls call = some stage → dir.calls other = some stage' →
    Writes marker stage → Writes marker stage' → call = other

variable {initial : SharedFiles MarkerName β} {dir next : MarkerDir β}

theorem kept_start (present : Bool) : Kept json initial (start present initial) where
  whole := fun _ _ h => .inl h
  merged := fun _ => rfl
  stages := fun _ _ hno => nomatch hno
  single := fun _ _ _ _ _ hno => nomatch hno

theorem Kept.faithful (h : Kept json initial dir) : Faithful json initial dir where
  whole := h.whole
  renamed := fun call hcall => h.stages call _ hcall rfl
  merged := h.merged

theorem setCall_calls {other : ℕ} {found : Stage β} (h : (dir.setCall call stage).calls other = some found) :
    other = call ∧ found = stage ∨ other ≠ call ∧ dir.calls other = some found := by
  by_cases hother : other = call
  · subst hother
    rw [show (dir.setCall other stage).calls other = some stage from update_self ..] at h
    cases h
    exact .inl ⟨rfl,rfl⟩
  · rw [show (dir.setCall call stage).calls other = dir.calls other from update_of_ne hother ..] at h
    exact .inr ⟨hother,h⟩

theorem Kept.advance (h : Kept json initial dir) {call : ℕ} {stage : Stage β} {files : SharedFiles MarkerName β}
    {captured : List Capture}
    (hwhole : ∀ marker content, files.read (.marker marker) = some content →
      initial.read (.marker marker) = some content ∨ content ∈ dir.bodies marker)
    (hmerged : ∀ key, current json files key =
      (lastCaptured captured key).elim (current json initial key) fun text => clean (some text))
    (hothers : ∀ other found, other ≠ call → dir.calls other = some found → StageOk json files dir.bodies found)
    (hstage : StageOk json files dir.bodies stage)
    (hwrites : ∀ marker, Writes marker stage → ∀ other found, other ≠ call → dir.calls other = some found →
      ¬Writes marker found) :
    Kept json initial ({ dir with files, captured }.setCall call stage) where
  whole := hwhole
  merged := hmerged
  stages := by
    intro other found hfound
    rcases setCall_calls hfound with ⟨-,rfl⟩ | ⟨hne,hfound⟩
    · exact hstage
    · exact hothers other found hne hfound
  single := by
    intro marker a b stage₁ stage₂ h₁ h₂ hw₁ hw₂
    rcases setCall_calls h₁ with ⟨rfl,rfl⟩ | ⟨hne₁,hold₁⟩
    · rcases setCall_calls h₂ with ⟨rfl,-⟩ | ⟨hne₂,hold₂⟩
      · rfl
      · exact absurd hw₂ (hwrites marker hw₁ b _ hne₂ hold₂)
    · rcases setCall_calls h₂ with ⟨rfl,rfl⟩ | ⟨hne₂,hold₂⟩
      · exact absurd hw₁ (hwrites marker hw₂ a _ hne₁ hold₁)
      · exact h.single marker a b _ _ hold₁ hold₂ hw₁ hw₂

theorem Kept.setCall (h : Kept json initial dir)
    (hstage : StageOk json dir.files dir.bodies stage) (hwrites : ∀ marker, ¬Writes marker stage) :
    Kept json initial (dir.setCall call stage) :=
  h.advance h.whole h.merged (fun other found _ => h.stages other found) hstage
    fun marker hno => absurd hno (hwrites marker)

theorem StageOk.mono {files : SharedFiles MarkerName β} {bodies more : Marker → List (List β)} {stage : Stage β}
    (h : StageOk json files bodies stage) (hsub : ∀ marker, bodies marker ⊆ more marker) : StageOk json files more stage := by
  cases stage with
  | begun capture => trivial
  | looked capture seen before | returned result => exact h
  | preparing marker body merged => exact ⟨hsub marker h.1,h.2⟩
  | writing marker file written body merged => exact ⟨h.1,h.2.1,h.2.2.1,hsub marker h.2.2.2.1,h.2.2.2.2⟩

theorem Kept.addBody (h : Kept json initial dir) (marker : Marker) (body : List β) :
    Kept json initial { dir with bodies := Function.update dir.bodies marker (body :: dir.bodies marker) } := by
  have hsub : ∀ other, dir.bodies other ⊆ Function.update dir.bodies marker (body :: dir.bodies marker) other := by
    intro other
    by_cases hother : other = marker
    · subst hother
      rw [update_self]
      exact subset_cons_self ..
    · rw [update_of_ne hother]
      exact List.Subset.refl _
  constructor
  · exact fun other content hread => (h.whole other content hread).imp_right (hsub other ·)
  · exact h.merged
  · exact fun call stage hcall => (h.stages call stage hcall).mono hsub
  · exact h.single

theorem Kept.prepare (h : Kept json initial dir) (hstage : match merged with
      | none => marker ≠ .provider
      | some (capture,seen) => marker = .provider ∧ Seen dir.files seen ∧
          (dir.files.names (.marker .provider) = seen → Merges json dir.files marker body (some capture))) :
    Kept json initial (dir.prepare call marker body merged) := by
  apply (h.addBody marker body).setCall
  · refine ⟨?_,hstage⟩
    show body ∈ Function.update dir.bodies marker (body :: dir.bodies marker) marker
    rw [update_self]
    exact mem_cons_self
  · exact fun _ hno => hno

theorem Kept.setFiles (h : Kept json initial dir)
    (hread : ∀ marker, files.read (.marker marker) = dir.files.read (.marker marker))
    (hothers : ∀ other found, other ≠ call → dir.calls other = some found → StageOk json files dir.bodies found)
    (hstage : StageOk json files dir.bodies stage)
    (hwrites : ∀ marker, Writes marker stage → ∀ other found, other ≠ call → dir.calls other = some found →
      ¬Writes marker found) :
    Kept json initial ((dir.setFiles files).setCall call stage) := by
  refine h.advance ?_ ?_ hothers hstage hwrites
  · exact fun marker content hcontent => h.whole marker content ((hread marker).symm.trans hcontent)
  · intro key
    rw [current_congr (hread .provider)]
    exact h.merged key

theorem openTruncate_nextFile (files : SharedFiles MarkerName β) (name : MarkerName) :
    files.nextFile ≤ (files.openTruncate name).2.nextFile := by
  unfold SharedFiles.openTruncate
  split
  · exact le_rfl
  · exact Nat.le_succ _

theorem Seen.openTruncate {files : SharedFiles MarkerName β} {seen : Option ℕ} (h : Seen files seen) (marker : Marker) :
    Seen (files.openTruncate (.temporary marker)).2 seen := by
  intro file hfile
  obtain ⟨hlt,hne⟩ := h file hfile
  refine ⟨hlt.trans_le (openTruncate_nextFile files _),?_⟩
  by_cases hmarker : MarkerName.temporary .provider = .temporary marker
  · rw [← hmarker, SharedFiles.openTruncate_names_self]
    unfold SharedFiles.openTruncate
    split
    · rename_i opened hopened
      rwa [hopened] at hne
    · exact fun hno => absurd (Option.some.inj hno) (Nat.ne_of_gt hlt)
  · rw [SharedFiles.openTruncate_names_of_ne hmarker]
    exact hne

theorem Merges.congr {files other : SharedFiles MarkerName β} {marker : Marker} {body : List β} {merged : Option Capture}
    (h : Merges json files marker body merged) (hcurrent : current json other = current json files) :
    Merges json other marker body merged := by
  cases merged with
  | none => exact h
  | some capture =>
    obtain ⟨hmarker,nowMs,hbody⟩ := h
    exact ⟨hmarker,nowMs,by rw [hbody, hcurrent]⟩

/-- A stage that keeps its own file, while the markers read the same. -/
theorem StageOk.setFiles (h : StageOk json files bodies stage) (hcurrent : current json other = current json files)
    (hname : other.names (.marker .provider) = files.names (.marker .provider))
    (hseen : ∀ seen, Seen files seen → Seen other seen)
    (hfile : ∀ marker file written body merged, stage = .writing marker file written body merged →
      other.names (.temporary marker) = files.names (.temporary marker) ∧ other.contents file = files.contents file) :
    StageOk json other bodies stage := by
  cases stage with
  | begun capture => trivial
  | looked capture seen before =>
    refine ⟨hseen seen h.1,fun hsame key hkey => ?_⟩
    rw [hcurrent]
    exact h.2 (hname.symm.trans hsame) key hkey
  | preparing marker body merged =>
    refine ⟨h.1,?_⟩
    cases merged with
    | none => exact h.2
    | some merged =>
      obtain ⟨-,hmarker,hfound,hmerges⟩ := h
      exact ⟨hmarker,hseen _ hfound,fun hsame => (hmerges (hname.symm.trans hsame)).congr hcurrent⟩
  | writing marker file written body merged =>
    obtain ⟨hnames,hcontents⟩ := hfile marker file written body merged rfl
    exact ⟨hnames.trans h.1,hcontents.trans h.2.1,h.2.2.1,h.2.2.2.1,h.2.2.2.2.congr hcurrent⟩
  | returned result => exact h

/-- The temporary file has no other writer, so that nothing of another call is lost. -/
theorem Kept.openTemporary (h : Kept json initial dir) (hcall : dir.calls call = some (.preparing marker body merged))
    (halone : ∀ other file written text merged, dir.calls other ≠ some (.writing marker file written text merged))
    (hsame : ∀ capture seen, merged = some (capture,seen) → dir.files.names (.marker .provider) = seen) :
    Kept json initial ((dir.setFiles (dir.files.openTruncate (.temporary marker)).2).setCall call
      (.writing marker (dir.files.openTruncate (.temporary marker)).1 0 body (merged.map (·.1)))) := by
  have hcurrent : current json (dir.files.openTruncate (.temporary marker)).2 = current json dir.files :=
    current_congr (read_openTruncate dir.files marker .provider)
  apply h.setFiles (read_openTruncate dir.files marker)
  · intro other stage _ hother
    apply (h.stages other stage hother).setFiles hcurrent
    · exact SharedFiles.openTruncate_names_of_ne nofun
    · exact fun seen hseen => hseen.openTruncate marker
    · rintro writer file written text held rfl
      have hne : MarkerName.temporary writer ≠ .temporary marker := by
        rintro ⟨⟩
        exact halone other file written text held hother
      have hnames : (dir.files.openTruncate (.temporary marker)).2.names (.temporary writer) =
          dir.files.names (.temporary writer) := SharedFiles.openTruncate_names_of_ne hne
      refine ⟨hnames,SharedFiles.openTruncate_contents_of_ne ?_⟩
      rintro rfl
      exact hne ((dir.files.openTruncate _).2.distinct _ _ _ (hnames.trans (h.stages other _ hother).1)
        SharedFiles.openTruncate_names_self)
  · obtain ⟨hbody,hmerged⟩ := h.stages call _ hcall
    refine ⟨SharedFiles.openTruncate_names_self,?_,Nat.zero_le _,hbody,?_⟩
    · exact SharedFiles.openTruncate_contents_self
    · cases merged with
      | none => exact hmerged
      | some merged => exact (hmerged.2.2 (hsame _ _ rfl)).congr hcurrent
  · rintro writer rfl other found - hfound hwrites
    cases found with
    | writing writer' file written text held =>
      obtain rfl := hwrites
      exact halone other file written text held hfound
    | _ => exact hwrites

theorem take_written (written count : ℕ) :
    body.take written ++ (body.drop written).take count =
      body.take (written + ((body.drop written).take count).length) := by
  rw [take_add]
  congr 1
  rw [length_take]
  rcases Nat.le_total count (body.drop written).length with hle | hle
  · rw [min_eq_left hle]
  · rw [min_eq_right hle, take_length, take_of_length_le hle]

/-- The writer of a temporary file adds to what it has written. -/
theorem Kept.write (h : Kept json initial dir) {file written : ℕ}
    {merged : Option Capture} (hcall : dir.calls call = some (.writing marker file written body merged)) (count : ℕ) :
    Kept json initial ((dir.setFiles (dir.files.writeAt zero file written ((body.drop written).take count))).setCall call
      (.writing marker file (written + ((body.drop written).take count).length) body merged)) := by
  obtain ⟨hname,hcontent,hwritten,hbody,hmerges⟩ := h.stages call _ hcall
  have hread : ∀ other, (dir.files.writeAt zero file written ((body.drop written).take count)).read (.marker other) =
      dir.files.read (.marker other) := read_writeAt hname written _
  apply h.setFiles hread
  · intro other stage hne hother
    apply (h.stages other stage hother).setFiles (current_congr (hread .provider)) rfl fun _ hseen => hseen
    rintro writer file' written' text held rfl
    refine ⟨rfl,update_of_ne ?_ ..⟩
    -- two writers of one file would be writers of one marker
    rintro rfl
    cases dir.files.distinct _ _ _ (h.stages other _ hother).1 hname
    exact hne (h.single marker other call _ _ hother hcall rfl rfl)
  · refine ⟨hname,?_,?_,hbody,hmerges.congr (current_congr (hread .provider))⟩
    · show Function.update dir.files.contents file _ file = _
      have hlength : written = (dir.files.contents file).length := by
        rw [hcontent, length_take, min_eq_left hwritten]
      rw [update_self, ← take_written]
      conv_lhs => rw [hlength, overwrite_length, ← hlength, hcontent]
    · rw [length_take, length_drop]
      omega
  · rintro _ rfl other found hne hfound hwrites
    exact hne (h.single marker other call _ _ hfound hcall hwrites rfl)

/-- What a rename leaves of the other calls: those that have read the provider marker find
another file there. -/
theorem StageOk.rename
    (h : StageOk json files bodies stage) (hcurrent : marker ≠ .provider → current json other = current json files)
    (hname : marker ≠ .provider → other.names (.marker .provider) = files.names (.marker .provider))
    (hseen : ∀ seen, Seen files seen → Seen other seen)
    (hlost : ∀ seen, marker = .provider → Seen files seen → other.names (.marker .provider) ≠ seen)
    (hfile : ∀ writer file written body merged, stage = .writing writer file written body merged → writer ≠ marker ∧
      other.names (.temporary writer) = files.names (.temporary writer) ∧ other.contents file = files.contents file) :
    StageOk json other bodies stage := by
  by_cases hprovider : marker = .provider
  · cases stage with
    | begun capture => trivial
    | looked capture seen before => exact ⟨hseen seen h.1,fun hsame => absurd hsame (hlost seen hprovider h.1)⟩
    | preparing writer body merged =>
      refine ⟨h.1,?_⟩
      cases merged with
      | none => exact h.2
      | some merged =>
        obtain ⟨-,hwriter,hfound,-⟩ := h
        exact ⟨hwriter,hseen _ hfound,fun hsame => absurd hsame (hlost _ hprovider hfound)⟩
    | writing writer file written body merged =>
      obtain ⟨hwriter,hnames,hcontents⟩ := hfile writer file written body merged rfl
      refine ⟨hnames.trans h.1,hcontents.trans h.2.1,h.2.2.1,h.2.2.2.1,?_⟩
      cases merged with
      | none => exact h.2.2.2.2
      | some capture => exact absurd (h.2.2.2.2.1.trans hprovider.symm) hwriter
    | returned result => exact h
  · exact h.setFiles (hcurrent hprovider) (hname hprovider) hseen
      fun writer file written body merged hstage => (hfile writer file written body merged hstage).2

/-- The marker is the file that the call has written, and that file was not a marker
before. -/
theorem Kept.rename (h : Kept json initial dir) {call : ℕ} {marker : Marker} {file written : ℕ} {body : List β}
    {merged : Option Capture} (hcall : dir.calls call = some (.writing marker file written body merged))
    (hdone : ¬written < body.length) {files : SharedFiles MarkerName β}
    (hfiles : dir.files.rename (.temporary marker) (.marker marker) = some files) :
    Kept json initial (((dir.setFiles files).setCall call (.returned .changed)).capture merged) := by
  obtain ⟨hname,hcontent,hwritten,hbody,hmerges⟩ := h.stages call _ hcall
  obtain ⟨file',hfile,htarget,hsource,hothers,hcontents,hnext⟩ := SharedFiles.rename_eq_some hfiles nofun
  obtain rfl : file = file' := Option.some.inj (hname.symm.trans hfile)
  have hnew : files.read (.marker marker) = some body := by
    unfold SharedFiles.read
    rw [htarget, Option.map_some, hcontents, hcontent, take_of_length_le (Nat.le_of_not_lt hdone)]
  have hold : ∀ other, other ≠ marker → files.read (.marker other) = dir.files.read (.marker other) := by
    intro other hne
    unfold SharedFiles.read
    rw [hothers (.marker other) nofun (by rintro ⟨⟩; exact hne rfl), hcontents]
  have hcurrent : marker ≠ .provider → current json files = current json dir.files :=
    fun hne => current_congr (hold .provider hne.symm)
  have hseen : ∀ seen, Seen dir.files seen → Seen files seen := by
    intro seen hseen found hfound
    refine ⟨hnext.symm ▸ (hseen found hfound).1,?_⟩
    by_cases hprovider : marker = .provider
    · subst hprovider
      rw [hsource]
      exact nofun
    · rw [hothers (.temporary .provider) (by rintro ⟨⟩; exact hprovider rfl) nofun]
      exact (hseen found hfound).2
  have hlost : ∀ seen, marker = .provider → Seen dir.files seen → files.names (.marker .provider) ≠ seen := by
    rintro seen rfl hseen hsame
    exact (hseen file (hsame.symm.trans htarget)).2 hname
  show Kept json initial (({ dir with files := files, captured := dir.captured ++ merged.toList } : MarkerDir β).setCall call
    (.returned .changed))
  refine h.advance ?_ ?_ ?_ ?_ ?_
  · intro other content hread
    by_cases hother : other = marker
    · subst hother
      rw [hnew] at hread
      cases hread
      exact .inr hbody
    · exact h.whole other content ((hold other hother).symm.trans hread)
  · intro key
    cases merged with
    | none =>
      rw [hcurrent hmerges, Option.toList_none, append_nil]
      exact h.merged key
    | some capture =>
      obtain ⟨rfl,nowMs,rfl⟩ := hmerges
      exact merged_concat (h.merged key) (clean_current dir.files key) (current_of_body hnew key)
  · intro other stage hne hother
    exact (h.stages other stage hother).rename hcurrent
      (fun hprovider => hothers (.marker .provider) nofun (by rintro ⟨⟩; exact hprovider rfl)) hseen hlost
      (by
        rintro writer held written' text outcome rfl
        have hwriter : writer ≠ marker := by
          rintro rfl
          exact hne (h.single writer other call _ _ hother hcall rfl rfl)
        exact ⟨hwriter,hothers (.temporary writer) (by rintro ⟨⟩; exact hwriter rfl) nofun,by rw [hcontents]⟩)
  · exact nofun
  · exact fun _ hno => hno.elim

theorem unchanged_eq {found : ProviderKey → Option Text} {next : ProviderKey → Option Text}
    (h : unchanged next found = true) (key : ProviderKey) : next key = found key := by
  unfold unchanged at h
  rw [Bool.and_eq_true, Bool.and_eq_true, decide_eq_true_eq, decide_eq_true_eq, decide_eq_true_eq] at h
  obtain ⟨⟨hid,hpath⟩,hruntime⟩ := h
  cases key with
  | providerSessionId => exact hid
  | providerTranscriptPath => exact hpath
  | providerRuntime => exact hruntime

/-- A call that merges finds the marker as it was when it began to read. -/
theorem Kept.lookUpRuntime (h : Kept json initial dir) {capture : Capture} {seen : Option ℕ}
    {before : ProviderKey → Option Text} (hcall : dir.calls call = some (.looked capture seen before))
    (hsame : dir.files.names (.marker .provider) = seen) (nowMs : ℕ)
    (hnext : step json zero dir (.lookUpRuntime call nowMs) = some next) : Kept json initial next := by
  obtain ⟨hseen,hbefore⟩ := h.stages call _ hcall
  have hfound : Function.update before .providerRuntime (current json dir.files .providerRuntime) =
      current json dir.files := by
    funext key
    by_cases hkey : key = .providerRuntime
    · rw [hkey, update_self]
    · rw [update_of_ne hkey]
      exact hbefore hsame key hkey
  simp only [step, hcall, hfound] at hnext
  split at hnext
  · rename_i hunchanged
    cases hnext
    show Kept json initial (({ dir with captured := dir.captured ++ [capture] } : MarkerDir β).setCall call
      (.returned .unchanged))
    refine h.advance h.whole ?_ (fun other found _ => h.stages other found) nofun fun _ hno => hno.elim
    intro key
    have hclean : clean (current json dir.files key) = current json dir.files key := clean_current dir.files key
    refine merged_concat (h.merged key) hclean ?_
    rw [show (capture.get key).or (current json dir.files key) = current json dir.files key from
      unchanged_eq hunchanged key, hclean]
  · cases hnext
    exact h.prepare ⟨rfl,hseen,fun _ => ⟨rfl,nowMs,rfl⟩⟩

theorem Kept.setMarker (h : Kept json initial dir) {call : ℕ} {marker : Marker} {body : Body}
    (hnext : dir.setMarker json call marker body = some next) (hmarker : marker ≠ .provider) : Kept json initial next := by
  unfold MarkerDir.setMarker at hnext
  split at hnext
  · cases hnext
  split at hnext
  · cases hnext
    exact h.prepare hmarker
  · cases hnext
    exact h.setCall nofun fun _ hno => hno

theorem Kept.step {action : Action} (h : Kept json initial dir) (hok : Alone dir action)
    (hnext : step json zero dir action = some next) : Kept json initial next := by
  cases action with
  | setTitle call title nowMs | setProjectOverride call projectId nowMs | markRead call nowMs => exact h.setMarker hnext nofun
  | setProviderSession call capture =>
    simp only [MarkerDir.step] at hnext
    split at hnext
    · cases hnext
    split at hnext
    · cases hnext
      exact h.setCall nofun fun _ hno => hno
    · split at hnext
      · cases hnext
        exact h.setCall trivial fun _ hno => hno
      · cases hnext
        exact h.setCall nofun fun _ hno => hno
  | lookUp call =>
    simp only [MarkerDir.step] at hnext
    split at hnext <;> cases hnext
    refine h.setCall ⟨?_,fun _ _ _ => rfl⟩ fun _ hno => hno
    -- the marker and the temporary file are two files
    intro file hfile
    exact ⟨dir.files.known _ file hfile,fun hno => nomatch dir.files.distinct _ _ _ hfile hno⟩
  | lookUpRuntime call nowMs =>
    cases hcall : dir.calls call with
    | none => simp [MarkerDir.step, hcall] at hnext
    | some stage =>
      cases stage with
      | looked capture seen before => exact h.lookUpRuntime hcall (hok capture seen before hcall) nowMs hnext
      | _ => simp [MarkerDir.step, hcall] at hnext
  | openTemporary call =>
    simp only [MarkerDir.step] at hnext
    split at hnext <;> cases hnext
    rename_i marker body merged hcall
    obtain ⟨halone,hsame⟩ := hok marker body merged hcall
    exact h.openTemporary hcall halone hsame
  | write call count =>
    simp only [MarkerDir.step] at hnext
    split at hnext <;> cases hnext
    rename_i marker file written body merged hcall
    exact h.write hcall count
  | rename call =>
    simp only [MarkerDir.step] at hnext
    split at hnext
    swap
    · cases hnext
    rename_i marker file written body merged hcall
    split at hnext
    · cases hnext
    rename_i hdone
    split at hnext
    · rename_i hmissing
      have hname := (h.stages call _ hcall).1
      rw [SharedFiles.rename_eq_none.mp hmissing] at hname
      cases hname
    · rename_i files hfiles
      cases hnext
      exact h.rename hcall hdone hfiles

end Invariant

/-- Where the calls for one marker do not come between each other, every version of a marker
is the body of one call, every rename finds its file, and the provider marker has what was
captured last for each field. -/
theorem markers_keep_every_update (json : SerdeJson β) (zero : β) (present : Bool) (initial : SharedFiles MarkerName β)
    (actions : List Action) (h : Guarded (step json zero) Alone (start present initial) actions) :
    Always (step json zero) (Faithful json initial) (start present initial) actions :=
  always_of_guarded (J := Kept json initial) (fun _ _ _ hs hok hnext => hs.step hok hnext) (fun _ => Kept.faithful)
    (kept_start present) h

section Texts

def textJson : SerdeJson Char where
  toVec := toVec
  strField := fun content key => ((fromSlice content).bind (·.lookup key)).bind FieldValue.asStr
  strField_toVec := by
    intro body key _
    rw [fromSlice_toVec]
    rfl

def noFiles : SharedFiles MarkerName Char := ⟨fun _ => none,fun _ => [],0,nofun,nofun⟩

/-- Two renames of a Session at once: the second opens the temporary file just before the
first renames it. -/
def twoTitles : List Action :=
  [.setTitle 0 "notes".toList 5,.setTitle 1 "plan".toList 6,.openTemporary 0,.write 0 100,.openTemporary 1,.rename 0]

/-- The marker is then an empty file. -/
theorem title_marker_is_torn :
    ¬∀ actions, Always (step textJson '\x00') (Faithful textJson noFiles) (start true noFiles) actions := by
  intro h
  have hrun : ∃ dir, run (step textJson '\x00') (start true noFiles) twoTitles = some dir ∧
      dir.files.read (.marker .title) = some [] ∧ [] ∉ dir.bodies .title := ⟨_,rfl,rfl,by decide⟩
  obtain ⟨dir,hdir,hread,hnone⟩ := hrun
  rcases ((h twoTitles).last hdir).whole .title [] hread with hno | hbody
  · cases hno
  · exact hnone hbody

/-- `Alone`, and every call has a number below `count`. -/
def AloneBelow (count : ℕ) (dir : MarkerDir Char) : Action → Bool
  | .setTitle call _ _ | .setProjectOverride call _ _ | .markRead call _ | .setProviderSession call _ => call < count
  | .lookUpRuntime call _ =>
    match dir.calls call with
    | some (.looked _ seen _) => decide (dir.files.names (.marker .provider) = seen)
    | _ => true
  | .openTemporary call =>
    match dir.calls call with
    | some (.preparing marker _ merged) =>
      ((List.range count).all fun other =>
        match dir.calls other with
        | some (.writing writer _ _ _ _) => decide (writer ≠ marker)
        | _ => true) &&
      merged.all fun merged => decide (dir.files.names (.marker .provider) = merged.2)
    | _ => true
  | _ => true

theorem calls_of_step {dir next : MarkerDir Char} {count : ℕ} {action : Action} (hok : AloneBelow count dir action = true)
    (hnext : step textJson '\x00' dir action = some next) (hnone : ∀ call, count ≤ call → dir.calls call = none) :
    ∀ call, count ≤ call → next.calls call = none := by
  have hset {call : ℕ} {stage : Stage Char} (hcall : call < count ∨ dir.calls call ≠ none) :
      ∀ other, count ≤ other → Function.update dir.calls call (some stage) other = none := by
    intro other hother
    rw [update_of_ne, hnone other hother]
    rintro rfl
    exact hcall.elim (fun hlt => absurd hother (not_le.mpr hlt)) fun hold => hold (hnone other hother)
  cases action with
  | setTitle call _ _ | setProjectOverride call _ _ | markRead call _ | setProviderSession call _ =>
    simp only [step, setMarker] at hnext
    repeat' split at hnext
    all_goals cases hnext
    all_goals exact hset (.inl (of_decide_eq_true hok))
  | lookUp call | lookUpRuntime call _ | openTemporary call | write call _ | rename call =>
    simp only [step] at hnext
    repeat' split at hnext
    all_goals cases hnext
    all_goals exact hset (.inr (by simp_all))

theorem alone_of_below {count : ℕ} {dir : MarkerDir Char} (hnone : ∀ call, count ≤ call → dir.calls call = none)
    {actions : List Action}
    (h : Guarded (step textJson '\x00') (fun dir action => AloneBelow count dir action = true) dir actions) :
    Guarded (step textJson '\x00') Alone dir actions := by
  apply Guarded.mono (J := fun dir => ∀ call, count ≤ call → dir.calls call = none) _ _ hnone h
  · exact fun dir action next hnone hok hnext => calls_of_step hok hnext hnone
  · intro dir action hnone hok
    cases action with
    | lookUpRuntime call _ =>
      intro capture seen before hcall
      simp only [AloneBelow, hcall] at hok
      exact of_decide_eq_true hok
    | openTemporary call =>
      intro marker body merged hcall
      simp only [AloneBelow, hcall, Bool.and_eq_true, all_eq_true] at hok
      refine ⟨fun other file written text kept hwriting => ?_,fun capture seen hmerged => ?_⟩
      · have hother : other < count := by
          by_contra hlarge
          rw [hnone other (not_lt.mp hlarge)] at hwriting
          cases hwriting
        have hapart := hok.1 other (mem_range.mpr hother)
        simp [hwriting] at hapart
      · rw [hmerged] at hok
        exact of_decide_eq_true hok.2
    | _ => trivial

/-- A call with an id and then one with a path. -/
def twoCaptures : List Action :=
  [.setProviderSession 0 ⟨some ['s'],none,none⟩,.lookUp 0,.lookUpRuntime 0 5,.openTemporary 0,.write 0 100,.rename 0,
    .setProviderSession 1 ⟨none,some ['p'],none⟩,.lookUp 1,.lookUpRuntime 1 6,.openTemporary 1,.write 1 100,.rename 1]

theorem two_captures_are_kept :
    ((run (step textJson '\x00') (start true noFiles) twoCaptures).map fun dir =>
      (current textJson dir.files .providerSessionId,current textJson dir.files .providerTranscriptPath)) = some (some ['s'],some ['p']) ∧
    Always (step textJson '\x00') (Faithful textJson noFiles) (start true noFiles) twoCaptures := by
  have hbelow : Guarded (step textJson '\x00') (fun dir action => AloneBelow 2 dir action = true) (start true noFiles) twoCaptures := by
    decide +kernel
  exact ⟨by decide +kernel,markers_keep_every_update textJson '\x00' true noFiles twoCaptures (alone_of_below (fun _ _ => rfl) hbelow)⟩

end Texts

end MarkerDir

end Unpeel.Markers
