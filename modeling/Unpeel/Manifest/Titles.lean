import Unpeel.Foundation.Runs
import Unpeel.Manifest.PromptTitle

/-! # Automatic titles and a user's rename

Every source of automatic titles reads the manifest without the lock, decides, and
then edits it under the lock. In between a user can rename the Session. Two of the
three look again inside the update; the title from a prompt does not.
-/
namespace Unpeel.Manifest
open Runs

inductive SessionTitleMode where
  | firstPrompt
  | off
  | agent
deriving DecidableEq

/-- A titling call after its lock-free read: it has returned, or it is about to
update the manifest. -/
inductive TitleCall where
  | returned (settled : Bool)
  | autoTitle (nextLabel : Text) (markCustom : Bool)
  | terminalTitle (title : Text)
  | appTitle (title : Text)

/-- `apply_manifest_auto_title` up to its update. -/
def applyManifestAutoTitle (file : ManifestFile) (mode : SessionTitleMode) (candidate : Text) : TitleCall :=
  if mode = .off then .returned false
  else match normalizePromptTitle candidate, file with
    | none, _ => .returned false
    | _, none => .returned false
    | some nextLabel, some manifest =>
      let isBlankTerminal := manifest.command.isEmpty
      if manifest.customTitle = true then .returned true
      -- a label that is no prefix of the command is a title already
      else if isBlankTerminal = false ∧ ¬manifest.label <+: manifest.command then .returned true
      else if manifest.label = nextLabel then .returned false
      else .autoTitle nextLabel isBlankTerminal

/-- `apply_agent_terminal_title` up to its update; `semantic` are the runtimes that
declare `semantic_terminal_title`. -/
def applyAgentTerminalTitle (semantic : Text → Bool) (file : ManifestFile) (mode : SessionTitleMode)
    (title : Text) : TitleCall :=
  if mode ≠ .agent then .returned false
  else match file with
    | none => .returned false
    | some manifest =>
      if manifest.customTitle = true then .returned true
      else if (activeRuntimeId manifest).any semantic = false ∨ manifest.label = title then .returned false
      else .terminalTitle title

/-- `apply_app_title` up to its update. -/
def applyAppTitle (file : ManifestFile) (title : Text) : TitleCall :=
  match file with
  | none => .returned false
  | some manifest =>
    if manifest.customTitle = true then .returned true
    else if manifest.label = title then .returned false
    else .appTitle title

namespace TitleCall

def update (manifest : HostedSessionManifest) : TitleCall → HostedSessionManifest
  | .returned _ => manifest
  | .autoTitle nextLabel markCustom => { manifest with label := nextLabel, customTitle := markCustom }
  | .terminalTitle title =>
    if manifest.customTitle = false ∧ manifest.label ≠ title then { manifest with label := title } else manifest
  | .appTitle title => if manifest.customTitle = false then { manifest with label := title } else manifest

def settles : TitleCall → Bool
  | .returned settled => settled
  | .autoTitle _ _ => true
  | .terminalTitle _ | .appTitle _ => false

end TitleCall

/-- The manifest, the titling calls by their threads, and the user's title once it
is committed. -/
structure Titling where
  file : ManifestFile
  calls : ℕ → TitleCall
  renamed : Option Text

inductive TitleEvent where
  | autoTitle (thread : ℕ) (mode : SessionTitleMode) (candidate : Text)
  | terminalTitle (thread : ℕ) (mode : SessionTitleMode) (title : Text)
  | appTitle (thread : ℕ) (title : Text)
  | update (thread now : ℕ) (written : Bool)
  | rename (label : Text) (written : Bool)
  | edit (now : ℕ) (written : Bool) (command : Text) (state : HostedSessionState) (runtime : Option Text)

namespace Titling

def beginCall (s : Titling) (thread : ℕ) (call : TitleCall) : Option Titling :=
  match s.calls thread with
  | .returned _ => some { s with calls := Function.update s.calls thread call }
  | _ => none

end Titling

variable (semantic : Text → Bool)

/-- A lock-free read with its decision, or one update under the lock. The user
renames once; other writers edit the other fields. -/
def titleStep (s : Titling) : TitleEvent → Option Titling
  | .autoTitle thread mode candidate => s.beginCall thread (applyManifestAutoTitle s.file mode candidate)
  | .terminalTitle thread mode title =>
    s.beginCall thread (applyAgentTerminalTitle semantic s.file mode title)
  | .appTitle thread title => s.beginCall thread (applyAppTitle s.file title)
  | .update thread now written =>
    match s.calls thread with
    | .returned _ => none
    | call => some { s with
        file := (updateManifestSession s.file now written (fun manifest => call.update manifest)).1
        calls := Function.update s.calls thread (.returned call.settles) }
  | .rename label written =>
    match s.renamed, s.file with
    | none, some manifest =>
      if written = true then
        some { s with file := some { manifest with label := label, customTitle := true }, renamed := some label }
      else some s
    | _, _ => none
  | .edit now written command state runtime => some { s with
      file := (updateManifestSession s.file now written (fun manifest =>
        { manifest with command := command, state := state, runtime := runtime })).1 }

def RenameKept (s : Titling) : Prop :=
  ∀ label, s.renamed = some label → ∃ manifest, s.file = some manifest ∧
    (manifest.label = label ∧ manifest.customTitle = true)

/-- No title from a prompt is written over the rename: only the title the user gave
could be, and only for a Session without a command. -/
def PromptYields (s : Titling) : TitleEvent → Prop
  | .update thread _ written => ∀ nextLabel markCustom label, s.calls thread = .autoTitle nextLabel markCustom →
      s.renamed = some label → written = true → nextLabel = label ∧ markCustom = true
  | _ => True

section Steps
variable {semantic : Text → Bool} {s t : Titling}

theorem beginCall_file {thread : ℕ} {call : TitleCall} (h : s.beginCall thread call = some t) :
    t.file = s.file ∧ t.renamed = s.renamed := by
  unfold Titling.beginCall at h
  split at h
  · rw [Option.some.injEq] at h
    subst h
    exact ⟨rfl,rfl⟩
  · cases h

theorem RenameKept.congr (h : RenameKept s) (hf : t.file = s.file) (hr : t.renamed = s.renamed) :
    RenameKept t := by
  intro label hl
  rw [hf]
  exact h label (hr ▸ hl)

theorem TitleCall.update_custom {call : TitleCall} {manifest : HostedSessionManifest} {label : Text}
    (hm : manifest.label = label ∧ manifest.customTitle = true)
    (hc : ∀ nextLabel markCustom, call = .autoTitle nextLabel markCustom → nextLabel = label ∧ markCustom = true) :
    (call.update manifest).label = label ∧ (call.update manifest).customTitle = true := by
  cases call with
  | returned settled => exact hm
  | autoTitle nextLabel markCustom => exact hc nextLabel markCustom rfl
  | terminalTitle title | appTitle title => simpa [TitleCall.update, hm.2] using hm

theorem titleStep_update {thread now : ℕ} {written : Bool}
    (h : titleStep semantic s (.update thread now written) = some t) :
    t.file = (updateManifestSession s.file now written (fun manifest => (s.calls thread).update manifest)).1 ∧
      t.renamed = s.renamed := by
  simp only [titleStep] at h
  split at h
  · cases h
  all_goals
    rw [Option.some.injEq] at h
    subst h
    exact ⟨rfl,rfl⟩

theorem titleStep_keeps {a : TitleEvent} (h : RenameKept s) (hok : PromptYields s a)
    (hs : titleStep semantic s a = some t) : RenameKept t := by
  cases a with
  | autoTitle thread mode candidate | terminalTitle thread mode title
  | appTitle thread title => exact h.congr (beginCall_file hs).1 (beginCall_file hs).2
  | update thread now written =>
    obtain ⟨hf,hr⟩ := titleStep_update hs
    intro label hl
    rw [hr] at hl
    rw [hf]
    cases written with
    | false => exact h label hl
    | true =>
      apply updateManifestSession_keeps _ (h label hl)
      intro m hm
      exact TitleCall.update_custom hm (fun nextLabel markCustom hc => hok nextLabel markCustom label hc hl rfl)
  | rename label written =>
    simp only [titleStep] at hs
    split at hs
    · split_ifs at hs
      · rw [Option.some.injEq] at hs
        subst hs
        intro l hl
        cases hl
        exact ⟨_,rfl,rfl,rfl⟩
      · exact Option.some.inj hs ▸ h
    · cases hs
  | edit now written command state runtime =>
    rw [titleStep, Option.some.injEq] at hs
    subst hs
    intro label hl
    exact updateManifestSession_keeps (fun m hm => hm) (h label hl)

theorem promptYields_of_kept {a : TitleEvent} (h : RenameKept s) (hs : titleStep semantic s a = some t)
    (ht : RenameKept t) : PromptYields s a := by
  cases a with
  | update thread now written =>
    intro nextLabel markCustom label hc hl hw
    obtain ⟨hf,hr⟩ := titleStep_update hs
    obtain ⟨m,hm,-⟩ := h label hl
    obtain ⟨m',hm',hlabel,hcustom⟩ := ht label (hr.trans hl)
    rw [hf, hm, hw, hc, updateManifestSession, if_neg (by decide), Option.some.injEq] at hm'
    subst hm'
    exact ⟨hlabel,hcustom⟩
  | _ => trivial

end Steps

def untitled (file : ManifestFile) : Titling := ⟨file,fun _ => .returned false,none⟩

/-- In every interleaving of one rename with titling calls and other edits, the
user's title stays from the rename on exactly if no title from a prompt is
written over it. -/
theorem rename_kept_iff (file : ManifestFile) (events : List TitleEvent) :
    Always (titleStep semantic) RenameKept (untitled file) events ↔
      Guarded (titleStep semantic) PromptYields (untitled file) events :=
  always_iff_guarded (fun _ _ _ => titleStep_keeps) (fun _ h => h) (fun _ _ _ => promptYields_of_kept)
    (fun _ h => by cases h) events

/-- The call for the first prompt of a blank terminal has read the manifest, the
user renames the Session, and then the call writes its title. -/
theorem prompt_overwrites_rename :
    ¬Always (titleStep (fun _ => false)) RenameKept
      (untitled (some ⟨[],[],['~'],false,.running,none,0,false,none,none,none,none,0,0⟩))
      [.autoTitle 0 .agent ['l','s'],.rename ['m','y'] true,.update 0 0 true] := by
  intro h
  have hend := h.last rfl
  obtain ⟨m,hm,hlabel,-⟩ := hend ['m','y'] rfl
  have hm' : m.label = ['l','s'] := by
    rw [← Option.some.inj hm]
    decide
  rw [hm'] at hlabel
  exact absurd hlabel (by decide)

end Unpeel.Manifest
