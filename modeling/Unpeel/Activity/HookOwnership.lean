import Unpeel.Activity.ActivityEngine
import Unpeel.Foundation.Runs

/-! # Output has no authority over the lifecycle

A Session that rests turns busy only when a turn opens or a child is reported, and one
without hooks and children is never owned by hooks, whatever it prints.
-/
namespace Unpeel.Activity
open Runs Manifest
variable {found : Option Entry} {s t : ActivityEngine} {event : Text × EngineOp}

inductive EngineOp where
  | hook (event : HookEvent) (toolName : Option Text) (now : ℕ)
  | hookForRuntime (event : HookEvent) (toolName : Option Text) (now : ℕ) (eventGeneration : Option ℕ)
      (currentGeneration : ℕ) (launchedAtUnixMs : Option ℕ)
  | seed (files : SeedFiles) (anchorStartToOutput : Bool) (notBeforeUnixMs : Option ℕ) (currentGeneration : ℕ)
  | cancellation (marker : Option Cancellation) (generation : ℕ)
  | launch (generation : ℕ) (launchedAtUnixMs : Option ℕ)
  | foreground (observed : Option Text)
  | output (activitySignal : ℕ) (allowAttentionClear : Bool) (now : ℕ)
  | clearBaseline
  | remove

structure Noted where
  entry : Option Entry
  opened : Bool := false
  children : List (Text × ℕ) := []
  unheld : Bool := false

def Entry.holds (e : Entry) (child : Text × ℕ) : Bool := (e.background.lookup child.1).any (·.startedAt = child.2)

def Entry.seedNoted (e : Entry) (files : SeedFiles) (anchorStartToOutput : Bool) (notBeforeUnixMs : Option ℕ)
    (currentGeneration : ℕ) : Noted :=
  let children := Entry.currentChildren (files.children.getD []) notBeforeUnixMs
  let r := (e.observeRuntimeLaunch currentGeneration notBeforeUnixMs).syncCancellation files.marker currentGeneration
  let synced := r.1.syncBackground files.children notBeforeUnixMs
  { entry := some (e.seedFromDisk files anchorStartToOutput notBeforeUnixMs currentGeneration)
    opened := r.2 || files.event.any fun seed => startsTurn seed.event &&
      (synced.applySeed seed files anchorStartToOutput notBeforeUnixMs currentGeneration).2
    children := children
    unheld := children.any fun child => !r.1.holds child }

def EngineOp.apply (found : Option Entry) (op : EngineOp) : Noted :=
  let e := found.getD {}
  match op with
  | .hook event toolName now =>
    let r := e.applyHookEventUnchecked event toolName now
    { entry := some r.1, opened := startsTurn event && r.2 }
  | .hookForRuntime event toolName now eventGeneration currentGeneration launchedAtUnixMs =>
    let r := e.applyHookEventForRuntime event toolName now eventGeneration currentGeneration launchedAtUnixMs
    { entry := some r.1, opened := startsTurn event && r.2 }
  | .seed files anchorStartToOutput notBeforeUnixMs currentGeneration =>
    e.seedNoted files anchorStartToOutput notBeforeUnixMs currentGeneration
  | .cancellation marker generation =>
    if marker.any (·.runtimeGeneration = generation) then
      let r := e.syncCancellation marker generation
      { entry := some r.1, opened := r.2 }
    else { entry := found }
  | .launch generation launchedAtUnixMs => { entry := some (e.observeRuntimeLaunch generation launchedAtUnixMs) }
  | .foreground observed => { entry := some (e.observeForegroundRuntime observed) }
  | .output activitySignal allowAttentionClear now =>
    { entry := some (e.noteOutputAndSweep activitySignal allowAttentionClear now) }
  | .clearBaseline => { entry := found.map Entry.clearOutputBaseline }
  | .remove => { entry := none }

structure LastOp where
  session : Text
  before : Option HookState
  opened : Bool
  unheld : Bool
  unread : Bool

structure ActivityEngine where
  entries : Text → Option Entry
  read : List (Text × Text × ℕ)
  last : Option LastOp

def startEngine : ActivityEngine := ⟨fun _ => none,[],none⟩

def ActivityEngine.hookOwnedState (s : ActivityEngine) (session : Text) : Option HookState :=
  (s.entries session).bind Entry.hookOwnedState

def engineStep (s : ActivityEngine) (e : Text × EngineOp) : Option ActivityEngine :=
  let noted := e.2.apply (s.entries e.1)
  let markers := noted.children.map fun child => (e.1,child.1,child.2)
  some {
    entries := Function.update s.entries e.1 noted.entry
    read := markers ++ s.read
    last := some ⟨e.1,s.hookOwnedState e.1,noted.opened,noted.unheld,markers.any (· ∉ s.read)⟩ }

def TurnedBusy (s : ActivityEngine) (op : LastOp) : Prop :=
  s.last = some op ∧ (op.before = none ∨ op.before = some .idle) ∧ s.hookOwnedState op.session = some .busy

def BusyHasCause (s : ActivityEngine) : Prop :=
  ∀ op, TurnedBusy s op → op.opened = true ∨ op.unheld = true

def BusyIsNews (s : ActivityEngine) : Prop :=
  ∀ op, TurnedBusy s op → op.opened = true ∨ op.unread = true

def EngineOp.silent : EngineOp → Bool
  | .hook _ _ _ | .hookForRuntime _ _ _ _ _ _ => false
  | .seed files _ notBeforeUnixMs _ =>
    files.event.isNone && (Entry.currentChildren (files.children.getD []) notBeforeUnixMs).isEmpty
  | _ => true

structure Entry.Owned (e : Entry) : Prop where
  state : e.state ≠ none → e.hookSeen = true
  background : e.background ≠ [] → e.hookSeen = true

structure Entry.Settled (e : Entry) : Prop where
  state : e.state = none ∨ e.state = some .idle
  background : e.backgroundBusy = false

structure Entry.NotBusy (e : Entry) : Prop where
  state : e.state ≠ some .busy
  background : e.backgroundBusy = false

namespace Entry
variable {e e' : Entry}
variable {event : HookEvent} {toolName : Option Text} {now currentGeneration : ℕ}
variable {eventGeneration launchedAtUnixMs notBeforeUnixMs : Option ℕ}

theorem Settled.notBusy (h : e.Settled) : e.NotBusy where
  state := by
    intro hbusy
    rcases h.state with hs | hs <;> rw [hs] at hbusy <;> cases hbusy
  background := h.background

theorem NotBusy.hookOwnedState (h : e.NotBusy) : e.hookOwnedState ≠ some .busy := by
  unfold Entry.hookOwnedState
  split_ifs
  · simp
  · exact h.state
  · next hbusy => exact absurd hbusy (by simp [h.background])
  · exact h.state

/-- An entry that shows nothing or rests has settled. -/
theorem Owned.settled (h : e.Owned) (hrest : e.hookOwnedState = none ∨ e.hookOwnedState = some .idle) : e.Settled := by
  unfold Entry.hookOwnedState at hrest
  by_cases hseen : e.hookSeen = true
  · simp only [hseen, Bool.not_true, Bool.false_eq_true, if_false] at hrest
    by_cases hattention : e.state = some .attention
    · simp [hattention] at hrest
    · rw [if_neg hattention] at hrest
      by_cases hbusy : e.backgroundBusy = true
      · simp [hbusy] at hrest
      · rw [if_neg hbusy] at hrest
        exact ⟨hrest,by simpa using hbusy⟩
  · have hstate : e.state = none := by
      by_contra hno
      exact hseen (h.state hno)
    have hbackground : e.background = [] := by
      by_contra hno
      exact hseen (h.background hno)
    exact ⟨.inl hstate,by simp [backgroundBusy, hbackground]⟩

structure SameShown (e e' : Entry) : Prop where
  hookSeen : e'.hookSeen = e.hookSeen
  state : e'.state = e.state
  background : e'.background = e.background

theorem SameShown.owned (h : SameShown e e') (he : e.Owned) : e'.Owned where
  state := by rw [h.state, h.hookSeen]; exact he.state
  background := by rw [h.background, h.hookSeen]; exact he.background

theorem SameShown.settled (h : SameShown e e') (he : e.Settled) : e'.Settled where
  state := by rw [h.state]; exact he.state
  background := by rw [backgroundBusy, h.background]; exact he.background

theorem Owned.empty : Owned {} := ⟨fun h => absurd rfl h,fun h => absurd rfl h⟩

theorem Settled.empty : Settled {} := ⟨.inl rfl,rfl⟩

theorem fence_shown (e : Entry) (event : HookEvent) (toolName : Option Text) (now : ℕ) :
    SameShown e (e.fence event toolName now).1 := by
  unfold fence
  split
  · exact ⟨rfl,rfl,rfl⟩
  · dsimp only
    split
    · exact ⟨rfl,rfl,rfl⟩
    · split_ifs <;> exact ⟨rfl,rfl,rfl⟩

theorem changeState_not_busy (hevent : startsTurn event = false) (h : e.state ≠ some .busy)
    (now : ℕ) : (e.changeState event now).state ≠ some .busy := by
  cases event with
  | start | userPromptSubmit => cases hevent
  | stop | stopFailure | stopCancelled | idle | permissionRequest => exact fun hbusy => nomatch hbusy
  | other name => exact h

theorem Settled.accept (h : e.Settled) {event : HookEvent} (hevent : startsTurn event = false) (toolName : Option Text)
    (now : ℕ) : (e.accept event toolName now).NotBusy where
  state := by
    have hstate := h.notBusy.state
    unfold Entry.accept
    dsimp only
    split_ifs
    · exact hstate
    · exact hstate
    · apply changeState_not_busy hevent
      exact hstate
  background := by
    rw [backgroundBusy, accept_background]
    exact h.background

theorem Owned.apply (h : e.Owned) (event : HookEvent) (toolName : Option Text) (now : ℕ) :
    (e.applyHookEventUnchecked event toolName now).1.Owned := by
  have hfence := fence_shown e event toolName now
  unfold applyHookEventUnchecked
  cases hf : e.fence event toolName now with
  | mk fenced passed =>
  rw [hf] at hfence
  cases passed with
  | false => exact hfence.owned h
  | true =>
    have hseen := accept_seen fenced event toolName now
    exact ⟨fun _ => hseen,fun _ => hseen⟩

theorem apply_accepted_seen (h : (e.applyHookEventUnchecked event toolName now).2 = true) :
    (e.applyHookEventUnchecked event toolName now).1.hookSeen = true := by
  unfold applyHookEventUnchecked at h ⊢
  cases hf : e.fence event toolName now with
  | mk fenced passed =>
  rw [hf] at h
  cases passed with
  | false => cases h
  | true => exact accept_seen fenced event toolName now

theorem apply_rejected (h : (e.applyHookEventUnchecked event toolName now).2 = false) :
    SameShown e (e.applyHookEventUnchecked event toolName now).1 := by
  have hfence := fence_shown e event toolName now
  unfold applyHookEventUnchecked at h ⊢
  cases hf : e.fence event toolName now with
  | mk fenced passed =>
  rw [hf] at hfence h
  cases passed with
  | false => exact hfence
  | true => cases h

theorem Settled.apply (h : e.Settled) {event : HookEvent} {toolName : Option Text} {now : ℕ}
    (hquiet : (startsTurn event && (e.applyHookEventUnchecked event toolName now).2) = false) :
    (e.applyHookEventUnchecked event toolName now).1.NotBusy := by
  cases hresult : (e.applyHookEventUnchecked event toolName now).2 with
  | false => exact ((apply_rejected hresult).settled h).notBusy
  | true =>
    rw [hresult, Bool.and_true] at hquiet
    have hfence := fence_shown e event toolName now
    unfold applyHookEventUnchecked at hresult ⊢
    cases hf : e.fence event toolName now with
    | mk fenced passed =>
    rw [hf] at hfence hresult
    cases passed with
    | false => cases hresult
    | true => exact (hfence.settled h).accept hquiet toolName now

theorem observeRuntimeLaunch_shown (e : Entry) (generation : ℕ) (launchedAtUnixMs : Option ℕ) :
    SameShown e (e.observeRuntimeLaunch generation launchedAtUnixMs) ∨
      SameShown {} (e.observeRuntimeLaunch generation launchedAtUnixMs) := by
  unfold observeRuntimeLaunch
  split
  · exact .inl ⟨rfl,rfl,rfl⟩
  · dsimp only
    split
    · exact .inl ⟨rfl,rfl,rfl⟩
    · exact .inr ⟨rfl,rfl,rfl⟩

theorem Owned.launch (h : e.Owned) (generation : ℕ) (launchedAtUnixMs : Option ℕ) :
    (e.observeRuntimeLaunch generation launchedAtUnixMs).Owned :=
  (observeRuntimeLaunch_shown e generation launchedAtUnixMs).elim (·.owned h) (·.owned .empty)

theorem Settled.launch (h : e.Settled) (generation : ℕ) (launchedAtUnixMs : Option ℕ) :
    (e.observeRuntimeLaunch generation launchedAtUnixMs).Settled :=
  (observeRuntimeLaunch_shown e generation launchedAtUnixMs).elim (·.settled h) (·.settled .empty)

theorem apply_runtime_cases (e : Entry) (event : HookEvent) (toolName : Option Text) (now : ℕ)
    (eventGeneration : Option ℕ) (currentGeneration : ℕ) (launchedAtUnixMs : Option ℕ) :
    ∃ e₁, SameShown (e.observeRuntimeLaunch currentGeneration launchedAtUnixMs) e₁ ∧
      ((e.applyHookEventForRuntime event toolName now eventGeneration currentGeneration launchedAtUnixMs = (e₁,false)) ∨
      ∃ e₂, SameShown (e₁.applyHookEventUnchecked event toolName now).1 e₂ ∧
        e.applyHookEventForRuntime event toolName now eventGeneration currentGeneration launchedAtUnixMs =
          (e₂,(e₁.applyHookEventUnchecked event toolName now).2)) := by
  unfold applyHookEventForRuntime
  generalize e.observeRuntimeLaunch currentGeneration launchedAtUnixMs = launched
  by_cases hstale : eventGeneration.any (· < currentGeneration) = true
  · rw [if_pos hstale]
    exact ⟨launched,⟨rfl,rfl,rfl⟩,.inl rfl⟩
  rw [if_neg hstale]
  by_cases hearly : (eventGeneration.isNone && launchedAtUnixMs.any fun at' => now < fromUnixMs at') = true
  · rw [if_pos hearly]
    exact ⟨launched,⟨rfl,rfl,rfl⟩,.inl rfl⟩
  rw [if_neg hearly]
  by_cases hguard : startsTurn event = false ∧
      launched.guardsLegacyStop event now eventGeneration currentGeneration launchedAtUnixMs = true
  · rw [if_pos hguard]
    exact ⟨launched,⟨rfl,rfl,rfl⟩,.inl rfl⟩
  rw [if_neg hguard]
  refine ⟨launched.confirmTurn event now eventGeneration currentGeneration,?_,.inr ?_⟩
  · unfold confirmTurn
    split <;> exact ⟨rfl,rfl,rfl⟩
  · cases (launched.confirmTurn event now eventGeneration currentGeneration).applyHookEventUnchecked event toolName
      now with
    | mk e' passed =>
      cases passed with
      | false => exact ⟨e',⟨rfl,rfl,rfl⟩,rfl⟩
      | true => exact ⟨{ e' with lastHookGeneration := eventGeneration },⟨rfl,rfl,rfl⟩,rfl⟩

theorem Owned.applyRuntime (h : e.Owned) (event : HookEvent) (toolName : Option Text) (now : ℕ)
    (eventGeneration : Option ℕ) (currentGeneration : ℕ) (launchedAtUnixMs : Option ℕ) :
    (e.applyHookEventForRuntime event toolName now eventGeneration currentGeneration launchedAtUnixMs).1.Owned := by
  obtain ⟨e₁,h₁,hr | ⟨e₂,h₂,hr⟩⟩ :=
    apply_runtime_cases e event toolName now eventGeneration currentGeneration launchedAtUnixMs
  · rw [hr]
    exact h₁.owned (h.launch _ _)
  · rw [hr]
    exact h₂.owned ((h₁.owned (h.launch _ _)).apply event toolName now)

theorem Settled.applyRuntime (h : e.Settled)
    (hquiet : (startsTurn event && (e.applyHookEventForRuntime event toolName now eventGeneration currentGeneration
      launchedAtUnixMs).2) = false) :
    (e.applyHookEventForRuntime event toolName now eventGeneration currentGeneration launchedAtUnixMs).1.NotBusy := by
  obtain ⟨e₁,h₁,hr | ⟨e₂,h₂,hr⟩⟩ :=
    apply_runtime_cases e event toolName now eventGeneration currentGeneration launchedAtUnixMs
  · rw [hr]
    exact (h₁.settled (h.launch _ _)).notBusy
  · rw [hr] at hquiet ⊢
    have happlied := (h₁.settled (h.launch _ _)).apply hquiet
    exact ⟨by rw [h₂.state]; exact happlied.state,by rw [backgroundBusy, h₂.background]; exact happlied.background⟩

theorem apply_runtime_accepted_seen
    (h : (e.applyHookEventForRuntime event toolName now eventGeneration currentGeneration launchedAtUnixMs).2 = true) :
    (e.applyHookEventForRuntime event toolName now eventGeneration currentGeneration launchedAtUnixMs).1.hookSeen =
      true := by
  obtain ⟨e₁,-,hr | ⟨e₂,h₂,hr⟩⟩ :=
    apply_runtime_cases e event toolName now eventGeneration currentGeneration launchedAtUnixMs
  · rw [hr] at h
    cases h
  · rw [hr] at h ⊢
    rw [h₂.hookSeen]
    exact apply_accepted_seen h

/-- What is shown once a marker was read and no opener let in: what was shown, or a
turn that was cancelled. -/
theorem observeCancellation_cases (e : Entry) (marker : Cancellation) (generation : ℕ) :
    ∃ e₁, (SameShown e e₁ ∨ (e₁.background = e.background ∧ e₁.hookSeen = e.hookSeen ∧
        e₁.state = if e.hookSeen then some .idle else e.state)) ∧
      (e.observeCancellation marker generation = (e₁,false) ∨ ∃ opener : PendingOpener,
        e.observeCancellation marker generation =
          e₁.applyHookEventUnchecked opener.event opener.toolName opener.time) := by
  unfold observeCancellation
  by_cases hgeneration : marker.runtimeGeneration ≠ generation
  · rw [if_pos hgeneration]
    exact ⟨e,.inl ⟨rfl,rfl,rfl⟩,.inl rfl⟩
  rw [if_neg hgeneration]
  extract_lets marked alreadyStarted fenced pending e₁
  refine ⟨e₁,?_,?_⟩
  · have hfenced : SameShown e fenced ∨ (fenced.background = e.background ∧ fenced.hookSeen = e.hookSeen ∧
        fenced.state = if e.hookSeen then some .idle else e.state) := by
      unfold fenced
      split
      · split
        · exact .inl ⟨rfl,rfl,rfl⟩
        · exact .inr ⟨rfl,rfl,rfl⟩
      · exact .inl ⟨rfl,rfl,rfl⟩
    exact hfenced.imp (fun h => ⟨h.hookSeen,h.state,h.background⟩) id
  · cases pending with
    | none => exact .inl rfl
    | some opener => exact .inr ⟨opener,rfl⟩

theorem Owned.cancellation (h : e.Owned) (marker : Cancellation) (generation : ℕ) :
    (e.observeCancellation marker generation).1.Owned := by
  obtain ⟨e₁,h₁,hr⟩ := observeCancellation_cases e marker generation
  have howned : e₁.Owned := by
    rcases h₁ with h₁ | ⟨hbackground,hseen,hstate⟩
    · exact h₁.owned h
    · refine ⟨fun hno => ?_,fun hno => ?_⟩
      · rw [hseen]
        by_cases hs : e.hookSeen = true
        · exact hs
        · rw [hstate, if_neg hs] at hno
          exact h.state hno
      · rw [hseen]
        exact h.background (hbackground ▸ hno)
  rcases hr with hr | ⟨opener,hr⟩
  · rw [hr]
    exact howned
  · rw [hr]
    exact howned.apply _ _ _

theorem Settled.cancellation (h : e.Settled) {marker : Cancellation} {generation : ℕ}
    (hquiet : (e.observeCancellation marker generation).2 = false) :
    (e.observeCancellation marker generation).1.Settled := by
  obtain ⟨e₁,h₁,hr⟩ := observeCancellation_cases e marker generation
  have hsettled : e₁.Settled := by
    rcases h₁ with h₁ | ⟨hbackground,-,hstate⟩
    · exact h₁.settled h
    · refine ⟨?_,by rw [backgroundBusy, hbackground]; exact h.background⟩
      rw [hstate]
      split
      · exact .inr rfl
      · exact h.state
  rcases hr with hr | ⟨opener,hr⟩
  · rw [hr]
    exact hsettled
  · rw [hr] at hquiet ⊢
    exact (apply_rejected hquiet).settled hsettled

theorem noteChild_held {child : Text × ℕ} (h : e.holds child = true) : e.noteChild child.1 child.2 = e := if_pos h

theorem noteChildren_held {children : List (Text × ℕ)} (h : ∀ child ∈ children, e.holds child = true) :
    children.foldl (fun e child => e.noteChild child.1 child.2) e = e := by
  induction children with
  | nil => rfl
  | cons child rest ih =>
    rw [List.foldl_cons, noteChild_held (h child List.mem_cons_self)]
    exact ih fun other hother => h other (List.mem_cons_of_mem _ hother)

theorem Owned.noteChild (h : e.Owned) (id : Text) (startedAt : ℕ) : (e.noteChild id startedAt).Owned := by
  unfold Entry.noteChild
  split
  · exact h
  · exact ⟨fun _ => rfl,fun _ => rfl⟩

theorem Owned.noteChildren (h : e.Owned) (children : List (Text × ℕ)) :
    (children.foldl (fun e child => e.noteChild child.1 child.2) e).Owned := by
  induction children generalizing e with
  | nil => exact h
  | cons child rest ih => exact ih (h.noteChild child.1 child.2)

theorem Owned.sync (h : e.Owned) (activities : Option (List (Text × ℕ))) (notBeforeUnixMs : Option ℕ) :
    (e.syncBackground activities notBeforeUnixMs).Owned := by
  cases activities with
  | none => exact h
  | some activities =>
    have hnoted := h.noteChildren (currentChildren activities notBeforeUnixMs)
    refine ⟨hnoted.state,fun hno => hnoted.background ?_⟩
    rintro hempty
    exact hno (by simp [syncBackground, hempty])

theorem Settled.sync (h : e.Settled) {activities : Option (List (Text × ℕ))}
    (hheld : ∀ child ∈ currentChildren (activities.getD []) notBeforeUnixMs, e.holds child = true) :
    (e.syncBackground activities notBeforeUnixMs).Settled := by
  cases activities with
  | none => exact h
  | some activities =>
    have hnoted := noteChildren_held hheld
    rw [Option.getD_some] at hnoted
    unfold syncBackground
    dsimp only
    rw [hnoted]
    refine ⟨h.state,?_⟩
    have hbackground := h.background
    simp only [backgroundBusy, List.any_eq_false] at hbackground ⊢
    exact fun child hchild => hbackground child (List.mem_filter.mp hchild).1

theorem foreground_shown (e : Entry) (observed : Option Text) :
    SameShown e (e.observeForegroundRuntime observed) ∨ SameShown {} (e.observeForegroundRuntime observed) := by
  unfold observeForegroundRuntime
  dsimp only
  split
  · exact .inr ⟨rfl,rfl,rfl⟩
  · exact .inl ⟨rfl,rfl,rfl⟩

theorem sweep_expired {child : BackgroundActivity} (h : child.expired = true) (grew : Bool) (now : ℕ) :
    child.sweep grew now = child := if_pos h

theorem noteOutputAndSweep_cases (e : Entry) (activitySignal : ℕ) (allowAttentionClear : Bool) (now : ℕ) :
    (e.noteOutputAndSweep activitySignal allowAttentionClear now).hookSeen = e.hookSeen ∧
    (∃ grew, (e.noteOutputAndSweep activitySignal allowAttentionClear now).background =
      e.background.map fun child => (child.1,child.2.sweep grew now)) ∧
    ((e.noteOutputAndSweep activitySignal allowAttentionClear now).state = e.state ∨
      e.state = some .attention ∨ e.state = some .busy) := by
  unfold noteOutputAndSweep
  extract_lets grew runsOut swept
  split
  · exact ⟨rfl,⟨grew,rfl⟩,.inl rfl⟩
  · split
    · next hattention =>
      split <;> exact ⟨rfl,⟨grew,rfl⟩,.inr (.inl hattention)⟩
    · next hbusy =>
      split_ifs <;> exact ⟨rfl,⟨grew,rfl⟩,.inr (.inr hbusy)⟩
    · exact ⟨rfl,⟨grew,rfl⟩,.inl rfl⟩

theorem Owned.output (h : e.Owned) (activitySignal : ℕ) (allowAttentionClear : Bool) (now : ℕ) :
    (e.noteOutputAndSweep activitySignal allowAttentionClear now).Owned := by
  obtain ⟨hseen,⟨grew,hbackground⟩,hstate⟩ := noteOutputAndSweep_cases e activitySignal allowAttentionClear now
  refine ⟨fun hno => ?_,fun hno => ?_⟩
  · rw [hseen]
    rcases hstate with hstate | hstate | hstate
    · exact h.state (hstate ▸ hno)
    · exact h.state (by simp [hstate])
    · exact h.state (by simp [hstate])
  · rw [hseen]
    refine h.background fun hempty => hno ?_
    rw [hbackground, hempty, List.map_nil]

theorem Settled.output (h : e.Settled) (activitySignal : ℕ) (allowAttentionClear : Bool) (now : ℕ) :
    (e.noteOutputAndSweep activitySignal allowAttentionClear now).Settled := by
  obtain ⟨-,⟨grew,hbackground⟩,hstate⟩ := noteOutputAndSweep_cases e activitySignal allowAttentionClear now
  refine ⟨?_,?_⟩
  · rcases hstate with hstate | hstate | hstate
    · rw [hstate]
      exact h.state
    · have hsettled := h.state
      simp [hstate] at hsettled
    · exact absurd hstate h.notBusy.state
  · have hexpired := h.background
    simp only [backgroundBusy, List.any_eq_false] at hexpired ⊢
    intro child hchild
    rw [hbackground] at hchild
    obtain ⟨held,hheld,rfl⟩ := List.mem_map.mp hchild
    have hdone : held.2.expired = true := by simpa using hexpired held hheld
    simp [sweep_expired hdone, hdone]

theorem Owned.syncCancellation (h : e.Owned) (marker : Option Cancellation) (generation : ℕ) :
    (e.syncCancellation marker generation).1.Owned := by
  cases marker with
  | none => exact h
  | some marker => exact h.cancellation marker generation

theorem Settled.syncCancellation (h : e.Settled) {marker : Option Cancellation} {generation : ℕ}
    (hquiet : (e.syncCancellation marker generation).2 = false) : (e.syncCancellation marker generation).1.Settled := by
  cases marker with
  | none => exact h
  | some marker => exact h.cancellation hquiet

/-- What a durable event does: nothing, what a live one does, or a turn that is over. -/
theorem applySeed_cases (e : Entry) (seed : SeedEvent) (files : SeedFiles) (anchorStartToOutput : Bool)
    (notBeforeUnixMs : Option ℕ) (currentGeneration : ℕ) :
    e.applySeed seed files anchorStartToOutput notBeforeUnixMs currentGeneration = (e,false) ∨
    ∃ r, r = e.applyHookEventForRuntime seed.event seed.toolName (seed.modified.getD 0) seed.generation currentGeneration
        notBeforeUnixMs ∧
      (e.applySeed seed files anchorStartToOutput notBeforeUnixMs currentGeneration).2 = r.2 ∧
      (SameShown r.1 (e.applySeed seed files anchorStartToOutput notBeforeUnixMs currentGeneration).1 ∨
      r.2 = true ∧ startsTurn seed.event = true ∧
        (e.applySeed seed files anchorStartToOutput notBeforeUnixMs currentGeneration).1 =
          { r.1 with state := some .idle, deadlineAt := none }) := by
  unfold applySeed
  split
  · refine .inr ⟨_,rfl,?_⟩
    cases e.applyHookEventForRuntime seed.event seed.toolName (seed.modified.getD 0) seed.generation currentGeneration
        notBeforeUnixMs with
    | mk e' passed =>
      cases passed with
      | false => exact ⟨rfl,.inl ⟨rfl,rfl,rfl⟩⟩
      | true =>
        dsimp only
        split
        · next hstarts =>
          split
          · exact ⟨rfl,.inr ⟨rfl,hstarts,rfl⟩⟩
          · exact ⟨rfl,.inl ⟨rfl,rfl,rfl⟩⟩
        · exact ⟨rfl,.inl ⟨rfl,rfl,rfl⟩⟩
  · exact .inl rfl

theorem Owned.applySeed (h : e.Owned) (seed : SeedEvent) (files : SeedFiles) (anchorStartToOutput : Bool)
    (notBeforeUnixMs : Option ℕ) (currentGeneration : ℕ) :
    (e.applySeed seed files anchorStartToOutput notBeforeUnixMs currentGeneration).1.Owned := by
  obtain hr | ⟨r,hr,-,hshown | ⟨hpassed,-,heq⟩⟩ :=
    applySeed_cases e seed files anchorStartToOutput notBeforeUnixMs currentGeneration
  · rw [hr]
    exact h
  · apply hshown.owned
    rw [hr]
    exact h.applyRuntime _ _ _ _ _ _
  · have hseen : r.1.hookSeen = true := by
      rw [hr] at hpassed ⊢
      exact apply_runtime_accepted_seen hpassed
    rw [heq]
    exact ⟨fun _ => hseen,fun _ => hseen⟩

theorem NotBusy.of_shown (h : e.NotBusy) (hshown : SameShown e e') : e'.NotBusy where
  state := by rw [hshown.state]; exact h.state
  background := by rw [backgroundBusy, hshown.background]; exact h.background

theorem Settled.applySeed (h : e.Settled) {seed : SeedEvent} {files : SeedFiles} {anchorStartToOutput : Bool}
    (hquiet : (startsTurn seed.event &&
      (e.applySeed seed files anchorStartToOutput notBeforeUnixMs currentGeneration).2) = false) :
    (e.applySeed seed files anchorStartToOutput notBeforeUnixMs currentGeneration).1.NotBusy := by
  obtain hr | ⟨r,hr,hsame,hshown | ⟨hpassed,hstarts,-⟩⟩ :=
    applySeed_cases e seed files anchorStartToOutput notBeforeUnixMs currentGeneration
  · rw [hr]
    exact h.notBusy
  · rw [hsame, hr] at hquiet
    rw [hr] at hshown
    exact (h.applyRuntime hquiet).of_shown hshown
  · rw [hsame, hpassed, hstarts] at hquiet
    cases hquiet

theorem Owned.seed (h : e.Owned) (files : SeedFiles) (anchorStartToOutput : Bool) (notBeforeUnixMs : Option ℕ)
    (currentGeneration : ℕ) : (e.seedFromDisk files anchorStartToOutput notBeforeUnixMs currentGeneration).Owned := by
  have hmarkers : (e.syncMarkers files notBeforeUnixMs currentGeneration).1.Owned :=
    ((h.launch _ _).syncCancellation _ _).sync _ _
  unfold seedFromDisk
  cases files.event with
  | none => exact hmarkers
  | some seed => exact hmarkers.applySeed _ _ _ _ _

theorem Settled.seed (h : e.Settled) {files : SeedFiles} {anchorStartToOutput : Bool} {notBeforeUnixMs : Option ℕ}
    {currentGeneration : ℕ} (hopened : (e.seedNoted files anchorStartToOutput notBeforeUnixMs currentGeneration).opened = false)
    (hheld : (e.seedNoted files anchorStartToOutput notBeforeUnixMs currentGeneration).unheld = false) :
    (e.seedFromDisk files anchorStartToOutput notBeforeUnixMs currentGeneration).NotBusy := by
  unfold seedNoted at hopened hheld
  simp only [Bool.or_eq_false_iff] at hopened
  simp only [List.any_eq_false, Bool.not_eq_true', Bool.not_eq_false] at hheld
  have hmarkers : (e.syncMarkers files notBeforeUnixMs currentGeneration).1.Settled :=
    ((h.launch _ _).syncCancellation hopened.1).sync hheld
  unfold seedFromDisk
  cases hevent : files.event with
  | none => exact hmarkers.notBusy
  | some seed =>
    rw [hevent, Option.any_some] at hopened
    exact hmarkers.applySeed hopened.2

end Entry

theorem EngineOp.apply_owned (h : ∀ e, found = some e → e.Owned) (op : EngineOp) :
    ∀ e, (op.apply found).entry = some e → e.Owned := by
  have hfound : (found.getD {}).Owned := by
    cases found with
    | none => exact .empty
    | some e => exact h e rfl
  intro e he
  cases op with
  | hook event toolName now =>
    cases he
    exact hfound.apply _ _ _
  | hookForRuntime event toolName now eventGeneration currentGeneration launchedAtUnixMs =>
    cases he
    exact hfound.applyRuntime _ _ _ _ _ _
  | seed files anchorStartToOutput notBeforeUnixMs currentGeneration =>
    cases he
    exact hfound.seed _ _ _ _
  | cancellation marker generation =>
    simp only [apply] at he
    split at he
    · cases he
      exact hfound.syncCancellation _ _
    · exact h e he
  | launch generation launchedAtUnixMs =>
    cases he
    exact hfound.launch _ _
  | foreground observed =>
    cases he
    exact (Entry.foreground_shown _ observed).elim (·.owned hfound) (·.owned .empty)
  | output activitySignal allowAttentionClear now =>
    cases he
    exact hfound.output _ _ _
  | clearBaseline =>
    obtain ⟨e₀,he₀,rfl⟩ := Option.map_eq_some_iff.mp he
    exact ⟨(h e₀ he₀).state,(h e₀ he₀).background⟩
  | remove => cases he

/-- An operation that opens no turn and reports no child does not wake an entry that
has settled. -/
theorem EngineOp.apply_notBusy (h : (found.getD {}).Settled) {op : EngineOp}
    (hopened : (op.apply found).opened = false) (hheld : (op.apply found).unheld = false) :
    ∀ e, (op.apply found).entry = some e → e.NotBusy := by
  intro e he
  cases op with
  | hook event toolName now =>
    cases he
    exact h.apply hopened
  | hookForRuntime event toolName now eventGeneration currentGeneration launchedAtUnixMs =>
    cases he
    exact h.applyRuntime hopened
  | seed files anchorStartToOutput notBeforeUnixMs currentGeneration =>
    cases he
    exact h.seed hopened hheld
  | cancellation marker generation =>
    simp only [apply] at he hopened
    split at he
    · next hmarker =>
      rw [if_pos hmarker] at hopened
      cases he
      exact (h.syncCancellation hopened).notBusy
    · cases he
      exact h.notBusy
  | launch generation launchedAtUnixMs =>
    cases he
    exact (h.launch _ _).notBusy
  | foreground observed =>
    cases he
    exact ((Entry.foreground_shown _ observed).elim (·.settled h) (·.settled .empty)).notBusy
  | output activitySignal allowAttentionClear now =>
    cases he
    exact (h.output _ _ _).notBusy
  | clearBaseline =>
    obtain ⟨e₀,rfl,rfl⟩ := Option.map_eq_some_iff.mp he
    exact ⟨h.notBusy.state,h.notBusy.background⟩
  | remove => cases he

structure Entry.Unreported (e : Entry) : Prop where
  hookSeen : e.hookSeen = false
  state : e.state = none
  background : e.background = []
  pendingOpener : e.pendingOpener = none

namespace Entry
variable {e : Entry}

theorem Unreported.empty : Unreported {} := ⟨rfl,rfl,rfl,rfl⟩

theorem Unreported.hookOwnedState (h : e.Unreported) : e.hookOwnedState = none := by
  simp [Entry.hookOwnedState, h.hookSeen]

theorem Unreported.launch (h : e.Unreported) (generation : ℕ) (launchedAtUnixMs : Option ℕ) :
    (e.observeRuntimeLaunch generation launchedAtUnixMs).Unreported := by
  unfold observeRuntimeLaunch
  split
  · exact h
  · dsimp only
    split
    · exact ⟨h.hookSeen,h.state,h.background,h.pendingOpener⟩
    · exact ⟨rfl,rfl,rfl,rfl⟩

theorem Unreported.cancellation (h : e.Unreported) (marker : Cancellation) (generation : ℕ) :
    (e.observeCancellation marker generation).1.Unreported := by
  unfold observeCancellation
  by_cases hgeneration : marker.runtimeGeneration ≠ generation
  · rw [if_pos hgeneration]
    exact h
  rw [if_neg hgeneration]
  extract_lets marked alreadyStarted fenced pending e₁
  have hfenced : fenced.Unreported := by
    unfold fenced
    split
    · split
      · exact ⟨h.hookSeen,h.state,h.background,rfl⟩
      · refine ⟨h.hookSeen,?_,h.background,rfl⟩
        exact (if_neg (by simp [marked, h.hookSeen])).trans h.state
    · exact h
  have hpending : pending = none := hfenced.pendingOpener
  rw [hpending]
  exact ⟨hfenced.hookSeen,hfenced.state,hfenced.background,rfl⟩

theorem Unreported.syncCancellation (h : e.Unreported) (marker : Option Cancellation) (generation : ℕ) :
    (e.syncCancellation marker generation).1.Unreported := by
  cases marker with
  | none => exact h
  | some marker => exact h.cancellation marker generation

theorem Unreported.sync (h : e.Unreported) {activities : Option (List (Text × ℕ))} {notBeforeUnixMs : Option ℕ}
    (hnone : currentChildren (activities.getD []) notBeforeUnixMs = []) :
    (e.syncBackground activities notBeforeUnixMs).Unreported := by
  cases activities with
  | none => exact h
  | some activities =>
    rw [Option.getD_some] at hnone
    simp only [syncBackground, hnone, List.foldl_nil]
    exact ⟨h.hookSeen,h.state,by rw [h.background, List.filter_nil],h.pendingOpener⟩

theorem Unreported.output (h : e.Unreported) (activitySignal : ℕ) (allowAttentionClear : Bool) (now : ℕ) :
    (e.noteOutputAndSweep activitySignal allowAttentionClear now).Unreported := by
  have hstate := h.state
  unfold noteOutputAndSweep
  dsimp only
  rw [hstate]
  split <;> exact ⟨h.hookSeen,rfl,by rw [h.background, List.map_nil],h.pendingOpener⟩

end Entry

theorem EngineOp.apply_unreported (h : ∀ e, found = some e → e.Unreported) {op : EngineOp}
    (hsilent : op.silent = true) : ∀ e, (op.apply found).entry = some e → e.Unreported := by
  have hfound : (found.getD {}).Unreported := by
    cases found with
    | none => exact .empty
    | some e => exact h e rfl
  intro e he
  cases op with
  | hook event toolName now | hookForRuntime event toolName now eventGeneration currentGeneration launchedAtUnixMs => cases hsilent
  | seed files anchorStartToOutput notBeforeUnixMs currentGeneration =>
    cases he
    simp only [silent, Bool.and_eq_true, Option.isNone_iff_eq_none, List.isEmpty_iff] at hsilent
    unfold Entry.seedFromDisk
    rw [hsilent.1]
    exact ((hfound.launch _ _).syncCancellation _ _).sync hsilent.2
  | cancellation marker generation =>
    simp only [apply] at he
    split at he
    · cases he
      exact hfound.syncCancellation _ _
    · exact h e he
  | launch generation launchedAtUnixMs =>
    cases he
    exact hfound.launch _ _
  | foreground observed =>
    cases he
    unfold Entry.observeForegroundRuntime
    dsimp only
    split
    · exact ⟨rfl,rfl,rfl,rfl⟩
    · exact ⟨hfound.hookSeen,hfound.state,hfound.background,hfound.pendingOpener⟩
  | output activitySignal allowAttentionClear now =>
    cases he
    exact hfound.output _ _ _
  | clearBaseline =>
    obtain ⟨e₀,he₀,rfl⟩ := Option.map_eq_some_iff.mp he
    have h₀ := h e₀ he₀
    exact ⟨h₀.hookSeen,h₀.state,h₀.background,h₀.pendingOpener⟩
  | remove => cases he

def ActivityEngine.Owned (s : ActivityEngine) : Prop := ∀ session e, s.entries session = some e → e.Owned

theorem engineStep_owned (hs : s.Owned) (h : engineStep s event = some t) : t.Owned := by
  cases h
  intro session e he
  by_cases hsession : session = event.1
  · subst hsession
    simp only [Function.update_self] at he
    exact event.2.apply_owned (hs event.1) e he
  · simp only [Function.update_of_ne hsession] at he
    exact hs session e he

theorem engineStep_cause (hs : s.Owned) (h : engineStep s event = some t) : BusyHasCause t := by
  cases h
  rintro op ⟨hop,hbefore,hbusy⟩
  cases hop
  by_contra hcause
  simp only [not_or, Bool.not_eq_true] at hcause
  simp only [ActivityEngine.hookOwnedState, Function.update_self] at hbefore hbusy
  have hsettled : ((s.entries event.1).getD {}).Settled := by
    cases hfound : s.entries event.1 with
    | none => exact .empty
    | some e =>
      rw [hfound] at hbefore
      exact (hs event.1 e hfound).settled hbefore
  obtain ⟨e,he,hshown⟩ := Option.bind_eq_some_iff.mp hbusy
  exact (event.2.apply_notBusy hsettled hcause.1 hcause.2 e he).hookOwnedState hshown

theorem engineStep_unreported {session : Text}
    (hs : ∀ e, s.entries session = some e → e.Unreported) (hsilent : event.1 = session → event.2.silent = true)
    (h : engineStep s event = some t) : ∀ e, t.entries session = some e → e.Unreported := by
  cases h
  intro e he
  by_cases hsession : session = event.1
  · subst hsession
    simp only [Function.update_self] at he
    exact EngineOp.apply_unreported hs (hsilent rfl) e he
  · simp only [Function.update_of_ne hsession] at he
    exact hs e he

/-- In every run a Session at rest turns busy only in a step that opens a turn or reads
a child its entry does not hold, and a Session without hooks and children is never
owned by hooks. -/
theorem output_has_no_authority (events : List (Text × EngineOp)) :
    Always engineStep BusyHasCause startEngine events ∧
    ∀ session, (∀ event ∈ events, event.1 = session → event.2.silent = true) →
      Always engineStep (fun s => s.hookOwnedState session = none) startEngine events := by
  constructor
  · apply always_of_invariant (J := fun s => s.Owned ∧ BusyHasCause s)
    · rintro s event t ⟨howned,-⟩ h
      exact ⟨engineStep_owned howned h,engineStep_cause howned h⟩
    · exact fun s h => h.2
    · refine ⟨fun session e he => ?_,fun op hop => ?_⟩
      · cases he
      · cases hop.1
  · intro session hsilent
    have hguarded : Guarded engineStep (fun _ event => event.1 = session → event.2.silent = true) startEngine events :=
      guarded_of_forall (fun event hevent _ => hsilent event hevent) startEngine
    refine always_of_guarded (J := fun s => ∀ e, s.entries session = some e → e.Unreported) ?_ ?_ ?_ hguarded
    · intro s event t hs hok h
      exact engineStep_unreported hs hok h
    · intro s hs
      cases hfound : s.entries session with
      | none => simp [ActivityEngine.hookOwnedState, hfound]
      | some e =>
        rw [ActivityEngine.hookOwnedState, hfound]
        exact (hs e hfound).hookOwnedState
    · exact fun e he => nomatch he

def printing : List (Text × EngineOp) :=
  [("quiet".toList,.output 1 true 5),("agent".toList,.hook .start none 6),("quiet".toList,.output 9 true 7)]

theorem printing_is_not_owned :
    (∀ event ∈ printing, event.1 = "quiet".toList → event.2.silent = true) ∧
    Always engineStep (fun s => s.hookOwnedState "quiet".toList = none) startEngine printing :=
  have hsilent : ∀ event ∈ printing, event.1 = "quiet".toList → event.2.silent = true := by decide
  ⟨hsilent,(output_has_no_authority printing).2 "quiet".toList hsilent⟩

def forgottenChild : List (Text × EngineOp) :=
  let read := .seed ⟨none,some [("child".toList,10)],none,none,false⟩ false none 1
  [("s".toList,read),("s".toList,.foreground (some "claude".toList)),("s".toList,.foreground (some "codex".toList)),
    ("s".toList,read)]

theorem forgotten_child_turns_busy : ¬Always engineStep BusyIsNews startEngine forgottenChild := by
  intro h
  have hlast := (((h.2 _ rfl).2 _ rfl).2 _ rfl).2 _ rfl
  have hnews := hlast ⟨"s".toList,none,false,true,false⟩ ⟨rfl,.inl rfl,rfl⟩
  rcases hnews with hnews | hnews <;> cases hnews

end Unpeel.Activity
