import Unpeel.Activity.HookView
import Unpeel.Foundation.Runs

/-! # Runtime generations

A relaunch gives the hooks of a Session a new generation before the manifest tells the
Host of it. The Host drops what older runtimes have reported once it observes the new
generation, and tells by the last hook alone whether there is something to keep.
-/
namespace Unpeel.Activity
open Runs Manifest

namespace View

def decidedBy (v : View) (event : HookEvent) (toolName : Option Text) : Bool :=
  startsTurn event ||
    if isLatchOnly event toolName then v.nativeCancelled || v.state = none
    else !v.nativeCancelled && !(event = .idle && v.state = some .idle && v.completed)

variable {v : View} {event : HookEvent} {toolName : Option Text}

/-- An event that passes leaves what it leaves where nothing was reported, exactly if it
decides what is shown. -/
theorem decidedBy_iff_passed (h : v.Wf) (hpassed : (v.step event toolName).2 = true) :
    v.decidedBy event toolName = true ↔ (v.step event toolName).1.shown = (View.step {} event toolName).1.shown := by
  have hopen : v.nativeCancelled = true → startsTurn event = true := by
    intro hcancelled
    by_contra hstarts
    rw [step_rejected_iff.mpr ⟨hcancelled,by simpa using hstarts⟩] at hpassed
    cases hpassed
  rw [step_passed hpassed, step_passed (empty_passes event toolName)]
  have hcompleted := h.completed
  unfold decidedBy shown
  cases hlatch : isLatchOnly event toolName with
  | true =>
    have hstarts := starts_of_latch_only hlatch
    rw [accept_latch_only hlatch, accept_latch_only hlatch]
    grind
  | false =>
    unfold accept
    cases event with
    | other name => cases hlatch
    | _ => simp only [startsTurn] at hopen ⊢; grind

theorem decidedBy_iff_rejected (hrejected : (v.step event toolName).2 = false) :
    v.decidedBy event toolName = true ↔ (View.step {} event toolName).1.shown = shown {} := by
  obtain ⟨hcancelled,hstarts⟩ := step_rejected_iff.mp hrejected
  rw [step_passed (empty_passes event toolName)]
  unfold decidedBy shown
  cases hlatch : isLatchOnly event toolName with
  | true =>
    rw [accept_latch_only hlatch]
    simp [hcancelled]
  | false =>
    unfold accept
    cases event with
    | other name => cases hlatch
    | _ => simp_all [startsTurn]

theorem step_eq_of_decidedBy (h : v.Wf) (hdecided : v.decidedBy event toolName = true)
    (hpassed : (v.step event toolName).2 = true) : (v.step event toolName).1 = (View.step {} event toolName).1 := by
  have hshown := (decidedBy_iff_passed h hpassed).mp hdecided
  have hcancelled : (v.step event toolName).1.nativeCancelled = (View.step {} event toolName).1.nativeCancelled := by
    rw [step_passed hpassed, step_passed (empty_passes event toolName), accept_nativeCancelled rfl,
      accept_nativeCancelled rfl]
  obtain ⟨hstate,hcompleted⟩ := Prod.mk.inj hshown
  cases hv : (v.step event toolName).1
  cases hw : (View.step {} event toolName).1
  rw [hv, hw] at hstate hcompleted hcancelled
  simp only [View.mk.injEq]
  exact ⟨hstate,hcompleted,hcancelled⟩

theorem step_empty_of_decidedBy (hdecided : v.decidedBy event toolName = true)
    (hrejected : (v.step event toolName).2 = false) : (View.step {} event toolName).1 = {} := by
  have hshown := (decidedBy_iff_rejected hrejected).mp hdecided
  exact (empty_wf.step event toolName).eq_empty (Prod.mk.inj hshown).1

end View

structure Core where
  generation : ℕ
  lastHook : Option ℕ
  view : View

namespace Core

def observe (c : Core) (generation : ℕ) : Core :=
  if c.generation = generation then c
  else if c.lastHook = some generation then { c with generation := generation }
  else ⟨generation,none,{}⟩

/-- A hook comes while the manifest names `current`. -/
def hook (c : Core) (event : HookEvent) (toolName : Option Text) (generation current : ℕ) : Core :=
  let c := c.observe current
  if generation < current then c
  else if (c.view.step event toolName).2 then
    { c with lastHook := some generation, view := (c.view.step event toolName).1 }
  else c

/-- The hook of the newest runtime decides what is shown, if the last one was not its own,
and a hook of an older one follows none that has. -/
def inOrder (c : Core) (event : HookEvent) (toolName : Option Text) (generation launched : ℕ) : Bool :=
  if generation = launched then c.lastHook = some launched || c.view.decidedBy event toolName
  else c.lastHook ≠ some launched || c.view.state = none || (c.view.nativeCancelled && !startsTurn event)

variable {c : Core} {m l g : ℕ} {event : HookEvent} {toolName : Option Text}

theorem observe_self (h : c.generation = m) : c.observe m = c := if_pos h

theorem observe_kept (h : c.lastHook = some m) : (c.observe m).view = c.view := by
  unfold observe
  rw [if_pos h]
  split
  · rfl
  · rfl

theorem observe_reset (h : c.generation ≠ m) (hlast : c.lastHook ≠ some m) : c.observe m = ⟨m,none,{}⟩ := by
  rw [observe, if_neg h, if_neg hlast]

@[simp] theorem observe_generation (c : Core) (m : ℕ) : (c.observe m).generation = m := by
  unfold observe
  split_ifs with h
  · exact h
  · rfl
  · rfl

theorem observe_lastHook (c : Core) (m : ℕ) : (c.observe m).lastHook = c.lastHook ∨ (c.observe m).lastHook = none := by
  unfold observe
  split_ifs
  · exact .inl rfl
  · exact .inl rfl
  · exact .inr rfl

theorem observe_observe (hm : m ≤ l) (hgeneration : c.generation ≤ m)
    (hearly : c.lastHook = some l → l ≤ c.generation + 1) :
    ((c.observe m).observe l).view = (c.observe l).view := by
  by_cases hml : m = l
  · rw [hml, observe_self (observe_generation c l)]
  by_cases hsame : c.generation = m
  · rw [observe_self hsame]
  have hlast : c.lastHook ≠ some l := fun hlast => by have := hearly hlast; omega
  have hreset : (c.observe m).lastHook ≠ some l := by
    rcases observe_lastHook c m with hkept | hnone
    · rwa [hkept]
    · rw [hnone]
      exact fun hno => (nomatch hno)
  rw [observe_reset (by omega) hlast, observe_reset (by simpa using hml) hreset]

theorem hook_stale (h : g < m) : c.hook event toolName g m = c.observe m := if_pos h

theorem hook_view (c : Core) (h : m ≤ g) (event : HookEvent) (toolName : Option Text) :
    (c.hook event toolName g m).view = ((c.observe m).view.step event toolName).1 := by
  unfold hook
  rw [if_neg (Nat.not_lt.mpr h)]
  split
  · rfl
  · next hrejected => exact (View.step_rejected (by simpa using hrejected)).symm

theorem hook_passed (h : m ≤ g) (hpassed : ((c.observe m).view.step event toolName).2 = true) :
    (c.hook event toolName g m).lastHook = some g := by
  unfold hook
  rw [if_neg (Nat.not_lt.mpr h), if_pos hpassed]

theorem hook_rejected (h : m ≤ g) (hrejected : ((c.observe m).view.step event toolName).2 = false) :
    c.hook event toolName g m = c.observe m := by
  unfold hook
  rw [if_neg (Nat.not_lt.mpr h), hrejected]
  rfl

theorem hook_lastHook (c : Core) (event : HookEvent) (toolName : Option Text) (g m : ℕ) :
    (c.hook event toolName g m).lastHook = some g ∨ (c.hook event toolName g m).lastHook = (c.observe m).lastHook := by
  unfold hook
  dsimp only
  split_ifs
  · exact .inr rfl
  · exact .inl rfl
  · exact .inr rfl

@[simp] theorem hook_generation (c : Core) (event : HookEvent) (toolName : Option Text) (g m : ℕ) :
    (c.hook event toolName g m).generation = m := by
  unfold hook
  dsimp only
  split_ifs <;> exact observe_generation c m

/-- A hook of the newest runtime comes early. -/
theorem hook_newest_iff (hml : m < l) (hwf : (c.observe m).view.Wf) :
    ((c.observe m).inOrder event toolName l l = true →
      ((c.hook event toolName l m).observe l).view = (((c.observe m).observe l).view.step event toolName).1) ∧
    (((c.hook event toolName l m).observe l).view.shown =
        (((c.observe m).observe l).view.step event toolName).1.shown → (c.observe m).inOrder event toolName l l = true) := by
  unfold inOrder
  rw [if_pos rfl, Bool.or_eq_true, decide_eq_true_eq]
  by_cases hlast : (c.observe m).lastHook = some l
  · refine ⟨fun _ => ?_,fun _ => .inl hlast⟩
    rw [observe_kept hlast, observe_kept, hook_view c hml.le]
    cases hpassed : ((c.observe m).view.step event toolName).2 with
    | true => exact hook_passed hml.le hpassed
    | false => rwa [hook_rejected hml.le hpassed]
  · have hreset : (c.observe m).observe l = ⟨l,none,{}⟩ := observe_reset (by simpa using hml.ne) hlast
    rw [hreset]
    cases hpassed : ((c.observe m).view.step event toolName).2 with
    | true =>
      rw [observe_kept (hook_passed hml.le hpassed), hook_view c hml.le]
      refine ⟨fun h => ?_,fun h => .inr ((View.decidedBy_iff_passed hwf hpassed).mpr h)⟩
      exact View.step_eq_of_decidedBy hwf (h.resolve_left hlast) hpassed
    | false =>
      rw [hook_rejected hml.le hpassed, hreset]
      refine ⟨fun h => ?_,fun h => .inr ((View.decidedBy_iff_rejected hpassed).mpr h.symm)⟩
      exact (View.step_empty_of_decidedBy (h.resolve_left hlast) hpassed).symm

/-- A hook of an older runtime comes before the launch of the newest is observed. -/
theorem hook_older_iff (hml : m < l) (hmg : m ≤ g) (hgl : g ≠ l) (hwf : (c.observe m).view.Wf) :
    ((c.observe m).inOrder event toolName g l = true →
      ((c.hook event toolName g m).observe l).view = ((c.observe m).observe l).view) ∧
    (((c.hook event toolName g m).observe l).view.shown = ((c.observe m).observe l).view.shown →
      (c.observe m).inOrder event toolName g l = true) := by
  have hgeneration : (c.hook event toolName g m).generation ≠ l := by simpa using hml.ne
  unfold inOrder
  rw [if_neg hgl]
  cases hpassed : ((c.observe m).view.step event toolName).2 with
  | false =>
    rw [hook_rejected hmg hpassed]
    obtain ⟨hcancelled,hstarts⟩ := View.step_rejected_iff.mp hpassed
    refine ⟨fun _ => rfl,fun _ => ?_⟩
    simp [hcancelled, hstarts]
  | true =>
    have hnot : ((c.observe m).view.nativeCancelled && !startsTurn event) = false := by
      by_contra hno
      rw [View.step_rejected_iff.mpr (by simpa using hno)] at hpassed
      cases hpassed
    have hlost : (c.hook event toolName g m).lastHook ≠ some l := by
      rw [hook_passed hmg hpassed]
      exact fun h => hgl (Option.some.inj h)
    rw [observe_reset hgeneration hlost, hnot, Bool.or_false, Bool.or_eq_true, decide_eq_true_eq, decide_eq_true_eq]
    by_cases hlast : (c.observe m).lastHook = some l
    · rw [observe_kept hlast]
      refine ⟨fun h => ?_,fun h => .inr ?_⟩
      · exact (hwf.eq_empty (h.resolve_left fun hne => hne hlast)).symm
      · exact (Prod.mk.inj h).1.symm
    · rw [observe_reset (by simpa using hml.ne) hlast]
      exact ⟨fun _ => rfl,fun _ => .inl hlast⟩

end Core

namespace Entry
variable {e : Entry}

def core (e : Entry) : Core := ⟨e.runtimeLaunchGeneration,e.lastHookGeneration,e.view⟩

structure Plain (e : Entry) : Prop extends HooksOnly e where
  cancelledAt : e.cancelledAt = none
  legacyTurnStartedAt : e.legacyTurnStartedAt = none

theorem plain_fresh (generation : ℕ) : Plain { runtimeLaunchGeneration := generation } where
  background := rfl
  backgroundExpired := rfl
  cancelledAt := rfl
  legacyTurnStartedAt := rfl
  hookSeen := fun h => absurd rfl h
  wf := ⟨fun h => (nomatch h),fun h => (nomatch h)⟩

theorem Plain.observe (h : e.Plain) (generation : ℕ) (launchedAtUnixMs : Option ℕ) :
    (e.observeRuntimeLaunch generation launchedAtUnixMs).Plain ∧
    (e.observeRuntimeLaunch generation launchedAtUnixMs).core = e.core.observe generation := by
  have hlegacy : (e.lastHookGeneration.isNone &&
      launchedAtUnixMs.any fun launched => e.legacyTurnStartedAt.any (fromUnixMs launched ≤ ·)) = false := by
    cases launchedAtUnixMs <;> simp [h.legacyTurnStartedAt]
  unfold observeRuntimeLaunch Core.observe
  by_cases hsame : e.runtimeLaunchGeneration = generation
  · rw [if_pos hsame]
    exact ⟨h,(if_pos hsame).symm⟩
  rw [if_neg hsame, if_neg (show ¬e.core.generation = generation from hsame)]
  dsimp only
  rw [hlegacy]
  by_cases hlast : e.lastHookGeneration = some generation
  · rw [if_pos (Or.inl hlast), if_pos (show e.core.lastHook = some generation from hlast)]
    exact ⟨⟨⟨h.background,h.backgroundExpired,h.hookSeen,h.wf⟩,h.cancelledAt,h.legacyTurnStartedAt⟩,rfl⟩
  · rw [if_neg (by simpa using hlast), if_neg (show ¬e.core.lastHook = some generation from hlast)]
    exact ⟨plain_fresh generation,rfl⟩

theorem Plain.accept (h : e.Plain) (hopen : e.nativeCancelled = false) (event : HookEvent) (toolName : Option Text)
    (now : ℕ) : (e.accept event toolName now).Plain := by
  obtain ⟨-,-,hlegacy,hcancelled⟩ := accept_provenance e event toolName now
  exact {
    toHooksOnly := h.toHooksOnly.accept hopen event toolName now
    cancelledAt := by rw [hcancelled, h.cancelledAt]
    legacyTurnStartedAt := by rw [hlegacy, h.legacyTurnStartedAt] }


/-- Without a cancellation marker the only fence is that of `StopCancelled`. -/
theorem fence_native (h : e.cancelledAt = none) (event : HookEvent) (toolName : Option Text) (now : ℕ) :
    e.fence event toolName now =
      if e.nativeCancelled ∧ ¬startsTurn event then (e,false) else ({ e with nativeCancelled := false },true) := by
  unfold fence
  split
  · rfl
  · dsimp only
    split
    · rfl
    · next cancelledAt hcancelled => cases h.symm.trans hcancelled

theorem Plain.apply (h : e.Plain) (event : HookEvent) (toolName : Option Text) (now : ℕ) :
    (e.applyHookEventUnchecked event toolName now).1.Plain ∧
    (e.applyHookEventUnchecked event toolName now).1.core =
      { e.core with view := (e.view.step event toolName).1 } ∧
    (e.applyHookEventUnchecked event toolName now).2 = (e.view.step event toolName).2 := by
  unfold applyHookEventUnchecked View.step
  rw [fence_native h.cancelledAt]
  by_cases hfenced : e.nativeCancelled ∧ ¬startsTurn event
  · rw [if_pos hfenced, if_pos (show e.view.nativeCancelled = true ∧ _ from hfenced)]
    exact ⟨h,rfl,rfl⟩
  rw [if_neg hfenced, if_neg (show ¬(e.view.nativeCancelled = true ∧ _) from hfenced)]
  have hopen : Plain { e with nativeCancelled := false } :=
    ⟨⟨h.background,h.backgroundExpired,h.hookSeen,⟨h.wf.completed,fun hno => (nomatch hno)⟩⟩,h.cancelledAt,
      h.legacyTurnStartedAt⟩
  refine ⟨hopen.accept rfl event toolName now,?_,rfl⟩
  obtain ⟨hlast,hgeneration,-,-⟩ := accept_provenance { e with nativeCancelled := false } event toolName now
  unfold core
  rw [accept_view, hlast, hgeneration]
  rfl

theorem Plain.hook (h : e.Plain) (event : HookEvent) (toolName : Option Text) (now generation current : ℕ)
    (launchedAtUnixMs : Option ℕ) :
    (e.applyHookEventForRuntime event toolName now (some generation) current launchedAtUnixMs).1.Plain ∧
    (e.applyHookEventForRuntime event toolName now (some generation) current launchedAtUnixMs).1.core =
      e.core.hook event toolName generation current := by
  obtain ⟨hobserved,hcore⟩ := h.observe current launchedAtUnixMs
  unfold applyHookEventForRuntime Core.hook
  rw [← hcore]
  generalize e.observeRuntimeLaunch current launchedAtUnixMs = observed at hobserved
  by_cases hstale : generation < current
  · rw [if_pos (by simpa using hstale), if_pos hstale]
    exact ⟨hobserved,rfl⟩
  rw [if_neg (by simpa using hstale), if_neg hstale, if_neg (by simp), if_neg (by simp [guardsLegacyStop])]
  have hconfirmed : (observed.confirmTurn event now (some generation) current).Plain ∧
      (observed.confirmTurn event now (some generation) current).core = observed.core := by
    unfold confirmTurn
    split
    · exact ⟨⟨⟨hobserved.background,hobserved.backgroundExpired,hobserved.hookSeen,hobserved.wf⟩,hobserved.cancelledAt,
        hobserved.legacyTurnStartedAt⟩,rfl⟩
    · exact ⟨hobserved,rfl⟩
  generalize observed.confirmTurn event now (some generation) current = confirmed at hconfirmed
  obtain ⟨hplain,hview⟩ := hconfirmed
  obtain ⟨happlied,happly,hpassed⟩ := hplain.apply event toolName now
  have hsame : confirmed.view = observed.core.view := congrArg Core.view hview
  rw [hview, hsame] at happly
  rw [hsame] at hpassed
  rw [← hpassed]
  cases hr : confirmed.applyHookEventUnchecked event toolName now with
  | mk applied passed =>
    rw [hr] at happlied happly
    cases passed with
    | false =>
      have hrejected : (observed.core.view.step event toolName).1 = observed.core.view := by
        rw [hr] at hpassed
        exact View.step_rejected hpassed.symm
      rw [hrejected] at happly
      exact ⟨happlied,happly⟩
    | true =>
      refine ⟨⟨⟨happlied.background,happlied.backgroundExpired,happlied.hookSeen,happlied.wf⟩,happlied.cancelledAt,
        happlied.legacyTurnStartedAt⟩,?_⟩
      exact congrArg (fun c : Core => { c with lastHook := some generation }) happly

end Entry

inductive GenerationEvent where
  | launch
  | commit
  | observe (launchedAtUnixMs : Option ℕ)
  | hook (generation : ℕ) (event : HookEvent) (toolName : Option Text) (now : ℕ) (launchedAtUnixMs : Option ℕ)

/-- The runtimes of one Session. `newest` is the entry of an engine that gets the hooks of
the newest runtime alone. -/
structure GenerationRun where
  launched : ℕ
  manifest : ℕ
  entry : Entry
  newest : Entry

def startRun (generation : ℕ) : GenerationRun :=
  ⟨generation,generation,{ runtimeLaunchGeneration := generation },{ runtimeLaunchGeneration := generation }⟩

/-- A runtime is launched, its generation reaches the manifest, the Host looks at the
manifest, or a hook of a runtime that was launched arrives. -/
def generationStep (s : GenerationRun) : GenerationEvent → Option GenerationRun
  | .launch =>
    if s.manifest = s.launched then
      some { s with launched := s.launched + 1, newest := { runtimeLaunchGeneration := s.launched + 1 } }
    else none
  | .commit => some { s with manifest := s.launched }
  | .observe launchedAtUnixMs => some { s with entry := s.entry.observeRuntimeLaunch s.manifest launchedAtUnixMs }
  | .hook generation event toolName now launchedAtUnixMs =>
    if generation ≤ s.launched then
      some { s with
        entry := (s.entry.applyHookEventForRuntime event toolName now (some generation) s.manifest launchedAtUnixMs).1
        newest := if generation = s.launched then
            (s.newest.applyHookEventForRuntime event toolName now (some generation) s.launched launchedAtUnixMs).1
          else s.newest }
    else none

def ShowsNewest (s : GenerationRun) : Prop :=
  ∀ launchedAtUnixMs, (s.entry.observeRuntimeLaunch s.launched launchedAtUnixMs).hookOwnedState =
      s.newest.hookOwnedState ∧
    (s.entry.observeRuntimeLaunch s.launched launchedAtUnixMs).isCompleted = s.newest.isCompleted

def InOrder (s : GenerationRun) : GenerationEvent → Prop
  | .hook generation event toolName _ launchedAtUnixMs =>
    s.manifest < s.launched → s.manifest ≤ generation →
      (s.entry.observeRuntimeLaunch s.manifest launchedAtUnixMs).core.inOrder event toolName generation s.launched = true
  | .launch | .commit | .observe _ => True

structure GenerationRun.Tracks (s : GenerationRun) : Prop where
  entry : s.entry.Plain
  newest : s.newest.Plain
  manifest_le : s.manifest ≤ s.launched
  launched_le : s.launched ≤ s.manifest + 1
  newestGeneration : s.newest.core.generation = s.launched
  observed : s.entry.core.generation ≤ s.manifest
  tagged : ∀ generation, s.entry.core.lastHook = some generation → generation ≤ s.launched
  early : s.entry.core.lastHook = some s.launched → s.launched ≤ s.entry.core.generation + 1
  agrees : (s.entry.core.observe s.launched).view = s.newest.core.view

variable {s t : GenerationRun}

theorem showsNewest_iff (hentry : s.entry.Plain) (hnewest : s.newest.Plain) :
    ShowsNewest s ↔ (s.entry.core.observe s.launched).view.shown = s.newest.core.view.shown := by
  have hview (launchedAtUnixMs : Option ℕ) : (s.entry.observeRuntimeLaunch s.launched launchedAtUnixMs).view =
      (s.entry.core.observe s.launched).view := congrArg Core.view (hentry.observe s.launched launchedAtUnixMs).2
  have hshown (launchedAtUnixMs : Option ℕ) :
      (s.entry.observeRuntimeLaunch s.launched launchedAtUnixMs).hookOwnedState = s.newest.hookOwnedState ∧
        (s.entry.observeRuntimeLaunch s.launched launchedAtUnixMs).isCompleted = s.newest.isCompleted ↔
      (s.entry.core.observe s.launched).view.shown = s.newest.core.view.shown := by
    have hplain := (hentry.observe s.launched launchedAtUnixMs).1
    rw [hplain.hookOwnedState, hplain.isCompleted, hnewest.hookOwnedState, hnewest.isCompleted, hview]
    rw [Prod.mk.injEq]
    rfl
  exact ⟨fun h => (hshown none).mp (h none),fun h launchedAtUnixMs => (hshown launchedAtUnixMs).mpr h⟩

theorem GenerationRun.Tracks.showsNewest (h : s.Tracks) : ShowsNewest s := by
  rw [showsNewest_iff h.entry h.newest, h.agrees]

theorem startRun_tracks (generation : ℕ) : (startRun generation).Tracks where
  entry := Entry.plain_fresh generation
  newest := Entry.plain_fresh generation
  manifest_le := le_rfl
  launched_le := Nat.le_succ _
  newestGeneration := rfl
  observed := le_rfl
  tagged := fun _ h => (nomatch h)
  early := fun h => (nomatch h)
  agrees := congrArg Core.view (Core.observe_self rfl)

namespace GenerationRun
variable {generation : ℕ} {event : HookEvent} {toolName : Option Text} {launchedAtUnixMs : Option ℕ}

theorem Tracks.launch (h : s.Tracks) (hcommitted : s.manifest = s.launched) :
    Tracks { s with launched := s.launched + 1, newest := { runtimeLaunchGeneration := s.launched + 1 } } where
  entry := h.entry
  newest := Entry.plain_fresh _
  manifest_le := Nat.le_succ_of_le h.manifest_le
  launched_le := by simp [hcommitted]
  newestGeneration := rfl
  observed := h.observed
  tagged := fun generation hlast => Nat.le_succ_of_le (h.tagged generation hlast)
  early := fun hlast => absurd (h.tagged _ hlast) (by simp)
  agrees := by
    have hgeneration : s.entry.core.generation ≠ s.launched + 1 := by
      have := h.observed
      omega
    rw [Core.observe_reset hgeneration fun hlast => absurd (h.tagged _ hlast) (by simp)]
    rfl

theorem Tracks.commit (h : s.Tracks) : Tracks { s with manifest := s.launched } :=
  { h with manifest_le := le_rfl, launched_le := Nat.le_succ _, observed := h.observed.trans h.manifest_le }

theorem Tracks.observe (h : s.Tracks) (launchedAtUnixMs : Option ℕ) :
    Tracks { s with entry := s.entry.observeRuntimeLaunch s.manifest launchedAtUnixMs } := by
  obtain ⟨hplain,hcore⟩ := h.entry.observe s.manifest launchedAtUnixMs
  have hlast : ∀ generation, (s.entry.core.observe s.manifest).lastHook = some generation →
      generation ≤ s.launched := by
    intro generation hlast
    rcases s.entry.core.observe_lastHook s.manifest with hkept | hnone
    · exact h.tagged generation (hkept ▸ hlast)
    · rw [hnone] at hlast
      cases hlast
  exact { h with
    entry := hplain
    observed := by rw [hcore, Core.observe_generation]
    tagged := by rwa [hcore]
    early := fun _ => by rw [hcore, Core.observe_generation]; exact h.launched_le
    agrees := by
      rw [hcore, Core.observe_observe h.manifest_le h.observed h.early]
      exact h.agrees }

theorem Tracks.newest_hook (h : s.Tracks) (event : HookEvent) (toolName : Option Text) (now : ℕ)
    (launchedAtUnixMs : Option ℕ) :
    (s.newest.applyHookEventForRuntime event toolName now (some s.launched) s.launched launchedAtUnixMs).1.core.view =
      (s.newest.core.view.step event toolName).1 := by
  rw [(h.newest.hook event toolName now s.launched s.launched launchedAtUnixMs).2, Core.hook_view _ le_rfl,
    Core.observe_self h.newestGeneration]

theorem Tracks.agrees_manifest (h : s.Tracks) :
    ((s.entry.core.observe s.manifest).observe s.launched).view = s.newest.core.view := by
  rw [Core.observe_observe h.manifest_le h.observed h.early, h.agrees]

/-- A hook leaves the entry in step with the newest runtime exactly if it comes in order. -/
theorem Tracks.hook_iff (h : s.Tracks) {now : ℕ}
    (ht : generationStep s (.hook generation event toolName now launchedAtUnixMs) = some t) :
    (InOrder s (.hook generation event toolName now launchedAtUnixMs) →
      (t.entry.core.observe t.launched).view = t.newest.core.view) ∧
    ((t.entry.core.observe t.launched).view.shown = t.newest.core.view.shown →
      InOrder s (.hook generation event toolName now launchedAtUnixMs)) := by
  have hcore := (h.entry.hook event toolName now generation s.manifest launchedAtUnixMs).2
  have hobserved := (h.entry.observe s.manifest launchedAtUnixMs)
  have hwf : (s.entry.core.observe s.manifest).view.Wf := hobserved.2 ▸ hobserved.1.wf
  have hagrees := h.agrees_manifest
  simp only [generationStep] at ht
  split at ht <;> cases ht
  next hle =>
  unfold InOrder
  dsimp only
  rw [hcore, hobserved.2]
  by_cases hml : s.manifest < s.launched
  · by_cases hmg : s.manifest ≤ generation
    · by_cases hnewest : generation = s.launched
      · subst hnewest
        rw [if_pos rfl, h.newest_hook, ← hagrees]
        exact ⟨fun hok => (Core.hook_newest_iff hml hwf).1 (hok hml hmg),
          fun hshown _ _ => (Core.hook_newest_iff hml hwf).2 hshown⟩
      · rw [if_neg hnewest, ← hagrees]
        exact ⟨fun hok => (Core.hook_older_iff hml hmg hnewest hwf).1 (hok hml hmg),
          fun hshown _ _ => (Core.hook_older_iff hml hmg hnewest hwf).2 hshown⟩
    · rw [if_neg (by omega), Core.hook_stale (by omega)]
      exact ⟨fun _ => hagrees,fun _ _ hno => absurd hno hmg⟩
  · have hsame : s.manifest = s.launched := by have := h.manifest_le; omega
    refine ⟨fun _ => ?_,fun _ hno => absurd hno hml⟩
    rw [hsame] at hagrees ⊢
    rw [Core.observe_self (Core.hook_generation _ _ _ _ _)]
    rw [Core.observe_self (Core.observe_generation _ _)] at hagrees
    by_cases hnewest : generation = s.launched
    · subst hnewest
      rw [if_pos rfl, h.newest_hook, Core.hook_view _ le_rfl, hagrees]
    · rw [if_neg hnewest, Core.hook_stale (by omega), hagrees]

/-- What a hook keeps whether or not it comes in order. -/
theorem Tracks.hook_plain (h : s.Tracks) {now : ℕ}
    (ht : generationStep s (.hook generation event toolName now launchedAtUnixMs) = some t) :
    t.entry.Plain ∧ t.newest.Plain ∧ t.launched = s.launched ∧ t.manifest = s.manifest ∧
    t.newest.core.generation = s.launched ∧ t.entry.core.generation = s.manifest ∧
    ∀ last, t.entry.core.lastHook = some last → last ≤ s.launched := by
  obtain ⟨hplain,hcore⟩ := h.entry.hook event toolName now generation s.manifest launchedAtUnixMs
  simp only [generationStep] at ht
  split at ht <;> cases ht
  next hle =>
  refine ⟨hplain,?_,rfl,rfl,?_,?_,?_⟩
  · dsimp only
    split
    · exact (h.newest.hook event toolName now generation s.launched launchedAtUnixMs).1
    · exact h.newest
  · dsimp only
    split
    · rw [(h.newest.hook event toolName now generation s.launched launchedAtUnixMs).2, Core.hook_generation]
    · exact h.newestGeneration
  · rw [hcore, Core.hook_generation]
  · intro last hlast
    rw [hcore] at hlast
    rcases Core.hook_lastHook s.entry.core event toolName generation s.manifest with hnew | hold
    · rw [hnew] at hlast
      exact Option.some.inj hlast ▸ hle
    · rw [hold] at hlast
      rcases s.entry.core.observe_lastHook s.manifest with hkept | hnone
      · exact h.tagged last (hkept ▸ hlast)
      · rw [hnone] at hlast
        cases hlast

theorem Tracks.hook (h : s.Tracks) {now : ℕ} (hok : InOrder s (.hook generation event toolName now launchedAtUnixMs))
    (ht : generationStep s (.hook generation event toolName now launchedAtUnixMs) = some t) : t.Tracks := by
  obtain ⟨hentry,hnewest,hlaunched,hmanifest,hgeneration,hobserved,htagged⟩ := h.hook_plain ht
  exact {
    entry := hentry
    newest := hnewest
    manifest_le := by rw [hmanifest, hlaunched]; exact h.manifest_le
    launched_le := by rw [hmanifest, hlaunched]; exact h.launched_le
    newestGeneration := by rw [hgeneration, hlaunched]
    observed := by rw [hobserved, hmanifest]
    tagged := by rw [hlaunched]; exact htagged
    early := fun _ => by rw [hobserved, hlaunched]; exact h.launched_le
    agrees := (h.hook_iff ht).1 hok }

theorem Tracks.step (h : s.Tracks) {event : GenerationEvent} (hok : InOrder s event)
    (ht : generationStep s event = some t) : t.Tracks := by
  cases event with
  | launch =>
    simp only [generationStep] at ht
    split at ht <;> cases ht
    next hcommitted =>
    exact h.launch hcommitted
  | commit =>
    cases ht
    exact h.commit
  | observe launchedAtUnixMs =>
    cases ht
    exact h.observe launchedAtUnixMs
  | hook generation event toolName now launchedAtUnixMs => exact h.hook hok ht

theorem Tracks.inOrder (h : s.Tracks) {event : GenerationEvent} (ht : generationStep s event = some t)
    (hshows : ShowsNewest t) : InOrder s event := by
  cases event with
  | launch | commit | observe launchedAtUnixMs => trivial
  | hook generation event toolName now launchedAtUnixMs =>
    obtain ⟨hentry,hnewest,-⟩ := h.hook_plain ht
    exact (h.hook_iff ht).2 ((showsNewest_iff hentry hnewest).mp hshows)

end GenerationRun

/-- Whenever the Host observes the newest launch it shows what an engine shows that got
the newest hooks alone, exactly in the runs whose hooks come in order. -/
theorem generations_do_not_bleed_iff (generation : ℕ) (events : List GenerationEvent) :
    Always generationStep ShowsNewest (startRun generation) events ↔
      Guarded generationStep InOrder (startRun generation) events :=
  always_iff_guarded (J := GenerationRun.Tracks) (fun _ _ _ h hok ht => h.step hok ht) (fun _ h => h.showsNewest)
    (fun _ _ _ h ht hshows => h.inOrder ht hshows) (startRun_tracks generation) events

/-- The prompt of a relaunched agent, and a late hook of the old one before the Host looks
at the manifest. -/
def lateHook : List GenerationEvent :=
  [.launch,.hook 2 .userPromptSubmit none (10 * 10 ^ 9) none,.hook 1 .stop none (11 * 10 ^ 9) none,.commit,.observe none]

theorem late_hook_loses_prompt : ¬Always generationStep ShowsNewest (startRun 1) lateHook := by
  intro h
  have hlast := ((((h.2 _ rfl).2 _ rfl).2 _ rfl).2 _ rfl).2 _ rfl
  exact absurd (hlast none).1 (by decide)

end Unpeel.Activity
