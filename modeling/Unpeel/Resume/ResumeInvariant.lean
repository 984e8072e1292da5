import Unpeel.Foundation.History
import Unpeel.Resume.ResumeAgent

/-! # What a resume owes, and the invariant

The invariant follows the generation of the manifest. Whatever was accepted is of that
generation or older, or its latch is still set and keeps every later call out. A call
knows of the ground and its shadow what its stage says.
-/
namespace Unpeel.Resume
open Manifest Runs

def Entry.turns : Entry → Option Bool
  | .checked _ => some true
  | .accepted _ => some false
  | .failed _ => some false
  | _ => none

def underWay (log : List Entry) : Bool := log.foldl (fun open' entry => entry.turns.getD open') false

/-- No user byte within a submission, no generation accepted twice, and no marker put
back once the payload that replaces its agent was accepted. -/
def Entry.Allowed (before : List Entry) : Entry → Prop
  | .user _ => underWay before = false
  | .accepted generation => .accepted generation ∉ before
  | .restored generation => .accepted generation ∉ before
  | _ => True

def Ground.launch (ground : Ground) : Option (ℕ × Bool) :=
  ground.manifest.map fun m => (m.runtimeLaunchGeneration,m.runtimeLaunchPending)

/-- A call that fails before any payload byte, and whose undo steps succeed, leaves
everything as it would be without it, a marker published meanwhile apart. -/
def Return.Clean (r : Return) : Prop :=
  r.result ≠ .ok () → r.submitted = false → r.undone = true →
    r.left.launch = r.untouched.launch ∧ r.left.latch = r.untouched.latch ∧
      (r.published = true ∨ r.left.marker = r.untouched.marker)

structure Transactional (s : ResumeSession) : Prop where
  entries : Throughout Entry.Allowed s.log
  returns : ∀ r ∈ s.returns, r.Clean

namespace Other

def onLaunch : Other → Option (ℕ × Bool) → Option (ℕ × Bool)
  | .observes pending clear _ _,launch => launch.map fun l => (l.1,l.2 && !(l.1 = pending && clear))
  | .exits _,launch => launch.map fun l => (l.1,false)
  | .removes,_ => none
  | _,launch => launch

def onLatch : Other → ℕ → ℕ
  | .clears pending,latch => if latch = pending then 0 else latch
  | _,latch => latch

def onMarker : Other → Option Text → Option Text
  | .publishes marker,_ => some marker
  | _,marker => marker

variable (other : Other) (ground : Ground)

theorem apply_launch : (other.apply ground).launch = other.onLaunch ground.launch := by
  cases other with
  | observes pending clear runtime now | exits now =>
    cases hm : ground.manifest <;> simp [apply,Ground.launch,onLaunch,updateManifestSession,hm]
  | clears | removes | publishes => rfl

theorem apply_latch : (other.apply ground).latch = other.onLatch ground.latch := by
  cases other <;> rfl

theorem apply_marker : (other.apply ground).marker = other.onMarker ground.marker := by
  cases other <;> rfl

theorem onLatch_zero : other.onLatch 0 = 0 := by
  cases other <;> simp [onLatch]

theorem onMarker_of_not_publish {other : Other} (h : other.isPublish = false) (marker : Option Text) :
    other.onMarker marker = marker := by
  cases other with
  | publishes => cases h
  | _ => rfl

theorem onLaunch_fst {other : Other} {launch : Option (ℕ × Bool)} {l : ℕ × Bool} (h : l ∈ other.onLaunch launch) :
    ∃ k ∈ launch, k.1 = l.1 ∧ (k.2 = false → l.2 = false) := by
  cases other with
  | observes pending clear runtime now =>
    obtain ⟨k,hk,rfl⟩ := Option.map_eq_some_iff.mp h
    exact ⟨k,hk,rfl,fun hf => by simp [hf]⟩
  | exits now =>
    obtain ⟨k,hk,rfl⟩ := Option.map_eq_some_iff.mp h
    exact ⟨k,hk,rfl,fun _ => rfl⟩
  | removes => cases h
  | clears | publishes => exact ⟨l,h,rfl,id⟩

theorem onLaunch_map_fst (other : Other) {a b : Option (ℕ × Bool)} (h : a.map Prod.fst = b.map Prod.fst) :
    (other.onLaunch a).map Prod.fst = (other.onLaunch b).map Prod.fst := by
  cases other with
  | removes => rfl
  | clears | publishes => exact h
  | observes | exits => simpa [onLaunch,Function.comp_def] using h

end Other

theorem underWay_snoc (log : List Entry) (entry : Entry) :
    underWay (log ++ [entry]) = entry.turns.getD (underWay log) := by
  simp [underWay]

theorem underWay_append_of_plain {log more : List Entry} (h : ∀ entry ∈ more, entry.turns = none) :
    underWay (log ++ more) = underWay log := by
  induction more generalizing log with
  | nil => simp
  | cons entry more ih =>
    have hrest := @ih (log ++ [entry]) fun e he => h e (List.mem_cons_of_mem _ he)
    rw [underWay_snoc,h entry List.mem_cons_self] at hrest
    simpa using hrest

structure Footing where
  ground : Ground
  shadow : Ground
  log : List Entry
  generation : ℕ
  staged : Option Text
  submitted : Bool
  undone : Bool
  published : Bool

def footing (s : ResumeSession) (call : ResumeCall) : Footing :=
  ⟨s.ground,s.shadow,s.log,call.generation,call.staged,call.submitted,call.undone,call.published⟩

namespace Footing
variable (f : Footing)

def MarkerKept : Prop :=
  match f.staged with
  | none => f.ground.marker = f.shadow.marker
  | some marker => f.published = true ∨ (f.ground.marker = none ∧ f.shadow.marker = some marker)

def Fresh (T : ℕ) : Prop := ∀ generation, Entry.accepted generation ∈ f.log → generation ≤ T

def Unpending : Prop := ∀ l ∈ f.shadow.launch, l.2 = false

structure Untouched : Prop where
  launch : f.ground.launch = f.shadow.launch
  latch : f.ground.latch = f.shadow.latch
  unpending : f.Unpending

structure Prepared (T : ℕ) : Prop extends f.Untouched where
  fresh : f.Fresh T
  zero : f.ground.latch = 0

/-- The pending flag is the call's own; `latch` is what it has made of the latch. -/
structure Announced (T latch : ℕ) : Prop where
  fresh : f.Fresh T
  launch : f.ground.launch.map Prod.fst = f.shadow.launch.map Prod.fst
  unpending : f.Unpending
  latch : f.ground.latch = latch
  shadow : f.shadow.latch = 0

structure Taken (T : ℕ) : Prop where
  submitted : f.submitted = true
  latch : f.ground.latch = T + 1

structure Clearing (T : ℕ) : Prop where
  fresh : f.Fresh T
  launch : f.undone = true → f.ground.launch = f.shadow.launch
  latch : f.ground.latch = T + 1
  shadow : f.shadow.latch = 0

structure Restoring (T : ℕ) : Prop where
  fresh : f.Fresh T
  launch : f.undone = true → f.ground.launch = f.shadow.launch
  latch : f.ground.latch = f.shadow.latch

end Footing

theorem Footing.MarkerKept.staged {f : Footing} (h : f.MarkerKept) (hstaged : f.staged.isSome = true) :
    f.published = true ∨ (f.ground.marker = none ∧ f.staged = f.shadow.marker) := by
  obtain ⟨marker,hmarker⟩ := Option.isSome_iff_exists.mp hstaged
  rw [Footing.MarkerKept,hmarker] at h
  rw [hmarker]
  exact h.imp_right fun hkept => ⟨hkept.1,hkept.2.symm⟩

theorem Footing.MarkerKept.unstaged {f : Footing} (h : f.MarkerKept) (hstaged : f.staged = none) :
    f.ground.marker = f.shadow.marker := by
  rw [Footing.MarkerKept,hstaged] at h
  exact h

/-- What a call knows at each stage, with the manifest at generation `T`. -/
def Stage.Knows (T : ℕ) (f : Footing) : Stage → Prop
  | .latching => f.Untouched ∧ f.staged = none
  | .freshShell | .relaunching | .secondShell | .waitingShell | .completing | .stagingLook | .stagingMove =>
    f.Prepared T ∧ f.staged = none
  | .foreground | .publishing => f.Prepared T
  | .latchSetting => f.Announced T 0
  | .lastForeground | .submitting _ | .undoManifest .. => f.Announced T (T + 1)
  | .flushing | .committing => f.Taken T
  | .undoLatch .. => f.Clearing T
  | .undoCompletion _ => f.Restoring T
  | .undoLook _ | .undoMove _ => f.Restoring T ∧ f.staged.isSome = true
  | .undoDrop _ => f.Restoring T ∧ f.published = true
  | .storing _ | .discarding _ => f.submitted = true

def Stage.beforeCommit : Stage → Bool
  | .storing _ | .discarding _ => false
  | _ => true

def Stage.isSubmitting : Stage → Bool
  | .submitting _ => true
  | _ => false

structure ResumeCall.Inv (T : ℕ) (s : ResumeSession) (call : ResumeCall) : Prop where
  expected : call.stage.beforeCommit = true → call.expected = T ∧ call.generation = T + 1
  marker : (footing s call).MarkerKept
  knows : call.stage.Knows T (footing s call)
  quiet : underWay s.log = true → call.stage.isSubmitting = true

def Holder.Inv (T : ℕ) (s : ResumeSession) : Holder → Prop
  | .resume call => call.Inv T s
  | _ => underWay s.log = false

structure Standing (T : ℕ) (s : ResumeSession) : Prop extends Transactional s where
  generation : ∀ l ∈ s.ground.launch, l.1 = T
  observer : ∀ pending, s.observer = .updated pending → pending ≤ T
  accepted : ∀ generation, Entry.accepted generation ∈ s.log → generation ≤ T ∨ generation = s.ground.latch

theorem Standing.congr {T : ℕ} {s t : ResumeSession} (hs : Standing T s) (hground : t.ground = s.ground)
    (hobserver : t.observer = s.observer) (hlog : t.log = s.log) (hreturns : t.returns = s.returns) :
    Standing T t := by
  refine ⟨⟨?_,?_⟩,?_,?_,?_⟩
  · rw [hlog]
    exact hs.entries
  · rw [hreturns]
    exact hs.returns
  · rw [hground]
    exact hs.generation
  · rw [hobserver]
    exact hs.observer
  · rw [hlog,hground]
    exact hs.accepted

structure ResumeInv (T : ℕ) (s : ResumeSession) : Prop where
  standing : Standing T s
  holder : s.holder.Inv T s

theorem ResumeInv.start (manifest : HostedSessionManifest) (marker : Option Text) :
    ResumeInv manifest.runtimeLaunchGeneration (startResume manifest marker) where
  standing := by
    refine ⟨⟨throughout_nil,by simp [startResume]⟩,?_,?_,?_⟩
    · simp [startResume,Ground.launch]
    · intro pending h
      cases h
    · simp [startResume]
  holder := rfl

section Others
variable {f : Footing} {T : ℕ} (other : Other)

def Footing.others (f : Footing) (other : Other) : Footing :=
  { f with
    ground := other.apply f.ground
    shadow := other.apply f.shadow
    published := f.published || other.isPublish }

theorem Footing.MarkerKept.others (h : f.MarkerKept) : (f.others other).MarkerKept := by
  unfold Footing.MarkerKept at h ⊢
  cases hs : f.staged with
  | none =>
    rw [hs] at h
    simpa [Footing.others,hs,Other.apply_marker] using congrArg other.onMarker h
  | some marker =>
    rw [hs] at h
    cases hp : other.isPublish with
    | true => simp [Footing.others,hs,hp]
    | false =>
      simp only [Footing.others,hs,hp,Other.apply_marker,Other.onMarker_of_not_publish hp,Bool.or_false]
      exact h

theorem Footing.Unpending.others (h : f.Unpending) : (f.others other).Unpending := by
  intro l hl
  rw [Footing.others,Other.apply_launch] at hl
  obtain ⟨k,hk,-,hkl⟩ := Other.onLaunch_fst hl
  exact hkl (h k hk)

theorem Footing.Untouched.others (h : f.Untouched) : (f.others other).Untouched where
  launch := by simp only [Footing.others,Other.apply_launch,h.launch]
  latch := by simp only [Footing.others,Other.apply_latch,h.latch]
  unpending := h.unpending.others other

theorem Footing.Restoring.others (h : f.Restoring T) : (f.others other).Restoring T where
  fresh := h.fresh
  launch hundone := by simp only [Footing.others,Other.apply_launch,h.launch hundone]
  latch := by simp only [Footing.others,Other.apply_latch,h.latch]

theorem onLatch_succ (hclears : ∀ pending, other = .clears pending → pending ≤ T) : other.onLatch (T + 1) = T + 1 := by
  cases other with
  | clears pending =>
    have hle := hclears pending rfl
    rw [Other.onLatch,if_neg (by omega)]
  | observes | exits | removes | publishes => rfl

/-- What a call knows stays true whatever others do, as long as the observer clears only
latches of recorded generations. -/
theorem Stage.Knows.others {stage : Stage} (h : stage.Knows T f)
    (hclears : ∀ pending, other = .clears pending → pending ≤ T) : stage.Knows T (f.others other) := by
  have hzero {latch : ℕ} (hlatch : latch = 0) : other.onLatch latch = 0 := by rw [hlatch,other.onLatch_zero]
  have hsucc {latch : ℕ} (hlatch : latch = T + 1) : other.onLatch latch = T + 1 := by
    rw [hlatch,onLatch_succ other hclears]
  cases stage with
  | latching | undoLook | undoMove => exact ⟨h.1.others other,h.2⟩
  | freshShell | relaunching | secondShell | waitingShell | completing | stagingLook | stagingMove =>
    exact ⟨⟨h.1.toUntouched.others other,h.1.fresh,(other.apply_latch _).trans (hzero h.1.zero)⟩,h.2⟩
  | foreground | publishing =>
    exact ⟨h.toUntouched.others other,h.fresh,(other.apply_latch _).trans (hzero h.zero)⟩
  | latchSetting =>
    exact ⟨h.fresh,by simpa only [Footing.others,Other.apply_launch] using other.onLaunch_map_fst h.launch,
      h.unpending.others other,(other.apply_latch _).trans (hzero h.latch),(other.apply_latch _).trans (hzero h.shadow)⟩
  | lastForeground | submitting | undoManifest =>
    exact ⟨h.fresh,by simpa only [Footing.others,Other.apply_launch] using other.onLaunch_map_fst h.launch,
      h.unpending.others other,(other.apply_latch _).trans (hsucc h.latch),(other.apply_latch _).trans (hzero h.shadow)⟩
  | flushing | committing => exact ⟨h.submitted,(other.apply_latch _).trans (hsucc h.latch)⟩
  | undoLatch =>
    exact ⟨h.fresh,fun hu => by simp only [Footing.others,Other.apply_launch,h.launch hu],
      (other.apply_latch _).trans (hsucc h.latch),(other.apply_latch _).trans (hzero h.shadow)⟩
  | undoCompletion => exact Footing.Restoring.others other h
  | undoDrop => exact ⟨h.1.others other,by simp [Footing.others,h.2]⟩
  | storing | discarding => exact h

end Others

/-- Another party's step, in any state. -/
theorem ResumeInv.others {T : ℕ} {s : ResumeSession} (h : ResumeInv T s) (other : Other)
    (hclears : ∀ pending, other = .clears pending → pending ≤ T) : ResumeInv T (s.others other) where
  standing := by
    refine ⟨⟨h.standing.entries,h.standing.returns⟩,?_,h.standing.observer,?_⟩
    · intro l hl
      rw [ResumeSession.others,Other.apply_launch] at hl
      obtain ⟨k,hk,hkl,-⟩ := Other.onLaunch_fst hl
      rw [← hkl]
      exact h.standing.generation k hk
    · intro generation hg
      rcases h.standing.accepted generation hg with hle | rfl
      · exact .inl hle
      · rw [ResumeSession.others,Other.apply_latch]
        cases other with
        | clears pending =>
          have hle := hclears pending rfl
          rw [Other.onLatch]
          split
          · rename_i hlatch
            rw [hlatch]
            exact .inl hle
          · exact .inr rfl
        | observes | exits | removes | publishes => exact .inr rfl
  holder := by
    have hh := h.holder
    unfold ResumeSession.others
    cases hs : s.holder with
    | free | input rest => rw [hs] at hh; exact hh
    | resume call =>
      rw [hs] at hh
      exact ⟨hh.expected,hh.marker.others other,hh.knows.others other hclears,hh.quiet⟩

end Unpeel.Resume
