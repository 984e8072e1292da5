import Unpeel.Resume.ResumeSteps

/-! # An in-place resume is a transaction

Over every interleaving of resumes, user input, `Kill`, the runtime observer, hooks and
exits, with any step failing. Two things break it: a `flush` that fails when the whole
payload was taken, and a generation that has no successor.
-/
namespace Unpeel.Resume
open Manifest Runs
variable {T : ℕ} {s t : ResumeSession} {settings : HostSettings}

def Holder.flushing : Holder → Bool
  | .resume call => match call.stage with
    | .flushing => true
    | _ => false
  | _ => false

/-- What the code counts on: generations do not run out, and a flush does not fail after
the last byte of the payload was taken. -/
def CountsOn (s : ResumeSession) : ResumeEvent → Prop
  | .resume _ _ => ∀ m ∈ s.ground.manifest, m.runtimeLaunchGeneration < u64Max
  | .call answer _ => s.holder.flushing = true → answer = .ok
  | _ => True

instance (s : ResumeSession) : ∀ event, Decidable (CountsOn s event)
  | .resume _ _ => inferInstanceAs (Decidable (∀ m ∈ s.ground.manifest,m.runtimeLaunchGeneration < u64Max))
  | .call answer _ => inferInstanceAs (Decidable (s.holder.flushing = true → answer = .ok))
  | .input _ | .types _ | .inputEnds | .kill | .observerLoads | .observerUpdates .. | .observerClears | .exits _
  | .removed | .publishes _ => inferInstanceAs (Decidable True)

theorem nextGeneration_of_lt {generation : ℕ} (h : generation < u64Max) : nextGeneration generation = generation + 1 := by
  unfold nextGeneration
  omega

theorem callStep_inv {call : ResumeCall} {answer : Answer} {now : ℕ} (h : ResumeInv T s)
    (hholder : s.holder = .resume call) (hflush : call.stage = .flushing → answer = .ok) :
    ∃ U, ResumeInv U (callStep settings s call answer now) := by
  unfold callStep
  split
  all_goals first
    | exact ⟨T,prepareStep_inv h hholder⟩
    | exact ⟨T,stageStep_inv h hholder⟩
    | exact submitStep_inv h hholder hflush
    | exact ⟨T,undoStep_inv h hholder⟩

theorem Holder.Inv.congr {holder : Holder} (h : holder.Inv T s) (hground : t.ground = s.ground)
    (hshadow : t.shadow = s.shadow) (hlog : t.log = s.log) : holder.Inv T t := by
  cases holder with
  | free | input rest => exact (congrArg underWay hlog).trans h
  | resume call =>
    have hfooting : footing t call = footing s call := by rw [footing,footing,hground,hshadow,hlog]
    obtain ⟨hexpected,hmarker,hknows,hquiet⟩ := h
    refine ⟨hexpected,?_,?_,?_⟩
    · rw [hfooting]
      exact hmarker
    · rw [hfooting]
      exact hknows
    · rw [hlog]
      exact hquiet

theorem refuse_inv (h : ResumeInv T s) (error : ResumeError) : ResumeInv T (s.refuse error) where
  standing := by
    refine ⟨⟨h.standing.entries,?_⟩,h.standing.generation,h.standing.observer,h.standing.accepted⟩
    intro r hr
    rcases List.mem_append.mp hr with hr | hr
    · exact h.standing.returns r hr
    · cases List.mem_singleton.mp hr
      exact fun _ _ _ => ⟨rfl,rfl,.inr rfl⟩
  holder := h.holder.congr rfl rfl rfl

/-- A call begins with the manifest as it is, and with a generation ahead of it. -/
theorem begin_inv {expected : ℕ} {manifest : ManifestFile} (h : ResumeInv T s) (hfree : s.holder = .free)
    (hread : ∀ m ∈ manifest, s.ground.manifest = some m) (hroom : ∀ m ∈ s.ground.manifest, m.runtimeLaunchGeneration < u64Max) :
    ResumeInv T (s.begin expected manifest) := by
  unfold ResumeSession.begin
  cases manifest with
  | none => exact refuse_inv h _
  | some m =>
    dsimp only
    split
    · exact refuse_inv h _
    · split
      · exact refuse_inv h _
      · split
        · exact refuse_inv h _
        · rename_i hgeneration hpending
          have hm := hread m rfl
          have hlaunch : s.ground.launch = some (m.runtimeLaunchGeneration,m.runtimeLaunchPending) := by
            rw [Ground.launch,hm]
            rfl
          have hT : m.runtimeLaunchGeneration = T := h.standing.generation _ hlaunch
          have hexpected : expected = T := by rw [← hT]; exact (not_not.mp hgeneration).symm
          have hquiet : underWay s.log = false := by
            have hh := h.holder
            rw [hfree] at hh
            exact hh
          refine ⟨⟨⟨h.standing.entries,h.standing.returns⟩,h.standing.generation,h.standing.observer,
            h.standing.accepted⟩,?_,rfl,⟨⟨rfl,rfl,?_⟩,rfl⟩,?_⟩
          · intro _
            refine ⟨hexpected,?_⟩
            rw [← hT]
            exact nextGeneration_of_lt (hroom m hm)
          · intro l hl
            rw [show (footing _ _).shadow.launch = s.ground.launch from rfl,hlaunch] at hl
            cases hl
            exact Bool.eq_false_iff.mpr hpending
          · intro hu
            exact absurd hu (by rw [hquiet]; simp)

theorem underWay_user (log : List Entry) (bytes : List UInt8) : underWay (log ++ bytes.map Entry.user) = underWay log := by
  apply underWay_append_of_plain
  intro entry hentry
  obtain ⟨byte,-,rfl⟩ := List.mem_map.mp hentry
  rfl

/-- User input is typed under the lock, so outside every submission. -/
theorem types_inv {rest : List UInt8} {count : ℕ} (h : ResumeInv T s) (hholder : s.holder = .input rest) :
    ResumeInv T { s with
      log := s.log ++ (rest.take count).map Entry.user, holder := .input (rest.drop count) } := by
  have hs := h.standing
  have hquiet : underWay s.log = false := by
    have hh := h.holder
    rw [hholder] at hh
    exact hh
  refine ⟨⟨⟨hs.entries.append ?_,hs.returns⟩,hs.generation,hs.observer,?_⟩,(underWay_user ..).trans hquiet⟩
  · intro front entry back he
    obtain ⟨typed,left,-,hfront,hback⟩ := List.map_eq_append_iff.mp he
    obtain ⟨byte,left,-,rfl,-⟩ := List.map_eq_cons_iff.mp hback
    rw [← hfront]
    exact (underWay_user ..).trans hquiet
  · intro generation hg
    rcases List.mem_append.mp hg with hg | hg
    · exact hs.accepted generation hg
    · obtain ⟨byte,-,hbyte⟩ := List.mem_map.mp hg
      cases hbyte

theorem ResumeInv.observing (h : ResumeInv T s) {observer : Observer}
    (hobserver : ∀ pending, observer = .updated pending → pending ≤ T) : ResumeInv T { s with observer := observer } where
  standing := ⟨⟨h.standing.entries,h.standing.returns⟩,h.standing.generation,hobserver,h.standing.accepted⟩
  holder := h.holder.congr rfl rfl rfl

/-- The observer goes on to the latch only with a generation that the manifest has. -/
theorem observe_inv {pending : ℕ} {clear written : Bool} {runtime : Option (Option Text)} {now : ℕ}
    (h : ResumeInv T s) : ResumeInv T (observe s pending clear runtime written now) := by
  unfold observe
  dsimp only
  split
  · have hothers := h.others (.observes pending (pending ≠ 0 && clear) runtime now) (by simp)
    refine hothers.observing ?_
    intro p hp
    split at hp <;> cases hp
    rename_i hmanifest
    obtain ⟨m,hm,heq⟩ := (Option.any_eq_true _ _).mp hmanifest
    have hlaunch : (m.runtimeLaunchGeneration,m.runtimeLaunchPending) ∈
        (s.others (.observes pending (pending ≠ 0 && clear) runtime now)).ground.launch := by
      rw [Ground.launch,hm]
      rfl
    have hT := hothers.standing.generation _ hlaunch
    have hp : m.runtimeLaunchGeneration = pending := by simp at heq; exact heq.1
    exact (hp.symm.trans hT).le
  · exact h.observing (by simp)

theorem resumeStep_inv {event : ResumeEvent} (h : ResumeInv T s) (hg : CountsOn s event)
    (ht : resumeStep settings s event = some t) : ∃ U, ResumeInv U t := by
  cases event with
  | input data =>
    simp only [resumeStep] at ht
    split at ht <;> cases ht
    rename_i hfree
    have hholder := h.holder
    rw [hfree] at hholder
    exact ⟨T,⟨⟨h.standing.entries,h.standing.returns⟩,h.standing.generation,h.standing.observer,
      h.standing.accepted⟩,hholder⟩
  | types count =>
    simp only [resumeStep] at ht
    split at ht <;> cases ht
    rename_i rest hinput
    exact ⟨T,types_inv h hinput⟩
  | inputEnds =>
    simp only [resumeStep] at ht
    split at ht <;> cases ht
    rename_i rest hinput
    have hholder := h.holder
    rw [hinput] at hholder
    exact ⟨T,⟨⟨h.standing.entries,h.standing.returns⟩,h.standing.generation,h.standing.observer,
      h.standing.accepted⟩,hholder⟩
  | kill =>
    simp only [resumeStep] at ht
    split at ht <;> cases ht
    exact ⟨T,⟨⟨h.standing.entries,h.standing.returns⟩,h.standing.generation,h.standing.observer,
      h.standing.accepted⟩,h.holder.congr rfl rfl rfl⟩
  | resume expected readable =>
    simp only [resumeStep] at ht
    split at ht
    · rename_i hfree
      cases ht
      refine ⟨T,begin_inv h hfree ?_ hg⟩
      intro m hm
      split at hm
      · exact hm
      · cases hm
    · cases ht
      exact ⟨T,refuse_inv h _⟩
  | call answer now =>
    simp only [resumeStep] at ht
    split at ht <;> cases ht
    rename_i call hcall
    refine callStep_inv h hcall fun hstage => hg ?_
    rw [hcall,Holder.flushing,hstage]
  | observerLoads =>
    simp only [resumeStep] at ht
    split at ht <;> cases ht
    exact ⟨T,h.observing (by simp)⟩
  | observerUpdates clear runtime written now =>
    simp only [resumeStep] at ht
    split at ht <;> cases ht
    exact ⟨T,observe_inv h⟩
  | observerClears =>
    simp only [resumeStep] at ht
    split at ht <;> cases ht
    rename_i pending hupdated
    have hothers := h.others (.clears pending) (by
      intro p hp
      cases hp
      exact h.standing.observer pending hupdated)
    exact ⟨T,hothers.observing (by simp)⟩
  | exits now | removed | publishes marker =>
    cases ht
    exact ⟨T,h.others _ (by simp)⟩

/-- The relaunch payload of a generation is accepted at most once, user input stays out of
it, a call that fails before it leaves everything as it was, and once it was accepted the
old marker stays away. -/
theorem resume_is_a_transaction (settings : HostSettings) (manifest : HostedSessionManifest) (marker : Option Text)
    (events : List ResumeEvent)
    (h : Guarded (resumeStep settings) CountsOn (startResume manifest marker) events) :
    Always (resumeStep settings) Transactional (startResume manifest marker) events := by
  refine always_of_guarded (J := fun s => ∃ T, ResumeInv T s) ?_ ?_ ⟨_,ResumeInv.start manifest marker⟩ h
  · rintro s event t ⟨T,hs⟩ hg ht
    exact resumeStep_inv hs hg ht
  · rintro s ⟨T,hs⟩
    exact hs.standing.toTransactional

def claudeSettings : HostSettings := ⟨fun _ => true,fun _ => some ['c'],.posix,['p']⟩

def claudeManifest : HostedSessionManifest where
  id := ['s']
  command := ['c']
  label := []
  customTitle := false
  state := .running
  runtime := none
  runtimeLaunchGeneration := 1
  runtimeLaunchPending := false
  pid := some 500
  pidStartedAt := some 1000
  hostPid := none
  hostPidStartedAt := none
  heartbeatAt := 1
  updatedAt := 1

def claudePayload : List UInt8 := relaunchPayload .posix ['p'] ['c'] 2

def calls (answers : List Answer) : List ResumeEvent := answers.map fun answer => .call answer 2

def resumeUpToFlush : List ResumeEvent :=
  .resume 1 true :: calls
    [.ok,.ok,.relaunch ['c'],.ok,.ok,.ok,.ok,.ok,.ok,.ok,.ok,.ok,.accepts claudePayload.length]

def secondResume : List ResumeEvent :=
  resumeUpToFlush ++ ([.resume 1 true] : List ResumeEvent) ++ calls [.ok,.ok,.ok,.ok]

/-- The agent is launched once. -/
theorem second_resume_is_refused :
    (run (resumeStep claudeSettings) (startResume claudeManifest (some ['m'])) secondResume).map
        (fun s => (s.ground.latch,s.returns.map Return.result)) = some (2,[.error .inProgress,.ok ()]) ∧
    Always (resumeStep claudeSettings) Transactional (startResume claudeManifest (some ['m'])) secondResume :=
  ⟨by decide +kernel,resume_is_a_transaction claudeSettings _ _ _ (by decide +kernel)⟩

def flushFails : List ResumeEvent :=
  resumeUpToFlush ++ calls [.fails,.ok,.ok,.ok,.ok,.ok] ++ resumeUpToFlush

def launchLog : List Entry := .checked 2 :: claudePayload.map (Entry.payload 2)

/-- Generation 2 is launched twice. -/
theorem flushFails_launches_twice :
    ¬ Always (resumeStep claudeSettings) Transactional (startResume claudeManifest (some ['m'])) flushFails := by
  intro h
  have hrun : (run (resumeStep claudeSettings) (startResume claudeManifest (some ['m'])) flushFails).map
      ResumeSession.log =
      some (launchLog ++ ([.accepted 2,.restored 2] : List Entry) ++ launchLog ++ ([.accepted 2] : List Entry)) := by
    decide +kernel
  obtain ⟨s,hs,hlog⟩ := Option.map_eq_some_iff.mp hrun
  have hentries := (always_iff.mp h flushFails [] s (List.append_nil _).symm hs).entries
  have htwice := hentries _ _ [] hlog
  exact htwice (by simp)

end Unpeel.Resume
