import Unpeel.Resume.ResumeInvariant

/-! # The steps of a resume keep the invariant

One lemma per part of `resume_agent_in_place`: preparation, staging, submission and the
ways back. Only the recorded generation moves the bound of the invariant.
-/
namespace Unpeel.Resume
open Manifest Runs List
variable {T : ℕ} {s : ResumeSession} {call : ResumeCall} {settings : HostSettings} {answer : Answer} {now : ℕ}
variable {error : ResumeError} {completion : Bool}

namespace ResumeCall.Inv
variable {stage : Stage}

theorem still (h : call.Inv T s) (hstage : call.stage = stage) (hq : stage.isSubmitting = false) :
    underWay s.log = false := by
  cases hu : underWay s.log with
  | false => rfl
  | true =>
    rw [← hstage,h.quiet hu] at hq
    cases hq

theorem early (h : call.Inv T s) (hstage : call.stage = stage) (hb : stage.beforeCommit = true) :
    call.expected = T ∧ call.generation = T + 1 :=
  h.expected (by rw [hstage,hb])

theorem known (h : call.Inv T s) (hstage : call.stage = stage) : stage.Knows T (footing s call) := by
  rw [← hstage]
  exact h.knows

end ResumeCall.Inv

theorem Standing.goOn (hs : Standing T s) (hexpected : call.expected = T ∧ call.generation = T + 1)
    (hmarker : (footing s call).MarkerKept) (hquiet : underWay s.log = false) {stage : Stage}
    (hknows : stage.Knows T (footing s call)) : ResumeInv T (s.goOn call stage) where
  standing := hs.congr rfl rfl rfl rfl
  holder := ⟨fun _ => hexpected,hmarker,hknows,fun hu => absurd hu (by simp [ResumeSession.goOn,hquiet])⟩

theorem Standing.finish (hs : Standing T s) (hquiet : underWay s.log = false) {result : Except ResumeError Unit}
    (hclean : Return.Clean ⟨result,call.submitted,call.undone,call.published,s.ground,s.shadow⟩) :
    ResumeInv T (s.finish call result) where
  standing := by
    refine ⟨⟨hs.entries,?_⟩,hs.generation,hs.observer,hs.accepted⟩
    intro r hr
    rcases mem_append.mp hr with hr | hr
    · exact hs.returns r hr
    · cases mem_singleton.mp hr
      exact hclean
  holder := hquiet

theorem Standing.fail (hs : Standing T s) (hquiet : underWay s.log = false) {error : ResumeError}
    (hlaunch : call.undone = true → s.ground.launch = s.shadow.launch) (hlatch : s.ground.latch = s.shadow.latch)
    (hmarker : call.undone = true → call.published = true ∨ s.ground.marker = s.shadow.marker) :
    ResumeInv T (s.finish call (.error error)) :=
  hs.finish hquiet fun _ _ hundone => ⟨hlaunch hundone,hlatch,hmarker hundone⟩

theorem Standing.rollBack (hs : Standing T s) (hexpected : call.expected = T ∧ call.generation = T + 1)
    (hmarker : (footing s call).MarkerKept) (hquiet : underWay s.log = false) {error : ResumeError}
    (hrestoring : (footing s call).Restoring T) : ResumeInv T (s.rollBack call error) := by
  unfold ResumeSession.rollBack
  split
  · rename_i hstaged
    exact hs.goOn hexpected hmarker hquiet ⟨hrestoring,hstaged⟩
  · rename_i hstaged
    have hnone : call.staged = none := by simpa using hstaged
    exact hs.fail hquiet hrestoring.launch hrestoring.latch fun _ => .inr (hmarker.unstaged hnone)

theorem ResumeInv.holds (h : ResumeInv T s) (hholder : s.holder = .resume call) : call.Inv T s := by
  have hc := h.holder
  rw [hholder] at hc
  exact hc

theorem Standing.fresh (hs : Standing T s) (hlatch : s.ground.latch = 0) : (footing s call).Fresh T := by
  intro generation hg
  rcases hs.accepted generation hg with hle | heq
  · exact hle
  · rw [heq,hlatch]
    exact Nat.zero_le T

theorem Standing.refuse (hs : Standing T s) (hc : call.Inv T s) (hquiet : underWay s.log = false)
    (hu : (footing s call).Untouched) (hstaged : call.staged = none) (error : ResumeError) :
    ResumeInv T (s.finish call (.error error)) :=
  hs.fail hquiet (fun _ => hu.launch) hu.latch fun _ => .inr (hc.marker.unstaged hstaged)

/-- The preparation only reads, and every refusal leaves the ground alone. -/
theorem prepareStep_inv (h : ResumeInv T s) (hholder : s.holder = .resume call) :
    ResumeInv T (prepareStep settings s call answer call.stage) := by
  have hs := h.standing
  have hc := h.holds hholder
  cases hstage : call.stage with
  | latching =>
    obtain ⟨hu,hstaged⟩ := hc.known hstage
    have hquiet := hc.still hstage rfl
    have hrefuse := hs.refuse hc hquiet hu hstaged
    simp only [prepareStep]
    split
    · exact hrefuse _
    · rename_i hlatch
      have hlatch : s.ground.latch = 0 := not_not.mp hlatch
      split
      · exact hrefuse _
      · split
        · exact hrefuse _
        · exact hs.goOn (hc.early hstage rfl) hc.marker hquiet ⟨⟨hu,hs.fresh hlatch,hlatch⟩,hstaged⟩
  | freshShell =>
    have hknows := hc.known hstage
    have hquiet := hc.still hstage rfl
    have hrefuse := hs.refuse hc hquiet hknows.1.toUntouched hknows.2
    simp only [prepareStep]
    split
    · split
      · exact hrefuse _
      · exact hs.goOn (hc.early hstage rfl) hc.marker hquiet hknows
    · exact hrefuse _
    · exact hrefuse _
  | relaunching =>
    have hknows := hc.known hstage
    have hquiet := hc.still hstage rfl
    simp only [prepareStep]
    split
    · rename_i command
      have hgo := @Standing.goOn T s { call with relaunchCommand := command } hs (hc.early hstage rfl) hc.marker hquiet
      exact hgo hknows
    · exact hs.refuse hc hquiet hknows.1.toUntouched hknows.2 _
  | secondShell | waitingShell =>
    have hknows := hc.known hstage
    have hquiet := hc.still hstage rfl
    have hrefuse := hs.refuse hc hquiet hknows.1.toUntouched hknows.2
    simp only [prepareStep]
    split
    · exact hs.goOn (hc.early hstage rfl) hc.marker hquiet hknows
    · exact hrefuse _
    · exact hrefuse _
  | completing =>
    have hknows := hc.known hstage
    have hquiet := hc.still hstage rfl
    simp only [prepareStep]
    split
    · have hs' : Standing T { s with complete := false } := hs.congr rfl rfl rfl rfl
      exact hs'.goOn (hc.early hstage rfl) hc.marker hquiet hknows
    · exact hs.refuse hc hquiet hknows.1.toUntouched hknows.2 _
  | _ => exact h

theorem Footing.Prepared.restoring {f : Footing} (h : f.Prepared T) : f.Restoring T :=
  ⟨h.fresh,fun _ => h.launch,h.latch⟩

theorem Standing.withGround (hs : Standing T s) {ground : Ground}
    (hlaunch : ground.launch.map Prod.fst = s.ground.launch.map Prod.fst) (hlatch : ground.latch = s.ground.latch) :
    Standing T { s with ground := ground } := by
  refine ⟨⟨hs.entries,hs.returns⟩,?_,hs.observer,?_⟩
  · intro l hl
    have hfst : l.1 ∈ s.ground.launch.map Prod.fst := by
      rw [← hlaunch]
      exact Option.mem_map_of_mem Prod.fst hl
    obtain ⟨k,hk,hkl⟩ := Option.map_eq_some_iff.mp hfst
    rw [← hkl]
    exact hs.generation k hk
  · intro generation hg
    rw [hlatch]
    exact hs.accepted generation hg

theorem setPending_generation (expected : ℕ) (manifest : HostedSessionManifest) :
    (setPending expected manifest).runtimeLaunchGeneration = manifest.runtimeLaunchGeneration := by
  unfold setPending
  split
  · rfl
  · rfl

/-- The update that publishes the latch either sets the flag or changes nothing the call
would have to undo. -/
theorem setPending_pending {expected : ℕ} {manifest : HostedSessionManifest}
    (h : (setPending expected manifest).runtimeLaunchPending = false) : setPending expected manifest = manifest := by
  unfold setPending at h ⊢
  split
  · rename_i hset
    rw [if_pos hset] at h
    cases h
  · rfl

theorem publishing_inv (h : ResumeInv T s) (hholder : s.holder = .resume call) (hstage : call.stage = .publishing) :
    ResumeInv T (stageStep s call answer now .publishing) := by
  have hs := h.standing
  have hc := h.holds hholder
  have hprepared : (footing s call).Prepared T := hc.known hstage
  have hquiet := hc.still hstage rfl
  have hexpected := hc.early hstage rfl
  unfold stageStep
  obtain ⟨-,hu⟩ | ⟨hnone,hu⟩ | ⟨m,hm,hu⟩ := updateManifestSession_cases s.ground.manifest now (answer = .ok)
    (setPending call.expected)
  · simp only [hu]
    exact hs.rollBack hexpected hc.marker hquiet hprepared.restoring
  · have hground : { s.ground with manifest := none } = s.ground := by rw [← hnone]
    simp only [hu]
    rw [hground]
    exact hs.rollBack hexpected hc.marker hquiet hprepared.restoring
  · have hlaunch : s.ground.launch = some (m.runtimeLaunchGeneration,m.runtimeLaunchPending) := by
      rw [Ground.launch,hm]
      rfl
    have hgeneration : m.runtimeLaunchGeneration = call.expected := by
      rw [hexpected.1]
      exact hs.generation _ hlaunch
    simp only [hu]
    set ground : Ground := { s.ground with manifest := some { setPending call.expected m with updatedAt := now } }
    have hafter : ground.launch = some (m.runtimeLaunchGeneration,(setPending call.expected m).runtimeLaunchPending) := by
      simp [ground,Ground.launch,setPending_generation]
    have hs' : Standing T { s with ground := ground } := hs.withGround (by rw [hafter,hlaunch]; rfl) rfl
    split
    · rename_i hunset
      have hunset : (setPending call.expected m).runtimeLaunchPending = false := by
        rw [setPending_generation,hgeneration] at hunset
        exact hunset.resolve_left (fun hne => hne rfl)
      have hsame : ground.launch = s.ground.launch := by rw [hafter,setPending_pending hunset,hlaunch]
      exact hs'.rollBack hexpected hc.marker hquiet
        ⟨hprepared.fresh,fun _ => hsame.trans hprepared.launch,hprepared.latch⟩
    · have hfst : ground.launch.map Prod.fst = s.shadow.launch.map Prod.fst := by
        have hshadow : s.shadow.launch = s.ground.launch := hprepared.launch.symm
        rw [hafter,hshadow,hlaunch]
        rfl
      exact hs'.goOn hexpected hc.marker hquiet
        ⟨hprepared.fresh,hfst,hprepared.unpending,hprepared.zero,hprepared.latch.symm.trans hprepared.zero⟩

/-- Staging, up to the flag on disk. -/
theorem stageStep_inv (h : ResumeInv T s) (hholder : s.holder = .resume call) :
    ResumeInv T (stageStep s call answer now call.stage) := by
  have hs := h.standing
  have hc := h.holds hholder
  cases hstage : call.stage with
  | stagingLook =>
    have hknows := hc.known hstage
    refine hs.goOn (hc.early hstage rfl) hc.marker (hc.still hstage rfl) ?_
    split
    · exact hknows
    · exact hknows.1
  | stagingMove =>
    obtain ⟨hprepared,hstaged⟩ := hc.known hstage
    have hquiet := hc.still hstage rfl
    have hmarker : s.ground.marker = s.shadow.marker := hc.marker.unstaged hstaged
    simp only [stageStep]
    split
    · rename_i marker hground
      have hs' : Standing T { s with ground := { s.ground with marker := none } } := hs.withGround rfl rfl
      have hgo := @Standing.goOn T _ { call with staged := some marker } hs' (hc.early hstage rfl)
      refine hgo (.inr ⟨rfl,?_⟩) hquiet ?_
      · rw [← hground]
        exact hmarker.symm
      · exact ⟨⟨hprepared.launch,hprepared.latch,hprepared.unpending⟩,hprepared.fresh,hprepared.zero⟩
    · exact hs.refuse hc hquiet hprepared.toUntouched hstaged _
  | foreground =>
    have hprepared : (footing s call).Prepared T := hc.known hstage
    have hquiet := hc.still hstage rfl
    have hexpected := hc.early hstage rfl
    simp only [stageStep]
    split
    · exact hs.goOn hexpected hc.marker hquiet hprepared
    · exact hs.rollBack hexpected hc.marker hquiet hprepared.restoring
    · exact hs.rollBack hexpected hc.marker hquiet hprepared.restoring
  | publishing => exact publishing_inv h hholder hstage
  | _ => exact h

theorem Standing.record (hs : Standing T s) {entry : Entry} (hallowed : entry.Allowed s.log)
    (haccepted : ∀ generation, entry = .accepted generation → generation ≤ T ∨ generation = s.ground.latch) :
    Standing T (s.record entry) := by
  refine ⟨⟨hs.entries.snoc hallowed,hs.returns⟩,hs.generation,hs.observer,?_⟩
  intro generation hg
  rcases mem_append.mp hg with hg | hg
  · exact hs.accepted generation hg
  · exact haccepted generation (mem_singleton.mp hg).symm

theorem Standing.type (hs : Standing T s) (generation : ℕ) (bytes : List UInt8) :
    Standing T { s with log := s.log ++ bytes.map (Entry.payload generation) } := by
  refine ⟨⟨hs.entries.append ?_,hs.returns⟩,hs.generation,hs.observer,?_⟩
  · intro front entry back he
    have hmem : entry ∈ bytes.map (Entry.payload generation) := by
      rw [he]
      exact mem_append_right _ mem_cons_self
    obtain ⟨byte,-,rfl⟩ := mem_map.mp hmem
    trivial
  · intro g hg
    rcases mem_append.mp hg with hg | hg
    · exact hs.accepted g hg
    · obtain ⟨byte,-,hbyte⟩ := mem_map.mp hg
      cases hbyte

theorem latchSetting_inv (h : ResumeInv T s) (hholder : s.holder = .resume call) (hstage : call.stage = .latchSetting) :
    ResumeInv T (submitStep settings s call answer now .latchSetting) := by
  have hs := h.standing
  have hc := h.holds hholder
  have hannounced : (footing s call).Announced T 0 := hc.known hstage
  have hexpected := hc.early hstage rfl
  have hzero : s.ground.latch = 0 := hannounced.latch
  rw [submitStep,if_pos hzero,hexpected.2]
  have hs' : Standing T { s with ground := { s.ground with latch := T + 1 } } := by
    refine ⟨⟨hs.entries,hs.returns⟩,hs.generation,hs.observer,?_⟩
    intro generation hg
    exact .inl (hannounced.fresh generation hg)
  exact hs'.goOn hexpected hc.marker (hc.still hstage rfl)
    ⟨hannounced.fresh,hannounced.launch,hannounced.unpending,rfl,hannounced.shadow⟩

theorem Standing.submit (hs : Standing T s) (hexpected : call.expected = T ∧ call.generation = T + 1)
    (hmarker : (footing s call).MarkerKept) (hannounced : (footing s call).Announced T (T + 1)) (rest : List UInt8) :
    ResumeInv T (s.goOn call (.submitting rest)) where
  standing := hs.congr rfl rfl rfl rfl
  holder := ⟨fun _ => hexpected,hmarker,hannounced,fun _ => rfl⟩

theorem lastForeground_inv (h : ResumeInv T s) (hholder : s.holder = .resume call)
    (hstage : call.stage = .lastForeground) : ResumeInv T (submitStep settings s call answer now .lastForeground) := by
  have hs := h.standing
  have hc := h.holds hholder
  have hannounced : (footing s call).Announced T (T + 1) := hc.known hstage
  have hexpected := hc.early hstage rfl
  have hquiet := hc.still hstage rfl
  simp only [submitStep]
  split
  · have hs' : Standing T (s.record (.checked call.generation)) := hs.record trivial (by simp)
    refine hs'.submit hexpected hc.marker ⟨?_,hannounced.launch,hannounced.unpending,hannounced.latch,hannounced.shadow⟩ _
    intro generation hg
    rcases mem_append.mp hg with hg | hg
    · exact hannounced.fresh generation hg
    · cases mem_singleton.mp hg
  · exact hs.goOn hexpected hc.marker hquiet hannounced
  · exact hs.goOn hexpected hc.marker hquiet hannounced

theorem Standing.notSubmitted (hs : Standing T s) (hexpected : call.expected = T ∧ call.generation = T + 1)
    (hmarker : (footing s call).MarkerKept) (hannounced : (footing s call).Announced T (T + 1)) :
    ResumeInv T ((s.record (.failed call.generation)).goOn call (.undoManifest .notSubmitted true)) := by
  have hs' : Standing T (s.record (.failed call.generation)) := hs.record trivial (by simp)
  refine hs'.goOn hexpected hmarker (underWay_snoc ..)
    ⟨?_,hannounced.launch,hannounced.unpending,hannounced.latch,hannounced.shadow⟩
  intro generation hg
  rcases mem_append.mp hg with hg | hg
  · exact hannounced.fresh generation hg
  · cases mem_singleton.mp hg

theorem accepted_mem_payload {log : List Entry} {generation g : ℕ} {bytes : List UInt8}
    (h : Entry.accepted g ∈ log ++ bytes.map (Entry.payload generation)) : Entry.accepted g ∈ log := by
  rcases mem_append.mp h with h | h
  · exact h
  · obtain ⟨byte,-,hbyte⟩ := mem_map.mp h
    cases hbyte

theorem submitting_inv {rest : List UInt8} (h : ResumeInv T s) (hholder : s.holder = .resume call)
    (hstage : call.stage = .submitting rest) :
    ResumeInv T (submitStep settings s call answer now (.submitting rest)) := by
  have hs := h.standing
  have hc := h.holds hholder
  have hannounced : (footing s call).Announced T (T + 1) := hc.known hstage
  have hexpected := hc.early hstage rfl
  simp only [submitStep]
  split
  · rename_i count
    split
    · have hs' := hs.type call.generation (rest.take count)
      have hfresh : ∀ g, Entry.accepted g ∈ s.log ++ (rest.take count).map (Entry.payload call.generation) → g ≤ T :=
        fun g hg => hannounced.fresh g (accepted_mem_payload hg)
      split
      · -- Nothing of this generation came before: the latch has kept every other call out.
        have hnew : Entry.accepted call.generation ∉ s.log ++ (rest.take count).map (Entry.payload call.generation) := by
          intro hmem
          have hle := hfresh _ hmem
          omega
        have hs'' := @Standing.record T _ hs' (.accepted call.generation) hnew (by
          intro generation he
          cases he
          exact .inr (hexpected.2.trans hannounced.latch.symm))
        have hgo := @Standing.goOn T _ { call with submitted := true } hs'' hexpected hc.marker (underWay_snoc ..)
        exact hgo ⟨rfl,hannounced.latch⟩
      · have hsubmit := @Standing.submit T _ { call with submitted := true } hs' hexpected hc.marker
        exact hsubmit ⟨hfresh,hannounced.launch,hannounced.unpending,hannounced.latch,hannounced.shadow⟩ _
    · exact hs.notSubmitted hexpected hc.marker hannounced
  · exact hs.notSubmitted hexpected hc.marker hannounced

theorem Standing.over (hs : Standing T s) (hmarker : (footing s call).MarkerKept) (hquiet : underWay s.log = false)
    {stage : Stage} (hstage : stage.beforeCommit = false) (hknows : stage.Knows T (footing s call)) :
    ResumeInv T (s.goOn call stage) where
  standing := hs.congr rfl rfl rfl rfl
  holder := ⟨fun hb => absurd (hstage.symm.trans hb) (by simp),hmarker,hknows,
    fun hu => absurd hu (by simp [ResumeSession.goOn,hquiet])⟩

/-- The recorded generation moves the bound: whatever was accepted is now of a generation
that the manifest has reached. -/
theorem committing_inv (h : ResumeInv T s) (hholder : s.holder = .resume call) (hstage : call.stage = .committing) :
    ∃ U, ResumeInv U (submitStep settings s call answer now .committing) := by
  have hs := h.standing
  have hc := h.holds hholder
  have htaken : (footing s call).Taken T := hc.known hstage
  have hexpected := hc.early hstage rfl
  have hquiet := hc.still hstage rfl
  unfold submitStep
  obtain ⟨-,hu⟩ | ⟨hnone,hu⟩ | ⟨m,hm,hu⟩ := updateManifestSession_cases s.ground.manifest now (answer = .ok)
    (commitLaunch call.relaunchCommand call.generation)
  · simp only [hu]
    exact ⟨T,hs.over hc.marker hquiet rfl htaken.submitted⟩
  · have hground : { s.ground with manifest := none } = s.ground := by rw [← hnone]
    simp only [hu]
    rw [hground]
    exact ⟨T,hs.over hc.marker hquiet rfl htaken.submitted⟩
  · simp only [hu]
    set ground : Ground :=
      { s.ground with manifest := some { commitLaunch call.relaunchCommand call.generation m with updatedAt := now } }
    have hs' : Standing (T + 1) { s with ground := ground } := by
      refine ⟨⟨hs.entries,hs.returns⟩,?_,?_,?_⟩
      · intro l hl
        cases hl
        exact hexpected.2
      · intro pending hp
        exact Nat.le_succ_of_le (hs.observer pending hp)
      · intro generation hg
        rcases hs.accepted generation hg with hle | heq
        · exact .inl (Nat.le_succ_of_le hle)
        · exact .inl (heq.trans htaken.latch).le
    exact ⟨T + 1,hs'.over hc.marker hquiet rfl htaken.submitted⟩

/-- From the latch to the return of a call that has relaunched its agent. -/
theorem submitStep_inv (h : ResumeInv T s) (hholder : s.holder = .resume call)
    (hflush : call.stage = .flushing → answer = .ok) :
    ∃ U, ResumeInv U (submitStep settings s call answer now call.stage) := by
  have hs := h.standing
  have hc := h.holds hholder
  cases hstage : call.stage with
  | latchSetting => exact ⟨T,latchSetting_inv h hholder hstage⟩
  | lastForeground => exact ⟨T,lastForeground_inv h hholder hstage⟩
  | submitting rest => exact ⟨T,submitting_inv h hholder hstage⟩
  | flushing =>
    have htaken : (footing s call).Taken T := hc.known hstage
    rw [submitStep,if_pos (hflush hstage)]
    exact ⟨T,hs.goOn (hc.early hstage rfl) hc.marker (hc.still hstage rfl) htaken⟩
  | committing => exact committing_inv h hholder hstage
  | storing result =>
    have hsubmitted : call.submitted = true := hc.known hstage
    have hquiet := hc.still hstage rfl
    have hs' : Standing T { s with runtimeGeneration := call.generation } := hs.congr rfl rfl rfl rfl
    refine ⟨T,?_⟩
    simp only [submitStep]
    split
    · exact hs'.over hc.marker hquiet rfl hsubmitted
    · exact hs'.finish hquiet fun _ hno => absurd (hsubmitted.symm.trans hno) (by simp)
  | discarding result =>
    have hsubmitted : call.submitted = true := hc.known hstage
    exact ⟨T,hs.finish (hc.still hstage rfl) fun _ hno => absurd (hsubmitted.symm.trans hno) (by simp)⟩
  | _ => exact ⟨T,h⟩

theorem Standing.cleared (hs : Standing T s) (hc : call.Inv T s) (hquiet : underWay s.log = false)
    (hexpected : call.expected = T ∧ call.generation = T + 1) (hannounced : (footing s call).Announced T (T + 1))
    {undone : Bool} {manifest : ManifestFile} (hfst : (Ground.launch { s.ground with manifest := manifest }).map Prod.fst = s.ground.launch.map Prod.fst)
    (hlaunch : undone = true → Ground.launch { s.ground with manifest := manifest } = s.shadow.launch) :
    ResumeInv T ({ s with ground := { s.ground with manifest := manifest } }.goOn { call with undone := undone }
      (.undoLatch error completion)) := by
  have hclearing : (footing { s with ground := { s.ground with manifest := manifest } }
      { call with undone := undone }).Clearing T :=
    ⟨hannounced.fresh,hlaunch,hannounced.latch,hannounced.shadow⟩
  exact @Standing.goOn T _ { call with undone := undone } (hs.withGround hfst rfl) hexpected hc.marker hquiet _ hclearing

theorem Footing.Announced.shadow_launch {f : Footing} {latch generation : ℕ} {pending : Bool}
    (h : f.Announced T latch) (hlaunch : f.ground.launch = some (generation,pending)) :
    f.shadow.launch = some (generation,false) := by
  have hfst := h.launch
  rw [hlaunch] at hfst
  obtain ⟨l,hl,hgeneration⟩ := Option.map_eq_some_iff.mp hfst.symm
  rw [hl]
  exact congrArg some (Prod.ext hgeneration (h.unpending l hl))

/-- The flag on disk goes back, if it can be written. -/
theorem undoManifest_inv (h : ResumeInv T s)
    (hholder : s.holder = .resume call) (hstage : call.stage = .undoManifest error completion) :
    ResumeInv T (undoStep s call answer now (.undoManifest error completion)) := by
  have hs := h.standing
  have hc := h.holds hholder
  have hannounced : (footing s call).Announced T (T + 1) := hc.known hstage
  have hexpected := hc.early hstage rfl
  have hquiet := hc.still hstage rfl
  simp only [undoStep]
  obtain ⟨hfail,hu⟩ | ⟨hnone,hu⟩ | ⟨m,hm,hu⟩ := updateManifestSession_cases s.ground.manifest now (answer = .ok)
    (clearPending call.expected)
  · rw [hu,hfail,Bool.and_false]
    exact hs.cleared hc hquiet hexpected hannounced rfl (by simp)
  · rw [hu]
    have hlaunch : s.ground.launch = none := by
      rw [Ground.launch,hnone]
      rfl
    have hshadow : s.shadow.launch = none := by
      have hfst := hannounced.launch
      simp only [footing,hlaunch,Option.map_none] at hfst
      exact Option.map_eq_none_iff.mp hfst.symm
    refine hs.cleared hc hquiet hexpected hannounced ?_ fun _ => ?_
    · rw [hlaunch]
      rfl
    · rw [hshadow]
      rfl
  · rw [hu]
    have hlaunch : s.ground.launch = some (m.runtimeLaunchGeneration,m.runtimeLaunchPending) := by
      rw [Ground.launch,hm]
      rfl
    have hgeneration : m.runtimeLaunchGeneration = call.expected := by
      rw [hexpected.1]
      exact hs.generation _ hlaunch
    have hshadow : s.shadow.launch = some (m.runtimeLaunchGeneration,false) := hannounced.shadow_launch hlaunch
    have hafter : Ground.launch { s.ground with manifest := some { clearPending call.expected m with updatedAt := now } } =
        some (m.runtimeLaunchGeneration,false) := by
      simp [Ground.launch,clearPending,hgeneration]
    refine hs.cleared hc hquiet hexpected hannounced ?_ fun _ => ?_
    · rw [hafter,hlaunch]
      rfl
    · rw [hafter,hshadow]

/-- The latch in memory goes back: it is the call's own. -/
theorem undoLatch_inv (h : ResumeInv T s)
    (hholder : s.holder = .resume call) (hstage : call.stage = .undoLatch error completion) :
    ResumeInv T (undoStep s call answer now (.undoLatch error completion)) := by
  have hs := h.standing
  have hc := h.holds hholder
  have hclearing : (footing s call).Clearing T := hc.known hstage
  have hexpected := hc.early hstage rfl
  have hquiet := hc.still hstage rfl
  have hown : s.ground.latch = call.generation := hclearing.latch.trans hexpected.2.symm
  have hground : (Other.clears call.generation).apply s.ground = { s.ground with latch := 0 } := by
    rw [Other.apply,if_pos hown]
  have hs' : Standing T { s with ground := { s.ground with latch := 0 } } :=
    ⟨⟨hs.entries,hs.returns⟩,hs.generation,hs.observer,fun g hg => .inl (hclearing.fresh g hg)⟩
  have hrestoring : (footing { s with ground := { s.ground with latch := 0 } } call).Restoring T :=
    ⟨hclearing.fresh,hclearing.launch,hclearing.shadow.symm⟩
  simp only [undoStep]
  rw [hground]
  split
  · exact hs'.goOn hexpected hc.marker hquiet hrestoring
  · exact hs'.rollBack hexpected hc.marker hquiet hrestoring

/-- The old marker goes back to its name: no payload has replaced its agent. -/
theorem undoMove_inv (h : ResumeInv T s) (hholder : s.holder = .resume call)
    (hstage : call.stage = .undoMove error) : ResumeInv T (undoStep s call answer now (.undoMove error)) := by
  have hs := h.standing
  have hc := h.holds hholder
  obtain ⟨hrestoring,hstaged⟩ := hc.known hstage
  have hquiet := hc.still hstage rfl
  simp only [undoStep]
  split
  · have hs' : Standing T { s with ground := { s.ground with marker := call.staged } } := hs.withGround rfl rfl
    have hnew : Entry.accepted call.generation ∉ s.log := by
      intro hmem
      have hle := hrestoring.fresh _ hmem
      rw [(hc.early hstage rfl).2] at hle
      omega
    have hs'' := @Standing.record T _ hs' (.restored call.generation) hnew (by simp)
    refine hs''.fail ?_ hrestoring.launch hrestoring.latch fun _ => ?_
    · exact (underWay_snoc ..).trans hquiet
    · exact (hc.marker.staged hstaged).imp_right And.right
  · exact @Standing.fail T s { call with undone := false } hs hquiet error (by simp) hrestoring.latch (by simp)

/-- The ways back. -/
theorem undoStep_inv (h : ResumeInv T s) (hholder : s.holder = .resume call) :
    ResumeInv T (undoStep s call answer now call.stage) := by
  have hs := h.standing
  have hc := h.holds hholder
  cases hstage : call.stage with
  | undoManifest error completion => exact undoManifest_inv h hholder hstage
  | undoLatch error completion => exact undoLatch_inv h hholder hstage
  | undoCompletion error =>
    have hrestoring : (footing s call).Restoring T := hc.known hstage
    have hs' : Standing T { s with complete := s.complete && answer ≠ Answer.ok } := hs.congr rfl rfl rfl rfl
    exact hs'.rollBack (hc.early hstage rfl) hc.marker (hc.still hstage rfl) hrestoring
  | undoLook error =>
    obtain ⟨hrestoring,hstaged⟩ := hc.known hstage
    have hexpected := hc.early hstage rfl
    have hquiet := hc.still hstage rfl
    simp only [undoStep]
    split
    · exact hs.goOn hexpected hc.marker hquiet ⟨hrestoring,hstaged⟩
    · -- A marker that stands in the place of a staged one was published meanwhile.
      rename_i hsome
      have hpublished : call.published = true :=
        (hc.marker.staged hstaged).resolve_right fun hkept => hsome (by simpa [footing] using hkept.1)
      exact hs.goOn hexpected hc.marker hquiet ⟨hrestoring,hpublished⟩
  | undoMove error => exact undoMove_inv h hholder hstage
  | undoDrop error =>
    obtain ⟨hrestoring,hpublished⟩ := hc.known hstage
    exact hs.fail (hc.still hstage rfl) hrestoring.launch hrestoring.latch fun _ => .inl hpublished
  | _ => exact h

end Unpeel.Resume
