import Unpeel.Foundation.Runs
import Unpeel.Panes.LayoutValidity

/-! # The operations keep the layout valid

Each operation on the layout is an edit of it, or fails and leaves it alone.
-/
namespace Unpeel.Panes
open Manifest Fallible PaneLayoutState List
variable {R : Type} [SplitArithmetic R] {s : PaneLayoutState R} {named : Pane → Prop}

section Checks
variable {groupId paneId sessionId : Text} {index : ℕ} {group : PaneGroup R}
variable {found : ℕ × PaneGroup R} {before after : List (PaneGroup R)}

theorem locationOfSession_eq_none : s.locationOfSession sessionId = none ↔ sessionId ∉ s.groups.flatMap (·.sessionIds) := by
  unfold locationOfSession
  rw [findSome?_eq_none_iff, mem_flatMap]
  push Not
  refine forall₂_congr fun group _ => ?_
  rw [Option.map_eq_none_iff, find?_eq_none, mem_sessionIds]
  push Not
  refine forall₂_congr fun pane _ => ?_
  cases pane.content with
  | session id | launcher projectId => simp [PaneContent.sessionId]

theorem checks_validateNewSession (s : PaneLayoutState R) (sessionId : Text) :
    Checks s (validateNewSession sessionId) fun _ => sessionId ≠ [] ∧ sessionId ∉ s.groups.flatMap (·.sessionIds) := by
  unfold validateNewSession
  split
  · exact atomic_throw
  · rename_i hne
    apply atomic_get
    split
    · exact atomic_throw
    · rename_i hnone
      refine atomic_pure ⟨rfl,hne,locationOfSession_eq_none.mp ?_⟩
      rwa [Bool.not_eq_true, Option.isSome_eq_false_iff, Option.isNone_iff_eq_none] at hnone

def GroupAt (s : PaneLayoutState R) (found : ℕ × PaneGroup R) : Prop :=
  ∃ before after, s.groups = before ++ found.2 :: after ∧ before.length = found.1

theorem findGroup_spec {groups : List (PaneGroup R)} (h : findGroup groupId groups = some found) :
    found.2.id = groupId ∧ ∃ before after, groups = before ++ found.2 :: after ∧ before.length = found.1 := by
  induction groups generalizing found with
  | nil => cases h
  | cons group groups ih =>
    rw [findGroup] at h
    split at h
    · rename_i hid
      cases h
      exact ⟨hid,[],groups,rfl,rfl⟩
    · obtain ⟨rest,hrest,rfl⟩ := Option.map_eq_some_iff.mp h
      obtain ⟨hid,before,after,hsplit,hlength⟩ := ih hrest
      exact ⟨hid,group :: before,after,by rw [hsplit]; rfl,congrArg (· + 1) hlength⟩

theorem checks_indexOfGroup (s : PaneLayoutState R) (groupId : Text) :
    Checks s (indexOfGroup groupId) fun found => GroupAt s found ∧ found.2.id = groupId := by
  unfold indexOfGroup
  apply atomic_get
  split
  · exact atomic_throw
  · rename_i found hfound
    obtain ⟨hid,hat⟩ := findGroup_spec hfound
    exact atomic_pure ⟨rfl,hat,hid⟩

theorem GroupAt.mem (h : GroupAt s found) : found.2 ∈ s.groups := by
  obtain ⟨before,after,hsplit,-⟩ := h
  rw [hsplit]
  exact mem_append_right _ mem_cons_self

theorem location_of_pane {location : PaneLocation} (h : s.locationOfPane paneId = some location) :
    ∃ group ∈ s.groups, group.id = location.groupId ∧ ∃ pane, group.root.leafOf paneId = some pane := by
  obtain ⟨group,hgroup,hfound⟩ := exists_of_findSome?_eq_some h
  obtain ⟨pane,hpane,rfl⟩ := Option.map_eq_some_iff.mp hfound
  exact ⟨group,hgroup,rfl,pane,hpane⟩

theorem checks_groupOfPane (hs : s.Valid) (paneId : Text) :
    Checks s (groupOfPane paneId) fun found => GroupAt s found ∧ ∃ pane, found.2.root.leafOf paneId = some pane := by
  apply atomic_get
  split
  · exact atomic_throw
  · rename_i location hlocation
    obtain ⟨group,hgroup,hid,pane,hpane⟩ := location_of_pane hlocation
    refine Atomic.mono (checks_indexOfGroup s location.groupId) ?_
    rintro found t ⟨rfl,hat,hfound⟩
    refine ⟨rfl,hat,pane,?_⟩
    rw [inj_on_of_nodup_map hs.ids hat.mem hgroup (hfound.trans hid.symm)]
    exact hpane

theorem checks_validateCapacity (s : PaneLayoutState R) (hgroup : group.Valid) :
    Checks s (validateCapacity group) fun _ =>
      sessionCount group.root.leaves + launcherCount group.root.leaves < maximumSessionLeafCount := by
  have hone := hgroup.shaped.launchers
  have hcount : sessionCount group.root.leaves + launcherCount group.root.leaves =
      group.root.sessionLeaves.length + if group.root.containsLauncher then 1 else 0 := by
    rw [length_sessionLeaves]
    cases hlauncher : group.root.containsLauncher with
    | true =>
      have hsome := containsLauncher_iff.mp hlauncher
      rw [if_pos rfl]
      omega
    | false =>
      rw [containsLauncher_eq_false.mp hlauncher]
      rfl
  rw [hcount]
  unfold validateCapacity
  by_cases hroom : group.root.sessionLeaves.length + (if group.root.containsLauncher then 1 else 0) < maximumSessionLeafCount
  · rw [if_pos hroom]
    exact atomic_pure ⟨rfl,hroom⟩
  · rw [if_neg hroom]
    exact atomic_throw

theorem setGroup_middle (h : s.groups = before ++ group :: after) (group' : PaneGroup R) :
    (setGroup before.length group' s).groups = before ++ group' :: after := by
  show s.groups.set before.length group' = _
  rw [h, set_append_right _ _ (Nat.le_refl _), Nat.sub_self, set_cons_zero]

theorem removeGroup_middle (h : s.groups = before ++ group :: after) :
    (removeGroup before.length s).groups = before ++ after := by
  show s.groups.eraseIdx before.length = _
  rw [h, eraseIdx_append_of_length_le (Nat.le_refl _), Nat.sub_self, eraseIdx_cons_zero]

end Checks

section Growing
variable {edge : PaneEdge} {newGroupId newRepresentativePaneId newPaneId : NewId} {sessionId projectId targetPaneId : Text}

/-- A new group of a Session and one more pane. -/
theorem Edit.created {representative pane : Pane} {representativeSessionId : Text} {ratio : R} {t : PaneLayoutState R}
    (hrepresentative : representative.content = .session representativeSessionId)
    (hgroupId : newGroupId.id.text ∉ s.groups.map (·.id)) (hids : representative.id ≠ pane.id)
    (hfresh : ∀ id ∈ [representative.id,pane.id], id ∉ s.groups.flatMap (·.paneIds))
    (hsessionIds : (representativeSessionId :: pane.content.sessionId.toList).Nodup)
    (hsessions : ∀ id ∈ representativeSessionId :: pane.content.sessionId.toList, id ∉ s.groups.flatMap (·.sessionIds))
    (ht : t = addGroup (.make newGroupId.id representative.id (PaneNode.beside edge ratio pane (.leaf representative)) none) s) :
    Edit named s t [] := by
  subst ht
  have hleaves : (PaneNode.beside edge ratio pane (.leaf representative)).leaves.Perm [pane,representative] :=
    PaneNode.leaves_beside edge ratio pane (.leaf representative)
  have hpanes : ((PaneNode.beside edge ratio pane (.leaf representative)).leaves.map (·.id)).Perm [representative.id,pane.id] :=
    (hleaves.map _).trans (List.Perm.swap ..)
  have hnames : ((PaneNode.beside edge ratio pane (.leaf representative)).leaves.filterMap (·.content.sessionId)).Perm
      (representativeSessionId :: pane.content.sessionId.toList) := by
    refine (hleaves.filterMap _).trans ?_
    rw [filterMap_cons, filterMap_cons, hrepresentative]
    cases pane.content.sessionId with
    | none => exact .refl _
    | some id => exact List.Perm.swap ..
  have hstable : (canonical representative.id).getD representative.id = representative.id := by
    rw [representative.stable]
    rfl
  have hshaped : Shaped [pane,representative] representative.id := by
    have hs : sessionCount [pane,representative] = sessionCount [pane] + 1 := by
      show List.countP _ [pane,representative] = List.countP _ [pane] + 1
      rw [countP_cons, countP_cons, countP_cons, hrepresentative]
      show 0 + 1 + _ = 0 + _ + 1
      omega
    have hl : launcherCount [pane,representative] = launcherCount [pane] := by
      show List.countP _ [pane,representative] = List.countP _ [pane]
      rw [countP_cons, countP_cons, countP_cons, hrepresentative]
      rfl
    have hone : sessionCount [pane] + launcherCount [pane] = 1 := by
      unfold sessionCount launcherCount
      rw [countP_singleton, countP_singleton]
      cases pane.content <;> rfl
    refine ⟨?_,?_,?_,representative,by simp,by rw [hrepresentative]; rfl,rfl⟩
    · have : maximumSessionLeafCount = 8 := rfl
      omega
    · omega
    · omega
  refine .added _ rfl ⟨?_,nofun⟩ ?_ ?_ hgroupId ?_ ?_
  · show Shaped _ ((canonical representative.id).getD representative.id)
    rw [hstable]
    exact hshaped.perm hleaves
  · refine hpanes.nodup_iff.mpr (nodup_cons.mpr ⟨?_,nodup_singleton _⟩)
    rw [mem_singleton]
    exact hids
  · exact hnames.nodup_iff.mpr hsessionIds
  · exact fun id hid => hfresh id (hpanes.mem_iff.mp hid)
  · exact fun id hid => hsessions id (hnames.mem_iff.mp hid)

def FreshGroup (s : PaneLayoutState R) (newGroupId newRepresentativePaneId newPaneId : NewId) : Prop :=
  newGroupId.id.text ∉ s.groups.map (·.id) ∧
    newRepresentativePaneId.id.text ∉ s.groups.flatMap (·.paneIds) ∧ newPaneId.id.text ∉ s.groups.flatMap (·.paneIds) ∧
    newRepresentativePaneId.id.text ≠ newPaneId.id.text

theorem FreshGroup.panes (h : FreshGroup s newGroupId newRepresentativePaneId newPaneId) :
    ∀ id ∈ [newRepresentativePaneId.id.text,newPaneId.id.text], id ∉ s.groups.flatMap (·.paneIds) := by
  intro id hid
  rcases mem_cons.mp hid with rfl | hid
  · exact h.2.1
  · rw [mem_singleton.mp hid]
    exact h.2.2.1

theorem edits_createGroup (hfresh : FreshGroup s newGroupId newRepresentativePaneId newPaneId)
    (representativeSessionId sessionId : Text) (edge : PaneEdge) :
    Atomic s (createGroup representativeSessionId sessionId edge newGroupId newRepresentativePaneId newPaneId)
      fun _ t => Edit named s t [] := by
  refine (checks_validateNewSession s sessionId).bind fun _ hsession => ?_
  split
  · exact atomic_throw
  · split
    · exact atomic_throw
    · rename_i hne
      apply atomic_get
      split
      · exact atomic_throw
      · rename_i hnone
        rw [Bool.not_eq_true, Option.isSome_eq_false_iff, Option.isNone_iff_eq_none] at hnone
        apply atomic_modify
        refine Edit.created rfl hfresh.1 hfresh.2.2.2 hfresh.panes ?_ ?_ rfl
        · refine nodup_cons.mpr ⟨?_,nodup_singleton _⟩
          exact fun hmem => hne (mem_singleton.mp hmem)
        · intro id hid
          rcases mem_cons.mp hid with rfl | hid
          · exact locationOfSession_eq_none.mp hnone
          · rw [mem_singleton.mp hid]
            exact hsession.2

theorem edits_insertSessionSplitting (hs : s.Valid) (hfresh : newPaneId.id.text ∉ s.groups.flatMap (·.paneIds))
    (sessionId targetPaneId : Text) (edge : PaneEdge) :
    Atomic s (insertSessionSplitting sessionId targetPaneId edge newPaneId) fun _ t => Edit named s t [] := by
  refine (checks_validateNewSession s sessionId).bind fun _ hsession => ?_
  refine (checks_groupOfPane hs targetPaneId).bind ?_
  rintro ⟨index,group⟩ ⟨hat,-⟩
  have hgroup := hs.groups group hat.mem
  refine (checks_validateCapacity s hgroup).bind fun _ hroom => ?_
  dsimp only
  split
  · exact atomic_throw
  · rename_i root hroot
    obtain ⟨before,after,hsplit,rfl⟩ := hat
    have hperm := (PaneNode.splittingLeaf_spec hroot).1
    apply atomic_modify
    refine Edit.inserted hs hsplit hperm ⟨(hgroup.shaped.addSession rfl hroom).perm hperm,by rintro _ ⟨⟩⟩ hfresh ?_
      (setGroup_middle hsplit _)
    rintro id ⟨⟩
    exact hsession.2

theorem edits_insertSessionBeside (hs : s.Valid) (hfresh : FreshGroup s newGroupId newRepresentativePaneId newPaneId)
    (sessionId targetSessionId : Text) (edge : PaneEdge) :
    Atomic s (insertSessionBeside sessionId targetSessionId edge newGroupId newRepresentativePaneId newPaneId)
      fun _ t => Edit named s t [] := by
  refine (checks_validateNewSession s sessionId).bind fun _ _ => ?_
  split
  · exact atomic_throw
  · split
    · exact atomic_throw
    · apply atomic_get
      split
      · exact edits_insertSessionSplitting hs hfresh.2.2.1 _ _ _
      · exact edits_createGroup hfresh _ _ _

theorem edits_insertSessionAtGroupEdge (hs : s.Valid) (hfresh : newPaneId.id.text ∉ s.groups.flatMap (·.paneIds))
    (sessionId : Text) (edge : PaneEdge) (groupId : Text) :
    Atomic s (insertSessionAtGroupEdge sessionId edge groupId newPaneId) fun _ t => Edit named s t [] := by
  refine (checks_validateNewSession s sessionId).bind fun _ hsession => ?_
  refine (checks_indexOfGroup s groupId).bind ?_
  rintro ⟨index,group⟩ ⟨hat,-⟩
  have hgroup := hs.groups group hat.mem
  refine (checks_validateCapacity s hgroup).bind fun _ hroom => ?_
  obtain ⟨before,after,hsplit,rfl⟩ := hat
  have hperm := fun ratio : R => PaneNode.leaves_beside edge ratio (Pane.make newPaneId.id (.session sessionId)) group.root
  apply atomic_modify
  refine Edit.inserted hs hsplit (hperm _) ⟨(hgroup.shaped.addSession rfl hroom).perm (hperm _),by rintro _ ⟨⟩⟩ hfresh ?_
    (setGroup_middle hsplit _)
  rintro id ⟨⟩
  exact hsession.2

theorem sessionLeaves_of_no_launcher {root : PaneNode R} (h : root.containsLauncher = false) : root.sessionLeaves = root.leaves := by
  apply filter_eq_self.mpr
  intro pane hpane
  have hnot : pane.content.isLauncher = false := by
    rw [PaneNode.containsLauncher, any_eq_false] at h
    exact Bool.eq_false_iff.mpr (h pane hpane)
  cases hcontent : pane.content with
  | session id => rfl
  | launcher projectId =>
    rw [hcontent] at hnot
    cases hnot

theorem edits_insertLauncherSplitting (hs : s.Valid) (hfresh : newPaneId.id.text ∉ s.groups.flatMap (·.paneIds))
    (projectId targetPaneId : Text) (edge : PaneEdge) :
    Atomic s (insertLauncherSplitting projectId targetPaneId edge newPaneId) fun _ t => Edit named s t [] := by
  refine (checks_groupOfPane hs targetPaneId).bind ?_
  rintro ⟨index,group⟩ ⟨hat,-⟩
  have hgroup := hs.groups group hat.mem
  refine (checks_validateCapacity s hgroup).bind fun _ hroom => ?_
  split
  · exact atomic_throw
  · rename_i hnone
    rw [Bool.not_eq_true] at hnone
    dsimp only
    split
    · exact atomic_throw
    · rename_i root hroot
      obtain ⟨before,after,hsplit,rfl⟩ := hat
      have hperm := (PaneNode.splittingLeaf_spec hroot).1
      have hshaped := (hgroup.shaped.addLauncher rfl hroom (containsLauncher_eq_false.mp hnone)).perm hperm
      apply atomic_modify
      refine Edit.inserted hs hsplit hperm ⟨hshaped,?_⟩ hfresh (fun _ hno => PaneContent.noConfusion hno) (setGroup_middle hsplit _)
      -- the tree from before has all the Sessions, since there was no launcher
      rintro _ ⟨⟩
      constructor
      · exact any_eq_true.mpr ⟨_,hperm.mem_iff.mpr mem_cons_self,rfl⟩
      · show group.root.leaves.Perm root.sessionLeaves
        have hsessions := hperm.filter (·.content.sessionId.isSome)
        rw [← sessionLeaves_of_no_launcher hnone]
        exact hsessions.symm

theorem edits_insertLauncherBeside (hs : s.Valid) (hfresh : FreshGroup s newGroupId newRepresentativePaneId newPaneId)
    (projectId targetSessionId : Text) (edge : PaneEdge) :
    Atomic s (insertLauncherBeside projectId targetSessionId edge newGroupId newRepresentativePaneId newPaneId)
      fun _ t => Edit named s t [] := by
  unfold insertLauncherBeside
  split
  · exact atomic_throw
  · apply atomic_get
    split
    · exact edits_insertLauncherSplitting hs hfresh.2.2.1 _ _ _
    · rename_i hnone
      apply atomic_modify
      refine Edit.created rfl hfresh.1 hfresh.2.2.2 hfresh.panes (nodup_singleton _) ?_ rfl
      intro id hid
      rw [mem_singleton.mp hid]
      exact locationOfSession_eq_none.mp hnone

/-- The leaf with the id, between those before it and those after it. -/
theorem leaves_updatingLeaf {root : PaneNode R} (hroot : PaneNode.Distinct root) {paneId : Text} {pane : Pane}
    (hpane : root.leafOf paneId = some pane) (transform : Pane → Pane) :
    ∃ rest, root.leaves.Perm (pane :: rest) ∧ (root.updatingLeaf paneId transform).leaves.Perm (transform pane :: rest) := by
  obtain ⟨hmem,hid⟩ := PaneNode.mem_of_leafOf hpane
  obtain ⟨before,after,hsplit⟩ := append_of_mem hmem
  have hothers : ∀ other ∈ before ++ after, other.id ≠ paneId := by
    have hdistinct : (root.leaves.map (·.id)).Nodup := hroot
    rw [hsplit, map_append, map_cons, List.nodup_middle, nodup_cons, ← map_append] at hdistinct
    intro other hother heq
    exact hdistinct.1 (mem_map.mpr ⟨other,hother,heq.trans hid.symm⟩)
  have hsame : ∀ others : List Pane, (∀ other ∈ others, other.id ≠ paneId) →
      others.map (fun other => if other.id = paneId then transform other else other) = others := by
    intro others hne
    conv_rhs => rw [← map_id others]
    exact map_congr_left fun other hother => if_neg (hne other hother)
  refine ⟨before ++ after,?_,?_⟩
  · rw [hsplit]
    exact perm_middle
  · unfold PaneNode.updatingLeaf
    rw [SplitTree.leaves_map, hsplit, map_append, map_cons, if_pos hid]
    rw [hsame before fun other hother => hothers other (mem_append_left _ hother)]
    rw [hsame after fun other hother => hothers other (mem_append_right _ hother)]
    exact perm_middle

/-- A Session in the place of the launcher. -/
theorem Edit.bound (hs : s.Valid) {before after : List (PaneGroup R)} {group : PaneGroup R} {t : PaneLayoutState R}
    (old : s.groups = before ++ group :: after) {root : PaneNode R} {pane bound : Pane} {rest : List Pane}
    {projectId sessionId : Text} (hpane : pane.content = .launcher projectId) (hbound : bound.content = .session sessionId)
    (hid : bound.id = pane.id) (hold : group.root.leaves.Perm (pane :: rest)) (hnew : root.leaves.Perm (bound :: rest))
    (hsession : sessionId ∉ s.groups.flatMap (·.sessionIds))
    (new : t.groups = before ++ { group with root := root, preLauncherRoot := none } :: after) : Edit named s t [] := by
  have hmem : group ∈ s.groups := by
    rw [old]
    exact mem_append_right _ mem_cons_self
  have hids : (root.leaves.map (·.id)).Perm group.paneIds := by
    refine (hnew.map _).trans ?_
    rw [map_cons, hid, ← map_cons]
    exact (hold.map _).symm
  have hnames : group.sessionIds.Perm (rest.filterMap (·.content.sessionId)) := by
    have hperm := hold.filterMap (·.content.sessionId)
    rwa [filterMap_cons_none (by rw [hpane]; rfl)] at hperm
  have hnames' : (root.leaves.filterMap (·.content.sessionId)).Perm (sessionId :: group.sessionIds) := by
    have hperm := hnew.filterMap (·.content.sessionId)
    rw [filterMap_cons_some (by rw [hbound]; rfl)] at hperm
    exact hperm.trans (hnames.symm.cons _)
  have hsessions : ∀ id ∈ group.sessionIds, id ∈ s.groups.flatMap (·.sessionIds) :=
    fun id hin => mem_flatMap.mpr ⟨group,hmem,hin⟩
  have hshaped : Shaped root.leaves group.representativePaneId := by
    obtain ⟨hcapacity,hlaunchers,hgrouped,found,hfound,hsome,hrepresentative⟩ := (hs.groups group hmem).shaped.perm hold.symm
    have hs : sessionCount (pane :: rest) = sessionCount rest := countP_cons_of_neg (by rw [hpane]; nofun)
    have hs' : sessionCount (bound :: rest) = sessionCount rest + 1 := countP_cons_of_pos (by rw [hbound]; rfl)
    have hl : launcherCount (pane :: rest) = launcherCount rest + 1 := countP_cons_of_pos (by rw [hpane]; rfl)
    have hl' : launcherCount (bound :: rest) = launcherCount rest := countP_cons_of_neg (by rw [hbound]; nofun)
    refine Shaped.perm ⟨?_,?_,?_,found,?_,hsome,hrepresentative⟩ hnew
    · omega
    · omega
    · omega
    · rcases mem_cons.mp hfound with rfl | hfound
      · rw [hpane] at hsome
        cases hsome
      · exact mem_cons_of_mem _ hfound
  refine .grown before after group _ old new ⟨rfl,⟨hshaped,nofun⟩,?_,?_,?_⟩ ?_ ?_
  · exact hids.nodup_iff.mpr (nodup_of_mem hs.panes hmem)
  · exact hnames'.nodup_iff.mpr (nodup_cons.mpr ⟨fun hin => hsession (hsessions _ hin),nodup_of_mem hs.sessions hmem⟩)
  · intro other hother
    obtain ⟨hin,hsome⟩ := mem_sessionLeaves.mp hother
    rcases mem_cons.mp (hold.mem_iff.mp hin) with rfl | hin
    · rw [hpane] at hsome
      cases hsome
    · exact .inl (mem_sessionLeaves.mpr ⟨hnew.mem_iff.mpr (mem_cons_of_mem _ hin),hsome⟩)
  · exact fun id hin => .inl (hids.mem_iff.mp hin)
  · intro id hin
    rcases mem_cons.mp (hnames'.mem_iff.mp hin) with rfl | hin
    · exact .inr hsession
    · exact .inl hin

theorem exists_launcher {content : PaneContent} (h : content.isLauncher = true) : ∃ projectId, content = .launcher projectId := by
  cases content with
  | session id => cases h
  | launcher projectId => exact ⟨projectId,rfl⟩

theorem edits_bindLauncher (hs : s.Valid) (paneId sessionId : Text) :
    Atomic s (bindLauncher paneId sessionId) fun _ t => Edit named s t [] := by
  refine (checks_validateNewSession s sessionId).bind fun _ hsession => ?_
  refine (checks_groupOfPane hs paneId).bind ?_
  rintro ⟨index,group⟩ ⟨hat,pane,hpane⟩
  have hdistinct := hs.distinct hat.mem
  dsimp only
  split
  · rename_i hlauncher
    obtain ⟨before,after,hsplit,rfl⟩ := hat
    have hin : pane.content.isLauncher = true := by
      unfold isLauncherOf at hlauncher
      rw [hpane] at hlauncher
      exact hlauncher
    obtain ⟨projectId,hcontent⟩ := exists_launcher hin
    obtain ⟨rest,hold,hnew⟩ := leaves_updatingLeaf hdistinct hpane fun pane => { pane with content := .session sessionId }
    apply atomic_set
    refine Edit.bound hs hsplit hcontent ?_ ?_ hold hnew hsession.2 (setGroup_middle hsplit _)
    · rfl
    · rfl
  · exact atomic_throw

end Growing

section Shrinking
variable {group : PaneGroup R} {paneId : Text}
variable {root newRoot : PaneNode R} {keep : Pane → Bool} {pane : Pane}

/-- What a group becomes when it keeps only some of its leaves. -/
theorem Revised.shrink (hgroup : group.Valid) (hpanes : group.paneIds.Nodup) (hsessions : group.sessionIds.Nodup)
    {group' : PaneGroup R} {root : PaneNode R} {keep : Pane → Bool} (hid : group'.id = group.id)
    (hleaves : root.leaves = group.root.leaves.filter keep) (hremains : root.canRemainGrouped = true)
    (hroot : group'.root.leaves.Perm root.leaves)
    (hrepresentative : group'.representativePaneId = group'.root.promoted group.representativePaneId)
    (hsnapshot : ∀ snapshot, group'.preLauncherRoot = some snapshot →
      group'.root.containsLauncher = true ∧ snapshot.leaves.Perm group'.root.sessionLeaves)
    (hnamed : ∀ pane ∈ group.root.sessionLeaves, keep pane = false → named pane) :
    Revised named group group' ∧ Within group' group := by
  have hsub : root.leaves.Sublist group.root.leaves := by
    rw [hleaves]
    exact filter_sublist
  have hids : group'.paneIds.Perm (root.leaves.map (·.id)) := hroot.map _
  have hnames : group'.sessionIds.Perm (root.leaves.filterMap (·.content.sessionId)) := hroot.filterMap _
  have hshaped : Shaped group'.root.leaves group'.representativePaneId := by
    obtain ⟨hcapacity,hlaunchers,hgrouped,-⟩ := (hgroup.shaped.shrink hsub hremains).perm hroot
    rw [hrepresentative]
    refine ⟨hcapacity,hlaunchers,hgrouped,promoted_spec ?_ _⟩
    omega
  refine ⟨⟨hid,⟨hshaped,hsnapshot⟩,?_,?_,?_⟩,?_,?_⟩
  · exact hids.nodup_iff.mpr (hpanes.sublist (hsub.map _))
  · exact hnames.nodup_iff.mpr (hsessions.sublist (hsub.filterMap _))
  · intro pane hpane
    obtain ⟨hin,hsome⟩ := mem_sessionLeaves.mp hpane
    cases hkeep : keep pane with
    | true =>
      refine .inl (mem_sessionLeaves.mpr ⟨hroot.mem_iff.mpr ?_,hsome⟩)
      rw [hleaves]
      exact mem_filter.mpr ⟨hin,hkeep⟩
    | false => exact .inr (hnamed pane hpane hkeep)
  · exact fun id hin => (hsub.map _).subset (hids.mem_iff.mp hin)
  · exact fun id hin => (hsub.filterMap _).subset (hnames.mem_iff.mp hin)

theorem sessionLeaves_filter {pruned : PaneNode R} (h : pruned.leaves = root.leaves.filter keep) :
    pruned.sessionLeaves = root.sessionLeaves.filter keep := by
  unfold PaneNode.sessionLeaves
  rw [h, filter_comm]

theorem perm_sessionLeaves_filter {snapshot pruned : PaneNode R}
    (hroot : newRoot.leaves = root.leaves.filter keep) (hpruned : pruned.leaves = snapshot.leaves.filter keep)
    (hperm : snapshot.leaves.Perm root.sessionLeaves) : pruned.leaves.Perm newRoot.sessionLeaves := by
  rw [hpruned, sessionLeaves_filter hroot]
  exact hperm.filter keep

theorem dropped_pane_iff {root' : PaneNode R} (h : PaneNode.Distinct root)
    (hperm : root'.leaves.Perm (root.leaves.filter keep)) (id : Text) :
    (id ∈ root.leaves.map (·.id) ∧ id ∉ root'.leaves.map (·.id)) ↔ ∃ pane ∈ root.leaves, keep pane = false ∧ pane.id = id := by
  constructor
  · rintro ⟨hin,hnot⟩
    obtain ⟨pane,hpane,rfl⟩ := mem_map.mp hin
    refine ⟨pane,hpane,Bool.eq_false_iff.mpr fun hkeep => hnot ?_,rfl⟩
    exact mem_map_of_mem (hperm.mem_iff.mpr (mem_filter.mpr ⟨hpane,hkeep⟩))
  · rintro ⟨pane,hpane,hdrop,rfl⟩
    refine ⟨mem_map_of_mem hpane,fun hin => ?_⟩
    obtain ⟨other,hother,hid⟩ := mem_map.mp hin
    obtain ⟨hother,hkeep⟩ := mem_filter.mp (hperm.mem_iff.mp hother)
    rw [h.eq hother hpane hid, hdrop] at hkeep
    cases hkeep

theorem eq_of_session {panes : List Pane} (h : (panes.filterMap (·.content.sessionId)).Nodup) {a b : Pane} (ha : a ∈ panes)
    (hb : b ∈ panes) {id : Text} (hida : a.content = .session id) (hidb : b.content = .session id) : a = b := by
  obtain ⟨before,after,rfl⟩ := append_of_mem ha
  rw [filterMap_append, filterMap_cons_some (b := id) (by rw [hida]; rfl), List.nodup_middle, nodup_cons,
    ← filterMap_append] at h
  rcases mem_middle.mp hb with rfl | hb
  · rfl
  · exact absurd (mem_filterMap.mpr ⟨b,hb,by rw [hidb]; rfl⟩) h.1

theorem dropped_session_iff {root' : PaneNode R} (h : (root.leaves.filterMap (·.content.sessionId)).Nodup)
    (hperm : root'.leaves.Perm (root.leaves.filter keep)) (id : Text) :
    (id ∈ root.leaves.filterMap (·.content.sessionId) ∧ id ∉ root'.leaves.filterMap (·.content.sessionId)) ↔
      ∃ pane ∈ root.leaves, keep pane = false ∧ pane.content = .session id := by
  have hcontent : ∀ pane : Pane, pane.content.sessionId = some id ↔ pane.content = .session id := by
    intro pane
    cases pane.content with
    | session other | launcher projectId => simp [PaneContent.sessionId]
  simp only [mem_filterMap, hcontent]
  constructor
  · rintro ⟨⟨pane,hpane,hsession⟩,hnot⟩
    refine ⟨pane,hpane,Bool.eq_false_iff.mpr fun hkeep => hnot ?_,hsession⟩
    exact ⟨pane,hperm.mem_iff.mpr (mem_filter.mpr ⟨hpane,hkeep⟩),hsession⟩
  · rintro ⟨pane,hpane,hdrop,hsession⟩
    refine ⟨⟨pane,hpane,hsession⟩,?_⟩
    rintro ⟨other,hother,hsession'⟩
    obtain ⟨hother,hkeep⟩ := mem_filter.mp (hperm.mem_iff.mp hother)
    rw [eq_of_session h hother hpane hsession' hsession, hdrop] at hkeep
    cases hkeep

theorem reportsOn_filter {group' : PaneGroup R} {report : PaneLayoutChange} (hpanes : group.paneIds.Nodup)
    (hsessions : group.sessionIds.Nodup) (hperm : group'.root.leaves.Perm (group.root.leaves.filter keep))
    (hid : report.groupId = group.id)
    (hremoved : ∀ id, id ∈ report.removedPaneIds ↔ ∃ pane ∈ group.root.leaves, keep pane = false ∧ pane.id = id)
    (hreleased : ∀ id, id ∈ report.releasedSessionIds ↔
      ∃ pane ∈ group.root.leaves, keep pane = false ∧ pane.content = .session id) : ReportsOn report group (some group') := by
  refine ⟨hid,fun id => ?_,fun id => ?_⟩
  · rw [hremoved, ← dropped_pane_iff hpanes hperm]
    refine and_congr_right fun _ => ⟨fun hnot other hother => ?_,fun hnot => hnot group' rfl⟩
    cases hother
    exact hnot
  · rw [hreleased, ← dropped_session_iff hsessions hperm]
    refine and_congr_right fun _ => ⟨fun hnot other hother => ?_,fun hnot => hnot group' rfl⟩
    cases hother
    exact hnot

theorem eq_of_launcher {panes : List Pane} (h : launcherCount panes ≤ 1) {a b : Pane} (ha : a ∈ panes) (hb : b ∈ panes)
    (hla : a.content.isLauncher = true) (hlb : b.content.isLauncher = true) : a = b := by
  have hlength : (panes.filter (·.content.isLauncher)).length ≤ 1 := by
    rw [← countP_eq_length_filter]
    exact h
  have ha' : a ∈ panes.filter (·.content.isLauncher) := mem_filter.mpr ⟨ha,hla⟩
  have hb' : b ∈ panes.filter (·.content.isLauncher) := mem_filter.mpr ⟨hb,hlb⟩
  cases hlist : panes.filter (·.content.isLauncher) with
  | nil =>
    rw [hlist] at ha'
    exact absurd ha' not_mem_nil
  | cons first rest =>
    rw [hlist] at hlength ha' hb'
    have hnil : rest = [] := eq_nil_of_length_eq_zero (by rw [length_cons] at hlength; omega)
    rw [hnil] at ha' hb'
    rw [mem_singleton.mp ha', mem_singleton.mp hb']

theorem session_or_launcher (content : PaneContent) : content.sessionId.isSome = !content.isLauncher := by
  cases content <;> rfl

theorem besides_launcher (hdistinct : PaneNode.Distinct root) (hone : launcherCount root.leaves ≤ 1)
    {other : Pane} (hpane : pane ∈ root.leaves) (hlauncher : pane.content.isLauncher = true) (hother : other ∈ root.leaves) :
    decide (other.id ≠ pane.id) = other.content.sessionId.isSome := by
  rw [session_or_launcher]
  cases hother' : other.content.isLauncher with
  | true =>
    rw [eq_of_launcher hone hother hpane hother' hlauncher]
    simp
  | false =>
    apply decide_eq_true
    intro hid
    rw [hdistinct.eq hother hpane hid, hlauncher] at hother'
    cases hother'

theorem filter_launcher (hdistinct : PaneNode.Distinct root) (hone : launcherCount root.leaves ≤ 1)
    (hpane : pane ∈ root.leaves) (hlauncher : pane.content.isLauncher = true) :
    root.leaves.filter (·.id ≠ pane.id) = root.sessionLeaves :=
  filter_congr fun _ hother => besides_launcher hdistinct hone hpane hlauncher hother

theorem withoutPane_root (hgroup : group.Valid) (hdistinct : PaneNode.Distinct group.root)
    (hpane : pane ∈ group.root.leaves) (hleaves : newRoot.leaves = group.root.leaves.filter (·.id ≠ pane.id)) :
    (withoutPane group pane newRoot).root.leaves.Perm newRoot.leaves := by
  unfold withoutPane
  split
  · rename_i hlauncher
    split
    · rename_i snapshot hsnapshot
      split
      · rw [hleaves, filter_launcher hdistinct hgroup.shaped.launchers hpane hlauncher]
        exact (hgroup.snapshot snapshot hsnapshot).2
      · exact .refl _
    · exact .refl _
  · exact .refl _

theorem PaneGroup.Valid.distinct_snapshot (hgroup : group.Valid) (hdistinct : PaneNode.Distinct group.root) {snapshot : PaneNode R}
    (hsnapshot : group.preLauncherRoot = some snapshot) : PaneNode.Distinct snapshot := by
  have hperm := ((hgroup.snapshot snapshot hsnapshot).2.map (·.id))
  exact hperm.nodup_iff.mpr (hdistinct.sublist (filter_sublist.map _))

theorem revised_withoutPane (hgroup : group.Valid) (hpanes : group.paneIds.Nodup) (hsessions : group.sessionIds.Nodup)
    (hpane : pane ∈ group.root.leaves)
    (hleaves : newRoot.leaves = group.root.leaves.filter (·.id ≠ pane.id)) (hremains : newRoot.canRemainGrouped = true) :
    Revised (fun other => other.id = pane.id) group (withoutPane group pane newRoot) ∧
      Within (withoutPane group pane newRoot) group := by
  have hdistinct : PaneNode.Distinct group.root := hpanes
  refine Revised.shrink hgroup hpanes hsessions ?_ hleaves hremains (withoutPane_root hgroup hdistinct hpane hleaves) ?_ ?_ ?_
  · unfold withoutPane
    split <;> rfl
  · unfold withoutPane
    split <;> rfl
  · intro snapshot hsnapshot
    unfold withoutPane at hsnapshot ⊢
    split at hsnapshot
    · cases hsnapshot
    rename_i hsession
    rw [if_neg hsession]
    obtain ⟨old,hold,hpruned⟩ := Option.bind_eq_some_iff.mp hsnapshot
    obtain ⟨hpruned,-⟩ := Option.filter_eq_some_iff.mp hpruned
    obtain ⟨hlauncher,hperm⟩ := hgroup.snapshot old hold
    refine ⟨?_,?_⟩
    · obtain ⟨launcher,hin,hlauncher⟩ := any_eq_true.mp hlauncher
      refine any_eq_true.mpr ⟨launcher,?_,hlauncher⟩
      rw [hleaves]
      refine mem_filter.mpr ⟨hin,decide_eq_true fun hid => ?_⟩
      rw [hdistinct.eq hin hpane hid] at hlauncher
      exact hsession hlauncher
    · exact perm_sessionLeaves_filter hleaves
        ((hgroup.distinct_snapshot hdistinct hold).leaves_removingLeaf hpruned) hperm
  · intro other _ hdrop
    rw [decide_eq_false_iff_not, not_not] at hdrop
    exact hdrop

theorem edits_detachPane (hs : s.Valid) (paneId : Text) :
    Atomic s (detachPane paneId) fun change t => Edit (fun other => other.id = paneId) s t [change] := by
  refine (checks_groupOfPane hs paneId).bind ?_
  rintro ⟨index,group⟩ ⟨hat,-⟩
  have hmem : group ∈ s.groups := hat.mem
  obtain ⟨before,after,hsplit,rfl⟩ := hat
  dsimp only
  split
  · exact atomic_throw
  · rename_i pane hpane
    obtain ⟨hin,rfl⟩ := PaneNode.mem_of_leafOf hpane
    split
    · apply atomic_modify
      exact Edit.dissolved hs hsplit (removeGroup_middle hsplit)
    · rename_i newRoot hnewRoot
      obtain ⟨hnewRoot,hremains⟩ := Option.filter_eq_some_iff.mp hnewRoot
      have hdistinct := hs.distinct hmem
      have hgroup := hs.groups group hmem
      have hleaves := hdistinct.leaves_removingLeaf hnewRoot
      have hperm := withoutPane_root hgroup hdistinct hin hleaves
      rw [hleaves] at hperm
      apply atomic_modify
      refine Edit.single hs hsplit (some (withoutPane group pane newRoot)) ?_ ?_ ?_
      · rw [setGroup_middle hsplit, Option.toList_some, append_assoc, singleton_append]
      · rintro _ ⟨⟩
        exact revised_withoutPane hgroup (nodup_of_mem hs.panes hmem) (nodup_of_mem hs.sessions hmem) hin hleaves hremains
      · intro report hreport
        rw [mem_singleton.mp hreport]
        refine reportsOn_filter (nodup_of_mem hs.panes hmem) (nodup_of_mem hs.sessions hmem) hperm rfl ?_ ?_
        · intro id
          rw [mem_singleton]
          constructor
          · rintro rfl
            exact ⟨pane,hin,by simp,rfl⟩
          · rintro ⟨other,-,hdrop,rfl⟩
            rwa [decide_eq_false_iff_not, not_not] at hdrop
        · intro id
          rw [Option.mem_toList]
          constructor
          · intro hsession
            refine ⟨pane,hin,by simp,?_⟩
            cases hcontent : pane.content with
            | session other =>
              rw [hcontent] at hsession
              rw [Option.some.inj hsession]
            | launcher projectId =>
              rw [hcontent] at hsession
              cases hsession
          · rintro ⟨other,hother,hdrop,hsession⟩
            rw [decide_eq_false_iff_not, not_not] at hdrop
            rw [← hdistinct.eq hother hin hdrop, hsession]
            rfl

theorem edits_removeLauncher (hs : s.Valid) (paneId : Text) :
    Atomic s (removeLauncher paneId) fun change t => Edit (fun other => other.id = paneId) s t [change] := by
  refine (checks_groupOfPane hs paneId).bind ?_
  rintro ⟨index,group⟩ -
  dsimp only
  split
  · exact edits_detachPane hs paneId
  · exact atomic_throw

theorem edits_closeGroup (hs : s.Valid) (groupId : Text) :
    Atomic s (closeGroup groupId) fun change t => Edit named s t [change] := by
  refine (checks_indexOfGroup s groupId).bind ?_
  rintro ⟨index,group⟩ ⟨hat,-⟩
  obtain ⟨before,after,hsplit,rfl⟩ := hat
  apply atomic_modify
  exact Edit.dissolved hs hsplit (removeGroup_middle hsplit)

end Shrinking

section Arranging

theorem edits_resizeSplit [DecidableEq R] (hs : s.Valid) (groupId : Text) (path : List Branch) (ratio : R) :
    Atomic s (resizeSplit groupId path ratio) fun _ t => Edit named s t [] := by
  unfold resizeSplit
  split
  · refine (checks_indexOfGroup s groupId).bind ?_
    rintro ⟨index,group⟩ ⟨hat,-⟩
    obtain ⟨before,after,hsplit,rfl⟩ := hat
    dsimp only
    split
    · rename_i label left right hnode
      split
      · exact atomic_pure (Edit.refl hs)
      · obtain ⟨front,back,hold,hnew⟩ := SplitTree.leaves_replaceAt hnode
        apply atomic_modify
        refine Edit.rearranged hs hsplit ?_ (setGroup_middle hsplit _)
        rw [hnew, hold]
        exact .refl _
    · exact atomic_throw
  · exact atomic_throw

theorem edits_equalize (hs : s.Valid) (groupId : Text) : Atomic s (equalize groupId) fun _ t => Edit named s t [] := by
  refine (checks_indexOfGroup s groupId).bind ?_
  rintro ⟨index,group⟩ ⟨hat,-⟩
  obtain ⟨before,after,hsplit,rfl⟩ := hat
  apply atomic_set
  refine Edit.rearranged hs hsplit ?_ (setGroup_middle hsplit _)
  rw [PaneNode.leaves_equalized]

theorem edits_swapPanes (hs : s.Valid) (paneId otherPaneId : Text) :
    Atomic s (swapPanes paneId otherPaneId) fun _ t => Edit named s t [] := by
  apply atomic_get
  split
  · exact atomic_throw
  · split
    · exact atomic_throw
    · split
      · split
        · exact atomic_pure (Edit.refl hs)
        · rename_i hne
          refine (checks_indexOfGroup s _).bind ?_
          rintro ⟨index,group⟩ ⟨hat,-⟩
          have hdistinct := hs.distinct hat.mem
          obtain ⟨before,after,hsplit,rfl⟩ := hat
          dsimp only
          split
          · rename_i first second firstPath secondPath hfirst hsecond hfirstPath hsecondPath
            apply atomic_modify
            refine Edit.rearranged hs hsplit ?_ (setGroup_middle hsplit _)
            exact hdistinct.leaves_swap hne hfirst hsecond hfirstPath hsecondPath
          · exact atomic_throw
      · exact atomic_throw

end Arranging

section Reconciling
variable {group : PaneGroup R} {root : PaneNode R} {eligible : Text → Bool}

def notAmong (panes : List Pane) (pane : Pane) : Bool := !panes.any (·.id = pane.id)

theorem removingLeaves_bind (node : Option (PaneNode R)) (panes : List Pane) :
    PaneNode.removingLeaves node panes = node.bind fun root => PaneNode.removingLeaves (some root) panes := by
  cases node with
  | some root => rfl
  | none =>
    induction panes with
    | nil => rfl
    | cons pane panes ih => exact ih

theorem PaneNode.Distinct.removingLeaves (h : PaneNode.Distinct root) (panes : List Pane) :
    PaneNode.removingLeaves (some root) panes = root.prune (notAmong panes) := by
  induction panes generalizing root with
  | nil => exact (SplitTree.prune_eq_self fun _ _ => rfl).symm
  | cons pane panes ih =>
    have hfirst : PaneNode.removingLeaves (some root) (pane :: panes) =
        PaneNode.removingLeaves (root.removingLeaf pane.id) panes := rfl
    have hrest : ∀ pruned, root.prune (·.id ≠ pane.id) = some pruned →
        PaneNode.removingLeaves (some pruned) panes = pruned.prune (notAmong panes) := fun pruned hpruned => ih (h.prune hpruned)
    rw [hfirst, removingLeaves_bind, h.removingLeaf, Option.bind_congr fun pruned hpruned => hrest pruned hpruned,
      SplitTree.prune_prune]
    refine SplitTree.prune_congr fun other _ => ?_
    unfold notAmong
    rw [any_cons, Bool.not_or, eq_comm, ← decide_not]
    congr 1
    exact decide_eq_decide.mpr ne_comm

theorem notAmong_ineligible (h : PaneNode.Distinct root) {pane : Pane} (hpane : pane ∈ root.leaves) :
    notAmong (ineligibleLeaves eligible root) pane = false ↔ ∃ id, pane.content = .session id ∧ eligible id = false := by
  unfold notAmong
  rw [Bool.not_eq_false', any_eq_true]
  constructor
  · rintro ⟨other,hother,hid⟩
    obtain ⟨hother,hsession⟩ := mem_filter.mp hother
    rw [h.eq (mem_sessionLeaves.mp hother).1 hpane (of_decide_eq_true hid)] at hsession
    cases hcontent : pane.content with
    | session id =>
      rw [hcontent] at hsession
      exact ⟨id,rfl,by simpa [PaneContent.sessionId] using hsession⟩
    | launcher projectId =>
      rw [hcontent] at hsession
      cases hsession
  · rintro ⟨id,hcontent,hineligible⟩
    refine ⟨pane,mem_filter.mpr ⟨mem_sessionLeaves.mpr ⟨hpane,by rw [hcontent]; rfl⟩,?_⟩,decide_eq_true rfl⟩
    rw [hcontent]
    simpa [PaneContent.sessionId] using hineligible

def Ineligible (eligible : Text → Bool) (pane : Pane) : Prop := ∃ id, pane.content = .session id ∧ eligible id = false

theorem revised_withoutSessions (hgroup : group.Valid) (hpanes : group.paneIds.Nodup) (hsessions : group.sessionIds.Nodup)
    {newRoot : PaneNode R} (hleaves : newRoot.leaves = group.root.leaves.filter (notAmong (ineligibleLeaves eligible group.root)))
    (hremains : newRoot.canRemainGrouped = true) :
    Revised (Ineligible eligible) group (withoutSessions eligible group newRoot) ∧
      Within (withoutSessions eligible group newRoot) group := by
  have hdistinct : PaneNode.Distinct group.root := hpanes
  refine Revised.shrink hgroup hpanes hsessions rfl hleaves hremains (.refl _) rfl ?_ ?_
  · intro snapshot hsnapshot
    unfold withoutSessions at hsnapshot ⊢
    split at hsnapshot
    swap
    · cases hsnapshot
    rename_i hlauncher
    obtain ⟨old,hold,hpruned⟩ := Option.bind_eq_some_iff.mp hsnapshot
    obtain ⟨hpruned,-⟩ := Option.filter_eq_some_iff.mp hpruned
    rw [(hgroup.distinct_snapshot hdistinct hold).removingLeaves] at hpruned
    exact ⟨hlauncher,perm_sessionLeaves_filter hleaves (SplitTree.leaves_prune hpruned) (hgroup.snapshot old hold).2⟩
  · intro pane hpane hdrop
    exact (notAmong_ineligible hdistinct (mem_sessionLeaves.mp hpane).1).mp hdrop

variable [DecidableEq R]

/-- What happens to one group. -/
theorem reconcileGroup_cases (hgroup : group.Valid) (hpanes : group.paneIds.Nodup) (hsessions : group.sessionIds.Nodup)
    (eligible : Text → Bool) :
    (∀ group', (reconcileGroup eligible group).1 = some group' → Revised (Ineligible eligible) group group' ∧ Within group' group) ∧
      ∀ report, (reconcileGroup eligible group).2 = some report → ReportsOn report group (reconcileGroup eligible group).1 := by
  have hdistinct : PaneNode.Distinct group.root := hpanes
  unfold reconcileGroup
  dsimp only
  split
  · refine ⟨nofun,?_⟩
    rintro _ ⟨⟩
    exact ⟨rfl,fun id => ⟨fun h => ⟨h,nofun⟩,fun h => h.1⟩,fun id => ⟨fun h => ⟨h,nofun⟩,fun h => h.1⟩⟩
  · rename_i newRoot hnewRoot
    obtain ⟨hnewRoot,hremains⟩ := Option.filter_eq_some_iff.mp hnewRoot
    rw [hdistinct.removingLeaves] at hnewRoot
    have hleaves := SplitTree.leaves_prune hnewRoot
    refine ⟨?_,?_⟩
    · rintro _ ⟨⟩
      exact revised_withoutSessions hgroup hpanes hsessions hleaves hremains
    · intro report hreport
      split at hreport <;> cases hreport
      have hperm : (withoutSessions eligible group newRoot).root.leaves.Perm
          (group.root.leaves.filter (notAmong (ineligibleLeaves eligible group.root))) := by
        rw [← hleaves]
        exact .refl _
      refine reportsOn_filter hpanes hsessions hperm rfl ?_ ?_
      · intro id
        rw [← dropped_pane_iff hdistinct hperm, mem_filter]
        refine and_congr_right fun _ => ?_
        rw [Bool.not_eq_true', contains_eq_mem, decide_eq_false_iff_not]
        rfl
      · intro id
        rw [mem_filter, mem_sessionIds, Bool.not_eq_true']
        constructor
        · rintro ⟨⟨pane,hpane,hcontent⟩,hineligible⟩
          exact ⟨pane,hpane,(notAmong_ineligible hdistinct hpane).mpr ⟨id,hcontent,hineligible⟩,hcontent⟩
        · rintro ⟨pane,hpane,hdrop,hcontent⟩
          obtain ⟨other,hother,hineligible⟩ := (notAmong_ineligible hdistinct hpane).mp hdrop
          rw [hcontent] at hother
          cases hother
          exact ⟨⟨pane,hpane,hcontent⟩,hineligible⟩

theorem edits_reconcile (hs : s.Valid) (eligible : Text → Bool) :
    Atomic s (reconcile eligible) fun changes t => Edit (Ineligible eligible) s t changes := by
  have hcases := fun group (hg : group ∈ s.groups) =>
    reconcileGroup_cases (hs.groups group hg) (nodup_of_mem hs.panes hg) (nodup_of_mem hs.sessions hg) eligible
  apply atomic_get
  apply atomic_modify
  refine .shrunk (fun group => (reconcileGroup eligible group).1) _ rfl (fun group hg => (hcases group hg).1) ?_
  intro report hreport
  obtain ⟨group,hg,hreport⟩ := mem_filterMap.mp hreport
  exact ⟨group,hg,(hcases group hg).2 report hreport⟩

end Reconciling

section Calls
variable [DecidableEq R]

def FreshIds (s : PaneLayoutState R) : LayoutCall R → Prop
  | .createGroup _ _ _ group representative pane | .insertSessionBeside _ _ _ group representative pane
  | .insertLauncherBeside _ _ _ group representative pane => FreshGroup s group representative pane
  | .insertSessionSplitting _ _ _ pane | .insertSessionAtGroupEdge _ _ _ pane | .insertLauncherSplitting _ _ _ pane =>
    pane.id.text ∉ s.groups.flatMap (·.paneIds)
  | _ => True

def Names : LayoutCall R → Pane → Prop
  | .detachPane paneId, pane | .removeLauncher paneId, pane => pane.id = paneId
  | .reconcile eligible, pane => Ineligible eligible pane
  | _, _ => False

theorem call_edits (hs : s.Valid) {call : LayoutCall R} (hfresh : FreshIds s call) :
    Atomic s call.changes fun changes t => Edit (Names call) s t changes := by
  cases call with
  | createGroup representative session edge group representativePane pane =>
    exact (edits_createGroup hfresh representative session edge).map fun _ _ h => h
  | insertSessionBeside session target edge group representativePane pane =>
    exact (edits_insertSessionBeside hs hfresh session target edge).map fun _ _ h => h
  | insertSessionSplitting session target edge pane =>
    exact (edits_insertSessionSplitting hs hfresh session target edge).map fun _ _ h => h
  | insertSessionAtGroupEdge session edge group pane =>
    exact (edits_insertSessionAtGroupEdge hs hfresh session edge group).map fun _ _ h => h
  | insertLauncherSplitting project target edge pane =>
    exact (edits_insertLauncherSplitting hs hfresh project target edge).map fun _ _ h => h
  | insertLauncherBeside project target edge group representativePane pane =>
    exact (edits_insertLauncherBeside hs hfresh project target edge).map fun _ _ h => h
  | bindLauncher pane session => exact (edits_bindLauncher hs pane session).map fun _ _ h => h
  | removeLauncher pane => exact (edits_removeLauncher hs pane).map fun _ _ h => h
  | detachPane pane => exact (edits_detachPane hs pane).map fun _ _ h => h
  | closeGroup group => exact (edits_closeGroup hs group).map fun _ _ h => h
  | resizeSplit group path ratio => exact (edits_resizeSplit hs group path ratio).map fun _ _ h => h
  | equalize group => exact (edits_equalize hs group).map fun _ _ h => h
  | swapPanes pane other => exact (edits_swapPanes hs pane other).map fun _ _ h => h
  | reconcile eligible => exact edits_reconcile hs eligible

def layoutStep (s : PaneLayoutState R) (call : LayoutCall R) : Option (PaneLayoutState R) := some (perform call.changes s).2

/-- The layout stays valid, nothing goes or moves that should not, an error changes nothing,
and the reports are exact. -/
def Respects (s : PaneLayoutState R) (call : LayoutCall R) : Prop :=
  (perform call.changes s).2.Valid ∧ StaysPut (Names call) s (perform call.changes s).2 ∧
    match (perform call.changes s).1 with
    | .error _ => (perform call.changes s).2 = s
    | .ok changes => ∀ change ∈ changes, Exact s (perform call.changes s).2 change

theorem respects_of_fresh (hs : s.Valid) {call : LayoutCall R} (hfresh : FreshIds s call) : Respects s call := by
  have hedits := call_edits hs hfresh s rfl
  unfold Respects
  revert hedits
  rcases perform call.changes s with ⟨outcome,t⟩
  intro hedits
  cases outcome with
  | error e =>
    obtain rfl : t = s := hedits
    exact ⟨hs,Edit.staysPut hs (Edit.refl hs),rfl⟩
  | ok changes =>
    have hedit : Edit (Names call) s t changes := hedits
    exact ⟨hedit.valid hs,hedit.staysPut hs,hedit.exact hs⟩

end Calls

/-- From a valid layout, whatever the operations and their order. -/
theorem layout_operations_keep_it_valid [DecidableEq R] (s : PaneLayoutState R) (hs : s.Valid) (calls : List (LayoutCall R))
    (h : Runs.Guarded layoutStep FreshIds s calls) :
    Runs.Always layoutStep PaneLayoutState.Valid s calls ∧ Runs.Guarded layoutStep Respects s calls := by
  have hstep : ∀ (s : PaneLayoutState R) call t, s.Valid → FreshIds s call → layoutStep s call = some t → t.Valid := by
    rintro s call _ hs hfresh ⟨⟩
    exact (respects_of_fresh hs hfresh).1
  constructor
  · exact Runs.always_of_guarded (P := PaneLayoutState.Valid) hstep (fun _ hs => hs) hs h
  · exact Runs.Guarded.mono hstep (fun _ _ hs hfresh => respects_of_fresh hs hfresh) hs h

section Opening

def stableIdText (digit : Char) : Text := "00000000-0000-4000-8000-00000000000".toList ++ [digit]

theorem canonical_stableIdText (digit : ℕ) :
    canonical (stableIdText ("0123456789abcdef".toList[digit]?.getD '0')) =
      some (stableIdText ("0123456789abcdef".toList[digit]?.getD '0')) := by
  have hall : ("0123456789abcdef".toList.all fun c => decide (canonical (stableIdText c) = some (stableIdText c))) = true := by
    decide +kernel
  rw [all_eq_true] at hall
  cases h : "0123456789abcdef".toList[digit]? with
  | none => exact of_decide_eq_true (hall '0' (by decide +kernel))
  | some c => exact of_decide_eq_true (hall c (mem_of_getElem? h))

def stableId (digit : ℕ) : StableId := ⟨_,canonical_stableIdText digit⟩

def newId (digit : ℕ) : NewId := ⟨none,stableId digit⟩

def openingCalls : List (LayoutCall ℚ) :=
  [.createGroup "chat".toList "shell".toList .right (newId 1) (newId 2) (newId 3),
   .insertLauncherBeside "project".toList "chat".toList .down (newId 4) (newId 5) (newId 6)]

theorem opening_keeps_the_layout_valid :
    Runs.Guarded layoutStep FreshIds (⟨[]⟩ : PaneLayoutState ℚ) openingCalls ∧
      Runs.Guarded layoutStep Respects (⟨[]⟩ : PaneLayoutState ℚ) openingCalls := by
  have hempty : (⟨[]⟩ : PaneLayoutState ℚ).Valid := ⟨nodup_nil,nodup_nil,nodup_nil,nofun⟩
  have h : Runs.Guarded layoutStep FreshIds (⟨[]⟩ : PaneLayoutState ℚ) openingCalls := by
    rintro _ ⟨⟩
    refine ⟨⟨not_mem_nil,not_mem_nil,not_mem_nil,by decide⟩,?_⟩
    rintro _ ⟨⟩
    refine ⟨⟨?_,?_,?_,?_⟩,trivial⟩
    all_goals decide +kernel
  exact ⟨h,(layout_operations_keep_it_valid _ hempty openingCalls h).2⟩

end Opening

end Unpeel.Panes
