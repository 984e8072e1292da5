import Unpeel.Panes.DurableLayout

/-! # A launcher that is given up

While a launcher is open, each pane that is detached and each Session that goes does to the
layout what it would do without the launcher. So the launcher can be taken out before these
changes or after them, and what is stored never shows it.
-/
namespace Unpeel.Panes
open Manifest Fallible PaneLayoutState List
variable {R : Type} [SplitArithmetic R] {s : PaneLayoutState R} {group : PaneGroup R} {paneId launcherId : Text}

section Detaching
variable {groups : List (PaneGroup R)}

structure Intact (group : PaneGroup R) : Prop where
  valid : group.Valid
  panes : group.paneIds.Nodup
  sessions : group.sessionIds.Nodup

theorem PaneLayoutState.Valid.intact (hs : s.Valid) (hg : group ∈ s.groups) : Intact group :=
  ⟨hs.groups group hg,nodup_of_mem hs.panes hg,nodup_of_mem hs.sessions hg⟩

def detached (paneId : Text) (group : PaneGroup R) : Option (PaneGroup R) :=
  match group.root.leafOf paneId with
  | none => some group
  | some pane => ((group.root.removingLeaf paneId).filter PaneNode.canRemainGrouped).map (withoutPane group pane)

theorem detached_of_absent (h : paneId ∉ group.paneIds) : detached paneId group = some group := by
  have hnone : group.root.leafOf paneId = none :=
    PaneNode.leafOf_eq_none.mpr fun pane hpane hid => h (mem_map.mpr ⟨pane,hpane,hid⟩)
  unfold detached
  rw [hnone]

theorem mem_paneIds {pane : Pane} (h : group.root.leafOf paneId = some pane) : paneId ∈ group.paneIds := by
  obtain ⟨hmem,hid⟩ := PaneNode.mem_of_leafOf h
  exact mem_map.mpr ⟨pane,hmem,hid⟩

theorem filterMap_detached_of_absent (h : paneId ∉ groups.flatMap (·.paneIds)) :
    groups.filterMap (detached paneId) = groups := by
  conv_rhs => rw [← filterMap_some (l := groups)]
  refine filterMap_congr fun group hgroup => detached_of_absent fun hid => h ?_
  exact mem_flatMap.mpr ⟨group,hgroup,hid⟩

theorem filterMap_detached {before after : List (PaneGroup R)} (hs : s.Valid) (hsplit : s.groups = before ++ group :: after)
    (hpane : paneId ∈ group.paneIds) :
    s.groups.filterMap (detached paneId) = before ++ (detached paneId group).toList ++ after := by
  have hpanes := hs.panes
  rw [hsplit] at hpanes
  obtain ⟨-,-,hapart⟩ := nodup_middle.mp hpanes
  have hothers := hapart paneId hpane
  rw [flatMap_append, mem_append] at hothers
  rw [hsplit, filterMap_append, filterMap_detached_of_absent fun h => hothers (.inl h), filterMap_cons]
  rw [filterMap_detached_of_absent fun h => hothers (.inr h), append_assoc]
  cases detached paneId group <;> rfl

theorem findGroup_isSome {groupId : Text} (hg : group ∈ groups) (hid : group.id = groupId) :
    (findGroup groupId groups).isSome = true := by
  induction groups with
  | nil => exact absurd hg not_mem_nil
  | cons first groups ih =>
    rw [findGroup]
    split
    · rfl
    · rename_i hne
      rcases mem_cons.mp hg with rfl | hg
      · exact absurd hid hne
      · rw [Option.isSome_map]
        exact ih hg

theorem perform_indexOfGroup {groupId : Text} {found : ℕ × PaneGroup R} (h : findGroup groupId s.groups = some found) :
    perform (indexOfGroup groupId) s = (.ok found,s) := by
  unfold indexOfGroup
  rw [perform_bind]
  have hget : perform (get : PaneOperation R (PaneLayoutState R)) s = (.ok s,s) := rfl
  simp only [hget, h]
  rfl

/-- Either no group has the pane, or the one that has it is found. -/
theorem perform_groupOfPane (hs : s.Valid) (paneId : Text) :
    (perform (groupOfPane paneId) s = (.error (.paneNotFound paneId),s) ∧ paneId ∉ s.groups.flatMap (·.paneIds)) ∨
      ∃ found pane, perform (groupOfPane paneId) s = (.ok found,s) ∧ GroupAt s found ∧ found.2.root.leafOf paneId = some pane := by
  have hget : perform (get : PaneOperation R (PaneLayoutState R)) s = (.ok s,s) := rfl
  cases hlocation : s.locationOfPane paneId with
  | none =>
    have hlocated : perform (groupOfPane paneId) s = (.error (.paneNotFound paneId),s) := by
      unfold groupOfPane
      rw [perform_bind]
      simp only [hget, hlocation]
      rfl
    refine .inl ⟨hlocated,fun hmem => ?_⟩
    obtain ⟨group,hgroup,hid⟩ := mem_flatMap.mp hmem
    obtain ⟨pane,hpane,hid⟩ := mem_map.mp hid
    have hnone := findSome?_eq_none_iff.mp hlocation group hgroup
    exact PaneNode.leafOf_eq_none.mp (Option.map_eq_none_iff.mp hnone) pane hpane hid
  | some location =>
    obtain ⟨group,hgroup,hid,pane,hpane⟩ := location_of_pane hlocation
    obtain ⟨found,hfound⟩ := Option.isSome_iff_exists.mp (findGroup_isSome hgroup hid)
    have hlocated : perform (groupOfPane paneId) s = (.ok found,s) := by
      unfold groupOfPane
      rw [perform_bind]
      simp only [hget, hlocation]
      exact perform_indexOfGroup hfound
    obtain ⟨hfoundId,hat⟩ := findGroup_spec hfound
    refine .inr ⟨found,pane,hlocated,hat,?_⟩
    rw [inj_on_of_nodup_map hs.ids (GroupAt.mem hat) hgroup (hfoundId.trans hid.symm)]
    exact hpane

theorem perform_detachPane (hs : s.Valid) (paneId : Text) :
    (perform (detachPane paneId) s).2 = ⟨s.groups.filterMap (detached paneId)⟩ := by
  unfold detachPane
  rw [perform_bind]
  rcases perform_groupOfPane hs paneId with ⟨hperform,habsent⟩ | ⟨⟨index,group⟩,pane,hperform,hat,hpane⟩
  · rw [hperform, filterMap_detached_of_absent habsent]
  · obtain ⟨before,after,hsplit,rfl⟩ := hat
    rw [hperform, filterMap_detached hs hsplit (mem_paneIds hpane)]
    unfold detached
    simp only [hpane]
    cases (group.root.removingLeaf paneId).filter PaneNode.canRemainGrouped with
    | none =>
      show removeGroup before.length s = _
      rw [Option.map_none, Option.toList_none, append_nil, ← removeGroup_middle hsplit]
    | some newRoot =>
      show setGroup before.length (withoutPane group pane newRoot) s = _
      rw [Option.map_some, Option.toList_some, append_assoc, singleton_append, ← setGroup_middle hsplit]

theorem perform_removeLauncher (hs : s.Valid)
    (hlauncher : ∀ group ∈ s.groups, ∀ pane ∈ group.root.leaves, pane.id = launcherId → pane.content.isLauncher = true) :
    (perform (removeLauncher launcherId) s).2 = ⟨s.groups.filterMap (detached launcherId)⟩ := by
  unfold removeLauncher
  rw [perform_bind]
  rcases perform_groupOfPane hs launcherId with ⟨hperform,habsent⟩ | ⟨⟨index,group⟩,pane,hperform,hat,hpane⟩
  · rw [hperform, filterMap_detached_of_absent habsent]
  · obtain ⟨hmem,hid⟩ := PaneNode.mem_of_leafOf hpane
    have hyes : isLauncherOf group launcherId = true := by
      unfold isLauncherOf
      rw [hpane]
      exact hlauncher group hat.mem pane hmem hid
    rw [hperform, ← perform_detachPane hs launcherId]
    show (perform (if isLauncherOf group launcherId then detachPane launcherId else _) s).2 = _
    rw [if_pos hyes]

end Detaching

section Trimming

inductive Trimmed (keep : Pane → Bool) (group : PaneGroup R) : Option (PaneGroup R) → Prop
  | gone (hroot : (group.root.prune keep).filter PaneNode.canRemainGrouped = none) : Trimmed keep group none
  | kept (root : PaneNode R) (snapshot : Option (PaneNode R)) (hroot : group.root.prune keep = some root)
      (hremains : root.canRemainGrouped = true)
      (hsnapshot : ∀ pruned, snapshot = some pruned → ∃ old, group.preLauncherRoot = some old ∧ old.prune keep = some pruned) :
      Trimmed keep group (some { group with
        root := root, preLauncherRoot := snapshot, representativePaneId := root.promoted group.representativePaneId })

theorem Intact.promoted_self (h : Intact group) : group.root.promoted group.representativePaneId = group.representativePaneId := by
  obtain ⟨pane,hpane,hsession,hid⟩ := h.valid.shaped.representative
  rw [← hid]
  exact promoted_of_session h.panes (mem_sessionLeaves.mpr ⟨hpane,hsession⟩)

theorem Intact.canRemainGrouped (h : Intact group) : group.root.canRemainGrouped = true := by
  have hgrouped := h.valid.shaped.grouped
  rw [canRemainGrouped_iff]
  omega

theorem Intact.mem_snapshot (h : Intact group) {snapshot : PaneNode R} (hsnapshot : group.preLauncherRoot = some snapshot)
    {pane : Pane} (hpane : pane ∈ snapshot.leaves) : pane ∈ group.root.leaves :=
  (mem_sessionLeaves.mp ((h.valid.snapshot snapshot hsnapshot).2.mem_iff.mp hpane)).1

theorem trimmed_self (h : Intact group) {keep : Pane → Bool} (hkeep : ∀ pane ∈ group.root.leaves, keep pane = true) :
    Trimmed keep group (some group) := by
  have hsame : group = { group with
      root := group.root, preLauncherRoot := group.preLauncherRoot,
      representativePaneId := group.root.promoted group.representativePaneId } := by
    rw [h.promoted_self]
  conv_rhs => rw [hsame]
  refine .kept group.root group.preLauncherRoot (SplitTree.prune_eq_self hkeep) h.canRemainGrouped fun pruned hpruned => ?_
  exact ⟨pruned,hpruned,SplitTree.prune_eq_self fun pane hpane => hkeep pane (h.mem_snapshot hpruned hpane)⟩

theorem trimmed_detached (h : Intact group)
    (hsession : ∀ pane ∈ group.root.leaves, pane.id = paneId → pane.content.isLauncher = false) :
    Trimmed (·.id ≠ paneId) group (detached paneId group) := by
  have hdistinct : PaneNode.Distinct group.root := h.panes
  unfold detached
  split
  · rename_i hnone
    exact trimmed_self h fun pane hpane => decide_eq_true (PaneNode.leafOf_eq_none.mp hnone pane hpane)
  · rename_i pane hpane
    obtain ⟨hmem,hid⟩ := PaneNode.mem_of_leafOf hpane
    rw [hdistinct.removingLeaf]
    cases hroot : (group.root.prune (·.id ≠ paneId)).filter PaneNode.canRemainGrouped with
    | none => exact .gone hroot
    | some root =>
      obtain ⟨hroot,hremains⟩ := Option.filter_eq_some_iff.mp hroot
      rw [Option.map_some, withoutPane, if_neg (by rw [hsession pane hmem hid]; nofun)]
      refine .kept root _ hroot hremains fun pruned hpruned => ?_
      obtain ⟨old,hold,hpruned⟩ := Option.bind_eq_some_iff.mp hpruned
      obtain ⟨hpruned,-⟩ := Option.filter_eq_some_iff.mp hpruned
      rw [(h.valid.distinct_snapshot hdistinct hold).removingLeaf, hid] at hpruned
      exact ⟨old,hold,hpruned⟩

def staysEligible (eligible : Text → Bool) (pane : Pane) : Bool := pane.content.sessionId.all eligible

theorem notAmong_eq_staysEligible (h : Intact group) {eligible : Text → Bool} {pane : Pane} (hpane : pane ∈ group.root.leaves) :
    notAmong (ineligibleLeaves eligible group.root) pane = staysEligible eligible pane := by
  rw [← Bool.not_inj_iff, Bool.eq_iff_iff, Bool.not_eq_true', Bool.not_eq_true', notAmong_ineligible h.panes hpane]
  unfold staysEligible
  cases pane.content with
  | session id | launcher projectId => simp [PaneContent.sessionId]

theorem trimmed_reconcileGroup [DecidableEq R] (h : Intact group) (eligible : Text → Bool) :
    Trimmed (staysEligible eligible) group (reconcileGroup eligible group).1 := by
  have hdistinct : PaneNode.Distinct group.root := h.panes
  have hkeep : group.root.prune (notAmong (ineligibleLeaves eligible group.root)) = group.root.prune (staysEligible eligible) :=
    SplitTree.prune_congr fun pane hpane => notAmong_eq_staysEligible h hpane
  unfold reconcileGroup
  rw [hdistinct.removingLeaves, hkeep]
  dsimp only
  cases hroot : (group.root.prune (staysEligible eligible)).filter PaneNode.canRemainGrouped with
  | none => exact .gone hroot
  | some root =>
    obtain ⟨hroot,hremains⟩ := Option.filter_eq_some_iff.mp hroot
    refine .kept root _ hroot hremains fun pruned hpruned => ?_
    split at hpruned
    · obtain ⟨old,hold,hpruned⟩ := Option.bind_eq_some_iff.mp hpruned
      obtain ⟨hpruned,-⟩ := Option.filter_eq_some_iff.mp hpruned
      rw [(h.valid.distinct_snapshot hdistinct hold).removingLeaves] at hpruned
      refine ⟨old,hold,?_⟩
      rw [← hpruned]
      exact SplitTree.prune_congr fun pane hpane => (notAmong_eq_staysEligible h (h.mem_snapshot hold hpane)).symm
    · cases hpruned

end Trimming

section Cancelling
variable {root : PaneNode R}
variable {node : Option (PaneNode R)}

structure Cancellable (launcherId : Text) (group : PaneGroup R) : Prop where
  launcher : ∀ pane ∈ group.root.leaves, pane.id = launcherId → pane.content.isLauncher = true
  snapshot : launcherId ∈ group.paneIds → ∀ snapshot, group.preLauncherRoot = some snapshot →
    group.root.prune (·.id ≠ launcherId) = some snapshot

theorem Cancellable.leaves (hc : Cancellable launcherId group) (h : Intact group) (hin : launcherId ∈ group.paneIds)
    (hroot : group.root.prune (·.id ≠ launcherId) = some root) : root.leaves = group.root.sessionLeaves := by
  obtain ⟨pane,hpane,hid⟩ := mem_map.mp hin
  subst hid
  rw [SplitTree.leaves_prune hroot]
  exact filter_launcher h.panes h.valid.shaped.launchers hpane (hc.launcher pane hpane rfl)

theorem Cancellable.sessions (hc : Cancellable launcherId group) (h : Intact group) (hin : launcherId ∈ group.paneIds)
    (hroot : group.root.prune (·.id ≠ launcherId) = some root) :
    launcherCount root.leaves = 0 ∧ root.sessionLeaves = group.root.sessionLeaves := by
  have hleaves := hc.leaves h hin hroot
  have hnone : launcherCount root.leaves = 0 := by
    rw [hleaves]
    exact launcherCount_sessionLeaves group.root
  refine ⟨hnone,?_⟩
  rw [sessionLeaves_of_no_launcher (containsLauncher_eq_false.mpr hnone), hleaves]

theorem canRemainGrouped_of_sessions (h : launcherCount root.leaves = 0) :
    root.canRemainGrouped = decide (2 ≤ sessionCount root.leaves) := by
  rw [Bool.eq_iff_iff, canRemainGrouped_iff, decide_eq_true_eq]
  omega

/-- Without its launcher, a group of at least two Sessions is what it was before. -/
theorem detached_launcher (h : Intact group) (hc : Cancellable launcherId group) (hin : launcherId ∈ group.paneIds) :
    detached launcherId group =
      ((group.root.prune (·.id ≠ launcherId)).filter fun root => 2 ≤ sessionCount root.leaves).map fun root =>
        { group with root := root, preLauncherRoot := none } := by
  have hdistinct : PaneNode.Distinct group.root := h.panes
  obtain ⟨pane,hpane,hid⟩ := mem_map.mp hin
  have hlauncher := hc.launcher pane hpane hid
  have hfound : group.root.leafOf launcherId = some pane := by
    rw [← hid]
    exact hdistinct.leafOf hpane
  unfold detached
  rw [hfound, hdistinct.removingLeaf]
  dsimp only
  cases hroot : group.root.prune (·.id ≠ launcherId) with
  | none => rfl
  | some root =>
    obtain ⟨hnone,hsessions⟩ := hc.sessions h hin hroot
    have hrepresentative : PaneNode.promoted root group.representativePaneId = group.representativePaneId := by
      obtain ⟨other,hother,hsession,hid⟩ := h.valid.shaped.representative
      rw [← hid]
      apply promoted_of_session (hdistinct.prune hroot)
      rw [hsessions]
      exact mem_sessionLeaves.mpr ⟨hother,hsession⟩
    have hwithout : withoutPane group pane root = { group with root := root, preLauncherRoot := none } := by
      unfold withoutPane
      rw [if_pos hlauncher]
      cases hsnapshot : group.preLauncherRoot with
      | none =>
        dsimp only
        rw [hrepresentative]
      | some snapshot =>
        have hsame : root = snapshot := Option.some.inj (hroot.symm.trans (hc.snapshot hin snapshot hsnapshot))
        subst hsame
        dsimp only
        rw [ite_self, hrepresentative]
    rw [Option.filter_some, Option.filter_some, canRemainGrouped_of_sessions hnone]
    split
    · rw [Option.map_some, hwithout, Option.map_some]
    · rfl

/-- Who stands for a group depends on its Sessions only. -/
theorem promoted_congr {root' : PaneNode R} (h : PaneNode.Distinct root) (h' : PaneNode.Distinct root')
    (hsessions : root.sessionLeaves = root'.sessionLeaves) (representativePaneId : Text) :
    root.promoted representativePaneId = root'.promoted representativePaneId := by
  have hiff : ∀ tree : PaneNode R, PaneNode.Distinct tree → (((tree.leafOf representativePaneId).bind (·.content.sessionId)).isSome = true ↔
      ∃ pane ∈ tree.sessionLeaves, pane.id = representativePaneId) := by
    intro tree htree
    constructor
    · intro hsome
      obtain ⟨sessionId,hfound⟩ := Option.isSome_iff_exists.mp hsome
      obtain ⟨pane,hpane,hsession⟩ := Option.bind_eq_some_iff.mp hfound
      obtain ⟨hmem,hid⟩ := PaneNode.mem_of_leafOf hpane
      exact ⟨pane,mem_sessionLeaves.mpr ⟨hmem,Option.isSome_iff_exists.mpr ⟨sessionId,hsession⟩⟩,hid⟩
    · rintro ⟨pane,hpane,rfl⟩
      obtain ⟨hmem,hsession⟩ := mem_sessionLeaves.mp hpane
      rw [htree.leafOf hmem]
      exact hsession
  unfold PaneNode.promoted
  rw [hsessions]
  refine if_congr ?_ rfl rfl
  rw [hiff root h, hiff root' h', hsessions]

structure Trims (launcherId : Text) (keep : Pane → Bool) (change : PaneGroup R → Option (PaneGroup R)) : Prop where
  launcher : ∀ pane, pane.id = launcherId → pane.content.isLauncher = true → keep pane = true
  trimmed : ∀ group, Intact group → (∀ pane ∈ group.root.leaves, pane.content.isLauncher = true → pane.id = launcherId) →
    Trimmed keep group (change group)
  intact : ∀ group group', Intact group → change group = some group' → Intact group' ∧ Within group' group

theorem intact_detached {group' : PaneGroup R} (h : Intact group) (hdetached : detached paneId group = some group') :
    Intact group' ∧ Within group' group := by
  unfold detached at hdetached
  split at hdetached
  · cases hdetached
    exact ⟨h,fun _ hid => hid,fun _ hid => hid⟩
  · rename_i pane hpane
    obtain ⟨hmem,rfl⟩ := PaneNode.mem_of_leafOf hpane
    obtain ⟨root,hroot,rfl⟩ := Option.map_eq_some_iff.mp hdetached
    obtain ⟨hroot,hremains⟩ := Option.filter_eq_some_iff.mp hroot
    have hleaves := PaneNode.Distinct.leaves_removingLeaf h.panes hroot
    obtain ⟨hrevised,hwithin⟩ := revised_withoutPane h.valid h.panes h.sessions hmem hleaves hremains
    exact ⟨⟨hrevised.valid,hrevised.paneIds,hrevised.sessionIds⟩,hwithin⟩

/-- The launcher stays cancellable. -/
theorem Cancellable.trimmed {keep : Pane → Bool} {result : Option (PaneGroup R)} {group' : PaneGroup R} (hc : Cancellable launcherId group)
    (h : Trimmed keep group result) (hresult : result = some group') : Cancellable launcherId group' := by
  cases h with
  | gone hroot => cases hresult
  | kept root snapshot hroot hremains hsnapshot =>
    cases hresult
    have hleaves := SplitTree.leaves_prune hroot
    have hsub : ∀ pane ∈ root.leaves, pane ∈ group.root.leaves := by
      intro pane hpane
      rw [hleaves] at hpane
      exact (mem_filter.mp hpane).1
    constructor
    · exact fun pane hpane hid => hc.launcher pane (hsub pane hpane) hid
    · intro hin pruned hpruned
      obtain ⟨pane,hpane,hid⟩ := mem_map.mp hin
      obtain ⟨old,hold,hprune⟩ := hsnapshot pruned hpruned
      have hbefore := hc.snapshot (mem_map.mpr ⟨pane,hsub pane hpane,hid⟩) old hold
      have hboth : root.prune (·.id ≠ launcherId) = (group.root.prune (·.id ≠ launcherId)).bind (SplitTree.prune keep) := by
        rw [SplitTree.prune_comm, hroot, Option.bind_some]
      rw [hboth, hbefore, Option.bind_some, hprune]

def settled (launcherId : Text) (keep : Pane → Bool) (group : PaneGroup R) : Option (PaneGroup R) :=
  (((group.root.prune (·.id ≠ launcherId)).bind (SplitTree.prune keep)).filter fun root => 2 ≤ sessionCount root.leaves).map
    fun root => { group with
      root := root, preLauncherRoot := none, representativePaneId := PaneNode.promoted root group.representativePaneId }

theorem filter_sessions_eq_none (h : node.filter PaneNode.canRemainGrouped = none) :
    (node.filter fun root => 2 ≤ sessionCount root.leaves) = none := by
  rw [Option.filter_eq_none_iff] at h ⊢
  intro root hroot htwo
  exact h root hroot (canRemainGrouped_iff.mpr (.inl (of_decide_eq_true htwo)))

theorem filter_sessions_prune (h : (node.filter fun root => 2 ≤ sessionCount root.leaves) = none)
    (keep : Pane → Bool) : ((node.bind (SplitTree.prune keep)).filter fun root => 2 ≤ sessionCount root.leaves) = none := by
  rw [Option.filter_eq_none_iff] at h ⊢
  intro pruned hpruned htwo
  obtain ⟨root,hroot,hprune⟩ := Option.bind_eq_some_iff.mp hpruned
  have hfewer : sessionCount pruned.leaves ≤ sessionCount root.leaves := by
    rw [SplitTree.leaves_prune hprune]
    exact filter_sublist.countP_le
  exact h root hroot (decide_eq_true (Nat.le_trans (of_decide_eq_true htwo) hfewer))

variable {keep : Pane → Bool} {change : PaneGroup R → Option (PaneGroup R)}

theorem Trims.change_first (htrims : Trims launcherId keep change) (h : Intact group) (hc : Cancellable launcherId group)
    (hin : launcherId ∈ group.paneIds) : (change group).bind (detached launcherId) = settled launcherId keep group := by
  obtain ⟨launcher,hlauncher,hid⟩ := mem_map.mp hin
  have hyes := hc.launcher launcher hlauncher hid
  have honly : ∀ pane ∈ group.root.leaves, pane.content.isLauncher = true → pane.id = launcherId := by
    intro pane hpane hyes'
    rw [eq_of_launcher h.valid.shaped.launchers hpane hlauncher hyes' hyes]
    exact hid
  have hchange := htrims.trimmed group h honly
  unfold settled
  rw [SplitTree.prune_comm]
  cases hresult : change group with
  | none =>
    rw [hresult] at hchange
    cases hchange with
    | gone hroot =>
      rw [filter_sessions_prune (filter_sessions_eq_none hroot)]
      rfl
  | some group' =>
    have hintact := (htrims.intact group group' h hresult).1
    have hc' := hc.trimmed hchange hresult
    rw [hresult] at hchange
    cases hchange with
    | kept root snapshot hroot hremains hsnapshot =>
      have hin' : launcher ∈ root.leaves := by
        rw [SplitTree.leaves_prune hroot]
        exact mem_filter.mpr ⟨hlauncher,htrims.launcher launcher hid hyes⟩
      have hmem : launcherId ∈ root.leaves.map (·.id) := mem_map.mpr ⟨launcher,hin',hid⟩
      rw [Option.bind_some, detached_launcher hintact hc' hmem, hroot, Option.bind_some]
      cases hpruned : root.prune (·.id ≠ launcherId) with
      | none => rfl
      | some pruned =>
        have hsessions := (hc'.sessions hintact hmem hpruned).2
        have hrepresentative := promoted_congr (PaneNode.Distinct.prune hintact.panes hpruned) hintact.panes hsessions
        rw [Option.filter_some]
        split
        · rw [Option.map_some, Option.map_some, hrepresentative]
        · rfl

theorem Trims.launcher_first (htrims : Trims launcherId keep change) (h : Intact group) (hc : Cancellable launcherId group)
    (hin : launcherId ∈ group.paneIds) : (detached launcherId group).bind change = settled launcherId keep group := by
  have hintact := fun group' => @intact_detached R _ group launcherId group' h
  unfold settled
  rw [detached_launcher h hc hin] at hintact ⊢
  cases hroot : group.root.prune (·.id ≠ launcherId) with
  | none => rfl
  | some root =>
    obtain ⟨hnone,-⟩ := hc.sessions h hin hroot
    by_cases htwo : 2 ≤ sessionCount root.leaves
    · have hsome : Option.filter (fun root : PaneNode R => decide (2 ≤ sessionCount root.leaves)) (some root) = some root := by
        rw [Option.filter_some, if_pos (decide_eq_true htwo)]
      rw [hroot, hsome, Option.map_some] at hintact
      rw [hsome, Option.map_some, Option.bind_some, Option.bind_some]
      have hchange := htrims.trimmed _ (hintact _ rfl).1 fun pane hpane hyes => by
        exact absurd (countP_pos_iff.mpr ⟨pane,hpane,hyes⟩) (by show ¬0 < launcherCount root.leaves; omega)
      cases hresult : change { group with root := root, preLauncherRoot := none } with
      | none =>
        rw [hresult] at hchange
        cases hchange with
        | gone hgone =>
          rw [filter_sessions_eq_none hgone]
          rfl
      | some group' =>
        rw [hresult] at hchange
        cases hchange with
        | kept pruned snapshot hpruned hremains hsnapshot =>
          have hfew : launcherCount pruned.leaves = 0 := by
            have hle : launcherCount pruned.leaves ≤ launcherCount root.leaves := by
              rw [SplitTree.leaves_prune hpruned]
              exact filter_sublist.countP_le
            omega
          have hnosnapshot : snapshot = none := by
            cases hsnap : snapshot with
            | none => rfl
            | some snap =>
              obtain ⟨old,hold,-⟩ := hsnapshot snap hsnap
              cases hold
          rw [canRemainGrouped_of_sessions hfew] at hremains
          rw [hpruned, Option.filter_some, if_pos hremains, Option.map_some, hnosnapshot]
    · have hgone : Option.filter (fun root : PaneNode R => decide (2 ≤ sessionCount root.leaves)) (some root) = none := by
        rw [Option.filter_some, if_neg (by rw [decide_eq_true_eq]; exact htwo)]
      rw [hgone, filter_sessions_prune hgone]
      rfl

theorem Trims.commutes (htrims : Trims launcherId keep change) (h : Intact group) (hc : Cancellable launcherId group) :
    (detached launcherId group).bind change = (change group).bind (detached launcherId) := by
  by_cases hin : launcherId ∈ group.paneIds
  · rw [htrims.launcher_first h hc hin, htrims.change_first h hc hin]
  · rw [detached_of_absent hin, Option.bind_some]
    cases hresult : change group with
    | none => rfl
    | some group' =>
      have hwithin := (htrims.intact group group' h hresult).2
      rw [Option.bind_some, detached_of_absent fun hin' => hin (hwithin.1 launcherId hin')]

theorem Trims.cancellable (htrims : Trims launcherId keep change) (h : Intact group) (hc : Cancellable launcherId group)
    {group' : PaneGroup R} (hresult : change group = some group') : Cancellable launcherId group' := by
  have hwithin := (htrims.intact group group' h hresult).2
  by_cases hin : launcherId ∈ group.paneIds
  · obtain ⟨launcher,hlauncher,hid⟩ := mem_map.mp hin
    refine hc.trimmed (htrims.trimmed group h fun pane hpane hyes => ?_) hresult
    rw [eq_of_launcher h.valid.shaped.launchers hpane hlauncher hyes (hc.launcher launcher hlauncher hid)]
    exact hid
  · have habsent : launcherId ∉ group'.paneIds := fun hin' => hin (hwithin.1 launcherId hin')
    exact ⟨fun pane hpane hid => absurd (mem_map.mpr ⟨pane,hpane,hid⟩) habsent,fun hin' => absurd hin' habsent⟩

theorem trims_detached (hne : paneId ≠ launcherId) : Trims launcherId (·.id ≠ paneId) (detached paneId : PaneGroup R → _) where
  launcher pane hid _ := decide_eq_true fun hid' => hne (hid'.symm.trans hid)
  trimmed group h honly := by
    refine trimmed_detached h fun pane hpane hid => Bool.eq_false_iff.mpr fun hyes => hne ?_
    rw [← hid]
    exact honly pane hpane hyes
  intact _ _ h hresult := intact_detached h hresult

theorem trims_reconcileGroup [DecidableEq R] (eligible : Text → Bool) :
    Trims launcherId (staysEligible eligible) (fun group : PaneGroup R => (reconcileGroup eligible group).1) where
  launcher pane _ hyes := by
    obtain ⟨projectId,hcontent⟩ := exists_launcher hyes
    unfold staysEligible
    rw [hcontent]
    rfl
  trimmed group h _ := trimmed_reconcileGroup h eligible
  intact group group' h hresult := by
    obtain ⟨hrevised,hwithin⟩ := (reconcileGroup_cases h.valid h.panes h.sessions eligible).1 group' hresult
    exact ⟨⟨hrevised.valid,hrevised.paneIds,hrevised.sessionIds⟩,hwithin⟩

/-- What is stored is the group without the launcher. -/
theorem storedGroup_eq_detached (h : Intact group) (hc : Cancellable launcherId group) (hin : launcherId ∈ group.paneIds) :
    storedGroup group = detached launcherId group := by
  have hdistinct : PaneNode.Distinct group.root := h.panes
  have hcandidate : DurablePaneGroup.candidate group = group.root.prune (·.id ≠ launcherId) := by
    obtain ⟨launcher,hlauncher,hid⟩ := mem_map.mp hin
    have hyes := hc.launcher launcher hlauncher hid
    have hcontains : group.root.containsLauncher = true := any_eq_true.mpr ⟨launcher,hlauncher,hyes⟩
    unfold DurablePaneGroup.candidate
    rw [removingLaunchers hdistinct, if_pos hcontains]
    cases hsnapshot : group.preLauncherRoot with
    | some snapshot =>
      rw [hc.snapshot hin snapshot hsnapshot]
      rfl
    | none =>
      rw [Option.none_or, ← hid]
      refine SplitTree.prune_congr fun pane hpane => ?_
      exact (besides_launcher hdistinct h.valid.shaped.launchers hlauncher hyes hpane).symm
  rw [detached_launcher h hc hin]
  unfold storedGroup
  rw [hcandidate]
  simp only [length_sessionLeaves]

theorem ofGroup_detached (h : Intact group) (hc : Cancellable launcherId group) :
    (detached launcherId group).bind DurablePaneGroup.ofGroup = DurablePaneGroup.ofGroup group := by
  by_cases hin : launcherId ∈ group.paneIds
  · rw [ofGroup_eq h.valid h.panes, storedGroup_eq_detached h hc hin]
    cases hdetached : detached launcherId group with
    | none => rfl
    | some group' =>
      obtain ⟨hintact,-⟩ := intact_detached h hdetached
      rw [← storedGroup_eq_detached h hc hin] at hdetached
      rw [Option.bind_some, ofGroup_eq hintact.valid hintact.panes, storedGroup_stored h.valid h.panes hdetached]
  · rw [detached_of_absent hin, Option.bind_some]

end Cancelling

section Meanwhile
variable {t : PaneLayoutState R}

structure OpenOver (launcherId : Text) (s t : PaneLayoutState R) : Prop where
  valid : s.Valid
  named : Named s
  cancellable : ∀ group ∈ s.groups, Cancellable launcherId group
  without : t = ⟨s.groups.filterMap (detached launcherId)⟩

theorem OpenOver.removed (h : OpenOver launcherId s t) : (perform (removeLauncher launcherId) s).2 = t := by
  rw [h.without]
  exact perform_removeLauncher h.valid fun group hgroup => (h.cancellable group hgroup).launcher

theorem OpenOver.stored (h : OpenOver launcherId s t) : durableGroups s = durableGroups t := by
  unfold durableGroups
  rw [h.without, filterMap_filterMap]
  refine filterMap_congr fun group hgroup => ?_
  exact (ofGroup_detached (h.valid.intact hgroup) (h.cancellable group hgroup)).symm

variable [DecidableEq R] {call : LayoutCall R}

def Meanwhile (launcherId : Text) : LayoutCall R → Prop
  | .detachPane paneId => paneId ≠ launcherId
  | .reconcile _ => True
  | _ => False

def after (s : PaneLayoutState R) (calls : List (LayoutCall R)) : PaneLayoutState R :=
  calls.foldl (fun s call => (perform call.changes s).2) s

theorem perform_detachPane_changes (s : PaneLayoutState R) (paneId : Text) :
    (perform (LayoutCall.detachPane paneId : LayoutCall R).changes s).2 = (perform (detachPane paneId) s).2 := by
  unfold LayoutCall.changes
  rw [perform_bind]
  rcases perform (detachPane paneId) s with ⟨outcome,u⟩
  cases outcome <;> rfl

theorem PaneLayoutState.Valid.detached (hs : s.Valid) (paneId : Text) :
    PaneLayoutState.Valid ⟨s.groups.filterMap (detached paneId)⟩ := by
  have hfresh : FreshIds s (.detachPane paneId) := trivial
  rw [← perform_detachPane hs, ← perform_detachPane_changes]
  exact (respects_of_fresh hs hfresh).1

theorem Meanwhile.trims (h : Meanwhile launcherId call) :
    ∃ keep change, Trims launcherId keep change ∧ ∀ s : PaneLayoutState R, s.Valid →
      (perform call.changes s).2 = ⟨s.groups.filterMap change⟩ ∧ (perform call.changes s).2.Valid := by
  cases call with
  | detachPane paneId =>
    refine ⟨_,_,trims_detached h,fun s hs => ?_⟩
    have hfresh : FreshIds s (.detachPane paneId) := trivial
    refine ⟨?_,(respects_of_fresh hs hfresh).1⟩
    rw [perform_detachPane_changes, perform_detachPane hs]
  | reconcile eligible =>
    refine ⟨_,_,trims_reconcileGroup eligible,fun s hs => ?_⟩
    have hfresh : FreshIds s (.reconcile eligible) := trivial
    exact ⟨rfl,(respects_of_fresh hs hfresh).1⟩
  | _ => cases h

theorem OpenOver.step (h : OpenOver launcherId s t) (hcall : Meanwhile launcherId call) :
    OpenOver launcherId (perform call.changes s).2 (perform call.changes t).2 := by
  obtain ⟨keep,change,htrims,hperform⟩ := hcall.trims
  obtain ⟨hgroups,hvalid⟩ := hperform s h.valid
  have ht : t.Valid := by
    rw [h.without]
    exact h.valid.detached launcherId
  refine ⟨hvalid,?_,?_,?_⟩
  · rw [hgroups]
    intro id hid
    obtain ⟨group',hgroup',hid⟩ := mem_flatMap.mp hid
    obtain ⟨group,hgroup,hresult⟩ := mem_filterMap.mp hgroup'
    have hwithin := (htrims.intact group group' (h.valid.intact hgroup) hresult).2
    exact h.named id (mem_flatMap.mpr ⟨group,hgroup,hwithin.2 id hid⟩)
  · rw [hgroups]
    intro group' hgroup'
    obtain ⟨group,hgroup,hresult⟩ := mem_filterMap.mp hgroup'
    exact htrims.cancellable (h.valid.intact hgroup) (h.cancellable group hgroup) hresult
  · rw [(hperform t ht).1, hgroups, h.without, filterMap_filterMap, filterMap_filterMap]
    congr 1
    exact filterMap_congr fun group hgroup => htrims.commutes (h.valid.intact hgroup) (h.cancellable group hgroup)

theorem OpenOver.run {calls : List (LayoutCall R)} (h : OpenOver launcherId s t)
    (hcalls : ∀ call ∈ calls, Meanwhile launcherId call) : OpenOver launcherId (after s calls) (after t calls) := by
  induction calls generalizing s t with
  | nil => exact h
  | cons call calls ih =>
    exact ih (h.step (hcalls call mem_cons_self)) fun other hother => hcalls other (mem_cons_of_mem _ hother)

end Meanwhile

section Opening
variable {t : PaneLayoutState R} {location : PaneLocation}

inductive Opens (s : PaneLayoutState R) : PaneOperation R PaneLocation → Prop
  | splitting (projectId targetPaneId : Text) (edge : PaneEdge) (newPaneId : NewId)
      (hfresh : newPaneId.id.text ∉ s.groups.flatMap (·.paneIds)) :
      Opens s (insertLauncherSplitting projectId targetPaneId edge newPaneId)
  | beside (projectId targetSessionId : Text) (edge : PaneEdge) (newGroupId newRepresentativePaneId newPaneId : NewId)
      (hfresh : FreshGroup s newGroupId newRepresentativePaneId newPaneId) :
      Opens s (insertLauncherBeside projectId targetSessionId edge newGroupId newRepresentativePaneId newPaneId)

theorem openOver_of_group {before after : List (PaneGroup R)} (hs : s.Valid) (hnamed : Named s)
    (hsplit : s.groups = before ++ group :: after) (hc : Cancellable launcherId group) (hin : launcherId ∈ group.paneIds)
    (ht : t.groups = before ++ (detached launcherId group).toList ++ after) : OpenOver launcherId s t := by
  refine ⟨hs,hnamed,fun other hother => ?_,?_⟩
  · by_cases hin' : launcherId ∈ other.paneIds
    · have hgroup : group ∈ s.groups := by
        rw [hsplit]
        exact mem_append_right _ mem_cons_self
      rw [← eq_of_label hs.panes hgroup hother hin hin']
      exact hc
    · exact ⟨fun pane hpane hid => absurd (mem_map.mpr ⟨pane,hpane,hid⟩) hin',fun hyes => absurd hyes hin'⟩
  · rw [filterMap_detached hs hsplit hin, ← ht]

theorem cancellable_of_launcher {launcher : Pane} {panes : List Pane} (hyes : launcher.content.isLauncher = true)
    (hleaves : group.root.leaves.Perm (launcher :: panes)) (hnew : launcher.id ∉ panes.map (·.id))
    (hsnapshot : ∀ snapshot, group.preLauncherRoot = some snapshot → group.root.prune (·.id ≠ launcher.id) = some snapshot) :
    Cancellable launcher.id group ∧ launcher.id ∈ group.paneIds := by
  refine ⟨⟨fun pane hpane hid => ?_,fun _ => hsnapshot⟩,?_⟩
  · rcases mem_cons.mp (hleaves.mem_iff.mp hpane) with rfl | hpane
    · exact hyes
    · exact absurd (mem_map.mpr ⟨pane,hpane,hid⟩) hnew
  · exact mem_map.mpr ⟨launcher,hleaves.mem_iff.mpr mem_cons_self,rfl⟩

def withLauncher (group : PaneGroup R) (root : PaneNode R) : PaneGroup R :=
  { group with root := root, preLauncherRoot := some group.root }

def LauncherAdded (s t : PaneLayoutState R) (launcherId : Text) : Prop :=
  ∃ (before after : List (PaneGroup R)) (group : PaneGroup R) (root : PaneNode R) (launcher : Pane),
    s.groups = before ++ group :: after ∧ t.groups = before ++ withLauncher group root :: after ∧
      launcher.content.isLauncher = true ∧ launcher.id = launcherId ∧ root.leaves.Perm (launcher :: group.root.leaves) ∧
      (launcherId ∉ group.paneIds → root.prune (·.id ≠ launcherId) = some group.root) ∧ group.root.containsLauncher = false

theorem adds_insertLauncherSplitting (hs : s.Valid) (projectId targetPaneId : Text) (edge : PaneEdge) (newPaneId : NewId) :
    Atomic s (insertLauncherSplitting projectId targetPaneId edge newPaneId) fun location t =>
      LauncherAdded s t location.paneId ∧ location.paneId = newPaneId.id.text := by
  refine (checks_groupOfPane hs targetPaneId).bind ?_
  rintro ⟨index,group⟩ ⟨hat,-⟩
  refine (checks_validateCapacity s (hs.groups group hat.mem)).bind fun _ _ => ?_
  split
  · exact atomic_throw
  · rename_i hnone
    rw [Bool.not_eq_true] at hnone
    dsimp only
    split
    · exact atomic_throw
    · rename_i root hroot
      obtain ⟨before,after,hsplit,rfl⟩ := hat
      obtain ⟨hperm,hprune⟩ := PaneNode.splittingLeaf_spec hroot
      apply atomic_modify
      have hnew := setGroup_middle hsplit (withLauncher group root)
      refine ⟨⟨before,after,group,root,Pane.make newPaneId.id (.launcher projectId),hsplit,hnew,rfl,rfl,hperm,?_,hnone⟩,rfl⟩
      intro habsent
      refine hprune _ (decide_eq_false (not_not.mpr rfl)) fun other hother => decide_eq_true fun hid => habsent ?_
      exact mem_map.mpr ⟨other,hother,hid⟩

theorem LauncherAdded.openOver (h : LauncherAdded s t launcherId) (hs : s.Valid) (ht : t.Valid) (hnamed : Named s)
    (hfresh : launcherId ∉ s.groups.flatMap (·.paneIds)) : OpenOver launcherId t s := by
  obtain ⟨before,after,group,root,launcher,hold,hnew,hyes,rfl,hperm,hprune,hnone⟩ := h
  have hgroup : group ∈ s.groups := by
    rw [hold]
    exact mem_append_right _ mem_cons_self
  have habsent : launcher.id ∉ group.paneIds := fun hin => hfresh (mem_flatMap.mpr ⟨group,hgroup,hin⟩)
  have hroot := hprune habsent
  have hvalid := hs.groups group hgroup
  have hnosnapshot : group.preLauncherRoot = none := by
    cases hsnapshot : group.preLauncherRoot with
    | none => rfl
    | some snapshot =>
      rw [(hvalid.snapshot snapshot hsnapshot).1] at hnone
      cases hnone
  have hsessions : ∀ id, id ∈ (withLauncher group root).sessionIds → id ∈ group.sessionIds := by
    intro id hid
    obtain ⟨pane,hpane,hcontent⟩ := mem_sessionIds.mp hid
    rcases mem_cons.mp (hperm.mem_iff.mp hpane) with rfl | hpane
    · rw [hcontent] at hyes
      cases hyes
    · exact mem_sessionIds.mpr ⟨pane,hpane,hcontent⟩
  have hnamed' : Named t := by
    intro id hid
    rw [hnew] at hid
    obtain ⟨other,hother,hid⟩ := mem_flatMap.mp hid
    apply hnamed id
    rw [hold]
    rcases mem_middle.mp hother with rfl | hother
    · exact mem_flatMap.mpr ⟨group,mem_middle.mpr (.inl rfl),hsessions id hid⟩
    · exact mem_flatMap.mpr ⟨other,mem_of_append_sides hother,hid⟩
  have hmem : withLauncher group root ∈ t.groups := by
    rw [hnew]
    exact mem_append_right _ mem_cons_self
  have hcancel : Cancellable launcher.id (withLauncher group root) ∧ launcher.id ∈ (withLauncher group root).paneIds := by
    refine cancellable_of_launcher hyes hperm habsent fun snapshot hsnapshot => ?_
    rw [← hsnapshot]
    exact hroot
  obtain ⟨hc,hin⟩ := hcancel
  have htwo : 2 ≤ sessionCount group.root.leaves := by
    have hgrouped := hvalid.shaped.grouped
    rw [containsLauncher_eq_false.mp hnone] at hgrouped
    omega
  have hdetached : detached launcher.id (withLauncher group root) = some group := by
    rw [detached_launcher (ht.intact hmem) hc hin]
    dsimp only [withLauncher]
    rw [hroot, Option.filter_some, if_pos (decide_eq_true htwo), Option.map_some]
    congr 1
    cases group
    congr 1
    exact hnosnapshot.symm
  refine openOver_of_group ht hnamed' hnew hc hin ?_
  rw [hdetached, hold, Option.toList_some, append_assoc, singleton_append]

def LauncherBesideSolo (s t : PaneLayoutState R) (launcherId : Text) : Prop :=
  ∃ (group : PaneGroup R) (launcher representative : Pane) (sessionId : Text), t.groups = s.groups ++ [group] ∧
    group.preLauncherRoot = none ∧ group.root.leaves.Perm [launcher,representative] ∧ launcher.content.isLauncher = true ∧
    launcher.id = launcherId ∧ representative.id ≠ launcherId ∧ representative.content = .session sessionId ∧ sessionId ≠ []

theorem adds_insertLauncherBeside (hs : s.Valid) {newGroupId newRepresentativePaneId newPaneId : NewId}
    (hfresh : FreshGroup s newGroupId newRepresentativePaneId newPaneId) (projectId targetSessionId : Text) (edge : PaneEdge) :
    Atomic s (insertLauncherBeside projectId targetSessionId edge newGroupId newRepresentativePaneId newPaneId) fun location t =>
      (LauncherAdded s t location.paneId ∨ LauncherBesideSolo s t location.paneId) ∧ location.paneId = newPaneId.id.text := by
  unfold insertLauncherBeside
  split
  · exact atomic_throw
  · rename_i hnamed
    apply atomic_get
    split
    · exact (adds_insertLauncherSplitting hs _ _ _ _).mono fun _ _ h => ⟨.inl h.1,h.2⟩
    · apply atomic_modify
      refine ⟨.inr ⟨_,Pane.make newPaneId.id (.launcher projectId),Pane.make newRepresentativePaneId.id (.session targetSessionId),
        targetSessionId,rfl,rfl,PaneNode.leaves_beside _ _ _ _,rfl,rfl,hfresh.2.2.2,rfl,hnamed⟩,rfl⟩

theorem LauncherBesideSolo.openOver (h : LauncherBesideSolo s t launcherId) (ht : t.Valid) (hnamed : Named s) :
    OpenOver launcherId t s := by
  obtain ⟨group,launcher,representative,sessionId,hnew,hnone,hperm,hyes,rfl,hne,hcontent,hname⟩ := h
  have hmem : group ∈ t.groups := by
    rw [hnew]
    exact mem_append_right _ mem_cons_self
  have hnamed' : Named t := by
    intro id hid
    rw [hnew, flatMap_append, mem_append, flatMap_singleton] at hid
    rcases hid with hid | hid
    · exact hnamed id hid
    · obtain ⟨pane,hpane,hsession⟩ := mem_sessionIds.mp hid
      rcases mem_cons.mp (hperm.mem_iff.mp hpane) with rfl | hpane
      · rw [hsession] at hyes
        cases hyes
      · rw [mem_singleton.mp hpane, hcontent] at hsession
        cases hsession
        exact hname
  have habsent : launcher.id ∉ [representative].map (·.id) := fun hin => hne (mem_singleton.mp hin).symm
  obtain ⟨hc,hin⟩ := cancellable_of_launcher hyes hperm habsent fun snapshot hsnapshot => by
    rw [hnone] at hsnapshot
    cases hsnapshot
  have hone : sessionCount group.root.leaves = 1 := by
    have hcount : sessionCount group.root.leaves = sessionCount [launcher,representative] := hperm.countP_eq _
    obtain ⟨projectId,hlauncher⟩ := exists_launcher hyes
    rw [hcount, sessionCount, countP_cons_of_neg (by rw [hlauncher]; nofun), countP_singleton, hcontent]
    rfl
  have hdetached : detached launcher.id group = none := by
    rw [detached_launcher (ht.intact hmem) hc hin, Option.map_eq_none_iff, Option.filter_eq_none_iff]
    intro root hroot htwo
    have hfewer : sessionCount root.leaves ≤ sessionCount group.root.leaves := by
      rw [SplitTree.leaves_prune hroot]
      exact filter_sublist.countP_le
    have := of_decide_eq_true htwo
    omega
  refine openOver_of_group ht hnamed' hnew hc hin ?_
  rw [hdetached, Option.toList_none, append_nil, append_nil]

/-- Right after it has been opened. -/
theorem Opens.openOver {operation : PaneOperation R PaneLocation} (h : Opens s operation) (hs : s.Valid) (hnamed : Named s)
    (hperform : perform operation s = (.ok location,t)) : OpenOver location.paneId t s := by
  cases h with
  | splitting projectId targetPaneId edge newPaneId hfresh =>
    have hedits : Atomic s (insertLauncherSplitting projectId targetPaneId edge newPaneId) fun _ t => Edit (fun _ => False) s t [] :=
      edits_insertLauncherSplitting hs hfresh projectId targetPaneId edge
    have hedit := hedits s rfl
    have hadds := adds_insertLauncherSplitting hs projectId targetPaneId edge newPaneId s rfl
    rw [hperform] at hedit hadds
    have ht : t.Valid := Edit.valid hs hedit
    obtain ⟨hadded,hid⟩ := hadds
    refine hadded.openOver hs ht hnamed ?_
    rw [hid]
    exact hfresh
  | beside projectId targetSessionId edge newGroupId newRepresentativePaneId newPaneId hfresh =>
    have hedits : Atomic s (insertLauncherBeside projectId targetSessionId edge newGroupId newRepresentativePaneId newPaneId)
        fun _ t => Edit (fun _ => False) s t [] :=
      edits_insertLauncherBeside hs hfresh projectId targetSessionId edge
    have hedit := hedits s rfl
    have hadds := adds_insertLauncherBeside hs hfresh projectId targetSessionId edge s rfl
    rw [hperform] at hedit hadds
    have ht : t.Valid := Edit.valid hs hedit
    obtain ⟨hadded | hsolo,hid⟩ := hadds
    · refine hadded.openOver hs ht hnamed ?_
      rw [hid]
      exact hfresh.2.2.1
    · exact hsolo.openOver ht hnamed

end Opening

/-- Whatever is detached and reconciled while the launcher is open, giving it up then leaves the
layout that never had it; what is stored meanwhile is the same too, and survives being restored. -/
theorem cancelled_launcher_leaves_no_trace [DecidableEq R] (s t : PaneLayoutState R) (hs : s.Valid) (hnamed : Named s)
    (operation : PaneOperation R PaneLocation) (hopens : Opens s operation) (location : PaneLocation)
    (hopened : perform operation s = (.ok location,t)) (calls : List (LayoutCall R))
    (hcalls : ∀ call ∈ calls, Meanwhile location.paneId call) :
    (perform (removeLauncher location.paneId) (after t calls)).2 = after s calls ∧
      durableGroups (after t calls) = durableGroups (after s calls) ∧
      ∀ made, durableGroups (restoredState made (durableGroups (after t calls))) = durableGroups (after t calls) := by
  have hrun := (hopens.openOver hs hnamed hopened).run hcalls
  exact ⟨hrun.removed,hrun.stored,fun made => durableGroups_restored made hrun.valid hrun.named⟩

section Trying

def pair : PaneLayoutState ℚ :=
  (perform (createGroup "chat".toList "shell".toList .right (newId 1) (newId 2) (newId 3))
    ⟨[]⟩).2

def openLauncher : PaneOperation ℚ PaneLocation :=
  insertLauncherBeside "project".toList "chat".toList .down (newId 4) (newId 5) (newId 6)

def launcherPane : Text := "00000000-0000-4000-8000-000000000006".toList

def detachShell : List (LayoutCall ℚ) :=
  [.detachPane "00000000-0000-4000-8000-000000000003".toList,.reconcile fun _ => true]

theorem cancelled_launcher_over_a_pair :
    (perform openLauncher pair).1 = .ok ⟨"00000000-0000-4000-8000-000000000001".toList,launcherPane⟩ ∧
      (perform (removeLauncher launcherPane) (after (perform openLauncher pair).2 detachShell)).2 = after pair detachShell := by
  have hempty : (⟨[]⟩ : PaneLayoutState ℚ).Valid := ⟨nodup_nil,nodup_nil,nodup_nil,nofun⟩
  have hvalid : pair.Valid := by
    have hfresh : FreshGroup (⟨[]⟩ : PaneLayoutState ℚ) (newId 1) (newId 2) (newId 3) :=
      ⟨not_mem_nil,not_mem_nil,not_mem_nil,by decide⟩
    have hedits : Atomic (⟨[]⟩ : PaneLayoutState ℚ) _ fun _ t => Edit (fun _ => False) ⟨[]⟩ t [] :=
      edits_createGroup hfresh "chat".toList "shell".toList .right
    exact Edit.valid hempty (hedits _ rfl)
  have hnamed : Named pair := by
    have hall : ∀ id ∈ pair.groups.flatMap (·.sessionIds), id ≠ [] := by decide +kernel
    exact hall
  have hopens : Opens pair openLauncher := by
    refine .beside _ _ _ _ _ _ ⟨?_,?_,?_,?_⟩
    all_goals decide +kernel
  have hok : (perform openLauncher pair).1 = .ok ⟨"00000000-0000-4000-8000-000000000001".toList,launcherPane⟩ := rfl
  have hcalls : ∀ call ∈ detachShell, Meanwhile launcherPane call := by
    intro call hcall
    rcases mem_cons.mp hcall with rfl | hcall
    · show "00000000-0000-4000-8000-000000000003".toList ≠ launcherPane
      decide
    · rw [mem_singleton.mp hcall]
      trivial
  have hopened := Prod.ext hok (rfl : (perform openLauncher pair).2 = (perform openLauncher pair).2)
  exact ⟨hok,(cancelled_launcher_leaves_no_trace pair _ hvalid hnamed openLauncher hopens _ hopened detachShell hcalls).1⟩

end Trying

end Unpeel.Panes
