import Unpeel.Panes.Canonicalize

/-! # The layout on disk

Only Sessions are stored, in groups of at least two. While a launcher is open, what is stored
is the tree from before it.
-/
namespace Unpeel.Panes
open Manifest List
variable {R : Type} [SplitArithmetic R]

structure DurablePane where
  id : Text
  sessionId : Text
deriving DecidableEq

structure DurableDivider (R : Type) where
  direction : SplitDirection
  ratio : R
deriving DecidableEq

abbrev DurablePaneNode (R : Type) := SplitTree (DurableDivider R) DurablePane

structure DurablePaneGroup (R : Type) where
  id : Text
  representativePaneId : Text
  root : DurablePaneNode R
deriving DecidableEq

namespace DurablePaneNode

def ofNode : PaneNode R → DurablePaneNode R
  | .leaf pane => .leaf ⟨pane.id,pane.content.sessionId.getD []⟩
  | .split label left right => .split ⟨label.direction,label.ratio.value⟩ (ofNode left) (ofNode right)

/-- `made` gives the id for each leaf whose id is not a UUID, by the position of the leaf. -/
def paneNode (made : List Branch → StableId) : DurablePaneNode R → PaneNode R
  | .leaf pane => .leaf (.make (.choose (some pane.id) (made [])) (.session pane.sessionId))
  | .split label left right =>
    .split ⟨label.direction,.clamp label.ratio⟩ (paneNode (fun path => made (.left :: path)) left)
      (paneNode (fun path => made (.right :: path)) right)

end DurablePaneNode

namespace DurablePaneGroup

def candidate (group : PaneGroup R) : Option (PaneNode R) :=
  let stripped := PaneNode.removingLeaves (some group.root) (group.root.leaves.filter (·.content.isLauncher))
  if group.root.containsLauncher then group.preLauncherRoot.or stripped else stripped

def ofCandidate (group : PaneGroup R) (candidate : PaneNode R) : Option (DurablePaneGroup R) :=
  if 2 ≤ candidate.sessionLeaves.length then
    let representative :=
      if (candidate.leafOf group.representativePaneId).isSome then group.representativePaneId
      else candidate.promoted group.representativePaneId
    some ⟨group.id,representative,DurablePaneNode.ofNode candidate⟩
  else none

def ofGroup (group : PaneGroup R) : Option (DurablePaneGroup R) := (candidate group).bind (ofCandidate group)

def paneGroup (madeId : StableId) (made : List Branch → StableId) (durable : DurablePaneGroup R) : PaneGroup R :=
  .make (.choose (some durable.id) madeId) durable.representativePaneId (DurablePaneNode.paneNode made durable.root) none

end DurablePaneGroup

/-- `DurablePaneLayout(state:)`. -/
def durableGroups (state : PaneLayoutState R) : List (DurablePaneGroup R) := state.groups.filterMap DurablePaneGroup.ofGroup

structure MadeIds where
  duplicate : ℕ → StableId
  group : ℕ → StableId
  pane : ℕ → List Branch → StableId

def restoredState (made : MadeIds) (groups : List (DurablePaneGroup R)) : PaneLayoutState R :=
  restored made.duplicate (groups.mapIdx fun index durable => durable.paneGroup (made.group index) (made.pane index))

section Storing
variable {group : PaneGroup R} {state : PaneLayoutState R}
variable {stored : PaneGroup R}

theorem choose_stable {text : Text} (h : canonical text = some text) (made : StableId) : StableId.choose (some text) made = ⟨text,h⟩ := by
  unfold StableId.choose
  split
  · rename_i found hfound
    have heq : found = text := by
      rw [Option.bind_some, h] at hfound
      exact (Option.some.inj hfound).symm
    subst heq
    rfl
  · rename_i hnone
    rw [Option.bind_some, h] at hnone
    cases hnone

theorem paneNode_ofNode (made : List Branch → StableId) {node : PaneNode R}
    (h : ∀ pane ∈ node.leaves, pane.content.sessionId.isSome = true) : (DurablePaneNode.ofNode node).paneNode made = node := by
  induction node generalizing made with
  | leaf pane =>
    have hpane := h pane mem_cons_self
    rw [DurablePaneNode.ofNode, DurablePaneNode.paneNode, choose_stable pane.stable]
    cases pane with
    | mk id content stable =>
      cases content with
      | session sessionId => rfl
      | launcher projectId => cases hpane
  | split label left right ihl ihr =>
    rw [DurablePaneNode.ofNode, DurablePaneNode.paneNode, ihl _ fun pane hpane => h pane (mem_append_left _ hpane),
      ihr _ fun pane hpane => h pane (mem_append_right _ hpane), SplitRatio.clamp_value]

theorem removingLaunchers {root : PaneNode R} (h : PaneNode.Distinct root) :
    PaneNode.removingLeaves (some root) (root.leaves.filter (·.content.isLauncher)) = root.prune (·.content.sessionId.isSome) := by
  rw [h.removingLeaves]
  refine SplitTree.prune_congr fun pane hpane => ?_
  rw [session_or_launcher]
  unfold notAmong
  congr 1
  rw [Bool.eq_iff_iff, any_eq_true]
  constructor
  · rintro ⟨other,hother,hid⟩
    obtain ⟨hother,hlauncher⟩ := mem_filter.mp hother
    rw [← h.eq hother hpane (of_decide_eq_true hid)]
    exact hlauncher
  · exact fun hlauncher => ⟨pane,mem_filter.mpr ⟨hpane,hlauncher⟩,decide_eq_true rfl⟩

/-- What is stored of a group has its Sessions. -/
theorem candidate_spec (hgroup : group.Valid) (hdistinct : PaneNode.Distinct group.root) {candidate : PaneNode R}
    (h : DurablePaneGroup.candidate group = some candidate) : candidate.leaves.Perm group.root.sessionLeaves := by
  have hstripped : ∀ stripped : PaneNode R, group.root.prune (·.content.sessionId.isSome) = some stripped →
      stripped.leaves.Perm group.root.sessionLeaves := fun stripped hstripped => .of_eq (SplitTree.leaves_prune hstripped)
  unfold DurablePaneGroup.candidate at h
  rw [removingLaunchers hdistinct] at h
  split at h
  · cases hsnapshot : group.preLauncherRoot with
    | some snapshot =>
      rw [hsnapshot] at h
      cases h
      exact (hgroup.snapshot _ hsnapshot).2
    | none =>
      rw [hsnapshot, Option.none_or] at h
      exact hstripped candidate h
  · exact hstripped candidate h

def storedGroup (group : PaneGroup R) : Option (PaneGroup R) :=
  ((DurablePaneGroup.candidate group).filter fun candidate => 2 ≤ (PaneNode.sessionLeaves candidate).length).map fun candidate =>
    { group with root := candidate, preLauncherRoot := none }

def Named (state : PaneLayoutState R) : Prop := ∀ id ∈ state.groups.flatMap (·.sessionIds), id ≠ []

theorem storedGroup_spec (hgroup : group.Valid) (hdistinct : PaneNode.Distinct group.root)
    (h : storedGroup group = some stored) :
    stored.id = group.id ∧ stored.representativePaneId = group.representativePaneId ∧ stored.preLauncherRoot = none ∧
      stored.root.leaves.Perm group.root.sessionLeaves ∧ 2 ≤ sessionCount stored.root.leaves ∧
      DurablePaneGroup.candidate group = some stored.root := by
  obtain ⟨candidate,hcandidate,rfl⟩ := Option.map_eq_some_iff.mp h
  obtain ⟨hcandidate,htwo⟩ := Option.filter_eq_some_iff.mp hcandidate
  refine ⟨rfl,rfl,rfl,candidate_spec hgroup hdistinct hcandidate,?_,hcandidate⟩
  rw [← length_sessionLeaves]
  exact of_decide_eq_true htwo

theorem launcherCount_sessionLeaves (root : PaneNode R) : launcherCount root.sessionLeaves = 0 := by
  apply countP_eq_zero.mpr
  intro pane hpane
  have hsession := (mem_sessionLeaves.mp hpane).2
  rw [session_or_launcher, Bool.not_eq_true'] at hsession
  rw [hsession]
  nofun

theorem sessionCount_sessionLeaves (root : PaneNode R) : sessionCount root.sessionLeaves = sessionCount root.leaves := by
  rw [← length_sessionLeaves]
  exact List.countP_eq_length.mpr fun pane hpane => (mem_sessionLeaves.mp hpane).2

/-- What is stored is a valid group without a launcher. -/
theorem storedGroup_valid (hgroup : group.Valid) (hdistinct : PaneNode.Distinct group.root)
    (h : storedGroup group = some stored) :
    stored.Valid ∧ PaneNode.Distinct stored.root ∧ stored.root.containsLauncher = false := by
  obtain ⟨-,hrepresentative,hnone,hperm,htwo,-⟩ := storedGroup_spec hgroup hdistinct h
  have hlaunchers : launcherCount stored.root.leaves = 0 := by
    rw [← launcherCount_sessionLeaves group.root]
    exact hperm.countP_eq _
  have hsessions : sessionCount stored.root.leaves = sessionCount group.root.leaves := by
    rw [← sessionCount_sessionLeaves group.root]
    exact hperm.countP_eq _
  obtain ⟨hcapacity,-,-,pane,hpane,hsession,hid⟩ := hgroup.shaped
  refine ⟨⟨⟨?_,?_,.inl htwo,pane,?_,hsession,hid.trans hrepresentative.symm⟩,?_⟩,?_,containsLauncher_eq_false.mpr hlaunchers⟩
  · omega
  · omega
  · exact hperm.mem_iff.mpr (mem_sessionLeaves.mpr ⟨hpane,hsession⟩)
  · intro snapshot hsnapshot
    rw [hnone] at hsnapshot
    cases hsnapshot
  · exact (hperm.map _).nodup_iff.mpr (hdistinct.sublist (filter_sublist.map _))

theorem candidate_of_no_launcher (h : group.root.containsLauncher = false) :
    DurablePaneGroup.candidate group = some group.root := by
  unfold DurablePaneGroup.candidate
  have hnone : group.root.leaves.filter (·.content.isLauncher) = [] := by
    apply filter_eq_nil_iff.mpr
    rw [PaneNode.containsLauncher, any_eq_false] at h
    exact h
  rw [h, hnone]
  rfl

/-- The document has the group that is stored. -/
theorem ofGroup_eq (hgroup : group.Valid) (hdistinct : PaneNode.Distinct group.root) :
    DurablePaneGroup.ofGroup group =
      (storedGroup group).map fun stored => ⟨stored.id,stored.representativePaneId,DurablePaneNode.ofNode stored.root⟩ := by
  unfold DurablePaneGroup.ofGroup storedGroup DurablePaneGroup.ofCandidate
  cases hcandidate : DurablePaneGroup.candidate group with
  | none => rfl
  | some candidate =>
    obtain ⟨pane,hpane,hsession,hid⟩ := hgroup.shaped.representative
    have hmem : pane ∈ candidate.leaves :=
      (candidate_spec hgroup hdistinct hcandidate).mem_iff.mpr (mem_sessionLeaves.mpr ⟨hpane,hsession⟩)
    have hfound : (candidate.leafOf group.representativePaneId).isSome = true := by
      cases hfound : candidate.leafOf group.representativePaneId with
      | some found => rfl
      | none => exact absurd hid (PaneNode.leafOf_eq_none.mp hfound pane hmem)
    rw [Option.bind_some, Option.filter_some]
    by_cases htwo : 2 ≤ candidate.sessionLeaves.length
    · rw [if_pos htwo, if_pos (decide_eq_true htwo), if_pos hfound]
      rfl
    · rw [if_neg htwo, if_neg (by rw [decide_eq_true_eq]; exact htwo)]
      rfl

theorem storedGroup_stored (hgroup : group.Valid) (hdistinct : PaneNode.Distinct group.root)
    (h : storedGroup group = some stored) : storedGroup stored = some stored := by
  obtain ⟨-,-,hnone,-,htwo,-⟩ := storedGroup_spec hgroup hdistinct h
  obtain ⟨-,-,hlauncher⟩ := storedGroup_valid hgroup hdistinct h
  unfold storedGroup
  rw [candidate_of_no_launcher hlauncher, Option.filter_some,
    if_pos (decide_eq_true (by rw [length_sessionLeaves]; exact htwo)), Option.map_some]
  congr 1
  cases stored
  congr 1
  exact hnone.symm

theorem paneGroup_of_stored (madeId : StableId) (made : List Branch → StableId) (hgroup : group.Valid)
    (hsnapshot : group.preLauncherRoot = none) (hlauncher : group.root.containsLauncher = false) :
    DurablePaneGroup.paneGroup madeId made ⟨group.id,group.representativePaneId,DurablePaneNode.ofNode group.root⟩ = group := by
  obtain ⟨pane,hpane,-,hid⟩ := hgroup.shaped.representative
  have hsessions : ∀ pane ∈ group.root.leaves, pane.content.sessionId.isSome = true := by
    intro pane hpane
    rw [← sessionLeaves_of_no_launcher hlauncher] at hpane
    exact (mem_sessionLeaves.mp hpane).2
  unfold DurablePaneGroup.paneGroup PaneGroup.make
  rw [choose_stable group.stable, paneNode_ofNode made hsessions, ← hid, pane.stable, Option.getD_some, hid]
  cases group
  congr 1
  exact hsnapshot.symm

theorem mapIdx_map_eq_self {α β : Type*} {f : ℕ → β → α} {g : α → β} {list : List α}
    (h : ∀ index, ∀ a ∈ list, f index (g a) = a) : (list.map g).mapIdx f = list := by
  induction list generalizing f with
  | nil => rfl
  | cons a list ih =>
    rw [map_cons, mapIdx_cons, h 0 a mem_cons_self,
      ih fun index b hb => h (index + 1) b (mem_cons_of_mem _ hb)]

theorem durableGroups_eq (hs : state.Valid) : durableGroups state = (state.groups.filterMap storedGroup).map fun stored =>
    ⟨stored.id,stored.representativePaneId,DurablePaneNode.ofNode stored.root⟩ := by
  rw [map_filterMap]
  exact filterMap_congr fun group hgroup => ofGroup_eq (hs.groups group hgroup) (hs.distinct hgroup)

theorem wellFormed_stored (hs : state.Valid) (hnamed : Named state) : WellFormed (state.groups.filterMap storedGroup) := by
  have hspec : ∀ group ∈ state.groups, ∀ stored, storedGroup group = some stored →
      stored.id = group.id ∧ stored.root.leaves.Perm group.root.sessionLeaves ∧ stored.Valid := by
    intro group hgroup stored hstored
    obtain ⟨hid,-,-,hperm,-⟩ := storedGroup_spec (hs.groups group hgroup) (hs.distinct hgroup) hstored
    exact ⟨hid,hperm,(storedGroup_valid (hs.groups group hgroup) (hs.distinct hgroup) hstored).1⟩
  have hsessions : ∀ group ∈ state.groups, ∀ stored, storedGroup group = some stored →
      stored.sessionIds.Nodup ∧ ∀ id ∈ stored.sessionIds, id ∈ group.sessionIds := by
    intro group hgroup stored hstored
    have hperm := ((hspec group hgroup stored hstored).2.1.filterMap (·.content.sessionId))
    have hsub : (group.root.sessionLeaves.filterMap (·.content.sessionId)).Sublist group.sessionIds :=
      filter_sublist.filterMap _
    exact ⟨hperm.nodup_iff.mpr ((nodup_of_mem hs.sessions hgroup).sublist hsub),fun id hid => hsub.subset (hperm.mem_iff.mp hid)⟩
  have hpanes : ∀ group ∈ state.groups, ∀ stored, storedGroup group = some stored →
      stored.paneIds.Nodup ∧ ∀ id ∈ stored.paneIds, id ∈ group.paneIds := by
    intro group hgroup stored hstored
    have hperm := ((hspec group hgroup stored hstored).2.1.map (·.id))
    have hsub : (group.root.sessionLeaves.map (·.id)).Sublist group.paneIds := filter_sublist.map _
    exact ⟨hperm.nodup_iff.mpr ((nodup_of_mem hs.panes hgroup).sublist hsub),fun id hid => hsub.subset (hperm.mem_iff.mp hid)⟩
  have hids : ((state.groups.filterMap storedGroup).map (·.id)).Nodup := by
    have hold : (state.groups.flatMap fun group => [group.id]).Nodup := by
      rw [← map_eq_flatMap]
      exact hs.ids
    rw [map_eq_flatMap]
    refine nodup_filterMap hold fun group hgroup stored hstored => ?_
    rw [(hspec group hgroup stored hstored).1]
    exact ⟨nodup_singleton _,fun _ hid => hid⟩
  have hvalid : ∀ stored ∈ state.groups.filterMap storedGroup, stored.Valid := by
    intro stored hstored
    obtain ⟨group,hgroup,hstored⟩ := mem_filterMap.mp hstored
    exact (hspec group hgroup stored hstored).2.2
  refine ⟨nodup_filterMap hs.sessions hsessions,nodup_filterMap hs.panes hpanes,hids,?_,?_,?_,?_,?_⟩
  · intro id hid
    obtain ⟨stored,hstored,hid⟩ := mem_flatMap.mp hid
    obtain ⟨group,hgroup,hstored⟩ := mem_filterMap.mp hstored
    exact hnamed id (mem_flatMap.mpr ⟨group,hgroup,(hsessions group hgroup stored hstored).2 id hid⟩)
  · intro stored hstored
    have hcapacity := (hvalid stored hstored).shaped.capacity
    omega
  · exact fun stored hstored => (hvalid stored hstored).shaped.launchers
  · exact fun stored hstored => (hvalid stored hstored).shaped.grouped
  · intro stored hstored
    obtain ⟨pane,hpane,hsession,hid⟩ := (hvalid stored hstored).shaped.representative
    exact ⟨pane,mem_sessionLeaves.mpr ⟨hpane,hsession⟩,hid⟩

/-- What is on disk is restored and stored again as it is, whatever ids are made meanwhile. -/
theorem durableGroups_restored (made : MadeIds) (hs : state.Valid) (hnamed : Named state) :
    durableGroups (restoredState made (durableGroups state)) = durableGroups state := by
  have hstored : ∀ stored ∈ state.groups.filterMap storedGroup,
      stored.preLauncherRoot = none ∧ stored.Valid ∧ PaneNode.Distinct stored.root ∧ stored.root.containsLauncher = false ∧
        storedGroup stored = some stored := by
    intro stored hstored
    obtain ⟨group,hgroup,hstored⟩ := mem_filterMap.mp hstored
    have hvalid := hs.groups group hgroup
    have hdistinct := hs.distinct hgroup
    obtain ⟨hvalid',hdistinct',hlauncher⟩ := storedGroup_valid hvalid hdistinct hstored
    exact ⟨(storedGroup_spec hvalid hdistinct hstored).2.2.1,hvalid',hdistinct',hlauncher,
      storedGroup_stored hvalid hdistinct hstored⟩
  have hrestored : restoredState made (durableGroups state) = ⟨state.groups.filterMap storedGroup⟩ := by
    unfold restoredState
    rw [durableGroups_eq hs, mapIdx_map_eq_self]
    · apply restored_self made.duplicate (wellFormed_stored hs hnamed)
      intro stored hmem snapshot hsnapshot
      rw [(hstored stored hmem).1] at hsnapshot
      cases hsnapshot
    · intro index stored hmem
      obtain ⟨hnone,hvalid,-,hlauncher,-⟩ := hstored stored hmem
      exact paneGroup_of_stored (made.group index) (made.pane index) hvalid hnone hlauncher
  rw [hrestored, durableGroups_eq hs]
  rw [← filterMap_eq_map]
  refine filterMap_congr fun stored hmem => ?_
  obtain ⟨-,hvalid,hdistinct,-,hsame⟩ := hstored stored hmem
  rw [ofGroup_eq hvalid hdistinct, hsame]
  rfl

end Storing

end Unpeel.Panes
