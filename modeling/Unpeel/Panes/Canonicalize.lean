import Mathlib.Data.List.Dedup
import Unpeel.Panes.LayoutOperations

/-! # Restoring a layout

What was stored may repeat ids and Sessions in any way. The groups are taken one after the
other; a leaf that repeats something is removed, by its id, and a group that is left with too
little is dropped.
-/
namespace Unpeel.Panes
open Manifest PaneLayoutState List
variable {R : Type} [SplitArithmetic R]

structure Walk (R : Type) [SplitArithmetic R] where
  paneIds : List Text
  sessionIds : List Text
  hasLauncher : Bool
  root : Option (PaneNode R)

namespace Walk

def drop (walk : Walk R) (pane : Pane) : Walk R := { walk with root := walk.root.bind (PaneNode.removingLeaf pane.id) }

def judge (walk : Walk R) (pane : Pane) : Walk R :=
  if walk.paneIds.contains pane.id then walk.drop pane
  else
    match pane.content with
    | .session sessionId =>
      if sessionId.isEmpty || walk.sessionIds.contains sessionId then walk.drop pane
      else { walk with paneIds := pane.id :: walk.paneIds, sessionIds := sessionId :: walk.sessionIds }
    | .launcher _ =>
      if walk.hasLauncher then walk.drop pane else { walk with paneIds := pane.id :: walk.paneIds, hasLauncher := true }

def cutLast (walk : Walk R) (root : PaneNode R) (last : Pane) : Walk R :=
  { walk with
    paneIds := walk.paneIds.filter (· ≠ last.id)
    sessionIds := walk.sessionIds.filter fun sessionId => last.content.sessionId ≠ some sessionId
    root := root.removingLeaf last.id }

/-- The loop that enforces the limit, at most `fuel` times. -/
def trim : ℕ → Walk R → Walk R
  | 0, walk => walk
  | fuel + 1, walk =>
    match walk.root with
    | none => walk
    | some root =>
      if maximumSessionLeafCount < root.sessionLeaves.length then
        match root.sessionLeaves.getLast? with
        | none => walk
        | some last => trim fuel (walk.cutLast root last)
      else walk

end Walk

structure Canonicalizing (R : Type) [SplitArithmetic R] where
  groups : List (PaneGroup R)
  usedGroupIds : List Text
  usedPaneIds : List Text
  usedSessionIds : List Text
  made : ℕ

namespace Canonicalizing

def walked (layout : Canonicalizing R) (candidate : PaneGroup R) : Walk R :=
  Walk.trim candidate.root.leaves.length
    (candidate.root.leaves.foldl Walk.judge ⟨layout.usedPaneIds,layout.usedSessionIds,false,some candidate.root⟩)

def keptSnapshot (candidate : PaneGroup R) (root : PaneNode R) (hasLauncher : Bool) : Option (PaneNode R) :=
  if hasLauncher then
    candidate.preLauncherRoot.filter fun snapshot =>
      PaneNode.sameIds (PaneNode.sessionLeaves snapshot) root.sessionLeaves &&
        2 ≤ ((PaneNode.sessionLeaves snapshot).map (·.id)).dedup.length
  else none

def groupIdFor (make : ℕ → StableId) (layout : Canonicalizing R) (candidate : PaneGroup R) : StableId :=
  if layout.usedGroupIds.contains candidate.id then make layout.made else ⟨candidate.id,candidate.stable⟩

def counted (layout : Canonicalizing R) (candidate : PaneGroup R) : Canonicalizing R :=
  { layout with made := if layout.usedGroupIds.contains candidate.id then layout.made + 1 else layout.made }

def accept (layout : Canonicalizing R) (groupId : StableId) (candidate : PaneGroup R) (walk : Walk R) : Canonicalizing R :=
  match walk.root with
  | none => layout
  | some root =>
    if 2 ≤ root.sessionLeaves.length || (root.sessionLeaves.length == 1 && walk.hasLauncher) then
      { layout with
        groups := layout.groups ++ [.make groupId (root.promoted candidate.representativePaneId) root
          (keptSnapshot candidate root walk.hasLauncher)]
        usedGroupIds := groupId.text :: layout.usedGroupIds
        usedPaneIds := walk.paneIds
        usedSessionIds := walk.sessionIds }
    else layout

def next (make : ℕ → StableId) (layout : Canonicalizing R) (candidate : PaneGroup R) : Canonicalizing R :=
  (layout.counted candidate).accept (layout.groupIdFor make candidate) candidate (layout.walked candidate)

def start : Canonicalizing R := ⟨[],[],[],[],0⟩

end Canonicalizing

/-- `PaneLayoutState(groups:)`, with the ids that `PaneStableID.make` gives. -/
def restored (make : ℕ → StableId) (candidates : List (PaneGroup R)) : PaneLayoutState R :=
  ⟨(candidates.foldl (Canonicalizing.next make) .start).groups⟩

section Walking
variable {usedPanes usedSessions : List Text} {kept todo : List Pane} {walk : Walk R} {pane : Pane}
variable {root : PaneNode R}

structure Walked (usedPanes usedSessions : List Text) (kept todo : List Pane) (walk : Walk R) : Prop where
  leaves : SplitTree.leavesOf walk.root = kept ++ todo
  distinct : ((kept ++ todo).map (·.id)).Nodup
  paneIds : ∀ id, id ∈ walk.paneIds ↔ id ∈ usedPanes ∨ id ∈ kept.map (·.id)
  sessionIds : ∀ id, id ∈ walk.sessionIds ↔ id ∈ usedSessions ∨ id ∈ kept.filterMap (·.content.sessionId)
  hasLauncher : walk.hasLauncher = true ↔ 0 < launcherCount kept
  launchers : launcherCount kept ≤ 1
  newPanes : ∀ id ∈ kept.map (·.id), id ∉ usedPanes
  newSessions : ∀ id ∈ kept.filterMap (·.content.sessionId), id ∉ usedSessions ∧ id ≠ []
  sessions : (kept.filterMap (·.content.sessionId)).Nodup

theorem Walked.root_distinct (h : Walked usedPanes usedSessions kept todo walk)
    (hroot : walk.root = some root) : root.leaves = kept ++ todo ∧ PaneNode.Distinct root := by
  have hleaves := h.leaves
  rw [hroot] at hleaves
  have hleaves : root.leaves = kept ++ todo := hleaves
  refine ⟨hleaves,?_⟩
  unfold PaneNode.Distinct
  rw [hleaves]
  exact h.distinct

theorem Walked.leaves_removingLeaf (h : Walked usedPanes usedSessions kept todo walk) (id : Text) :
    SplitTree.leavesOf (walk.root.bind (PaneNode.removingLeaf id)) = (kept ++ todo).filter (·.id ≠ id) := by
  cases hroot : walk.root with
  | none =>
    have hleaves := h.leaves
    rw [hroot] at hleaves
    rw [← hleaves]
    rfl
  | some root =>
    obtain ⟨hleaves,hdistinct⟩ := h.root_distinct hroot
    rw [Option.bind_some, hdistinct.removingLeaf, SplitTree.leavesOf_prune, hleaves]

theorem filter_ne_middle {before after : List Pane} (h : ((before ++ pane :: after).map (·.id)).Nodup) :
    (before ++ pane :: after).filter (·.id ≠ pane.id) = before ++ after := by
  rw [map_append, map_cons, List.nodup_middle, nodup_cons, ← map_append] at h
  rw [List.filter_append, filter_cons_of_neg (by simp), ← List.filter_append]
  apply filter_eq_self.mpr
  intro other hother
  apply decide_eq_true
  intro hid
  exact h.1 (mem_map.mpr ⟨other,hother,hid⟩)

theorem Walked.drop (h : Walked usedPanes usedSessions kept (pane :: todo) walk) :
    Walked usedPanes usedSessions kept todo (walk.drop pane) where
  leaves := by
    rw [← filter_ne_middle h.distinct]
    exact h.leaves_removingLeaf pane.id
  distinct := by
    have hdistinct := h.distinct
    rw [map_append, map_cons, List.nodup_middle, nodup_cons, ← map_append] at hdistinct
    exact hdistinct.2
  paneIds := h.paneIds
  sessionIds := h.sessionIds
  hasLauncher := h.hasLauncher
  launchers := h.launchers
  newPanes := h.newPanes
  newSessions := h.newSessions
  sessions := h.sessions

theorem launcherCount_concat (kept : List Pane) (pane : Pane) :
    launcherCount (kept ++ [pane]) = launcherCount kept + if pane.content.isLauncher then 1 else 0 := by
  unfold launcherCount
  rw [countP_append, countP_singleton]

/-- The leaf stays. -/
theorem Walked.keep (h : Walked usedPanes usedSessions kept (pane :: todo) walk) (hpane : pane.id ∉ walk.paneIds)
    (hsession : ∀ id, pane.content.sessionId = some id → id ≠ [] ∧ id ∉ walk.sessionIds)
    (hlauncher : pane.content.isLauncher = true → walk.hasLauncher = false) {walk' : Walk R} (hroot : walk'.root = walk.root)
    (hpaneIds : walk'.paneIds = pane.id :: walk.paneIds)
    (hsessionIds : walk'.sessionIds = pane.content.sessionId.toList ++ walk.sessionIds)
    (hhas : walk'.hasLauncher = (pane.content.isLauncher || walk.hasLauncher)) :
    Walked usedPanes usedSessions (kept ++ [pane]) todo walk' where
  leaves := by
    rw [hroot, h.leaves, append_assoc]
    rfl
  distinct := by
    rw [append_assoc]
    exact h.distinct
  paneIds := by
    intro id
    rw [hpaneIds, mem_cons, h.paneIds, map_append, mem_append, map_singleton, mem_singleton]
    tauto
  sessionIds := by
    intro id
    rw [hsessionIds, mem_append, h.sessionIds, filterMap_append, mem_append]
    have hone : id ∈ [pane].filterMap (·.content.sessionId) ↔ id ∈ pane.content.sessionId.toList := by
      rw [filterMap_cons, filterMap_nil]
      cases pane.content.sessionId <;> rfl
    rw [hone]
    tauto
  hasLauncher := by
    rw [hhas, launcherCount_concat, Bool.or_eq_true, h.hasLauncher]
    cases pane.content.isLauncher with
    | true | false => simp
  launchers := by
    rw [launcherCount_concat]
    cases hcontent : pane.content.isLauncher with
    | true =>
      have hnone := hlauncher hcontent
      rw [← Bool.not_eq_true, h.hasLauncher] at hnone
      rw [if_pos rfl]
      omega
    | false => exact h.launchers
  newPanes := by
    intro id hid
    rw [map_append, mem_append, map_singleton, mem_singleton] at hid
    rcases hid with hid | rfl
    · exact h.newPanes id hid
    · exact fun hused => hpane ((h.paneIds _).mpr (.inl hused))
  newSessions := by
    intro id hid
    rw [filterMap_append, mem_append] at hid
    rcases hid with hid | hid
    · exact h.newSessions id hid
    · obtain ⟨other,hother,hid⟩ := mem_filterMap.mp hid
      rw [mem_singleton.mp hother] at hid
      obtain ⟨hne,hnew⟩ := hsession id hid
      exact ⟨fun hused => hnew ((h.sessionIds _).mpr (.inl hused)),hne⟩
  sessions := by
    rw [filterMap_append, nodup_append]
    refine ⟨h.sessions,?_,?_⟩
    · rw [filterMap_cons, filterMap_nil]
      cases pane.content.sessionId with
      | none => exact nodup_nil
      | some id => exact nodup_singleton id
    · rintro id hid other hother rfl
      obtain ⟨found,hfound,hother⟩ := mem_filterMap.mp hother
      rw [mem_singleton.mp hfound] at hother
      exact (hsession id hother).2 ((h.sessionIds _).mpr (.inr hid))

theorem Walked.judge (h : Walked usedPanes usedSessions kept (pane :: todo) walk) :
    ∃ kept', Walked usedPanes usedSessions kept' todo (walk.judge pane) ∧ kept'.length ≤ kept.length + 1 := by
  unfold Walk.judge
  split
  · exact ⟨kept,h.drop,Nat.le_succ _⟩
  · rename_i hpane
    rw [contains_eq_mem, decide_eq_true_eq] at hpane
    split
    · rename_i sessionId hcontent
      split
      · exact ⟨kept,h.drop,Nat.le_succ _⟩
      · rename_i hsession
        rw [Bool.or_eq_true, not_or, contains_eq_mem, decide_eq_true_eq, List.isEmpty_iff] at hsession
        refine ⟨kept ++ [pane],h.keep hpane ?_ ?_ rfl rfl ?_ ?_,length_append.le⟩
        · intro id hid
          rw [hcontent] at hid
          cases hid
          exact hsession
        · rw [hcontent]
          exact fun hlauncher => by cases hlauncher
        · rw [hcontent]
          rfl
        · rw [hcontent]
          rfl
    · rename_i projectId hcontent
      split
      · exact ⟨kept,h.drop,Nat.le_succ _⟩
      · rename_i hlauncher
        refine ⟨kept ++ [pane],h.keep hpane ?_ ?_ rfl rfl ?_ ?_,length_append.le⟩
        · rw [hcontent]
          exact fun id hid => by cases hid
        · exact fun _ => Bool.eq_false_iff.mpr hlauncher
        · rw [hcontent]
          rfl
        · rw [hcontent]
          rfl

theorem Walked.fold (h : Walked usedPanes usedSessions kept todo walk) :
    ∃ kept', Walked usedPanes usedSessions kept' [] (todo.foldl Walk.judge walk) ∧
      kept'.length ≤ kept.length + todo.length := by
  induction todo generalizing kept walk with
  | nil => exact ⟨kept,h,Nat.le_refl _⟩
  | cons pane todo ih =>
    obtain ⟨middle,hmiddle,hlength⟩ := h.judge
    obtain ⟨kept',hkept,hlength'⟩ := ih hmiddle
    refine ⟨kept',hkept,?_⟩
    rw [length_cons]
    omega

theorem Walked.cutLast (h : Walked usedPanes usedSessions kept [] walk) (hroot : walk.root = some root)
    {last : Pane} (hlast : last ∈ root.sessionLeaves) :
    Walked usedPanes usedSessions (kept.filter (·.id ≠ last.id)) [] (walk.cutLast root last) := by
  obtain ⟨hleaves,hdistinct⟩ := h.root_distinct hroot
  rw [append_nil] at hleaves
  obtain ⟨hmem,hsession⟩ := mem_sessionLeaves.mp hlast
  rw [hleaves] at hmem
  have hids : (kept.map (·.id)).Nodup := by
    have hnodup := h.distinct
    rwa [append_nil] at hnodup
  have hsub : (kept.filter (·.id ≠ last.id)).Sublist kept := filter_sublist
  have hcount : launcherCount (kept.filter (·.id ≠ last.id)) = launcherCount kept := by
    unfold launcherCount
    rw [countP_filter]
    apply countP_congr
    intro pane hpane
    rw [Bool.and_eq_true, decide_eq_true_eq]
    refine ⟨fun hboth => hboth.1,fun hlauncher => ⟨hlauncher,fun hid => ?_⟩⟩
    rw [session_or_launcher, ← inj_on_of_nodup_map hids hpane hmem hid, hlauncher] at hsession
    cases hsession
  constructor
  · rw [append_nil]
    show SplitTree.leavesOf (root.removingLeaf last.id) = _
    rw [hdistinct.removingLeaf, SplitTree.leavesOf_prune, hleaves]
  · rw [append_nil]
    exact hids.sublist (hsub.map _)
  · intro id
    show id ∈ walk.paneIds.filter (· ≠ last.id) ↔ _
    rw [mem_filter, h.paneIds, decide_eq_true_eq]
    constructor
    · rintro ⟨hused | hkept,hne⟩
      · exact .inl hused
      · obtain ⟨pane,hpane,rfl⟩ := mem_map.mp hkept
        exact .inr (mem_map_of_mem (mem_filter.mpr ⟨hpane,decide_eq_true hne⟩))
    · rintro (hused | hkept)
      · refine ⟨.inl hused,?_⟩
        rintro rfl
        exact h.newPanes _ (mem_map_of_mem hmem) hused
      · obtain ⟨pane,hpane,rfl⟩ := mem_map.mp hkept
        obtain ⟨hpane,hne⟩ := mem_filter.mp hpane
        exact ⟨.inr (mem_map_of_mem hpane),of_decide_eq_true hne⟩
  · intro id
    show id ∈ walk.sessionIds.filter _ ↔ _
    rw [mem_filter, h.sessionIds, decide_eq_true_eq]
    constructor
    · rintro ⟨hused | hkept,hne⟩
      · exact .inl hused
      · obtain ⟨pane,hpane,hid⟩ := mem_filterMap.mp hkept
        refine .inr (mem_filterMap.mpr ⟨pane,mem_filter.mpr ⟨hpane,decide_eq_true fun heq => ?_⟩,hid⟩)
        rw [inj_on_of_nodup_map hids hpane hmem heq] at hid
        exact hne hid
    · rintro (hused | hkept)
      · refine ⟨.inl hused,fun hid => ?_⟩
        exact (h.newSessions id (mem_filterMap.mpr ⟨last,hmem,hid⟩)).1 hused
      · obtain ⟨pane,hpane,hid⟩ := mem_filterMap.mp hkept
        obtain ⟨hpane,hne⟩ := mem_filter.mp hpane
        refine ⟨.inr (mem_filterMap.mpr ⟨pane,hpane,hid⟩),fun hid' => ?_⟩
        have hcontent : ∀ other : Pane, other.content.sessionId = some id → other.content = .session id := by
          intro other hother
          cases hc : other.content with
          | session found =>
            rw [hc] at hother
            rw [Option.some.inj hother]
          | launcher projectId =>
            rw [hc] at hother
            cases hother
        exact of_decide_eq_true hne (congrArg (·.id) (eq_of_session h.sessions hpane hmem (hcontent _ hid) (hcontent _ hid')))
  · rw [hcount]
    exact h.hasLauncher
  · rw [hcount]
    exact h.launchers
  · exact fun id hid => h.newPanes id ((hsub.map _).subset hid)
  · exact fun id hid => h.newSessions id ((hsub.filterMap _).subset hid)
  · exact h.sessions.sublist (hsub.filterMap _)

/-- With a step for each leaf the limit is kept. -/
theorem Walked.trim {fuel : ℕ} (h : Walked usedPanes usedSessions kept [] walk) (hfuel : kept.length ≤ fuel) :
    ∃ kept', Walked usedPanes usedSessions kept' [] (Walk.trim fuel walk) ∧ sessionCount kept' ≤ maximumSessionLeafCount := by
  induction fuel generalizing kept walk with
  | zero =>
    refine ⟨kept,h,?_⟩
    rw [eq_nil_of_length_eq_zero (Nat.le_zero.mp hfuel)]
    exact Nat.zero_le _
  | succ fuel ih =>
    unfold Walk.trim
    split
    · rename_i hroot
      have hleaves := h.leaves
      rw [hroot, append_nil] at hleaves
      refine ⟨kept,h,?_⟩
      rw [← hleaves]
      exact Nat.zero_le _
    · rename_i root hroot
      have hleaves := (h.root_distinct hroot).1
      rw [append_nil] at hleaves
      split
      · rename_i hlimit
        split
        · rename_i hnone
          rw [List.getLast?_eq_none_iff.mp hnone] at hlimit
          exact absurd hlimit (Nat.not_lt_zero _)
        · rename_i last hlast
          have hmem : last ∈ root.sessionLeaves := mem_of_getLast? hlast
          apply ih (h.cutLast hroot hmem)
          have hless : (kept.filter (·.id ≠ last.id)).length < kept.length := by
            apply List.length_filter_lt_length_iff_exists.mpr
            refine ⟨last,?_,by simp⟩
            rw [← hleaves]
            exact (mem_sessionLeaves.mp hmem).1
          omega
      · rename_i hlimit
        rw [length_sessionLeaves, hleaves] at hlimit
        exact ⟨kept,h,Nat.le_of_not_lt hlimit⟩

theorem walked_start (usedPanes usedSessions : List Text) (h : PaneNode.Distinct root) :
    Walked usedPanes usedSessions [] root.leaves (⟨usedPanes,usedSessions,false,some root⟩ : Walk R) where
  leaves := rfl
  distinct := h
  paneIds := fun _ => ⟨.inl,fun hid => hid.elim (fun hid => hid) fun hid => absurd hid not_mem_nil⟩
  sessionIds := fun _ => ⟨.inl,fun hid => hid.elim (fun hid => hid) fun hid => absurd hid not_mem_nil⟩
  hasLauncher := ⟨nofun,fun hpos => absurd hpos (Nat.lt_irrefl 0)⟩
  launchers := Nat.zero_le _
  newPanes := fun _ hid => absurd hid not_mem_nil
  newSessions := fun _ hid => absurd hid not_mem_nil
  sessions := nodup_nil

theorem walked_spec (layout : Canonicalizing R) {candidate : PaneGroup R} (h : PaneNode.Distinct candidate.root) :
    ∃ kept, Walked layout.usedPaneIds layout.usedSessionIds kept [] (layout.walked candidate) ∧
      sessionCount kept ≤ maximumSessionLeafCount := by
  obtain ⟨kept,hkept,hlength⟩ := (walked_start layout.usedPaneIds layout.usedSessionIds h).fold
  apply hkept.trim
  rwa [length_nil, Nat.zero_add] at hlength

end Walking

variable {group : PaneGroup R} {seen : ℕ} {groups : List (PaneGroup R)}

section Layouts
variable {make : ℕ → StableId} {layout : Canonicalizing R} {candidate : PaneGroup R} {candidates : List (PaneGroup R)}
variable {root : PaneNode R}

structure WellFormed (groups : List (PaneGroup R)) : Prop where
  sessions : (groups.flatMap (·.sessionIds)).Nodup
  panes : (groups.flatMap (·.paneIds)).Nodup
  ids : (groups.map (·.id)).Nodup
  named : ∀ id ∈ groups.flatMap (·.sessionIds), id ≠ []
  capacity : ∀ group ∈ groups, sessionCount group.root.leaves ≤ maximumSessionLeafCount
  launchers : ∀ group ∈ groups, launcherCount group.root.leaves ≤ 1
  grouped : ∀ group ∈ groups, 2 ≤ sessionCount group.root.leaves ∨
    (sessionCount group.root.leaves = 1 ∧ launcherCount group.root.leaves = 1)
  representative : ∀ group ∈ groups, ∃ pane ∈ group.root.sessionLeaves, pane.id = group.representativePaneId

def Fits (group : PaneGroup R) : Prop :=
  ∀ snapshot, group.preLauncherRoot = some snapshot → group.root.containsLauncher = true ∧
    PaneNode.sameIds (PaneNode.sessionLeaves snapshot) group.root.sessionLeaves = true ∧
    2 ≤ ((PaneNode.sessionLeaves snapshot).map (·.id)).dedup.length

structure Consistent (make : ℕ → StableId) (candidates : List (PaneGroup R)) (seen : ℕ) (layout : Canonicalizing R) : Prop where
  wellFormed : WellFormed layout.groups
  fits : ∀ group ∈ layout.groups, Fits group
  groupIds : ∀ id, id ∈ layout.usedGroupIds ↔ id ∈ layout.groups.map (·.id)
  paneIds : ∀ id, id ∈ layout.usedPaneIds ↔ id ∈ layout.groups.flatMap (·.paneIds)
  sessionIds : ∀ id, id ∈ layout.usedSessionIds ↔ id ∈ layout.groups.flatMap (·.sessionIds)
  made : ∀ id ∈ layout.usedGroupIds, id ∈ candidates.map (·.id) ∨ ∃ index < layout.made, id = (make index).text
  seen : layout.made ≤ seen

/-- `PaneStableID.make` gives ids that nothing has yet, at most one for each candidate. -/
def MakesFresh (make : ℕ → StableId) (candidates : List (PaneGroup R)) : Prop :=
  (∀ index < candidates.length, ∀ index' < index, (make index).text ≠ (make index').text) ∧
    ∀ index < candidates.length, (make index).text ∉ candidates.map (·.id)

theorem consistent_start (make : ℕ → StableId) (candidates : List (PaneGroup R)) : Consistent make candidates 0 .start :=
  ⟨⟨nodup_nil,nodup_nil,nodup_nil,nofun,nofun,nofun,nofun,nofun⟩,nofun,fun _ => Iff.rfl,fun _ => Iff.rfl,
    fun _ => Iff.rfl,nofun,Nat.le_refl 0⟩

theorem Consistent.counted (h : Consistent make candidates seen layout) (candidate : PaneGroup R) :
    Consistent make candidates (seen + 1) (layout.counted candidate) where
  wellFormed := h.wellFormed
  fits := h.fits
  groupIds := h.groupIds
  paneIds := h.paneIds
  sessionIds := h.sessionIds
  made := by
    intro id hid
    rcases h.made id hid with hcandidate | ⟨index,hindex,heq⟩
    · exact .inl hcandidate
    · refine .inr ⟨index,?_,heq⟩
      show index < if layout.usedGroupIds.contains candidate.id then layout.made + 1 else layout.made
      split <;> omega
  seen := by
    have hseen := h.seen
    show (if layout.usedGroupIds.contains candidate.id then layout.made + 1 else layout.made) ≤ seen + 1
    split <;> omega

theorem Consistent.groupId (h : Consistent make candidates seen layout) (hmake : MakesFresh make candidates)
    (hcandidate : candidate ∈ candidates) (hseen : seen < candidates.length) :
    (layout.groupIdFor make candidate).text ∉ layout.usedGroupIds ∧
      ((layout.groupIdFor make candidate).text ∈ candidates.map (·.id) ∨
        ∃ index < (layout.counted candidate).made, (layout.groupIdFor make candidate).text = (make index).text) := by
  unfold Canonicalizing.groupIdFor Canonicalizing.counted
  split
  · constructor
    · intro hused
      have hmade : layout.made < candidates.length := Nat.lt_of_le_of_lt h.seen hseen
      rcases h.made _ hused with hin | ⟨index,hindex,heq⟩
      · exact hmake.2 _ hmade hin
      · exact hmake.1 _ hmade index hindex heq
    · exact .inr ⟨layout.made,by simp_all,rfl⟩
  · rename_i hfree
    rw [contains_eq_mem, decide_eq_true_eq] at hfree
    exact ⟨hfree,.inl (mem_map_of_mem hcandidate)⟩

variable {usedPanes usedSessions : List Text}

/-- One more group of kept leaves. -/
theorem WellFormed.add (h : WellFormed groups)
    {walk : Walk R} (hpanes : ∀ id, id ∈ usedPanes ↔ id ∈ groups.flatMap (·.paneIds))
    (hsessions : ∀ id, id ∈ usedSessions ↔ id ∈ groups.flatMap (·.sessionIds))
    (hwalk : Walked usedPanes usedSessions group.root.leaves [] walk) (hid : group.id ∉ groups.map (·.id))
    (hlimit : sessionCount group.root.leaves ≤ maximumSessionLeafCount) (hremains : group.root.canRemainGrouped = true)
    (hrepresentative : ∃ pane ∈ group.root.leaves, pane.content.sessionId.isSome = true ∧ pane.id = group.representativePaneId) :
    WellFormed (groups ++ [group]) := by
  have hall : ∀ {P : PaneGroup R → Prop}, (∀ g ∈ groups, P g) → P group → ∀ g ∈ groups ++ [group], P g := by
    intro P hold hnew g hg
    rcases mem_append.mp hg with hg | hg
    · exact hold g hg
    · rw [mem_singleton.mp hg]
      exact hnew
  constructor
  · exact nodup_add h.sessions hwalk.sessions fun id hid hplaced => (hwalk.newSessions id hid).1 ((hsessions id).mpr hplaced)
  · refine nodup_add h.panes ?_ fun id hid hplaced => hwalk.newPanes id hid ((hpanes id).mpr hplaced)
    have hdistinct := hwalk.distinct
    rwa [append_nil] at hdistinct
  · rw [map_append, map_singleton]
    refine nodup_append.mpr ⟨h.ids,nodup_singleton _,?_⟩
    rintro id hin other hother rfl
    rw [mem_singleton.mp hother] at hin
    exact hid hin
  · intro id hin
    rw [flatMap_append, mem_append, flatMap_singleton] at hin
    rcases hin with hin | hin
    · exact h.named id hin
    · exact (hwalk.newSessions id hin).2
  · exact hall h.capacity hlimit
  · exact hall h.launchers hwalk.launchers
  · refine hall h.grouped ?_
    have hgrouped := canRemainGrouped_iff.mp hremains
    have hone := hwalk.launchers
    omega
  · refine hall h.representative ?_
    obtain ⟨pane,hmem,hsession,heq⟩ := hrepresentative
    exact ⟨pane,mem_sessionLeaves.mpr ⟨hmem,hsession⟩,heq⟩

theorem keptSnapshot_fits {snapshot : PaneNode R} {hasLauncher : Bool}
    (h : Canonicalizing.keptSnapshot candidate root hasLauncher = some snapshot) :
    hasLauncher = true ∧ PaneNode.sameIds (PaneNode.sessionLeaves snapshot) root.sessionLeaves = true ∧
      2 ≤ ((PaneNode.sessionLeaves snapshot).map (·.id)).dedup.length := by
  unfold Canonicalizing.keptSnapshot at h
  split at h
  · rename_i hlauncher
    obtain ⟨-,hfits⟩ := Option.filter_eq_some_iff.mp h
    obtain ⟨hsame,htwo⟩ := Bool.and_eq_true_iff.mp hfits
    exact ⟨hlauncher,hsame,of_decide_eq_true htwo⟩
  · cases h

theorem make_representative {groupId : StableId} {snapshot : Option (PaneNode R)} {representative : Text}
    (h : ∃ pane ∈ root.leaves, pane.content.sessionId.isSome = true ∧ pane.id = representative) :
    (PaneGroup.make groupId representative root snapshot).representativePaneId = representative := by
  obtain ⟨pane,-,-,rfl⟩ := h
  show (canonical pane.id).getD pane.id = pane.id
  rw [pane.stable]
  rfl

theorem canRemainGrouped_of_walk {walk : Walk R}
    (hwalk : Walked usedPanes usedSessions root.leaves [] walk) :
    (2 ≤ root.sessionLeaves.length || (root.sessionLeaves.length == 1 && walk.hasLauncher)) = root.canRemainGrouped := by
  have hlauncher : walk.hasLauncher = root.containsLauncher := by
    rw [Bool.eq_iff_iff, hwalk.hasLauncher, containsLauncher_iff]
  unfold PaneNode.canRemainGrouped
  rw [hlauncher]

theorem Consistent.next (h : Consistent make candidates seen layout) (hmake : MakesFresh make candidates)
    (hcandidate : candidate ∈ candidates) (hseen : seen < candidates.length) (hdistinct : PaneNode.Distinct candidate.root) :
    Consistent make candidates (seen + 1) (layout.next make candidate) := by
  obtain ⟨kept,hkept,hlimit⟩ := walked_spec layout hdistinct
  have hcounted := h.counted candidate
  unfold Canonicalizing.next Canonicalizing.accept
  split
  · exact hcounted
  · rename_i root hroot
    have hleaves := (hkept.root_distinct hroot).1
    rw [append_nil] at hleaves
    subst hleaves
    rw [canRemainGrouped_of_walk hkept]
    split
    · rename_i hremains
      have hsome : 0 < sessionCount root.leaves := by
        have := canRemainGrouped_iff.mp hremains
        omega
      have hpromoted := promoted_spec hsome candidate.representativePaneId
      obtain ⟨hfree,hmade⟩ := h.groupId hmake hcandidate hseen
      constructor
      · refine h.wellFormed.add h.paneIds h.sessionIds hkept ?_ hlimit hremains ?_
        · exact fun hin => hfree ((h.groupIds _).mpr hin)
        · rw [make_representative hpromoted]
          exact hpromoted
      · intro group hgroup
        rcases mem_append.mp hgroup with hgroup | hgroup
        · exact h.fits group hgroup
        · rw [mem_singleton.mp hgroup]
          intro snapshot hsnapshot
          obtain ⟨hlauncher,hfits⟩ := keptSnapshot_fits hsnapshot
          exact ⟨containsLauncher_iff.mpr (hkept.hasLauncher.mp hlauncher),hfits⟩
      · intro id
        rw [mem_cons, map_append, mem_append, map_singleton, mem_singleton, ← hcounted.groupIds]
        exact or_comm
      · intro id
        rw [hkept.paneIds, flatMap_append, mem_append, flatMap_singleton, ← hcounted.paneIds]
        rfl
      · intro id
        rw [hkept.sessionIds, flatMap_append, mem_append, flatMap_singleton, ← hcounted.sessionIds]
        rfl
      · intro id hid
        rcases mem_cons.mp hid with rfl | hid
        · exact hmade
        · exact hcounted.made id hid
      · exact hcounted.seen
    · exact hcounted

theorem consistent_fold (hmake : MakesFresh make candidates) (hdistinct : ∀ candidate ∈ candidates, PaneNode.Distinct candidate.root)
    {todo : List (PaneGroup R)} (htodo : ∀ candidate ∈ todo, candidate ∈ candidates)
    (hseen : seen + todo.length ≤ candidates.length) (h : Consistent make candidates seen layout) :
    Consistent make candidates (seen + todo.length) (todo.foldl (Canonicalizing.next make) layout) := by
  induction todo generalizing layout seen with
  | nil => exact h
  | cons candidate todo ih =>
    rw [length_cons] at hseen ⊢
    have hin := htodo candidate mem_cons_self
    have hnext := h.next hmake hin (by omega) (hdistinct candidate hin)
    have hrest := ih (fun other hother => htodo other (mem_cons_of_mem _ hother)) (by omega) hnext
    rwa [show seen + 1 + todo.length = seen + (todo.length + 1) by omega] at hrest

end Layouts

section Taking
variable {make : ℕ → StableId} {layout : Canonicalizing R} {candidate : PaneGroup R} {candidates : List (PaneGroup R)}
variable {walk : Walk R}

structure Acceptable (walk : Walk R) (pane : Pane) : Prop where
  newPane : pane.id ∉ walk.paneIds
  session : ∀ id, pane.content.sessionId = some id → id ≠ [] ∧ id ∉ walk.sessionIds
  launcher : pane.content.isLauncher = true → walk.hasLauncher = false

theorem judge_of_acceptable {pane : Pane} (h : Acceptable walk pane) :
    walk.judge pane = ⟨pane.id :: walk.paneIds,pane.content.sessionId.toList ++ walk.sessionIds,
      pane.content.isLauncher || walk.hasLauncher,walk.root⟩ := by
  have hpane : ¬walk.paneIds.contains pane.id = true := by
    rw [contains_eq_mem, decide_eq_true_eq]
    exact h.newPane
  unfold Walk.judge
  rw [if_neg hpane]
  cases hcontent : pane.content with
  | session sessionId =>
    obtain ⟨hne,hnew⟩ := h.session sessionId (by rw [hcontent]; rfl)
    have hsession : ¬(sessionId.isEmpty || walk.sessionIds.contains sessionId) = true := by
      rw [Bool.or_eq_true, not_or, contains_eq_mem, decide_eq_true_eq, List.isEmpty_iff]
      exact ⟨hne,hnew⟩
    dsimp only
    rw [if_neg hsession]
    rfl
  | launcher projectId =>
    have hlauncher := h.launcher (by rw [hcontent]; rfl)
    rw [hlauncher]
    rfl

structure Unused (usedPanes usedSessions : List Text) (panes : List Pane) : Prop where
  ids : (panes.map (·.id)).Nodup
  newPanes : ∀ id ∈ panes.map (·.id), id ∉ usedPanes
  sessions : (panes.filterMap (·.content.sessionId)).Nodup
  newSessions : ∀ id ∈ panes.filterMap (·.content.sessionId), id ≠ [] ∧ id ∉ usedSessions

theorem Unused.tail {usedPanes usedSessions : List Text} {pane : Pane} {panes : List Pane}
    (h : Unused usedPanes usedSessions (pane :: panes)) :
    Unused (pane.id :: usedPanes) (pane.content.sessionId.toList ++ usedSessions) panes := by
  obtain ⟨hids,hpanes,hsessions,hnew⟩ := h
  have hsub : panes.Sublist (pane :: panes) := sublist_cons_self _ _
  refine ⟨hids.sublist (hsub.map _),fun id hid hused => ?_,hsessions.sublist (hsub.filterMap _),fun id hid => ?_⟩
  · rcases mem_cons.mp hused with rfl | hused
    · exact (nodup_cons.mp hids).1 hid
    · exact hpanes id (mem_cons_of_mem _ hid) hused
  · obtain ⟨hne,hnot⟩ := hnew id ((hsub.filterMap _).subset hid)
    refine ⟨hne,fun hused => ?_⟩
    rcases mem_append.mp hused with hused | hused
    · have hsession : pane.content.sessionId = some id := Option.mem_toList.mp hused
      rw [filterMap_cons, hsession] at hsessions
      exact (nodup_cons.mp hsessions).1 hid
    · exact hnot hused

/-- A tree that repeats nothing stays as it is. -/
theorem judge_all {panes : List Pane} (h : Unused walk.paneIds walk.sessionIds panes)
    (hlaunchers : launcherCount panes + (if walk.hasLauncher then 1 else 0) ≤ 1) :
    (panes.foldl Walk.judge walk).root = walk.root := by
  induction panes generalizing walk with
  | nil => rfl
  | cons pane panes ih =>
    have hcount : launcherCount (pane :: panes) = launcherCount panes + if pane.content.isLauncher then 1 else 0 := by
      unfold launcherCount
      rw [countP_cons]
    have hacceptable : Acceptable walk pane := by
      refine ⟨h.newPanes _ mem_cons_self,fun id hid => ?_,fun hlauncher => ?_⟩
      · refine h.newSessions id ?_
        rw [filterMap_cons, hid]
        exact mem_cons_self
      · rw [hcount, hlauncher] at hlaunchers
        cases hhas : walk.hasLauncher with
        | true =>
          rw [hhas] at hlaunchers
          simp only [if_true] at hlaunchers
          omega
        | false => rfl
    rw [foldl_cons, judge_of_acceptable hacceptable]
    apply ih h.tail
    rw [hcount] at hlaunchers
    cases hlauncher : pane.content.isLauncher with
    | true =>
      have hhas := hacceptable.launcher hlauncher
      simp only [hlauncher, hhas, Bool.or_false, if_true] at hlaunchers ⊢
      simpa using hlaunchers
    | false =>
      simp only [hlauncher, Bool.false_or] at hlaunchers ⊢
      simpa using hlaunchers

theorem trim_of_few {root : PaneNode R} (hroot : walk.root = some root)
    (hfew : sessionCount root.leaves ≤ maximumSessionLeafCount) (fuel : ℕ) : Walk.trim fuel walk = walk := by
  cases fuel with
  | zero => rfl
  | succ fuel =>
    unfold Walk.trim
    rw [hroot]
    dsimp only
    rw [if_neg (by rw [length_sessionLeaves]; omega)]

structure Welcome (layout : Canonicalizing R) (candidate : PaneGroup R) : Prop where
  unused : Unused layout.usedPaneIds layout.usedSessionIds candidate.root.leaves
  capacity : sessionCount candidate.root.leaves ≤ maximumSessionLeafCount
  launchers : launcherCount candidate.root.leaves ≤ 1
  remains : candidate.root.canRemainGrouped = true

theorem Welcome.walked (h : Welcome layout candidate) :
    (layout.walked candidate).root = some candidate.root ∧
      Walked layout.usedPaneIds layout.usedSessionIds candidate.root.leaves [] (layout.walked candidate) := by
  have hfold : (candidate.root.leaves.foldl Walk.judge
      ⟨layout.usedPaneIds,layout.usedSessionIds,false,some candidate.root⟩).root = some candidate.root :=
    judge_all h.unused h.launchers
  have hroot : (layout.walked candidate).root = some candidate.root := by
    unfold Canonicalizing.walked
    rw [trim_of_few hfold h.capacity]
    exact hfold
  obtain ⟨kept,hkept,-⟩ := walked_spec layout h.unused.ids
  have hleaves := (hkept.root_distinct hroot).1
  rw [append_nil] at hleaves
  rw [← hleaves] at hkept
  exact ⟨hroot,hkept⟩

theorem Welcome.next (h : Welcome layout candidate) (make : ℕ → StableId) :
    (layout.next make candidate).groups = layout.groups ++ [.make (layout.groupIdFor make candidate)
      (candidate.root.promoted candidate.representativePaneId) candidate.root
      (Canonicalizing.keptSnapshot candidate candidate.root (layout.walked candidate).hasLauncher)] ∧
      (layout.next make candidate).usedGroupIds = (layout.groupIdFor make candidate).text :: layout.usedGroupIds ∧
      (∀ id, id ∈ (layout.next make candidate).usedPaneIds ↔ id ∈ layout.usedPaneIds ∨ id ∈ candidate.paneIds) ∧
      ∀ id, id ∈ (layout.next make candidate).usedSessionIds ↔ id ∈ layout.usedSessionIds ∨ id ∈ candidate.sessionIds := by
  obtain ⟨hroot,hwalked⟩ := h.walked
  unfold Canonicalizing.next Canonicalizing.accept
  rw [hroot]
  dsimp only
  rw [canRemainGrouped_of_walk hwalked, if_pos h.remains]
  exact ⟨rfl,rfl,hwalked.paneIds,hwalked.sessionIds⟩

end Taking

variable {done rest : List (PaneGroup R)}

section Again
variable {make : ℕ → StableId} {layout : Canonicalizing R} {candidates : List (PaneGroup R)}

structure Retaken (done : List (PaneGroup R)) (layout : Canonicalizing R) : Prop where
  groups : layout.groups = done
  groupIds : ∀ id, id ∈ layout.usedGroupIds ↔ id ∈ done.map (·.id)
  paneIds : ∀ id, id ∈ layout.usedPaneIds ↔ id ∈ done.flatMap (·.paneIds)
  sessionIds : ∀ id, id ∈ layout.usedSessionIds ↔ id ∈ done.flatMap (·.sessionIds)

theorem promoted_of_session {root : PaneNode R} (h : PaneNode.Distinct root) {pane : Pane} (hpane : pane ∈ root.sessionLeaves) :
    root.promoted pane.id = pane.id := by
  obtain ⟨hmem,hsession⟩ := mem_sessionLeaves.mp hpane
  unfold PaneNode.promoted
  rw [h.leafOf hmem]
  exact if_pos hsession

theorem keptSnapshot_self (h : Fits group) {hasLauncher : Bool}
    (hlauncher : hasLauncher = group.root.containsLauncher) :
    Canonicalizing.keptSnapshot group group.root hasLauncher = group.preLauncherRoot := by
  unfold Canonicalizing.keptSnapshot
  cases hsnapshot : group.preLauncherRoot with
  | none => split <;> rfl
  | some snapshot =>
    obtain ⟨hcontains,hsame,htwo⟩ := h snapshot hsnapshot
    rw [hlauncher, if_pos hcontains]
    exact Option.filter_eq_some_iff.mpr ⟨rfl,by rw [hsame, decide_eq_true htwo]; rfl⟩

theorem unused_of_nodup (hpanes : ((done ++ group :: rest).flatMap (·.paneIds)).Nodup)
    (hsessions : ((done ++ group :: rest).flatMap (·.sessionIds)).Nodup)
    (hnamed : ∀ id ∈ (done ++ group :: rest).flatMap (·.sessionIds), id ≠ []) (h : Retaken done layout) :
    Unused layout.usedPaneIds layout.usedSessionIds group.root.leaves := by
  obtain ⟨hids,-,hapart⟩ := nodup_middle.mp hpanes
  obtain ⟨hnames,-,hapart'⟩ := nodup_middle.mp hsessions
  refine ⟨hids,fun id hid hused => ?_,hnames,fun id hid => ⟨?_,fun hused => ?_⟩⟩
  · obtain ⟨other,hother,hin⟩ := mem_flatMap.mp ((h.paneIds id).mp hused)
    exact hapart id hid (mem_flatMap.mpr ⟨other,mem_append_left _ hother,hin⟩)
  · exact hnamed id (mem_flatMap.mpr ⟨group,mem_append_right _ mem_cons_self,hid⟩)
  · obtain ⟨other,hother,hin⟩ := mem_flatMap.mp ((h.sessionIds id).mp hused)
    exact hapart' id hid (mem_flatMap.mpr ⟨other,mem_append_left _ hother,hin⟩)

theorem Retaken.next (h : Retaken done layout)
    (hwell : WellFormed (done ++ group :: rest)) (hfits : Fits group) (make : ℕ → StableId) :
    Retaken (done ++ [group]) (layout.next make group) := by
  have hmem : group ∈ done ++ group :: rest := mem_append_right _ mem_cons_self
  have hunused := unused_of_nodup hwell.panes hwell.sessions hwell.named h
  have hremains : group.root.canRemainGrouped = true := by
    have hgrouped := hwell.grouped group hmem
    rw [canRemainGrouped_iff]
    omega
  have hwelcome : Welcome layout group := ⟨hunused,hwell.capacity group hmem,hwell.launchers group hmem,hremains⟩
  have hfree : ¬layout.usedGroupIds.contains group.id = true := by
    rw [contains_eq_mem, decide_eq_true_eq, h.groupIds]
    have hids := hwell.ids
    rw [map_append, map_cons, List.nodup_middle, nodup_cons, mem_append] at hids
    exact fun hin => hids.1 (.inl hin)
  have hid : layout.groupIdFor make group = ⟨group.id,group.stable⟩ := if_neg hfree
  have hlauncher : (layout.walked group).hasLauncher = group.root.containsLauncher := by
    rw [Bool.eq_iff_iff, hwelcome.walked.2.hasLauncher, containsLauncher_iff]
  obtain ⟨pane,hpane,hrepresentative⟩ := hwell.representative group hmem
  have hsame : PaneGroup.make ⟨group.id,group.stable⟩ (group.root.promoted group.representativePaneId) group.root
      (Canonicalizing.keptSnapshot group group.root (layout.walked group).hasLauncher) = group := by
    rw [keptSnapshot_self hfits hlauncher, ← hrepresentative, promoted_of_session hunused.ids hpane]
    unfold PaneGroup.make
    rw [pane.stable, Option.getD_some, hrepresentative]
  obtain ⟨hgroups,hgroupIds,hpaneIds,hsessionIds⟩ := hwelcome.next make
  rw [hid, hsame, h.groups] at hgroups
  rw [hid] at hgroupIds
  refine ⟨hgroups,fun id => ?_,fun id => ?_,fun id => ?_⟩
  · rw [hgroupIds, mem_cons, h.groupIds, map_append, mem_append, map_singleton, mem_singleton]
    exact or_comm
  · rw [hpaneIds, h.paneIds, flatMap_append, mem_append, flatMap_singleton]
  · rw [hsessionIds, h.sessionIds, flatMap_append, mem_append, flatMap_singleton]

theorem retaken_fold {done todo : List (PaneGroup R)} (hwell : WellFormed (done ++ todo)) (hfits : ∀ group ∈ todo, Fits group)
    (h : Retaken done layout) : Retaken (done ++ todo) (todo.foldl (Canonicalizing.next make) layout) := by
  induction todo generalizing done layout with
  | nil =>
    rw [append_nil]
    exact h
  | cons group todo ih =>
    have hnext := h.next hwell (hfits group mem_cons_self) make
    rw [show done ++ group :: todo = (done ++ [group]) ++ todo by rw [append_assoc]; rfl] at hwell ⊢
    exact ih hwell (fun other hother => hfits other (mem_cons_of_mem _ hother)) hnext

/-- A well-formed layout is restored as it is. -/
theorem restored_self (make : ℕ → StableId) (hwell : WellFormed groups)
    (hfits : ∀ group ∈ groups, Fits group) : restored make groups = ⟨groups⟩ := by
  have hstart : Retaken [] (.start : Canonicalizing R) := ⟨rfl,fun _ => Iff.rfl,fun _ => Iff.rfl,fun _ => Iff.rfl⟩
  have hfold : Retaken ([] ++ groups) (groups.foldl (Canonicalizing.next make) .start) := retaken_fold hwell hfits hstart
  exact congrArg PaneLayoutState.mk hfold.groups

end Again

structure Unplaced (state : PaneLayoutState R) (later : PaneGroup R) : Prop where
  unused : Unused (state.groups.flatMap (·.paneIds)) (state.groups.flatMap (·.sessionIds)) later.root.leaves
  capacity : sessionCount later.root.leaves ≤ maximumSessionLeafCount
  launchers : launcherCount later.root.leaves ≤ 1
  remains : later.root.canRemainGrouped = true

def StillPlaceable (make : ℕ → StableId) (candidates : List (PaneGroup R)) (sessionId : Text) : Prop :=
  ∀ later, sessionId ∈ later.sessionIds → Unplaced (restored make candidates) later →
    ∃ group ∈ (restored make (candidates ++ [later])).groups, group.root = later.root ∧ sessionId ∈ group.sessionIds

def RestoresWell (make : ℕ → StableId) (candidates : List (PaneGroup R)) : Prop :=
  WellFormed (restored make candidates).groups ∧
    (∀ candidate ∈ candidates, ∀ sessionId ∈ candidate.sessionIds,
      sessionId ∉ (restored make candidates).groups.flatMap (·.sessionIds) → StillPlaceable make candidates sessionId) ∧
    ∀ make', restored make' (restored make candidates).groups = restored make candidates

theorem stillPlaceable_of_consistent {make : ℕ → StableId} {candidates : List (PaneGroup R)}
    (h : Consistent make candidates seen (candidates.foldl (Canonicalizing.next make) .start)) (sessionId : Text) :
    StillPlaceable make candidates sessionId := by
  rintro later hsession ⟨⟨hids,hpanes,hsessions,hnew⟩,hcapacity,hlaunchers,hremains⟩
  have hunused : Unused (candidates.foldl (Canonicalizing.next make) .start).usedPaneIds
      (candidates.foldl (Canonicalizing.next make) .start).usedSessionIds later.root.leaves :=
    ⟨hids,fun id hid hused => hpanes id hid ((h.paneIds id).mp hused),hsessions,
      fun id hid => ⟨(hnew id hid).1,fun hused => (hnew id hid).2 ((h.sessionIds id).mp hused)⟩⟩
  have hwelcome : Welcome (candidates.foldl (Canonicalizing.next make) .start) later := ⟨hunused,hcapacity,hlaunchers,hremains⟩
  obtain ⟨hgroups,-⟩ := hwelcome.next make
  unfold restored
  rw [foldl_append, foldl_cons, foldl_nil, hgroups]
  exact ⟨_,mem_append_right _ mem_cons_self,rfl,hsession⟩

/-- Where no candidate repeats a pane id within itself, whatever else it repeats. -/
theorem distinct_panes_restore_well (make : ℕ → StableId) (candidates : List (PaneGroup R)) (hmake : MakesFresh make candidates)
    (h : ∀ candidate ∈ candidates, PaneNode.Distinct candidate.root) : RestoresWell make candidates := by
  have hconsistent := consistent_fold hmake h (fun _ hcandidate => hcandidate) (Nat.zero_add _).le
    (consistent_start make candidates)
  refine ⟨hconsistent.wellFormed,fun candidate _ sessionId _ _ => ?_,fun make' => ?_⟩
  · exact stillPlaceable_of_consistent hconsistent sessionId
  · exact restored_self make' hconsistent.wellFormed hconsistent.fits

section Repeating

def leafFor (id : StableId) (session : String) : PaneNode ℚ := .leaf (.make id (.session session.toList))

def sideBySide (left right : PaneNode ℚ) : PaneNode ℚ := .split ⟨.horizontal,.clamp (1 / 2)⟩ left right

def repeatedPane : List (PaneGroup ℚ) :=
  [.make (stableId 1) "00000000-0000-4000-8000-000000000003".toList
      (sideBySide (sideBySide (leafFor (stableId 3) "chat") (leafFor (stableId 3) "shell"))
        (leafFor (stableId 4) "logs")) none,
   .make (stableId 2) "00000000-0000-4000-8000-000000000005".toList
      (sideBySide (leafFor (stableId 5) "shell") (leafFor (stableId 6) "editor")) none]

def makeTwo (index : ℕ) : StableId := if index = 0 then stableId 10 else stableId 11

/-- The removal takes the leaf that was kept, and the other Session is placed twice. -/
theorem repeated_pane_is_placed_twice :
    ¬∀ (make : ℕ → StableId) (candidates : List (PaneGroup ℚ)), MakesFresh make candidates → RestoresWell make candidates := by
  intro h
  have hfresh : MakesFresh makeTwo repeatedPane := by
    constructor
    · decide +kernel
    · decide +kernel
  have hsessions := (h makeTwo repeatedPane hfresh).1.sessions
  exact absurd hsessions (by decide)

def repeatedGroup : List (PaneGroup ℚ) :=
  [.make (stableId 1) "00000000-0000-4000-8000-000000000003".toList
      (sideBySide (leafFor (stableId 3) "chat") (leafFor (stableId 4) "shell")) none,
   .make (stableId 1) "00000000-0000-4000-8000-000000000004".toList
      (sideBySide (sideBySide (leafFor (stableId 4) "logs") (leafFor (stableId 5) "shell"))
        (sideBySide (leafFor (stableId 6) "editor") (leafFor (stableId 7) "tests"))) none]

theorem repeated_group_restores_well :
    MakesFresh makeTwo repeatedGroup ∧ (∀ candidate ∈ repeatedGroup, PaneNode.Distinct candidate.root) ∧
      RestoresWell makeTwo repeatedGroup := by
  have hfresh : MakesFresh makeTwo repeatedGroup := by
    constructor
    · decide +kernel
    · decide +kernel
  have hdistinct : ∀ candidate ∈ repeatedGroup, PaneNode.Distinct candidate.root := by
    intro candidate hcandidate
    rcases mem_cons.mp hcandidate with rfl | hcandidate
    · unfold PaneNode.Distinct
      decide +kernel
    · rw [mem_singleton.mp hcandidate]
      unfold PaneNode.Distinct
      decide +kernel
  exact ⟨hfresh,hdistinct,distinct_panes_restore_well makeTwo repeatedGroup hfresh hdistinct⟩

end Repeating

end Unpeel.Panes
