import Mathlib.Data.List.Flatten
import Unpeel.Panes.PaneLayout

/-! # What makes a layout valid, and how an operation may change it

No Session and no pane is in two places. An operation shrinks groups or dissolves them, lets
one group grow, or adds a group; whichever it does, a valid layout stays valid, no Session
moves to another group, and what is reported is what is gone.
-/
namespace Unpeel.Panes
open Manifest List
variable {R : Type} [SplitArithmetic R]

section Shapes
variable {pane : Pane}

def sessionCount (panes : List Pane) : ℕ := panes.countP (·.content.sessionId.isSome)

def launcherCount (panes : List Pane) : ℕ := panes.countP (·.content.isLauncher)

/-- The panes of a group and the one that stands for it. -/
structure Shaped (panes : List Pane) (representativePaneId : Text) : Prop where
  capacity : sessionCount panes + launcherCount panes ≤ maximumSessionLeafCount
  launchers : launcherCount panes ≤ 1
  grouped : 2 ≤ sessionCount panes ∨ (sessionCount panes = 1 ∧ launcherCount panes = 1)
  representative : ∃ pane ∈ panes, pane.content.sessionId.isSome = true ∧ pane.id = representativePaneId

variable {panes others : List Pane} {representativePaneId : Text} {root : PaneNode R}

theorem Shaped.perm (h : Shaped panes representativePaneId) (hperm : others.Perm panes) :
    Shaped others representativePaneId := by
  have hs : sessionCount others = sessionCount panes := hperm.countP_eq _
  have hl : launcherCount others = launcherCount panes := hperm.countP_eq _
  constructor
  · rw [hs, hl]
    exact h.capacity
  · rw [hl]
    exact h.launchers
  · rw [hs, hl]
    exact h.grouped
  · obtain ⟨pane,hmem,hpane⟩ := h.representative
    exact ⟨pane,hperm.mem_iff.mpr hmem,hpane⟩

theorem Shaped.addSession (h : Shaped panes representativePaneId) {sessionId : Text}
    (hpane : pane.content = .session sessionId) (hroom : sessionCount panes + launcherCount panes < maximumSessionLeafCount) :
    Shaped (pane :: panes) representativePaneId := by
  have hs : sessionCount (pane :: panes) = sessionCount panes + 1 := countP_cons_of_pos (by rw [hpane]; rfl)
  have hl : launcherCount (pane :: panes) = launcherCount panes := countP_cons_of_neg (by rw [hpane]; nofun)
  obtain ⟨-,hlaunchers,hgrouped,found,hmem,hfound⟩ := h
  refine ⟨?_,?_,?_,found,mem_cons_of_mem _ hmem,hfound⟩
  all_goals omega

theorem Shaped.addLauncher (h : Shaped panes representativePaneId) {projectId : Text}
    (hpane : pane.content = .launcher projectId) (hroom : sessionCount panes + launcherCount panes < maximumSessionLeafCount)
    (hnone : launcherCount panes = 0) : Shaped (pane :: panes) representativePaneId := by
  have hs : sessionCount (pane :: panes) = sessionCount panes := countP_cons_of_neg (by rw [hpane]; nofun)
  have hl : launcherCount (pane :: panes) = launcherCount panes + 1 := countP_cons_of_pos (by rw [hpane]; rfl)
  obtain ⟨-,hlaunchers,hgrouped,found,hmem,hfound⟩ := h
  refine ⟨?_,?_,?_,found,mem_cons_of_mem _ hmem,hfound⟩
  all_goals omega

theorem length_sessionLeaves (root : PaneNode R) : root.sessionLeaves.length = sessionCount root.leaves :=
  (countP_eq_length_filter ..).symm

theorem containsLauncher_iff : root.containsLauncher = true ↔ 0 < launcherCount root.leaves := by
  unfold PaneNode.containsLauncher launcherCount
  rw [any_eq_true, countP_pos_iff]

theorem containsLauncher_eq_false : root.containsLauncher = false ↔ launcherCount root.leaves = 0 := by
  rw [← Bool.not_eq_true, containsLauncher_iff]
  omega

theorem canRemainGrouped_iff : root.canRemainGrouped = true ↔
    2 ≤ sessionCount root.leaves ∨ (sessionCount root.leaves = 1 ∧ 0 < launcherCount root.leaves) := by
  unfold PaneNode.canRemainGrouped
  rw [Bool.or_eq_true, Bool.and_eq_true, decide_eq_true_eq, beq_iff_eq, length_sessionLeaves, containsLauncher_iff]

theorem mem_sessionLeaves : pane ∈ root.sessionLeaves ↔ pane ∈ root.leaves ∧ pane.content.sessionId.isSome = true :=
  mem_filter

/-- Who stands for the group is one of its Sessions. -/
theorem promoted_spec (h : 0 < sessionCount root.leaves) (representativePaneId : Text) :
    ∃ pane ∈ root.leaves, pane.content.sessionId.isSome = true ∧ pane.id = root.promoted representativePaneId := by
  unfold PaneNode.promoted
  split
  · rename_i hsome
    obtain ⟨sessionId,hfound⟩ := Option.isSome_iff_exists.mp hsome
    obtain ⟨pane,hpane,hsession⟩ := Option.bind_eq_some_iff.mp hfound
    obtain ⟨hmem,hid⟩ := PaneNode.mem_of_leafOf hpane
    exact ⟨pane,hmem,Option.isSome_iff_exists.mpr ⟨sessionId,hsession⟩,hid⟩
  · split
    · rename_i hnil
      rw [← length_sessionLeaves, hnil] at h
      exact absurd h (Nat.lt_irrefl 0)
    · rename_i first rest hcons
      have hmem : first ∈ root.sessionLeaves := by
        rw [hcons]
        exact mem_cons_self
      obtain ⟨hmem,hsession⟩ := mem_sessionLeaves.mp hmem
      exact ⟨first,hmem,hsession,rfl⟩

theorem Shaped.shrink (h : Shaped panes representativePaneId) (hsub : root.leaves.Sublist panes)
    (hremains : root.canRemainGrouped = true) : Shaped root.leaves (root.promoted representativePaneId) := by
  have hs : sessionCount root.leaves ≤ sessionCount panes := hsub.countP_le
  have hl : launcherCount root.leaves ≤ launcherCount panes := hsub.countP_le
  have hgrouped := canRemainGrouped_iff.mp hremains
  obtain ⟨hcapacity,hlaunchers,-,-⟩ := h
  refine ⟨?_,?_,?_,promoted_spec ?_ _⟩
  all_goals omega

end Shapes

section Validity

namespace PaneGroup

def paneIds (group : PaneGroup R) : List Text := group.root.leaves.map (·.id)

structure Valid (group : PaneGroup R) : Prop where
  shaped : Shaped group.root.leaves group.representativePaneId
  snapshot : ∀ snapshot, group.preLauncherRoot = some snapshot →
    group.root.containsLauncher = true ∧ snapshot.leaves.Perm group.root.sessionLeaves

end PaneGroup

structure PaneLayoutState.Valid (state : PaneLayoutState R) : Prop where
  sessions : (state.groups.flatMap (·.sessionIds)).Nodup
  panes : (state.groups.flatMap (·.paneIds)).Nodup
  ids : (state.groups.map (·.id)).Nodup
  groups : ∀ group ∈ state.groups, group.Valid

variable {labels : PaneGroup R → List Text} {before after : List (PaneGroup R)} {group group' : PaneGroup R}
  {groups : List (PaneGroup R)}

theorem mem_sessionIds {sessionId : Text} : sessionId ∈ group.sessionIds ↔ ∃ pane ∈ group.root.leaves, pane.content = .session sessionId := by
  unfold PaneGroup.sessionIds
  rw [mem_filterMap]
  refine exists_congr fun pane => and_congr_right fun _ => ?_
  cases hcontent : pane.content with
  | session id | launcher projectId => simp [PaneContent.sessionId]

theorem nodup_middle : ((before ++ group :: after).flatMap labels).Nodup ↔
    (labels group).Nodup ∧ ((before ++ after).flatMap labels).Nodup ∧ ∀ label ∈ labels group, label ∉ (before ++ after).flatMap labels := by
  have hperm : ((before ++ group :: after).flatMap labels).Perm (labels group ++ (before ++ after).flatMap labels) := by
    rw [flatMap_append, flatMap_cons, flatMap_append]
    exact perm_append_comm_assoc ..
  rw [hperm.nodup_iff, nodup_append]
  constructor
  · rintro ⟨hg,hrest,hne⟩
    exact ⟨hg,hrest,fun label hlabel hmem => hne label hlabel label hmem rfl⟩
  · rintro ⟨hg,hrest,hne⟩
    refine ⟨hg,hrest,fun label hlabel other hother heq => ?_⟩
    rw [heq] at hlabel
    exact hne other hlabel hother

theorem nodup_head : ((group :: after).flatMap labels).Nodup ↔
    (labels group).Nodup ∧ (after.flatMap labels).Nodup ∧ ∀ label ∈ labels group, label ∉ after.flatMap labels :=
  @nodup_middle R _ labels [] after group

theorem eq_of_label (h : (groups.flatMap labels).Nodup) (hg : group ∈ groups) (hg' : group' ∈ groups) {label : Text}
    (hlabel : label ∈ labels group) (hlabel' : label ∈ labels group') : group = group' := by
  obtain ⟨before,after,rfl⟩ := append_of_mem hg
  obtain ⟨-,-,hapart⟩ := nodup_middle.mp h
  rcases mem_append.mp hg' with hmem | hmem
  · exact absurd (mem_flatMap.mpr ⟨group',mem_append_left _ hmem,hlabel'⟩) (hapart label hlabel)
  · rcases mem_cons.mp hmem with heq | hmem
    · exact heq.symm
    · exact absurd (mem_flatMap.mpr ⟨group',mem_append_right _ hmem,hlabel'⟩) (hapart label hlabel)

theorem nodup_of_mem (h : (groups.flatMap labels).Nodup) (hg : group ∈ groups) : (labels group).Nodup := by
  obtain ⟨before,after,rfl⟩ := append_of_mem hg
  exact (nodup_middle.mp h).1

theorem PaneLayoutState.Valid.distinct {state : PaneLayoutState R} (h : state.Valid) (hg : group ∈ state.groups) :
    PaneNode.Distinct group.root :=
  nodup_of_mem h.panes hg

/-- Groups go or lose labels. -/
theorem nodup_filterMap {change : PaneGroup R → Option (PaneGroup R)} (h : (groups.flatMap labels).Nodup)
    (hsub : ∀ g ∈ groups, ∀ g', change g = some g' → (labels g').Nodup ∧ ∀ label ∈ labels g', label ∈ labels g) :
    ((groups.filterMap change).flatMap labels).Nodup := by
  induction groups with
  | nil => exact nodup_nil
  | cons g groups ih =>
    obtain ⟨-,hrest,hapart⟩ := nodup_head.mp h
    have hih := ih hrest fun other hother => hsub other (mem_cons_of_mem _ hother)
    rw [filterMap_cons]
    split
    · exact hih
    · rename_i g' hg'
      obtain ⟨hnodup,hlabels⟩ := hsub g mem_cons_self g' hg'
      refine nodup_head.mpr ⟨hnodup,hih,?_⟩
      intro label hlabel hmem
      apply hapart label (hlabels label hlabel)
      obtain ⟨other',hother',hlabel'⟩ := mem_flatMap.mp hmem
      obtain ⟨other,hother,hchange⟩ := mem_filterMap.mp hother'
      have hback := (hsub other (mem_cons_of_mem _ hother) other' hchange).2 label hlabel'
      exact mem_flatMap.mpr ⟨other,hother,hback⟩

end Validity

section Edits
variable {named : Pane → Prop} {s t : PaneLayoutState R} {reports : List PaneLayoutChange} {group group' : PaneGroup R}
variable {labels : PaneGroup R → List Text} {before after : List (PaneGroup R)}

structure Revised (named : Pane → Prop) (group group' : PaneGroup R) : Prop where
  id : group'.id = group.id
  valid : group'.Valid
  paneIds : group'.paneIds.Nodup
  sessionIds : group'.sessionIds.Nodup
  kept : ∀ pane ∈ group.root.sessionLeaves, pane ∈ group'.root.sessionLeaves ∨ named pane

def Within (group' group : PaneGroup R) : Prop :=
  (∀ id ∈ group'.paneIds, id ∈ group.paneIds) ∧ ∀ id ∈ group'.sessionIds, id ∈ group.sessionIds

def ReportsOn (report : PaneLayoutChange) (group : PaneGroup R) (left : Option (PaneGroup R)) : Prop :=
  report.groupId = group.id ∧
    (∀ id, id ∈ report.removedPaneIds ↔ id ∈ group.paneIds ∧ ∀ group', left = some group' → id ∉ group'.paneIds) ∧
    ∀ id, id ∈ report.releasedSessionIds ↔ id ∈ group.sessionIds ∧ ∀ group', left = some group' → id ∉ group'.sessionIds

inductive Edit (named : Pane → Prop) (s t : PaneLayoutState R) : List PaneLayoutChange → Prop
  | shrunk (change : PaneGroup R → Option (PaneGroup R)) (reports : List PaneLayoutChange)
      (groups : t.groups = s.groups.filterMap change)
      (revised : ∀ g ∈ s.groups, ∀ g', change g = some g' → Revised named g g' ∧ Within g' g)
      (reported : ∀ report ∈ reports, ∃ g ∈ s.groups, ReportsOn report g (change g)) : Edit named s t reports
  | grown (before after : List (PaneGroup R)) (g g' : PaneGroup R) (old : s.groups = before ++ g :: after)
      (new : t.groups = before ++ g' :: after) (revised : Revised named g g')
      (paneIds : ∀ id ∈ g'.paneIds, id ∈ g.paneIds ∨ id ∉ s.groups.flatMap (·.paneIds))
      (sessionIds : ∀ id ∈ g'.sessionIds, id ∈ g.sessionIds ∨ id ∉ s.groups.flatMap (·.sessionIds)) : Edit named s t []
  | added (g : PaneGroup R) (new : t.groups = s.groups ++ [g]) (valid : g.Valid) (panes : g.paneIds.Nodup)
      (sessions : g.sessionIds.Nodup) (id : g.id ∉ s.groups.map (·.id))
      (paneIds : ∀ id ∈ g.paneIds, id ∉ s.groups.flatMap (·.paneIds))
      (sessionIds : ∀ id ∈ g.sessionIds, id ∉ s.groups.flatMap (·.sessionIds)) : Edit named s t []

theorem mem_of_append_sides {α : Type*} {before after : List α} {a b : α} (h : a ∈ before ++ after) :
    a ∈ before ++ b :: after := by
  rcases mem_append.mp h with h | h
  · exact mem_append_left _ h
  · exact mem_append_right _ (mem_cons_of_mem _ h)

theorem mem_middle {α : Type*} {before after : List α} {a b : α} : a ∈ before ++ b :: after ↔ a = b ∨ a ∈ before ++ after := by
  rw [mem_append, mem_cons, mem_append]
  tauto

theorem nodup_replace (h : ((before ++ group :: after).flatMap labels).Nodup) (hnodup : (labels group').Nodup)
    (hlabels : ∀ label ∈ labels group', label ∈ labels group ∨ label ∉ (before ++ group :: after).flatMap labels) :
    ((before ++ group' :: after).flatMap labels).Nodup := by
  obtain ⟨-,hrest,hapart⟩ := nodup_middle.mp h
  refine nodup_middle.mpr ⟨hnodup,hrest,fun label hlabel hmem => ?_⟩
  rcases hlabels label hlabel with hold | hnew
  · exact hapart label hold hmem
  · obtain ⟨other,hother,hin⟩ := mem_flatMap.mp hmem
    exact hnew (mem_flatMap.mpr ⟨other,mem_of_append_sides hother,hin⟩)

theorem nodup_add {groups : List (PaneGroup R)} (h : (groups.flatMap labels).Nodup)
    (hnodup : (labels group).Nodup) (hnew : ∀ label ∈ labels group, label ∉ groups.flatMap labels) :
    ((groups ++ [group]).flatMap labels).Nodup := by
  apply nodup_middle.mpr
  rw [append_nil]
  exact ⟨hnodup,h,hnew⟩

theorem Edit.valid (hs : s.Valid) (h : Edit named s t reports) : t.Valid := by
  cases h with
  | shrunk change _ groups revised reported =>
    constructor
    · rw [groups]
      exact nodup_filterMap hs.sessions fun g hg g' hg' => ⟨(revised g hg g' hg').1.sessionIds,(revised g hg g' hg').2.2⟩
    · rw [groups]
      exact nodup_filterMap hs.panes fun g hg g' hg' => ⟨(revised g hg g' hg').1.paneIds,(revised g hg g' hg').2.1⟩
    · have hids : ((s.groups.flatMap fun g => [g.id])).Nodup := by
        rw [← map_eq_flatMap]
        exact hs.ids
      have hids' := nodup_filterMap hids fun g hg g' hg' => by
        refine ⟨nodup_singleton _,fun id hid => ?_⟩
        rw [mem_singleton.mp hid, (revised g hg g' hg').1.id]
        exact mem_cons_self
      rw [← map_eq_flatMap, ← groups] at hids'
      exact hids'
    · rw [groups]
      intro g' hg'
      obtain ⟨g,hg,hchange⟩ := mem_filterMap.mp hg'
      exact (revised g hg g' hchange).1.valid
  | grown before after g g' old new revised paneIds sessionIds =>
    have hsessions := hs.sessions
    have hpanes := hs.panes
    have hids := hs.ids
    have hgroups := hs.groups
    rw [old] at hsessions hpanes hids hgroups paneIds sessionIds
    constructor
    · rw [new]
      exact nodup_replace hsessions revised.sessionIds sessionIds
    · rw [new]
      exact nodup_replace hpanes revised.paneIds paneIds
    · rw [new, map_append, map_cons, revised.id, ← map_cons, ← map_append]
      exact hids
    · rw [new]
      intro other hother
      rcases mem_middle.mp hother with rfl | hother
      · exact revised.valid
      · exact hgroups other (mem_of_append_sides hother)
  | added g new valid panes sessions id paneIds sessionIds =>
    constructor
    · rw [new]
      exact nodup_add hs.sessions sessions sessionIds
    · rw [new]
      exact nodup_add hs.panes panes paneIds
    · rw [new, map_append, map_singleton]
      refine nodup_append.mpr ⟨hs.ids,nodup_singleton _,?_⟩
      intro a ha b hb heq
      rw [heq, mem_singleton.mp hb] at ha
      exact id ha
    · rw [new]
      intro other hother
      rcases mem_append.mp hother with hother | hother
      · exact hs.groups other hother
      · rw [mem_singleton.mp hother]
        exact valid

/-- No Session is in another group than before, and a Session leaf goes only if it is named
or with its whole group. -/
def StaysPut (named : Pane → Prop) (s t : PaneLayoutState R) : Prop :=
  (∀ g ∈ s.groups, ∀ h ∈ t.groups, ∀ id ∈ g.sessionIds, id ∈ h.sessionIds → h.id = g.id) ∧
    ∀ g ∈ s.groups, ∀ pane ∈ g.root.sessionLeaves,
      named pane ∨ (∃ h ∈ t.groups, h.id = g.id ∧ pane ∈ h.root.sessionLeaves) ∨ ∀ h ∈ t.groups, h.id ≠ g.id

def Exact (s t : PaneLayoutState R) (report : PaneLayoutChange) : Prop :=
  ∃ g ∈ s.groups, g.id = report.groupId ∧
    (∀ id, id ∈ report.removedPaneIds ↔ id ∈ g.paneIds ∧ id ∉ t.groups.flatMap (·.paneIds)) ∧
    ∀ id, id ∈ report.releasedSessionIds ↔ id ∈ g.sessionIds ∧ id ∉ t.groups.flatMap (·.sessionIds)

theorem Edit.staysPut (hs : s.Valid) (h : Edit named s t reports) : StaysPut named s t := by
  cases h with
  | shrunk change _ groups revised reported =>
    constructor
    · intro g hg h' hh' id hid hid'
      rw [groups] at hh'
      obtain ⟨g',hg',hchange⟩ := mem_filterMap.mp hh'
      obtain ⟨hrevised,hwithin⟩ := revised g' hg' h' hchange
      rw [eq_of_label hs.sessions hg hg' hid (hwithin.2 id hid')]
      exact hrevised.id
    · intro g hg pane hpane
      cases hchange : change g with
      | some g' =>
        have hrevised := (revised g hg g' hchange).1
        rcases hrevised.kept pane hpane with hkept | hnamed
        · refine .inr (.inl ⟨g',?_,hrevised.id,hkept⟩)
          rw [groups]
          exact mem_filterMap.mpr ⟨g,hg,hchange⟩
        · exact .inl hnamed
      | none =>
        refine .inr (.inr fun h' hh' hid => ?_)
        rw [groups] at hh'
        obtain ⟨g',hg',hchange'⟩ := mem_filterMap.mp hh'
        have hid' : g'.id = g.id := (revised g' hg' h' hchange').1.id.symm.trans hid
        rw [inj_on_of_nodup_map hs.ids hg' hg hid', hchange] at hchange'
        cases hchange'
  | grown before after g g' old new revised paneIds sessionIds =>
    have hmem : g ∈ s.groups := by
      rw [old]
      exact mem_append_right _ mem_cons_self
    have hothers : ∀ other ∈ before ++ after, other ∈ s.groups := by
      intro other hother
      rw [old]
      exact mem_of_append_sides hother
    constructor
    · intro k hk h' hh' id hid hid'
      rw [new] at hh'
      rcases mem_middle.mp hh' with rfl | hh'
      · rcases sessionIds id hid' with hold | hnew
        · rw [eq_of_label hs.sessions hk hmem hid hold]
          exact revised.id
        · exact absurd (mem_flatMap.mpr ⟨k,hk,hid⟩) hnew
      · rw [eq_of_label hs.sessions hk (hothers h' hh') hid hid']
    · intro k hk pane hpane
      rw [old] at hk
      rcases mem_middle.mp hk with rfl | hk
      · rcases revised.kept pane hpane with hkept | hnamed
        · refine .inr (.inl ⟨g',?_,revised.id,hkept⟩)
          rw [new]
          exact mem_append_right _ mem_cons_self
        · exact .inl hnamed
      · refine .inr (.inl ⟨k,?_,rfl,hpane⟩)
        rw [new]
        exact mem_of_append_sides hk
  | added g new valid panes sessions id paneIds sessionIds =>
    constructor
    · intro k hk h' hh' label hlabel hlabel'
      rw [new] at hh'
      rcases mem_append.mp hh' with hh' | hh'
      · rw [eq_of_label hs.sessions hk hh' hlabel hlabel']
      · rw [mem_singleton.mp hh'] at hlabel'
        exact absurd (mem_flatMap.mpr ⟨k,hk,hlabel⟩) (sessionIds label hlabel')
    · intro k hk pane hpane
      refine .inr (.inl ⟨k,?_,rfl,hpane⟩)
      rw [new]
      exact mem_append_left _ hk

theorem not_placed_iff {change : PaneGroup R → Option (PaneGroup R)}
    (h : (s.groups.flatMap labels).Nodup) (hsub : ∀ g ∈ s.groups, ∀ g', change g = some g' → ∀ label ∈ labels g', label ∈ labels g)
    (hg : group ∈ s.groups) {label : Text} (hlabel : label ∈ labels group) :
    (∀ g', change group = some g' → label ∉ labels g') ↔ label ∉ (s.groups.filterMap change).flatMap labels := by
  constructor
  · intro hleft hmem
    obtain ⟨other',hother',hin⟩ := mem_flatMap.mp hmem
    obtain ⟨other,hother,hchange⟩ := mem_filterMap.mp hother'
    rw [← eq_of_label h hg hother hlabel (hsub other hother other' hchange label hin)] at hchange
    exact hleft other' hchange hin
  · intro hnot g' hchange hin
    exact hnot (mem_flatMap.mpr ⟨g',mem_filterMap.mpr ⟨group,hg,hchange⟩,hin⟩)

theorem Edit.exact (hs : s.Valid) (h : Edit named s t reports) : ∀ report ∈ reports, Exact s t report := by
  cases h with
  | shrunk change _ groups revised reported =>
    intro report hreport
    obtain ⟨g,hg,hid,hpanes,hsessions⟩ := reported report hreport
    refine ⟨g,hg,hid.symm,fun id => ?_,fun id => ?_⟩
    · rw [hpanes, groups]
      refine and_congr_right fun hin => ?_
      exact not_placed_iff hs.panes (fun g hg g' hg' => (revised g hg g' hg').2.1) hg hin
    · rw [hsessions, groups]
      refine and_congr_right fun hin => ?_
      exact not_placed_iff hs.sessions (fun g hg g' hg' => (revised g hg g' hg').2.2) hg hin
  | grown before after g g' old new revised paneIds sessionIds
  | added g new valid panes sessions id paneIds sessionIds => exact fun _ h => absurd h not_mem_nil

theorem PaneLayoutState.Valid.revised_self (hs : s.Valid) (hg : group ∈ s.groups) :
    Revised named group group ∧ Within group group :=
  ⟨⟨rfl,hs.groups group hg,nodup_of_mem hs.panes hg,nodup_of_mem hs.sessions hg,fun _ hpane => .inl hpane⟩,
    fun _ hid => hid,fun _ hid => hid⟩

theorem Edit.refl (hs : s.Valid) : Edit named s s [] := by
  refine .shrunk some [] filterMap_some.symm ?_ fun _ h => absurd h not_mem_nil
  rintro g hg _ ⟨⟩
  exact hs.revised_self hg

/-- One group goes or loses something. -/
theorem Edit.single (hs : s.Valid) (old : s.groups = before ++ group :: after)
    (left : Option (PaneGroup R)) (new : t.groups = before ++ left.toList ++ after)
    (revised : ∀ g', left = some g' → Revised named group g' ∧ Within g' group)
    (reported : ∀ report ∈ reports, ReportsOn report group left) : Edit named s t reports := by
  have hmem : group ∈ s.groups := by
    rw [old]
    exact mem_append_right _ mem_cons_self
  have hids := hs.ids
  rw [old, map_append, map_cons, nodup_append, nodup_cons] at hids
  obtain ⟨-,⟨hafter,-⟩,hbefore⟩ := hids
  have hothers : ∀ groups : List (PaneGroup R), (∀ g ∈ groups, g.id ≠ group.id) →
      groups.filterMap (fun g => if g.id = group.id then left else some g) = groups := by
    intro groups hne
    induction groups with
    | nil => rfl
    | cons g groups ih =>
      have hg : g.id ≠ group.id := hne g mem_cons_self
      rw [filterMap_cons, if_neg hg, ih fun h hh => hne h (mem_cons_of_mem _ hh)]
  refine .shrunk (fun g => if g.id = group.id then left else some g) reports ?_ ?_ ?_
  · rw [new, old, filterMap_append, filterMap_cons, if_pos rfl]
    rw [hothers before fun g hg => hbefore _ (mem_map_of_mem hg) _ mem_cons_self]
    rw [hothers after fun g hg heq => hafter (heq ▸ mem_map_of_mem hg)]
    cases left with
    | none => rw [Option.toList_none, append_nil]
    | some g' => rw [Option.toList_some, append_assoc, singleton_append]
  · intro g hg g' hg'
    split at hg'
    · rename_i hid
      rw [inj_on_of_nodup_map hs.ids hg hmem hid]
      exact revised g' hg'
    · cases hg'
      exact hs.revised_self hg
  · intro report hreport
    refine ⟨group,hmem,?_⟩
    rw [if_pos rfl]
    exact reported report hreport

theorem Edit.dissolved (hs : s.Valid) (old : s.groups = before ++ group :: after)
    (new : t.groups = before ++ after) : Edit named s t [dissolution group] := by
  apply Edit.single hs old none
  · rw [new, Option.toList_none, append_nil]
  · exact fun _ h => by cases h
  · intro report hreport
    rw [mem_singleton.mp hreport]
    refine ⟨rfl,fun id => ⟨fun h => ⟨h,nofun⟩,fun h => h.1⟩,fun id => ⟨fun h => ⟨h,nofun⟩,fun h => h.1⟩⟩

/-- The same panes in another arrangement. -/
theorem Edit.rearranged (hs : s.Valid) (old : s.groups = before ++ group :: after)
    {root : PaneNode R} (hroot : root.leaves.Perm group.root.leaves) (new : t.groups = before ++ { group with root := root, preLauncherRoot := none } :: after) : Edit named s t [] := by
  have hmem : group ∈ s.groups := by
    rw [old]
    exact mem_append_right _ mem_cons_self
  have hpanes : (root.leaves.map (·.id)).Perm group.paneIds := hroot.map _
  have hsessions : (root.leaves.filterMap (·.content.sessionId)).Perm group.sessionIds := hroot.filterMap _
  refine Edit.single hs old (some { group with root := root, preLauncherRoot := none }) ?_ ?_
    fun _ h => absurd h not_mem_nil
  · rw [new, Option.toList_some, append_assoc, singleton_append]
  · rintro _ ⟨⟩
    refine ⟨⟨rfl,⟨(hs.groups group hmem).shaped.perm hroot,nofun⟩,?_,?_,?_⟩,fun id hid => hpanes.mem_iff.mp hid,
      fun id hid => hsessions.mem_iff.mp hid⟩
    · exact hpanes.nodup_iff.mpr (nodup_of_mem hs.panes hmem)
    · exact hsessions.nodup_iff.mpr (nodup_of_mem hs.sessions hmem)
    · intro pane hpane
      obtain ⟨hin,hsession⟩ := mem_sessionLeaves.mp hpane
      exact .inl (mem_sessionLeaves.mpr ⟨hroot.mem_iff.mpr hin,hsession⟩)

/-- One more pane in a group. -/
theorem Edit.inserted (hs : s.Valid) (old : s.groups = before ++ group :: after)
    {root : PaneNode R} {snapshot : Option (PaneNode R)} {pane : Pane} (hroot : root.leaves.Perm (pane :: group.root.leaves))
    (hvalid : PaneGroup.Valid { group with root := root, preLauncherRoot := snapshot })
    (hid : pane.id ∉ s.groups.flatMap (·.paneIds))
    (hsession : ∀ id, pane.content = .session id → id ∉ s.groups.flatMap (·.sessionIds))
    (new : t.groups = before ++ { group with root := root, preLauncherRoot := snapshot } :: after) : Edit named s t [] := by
  have hmem : group ∈ s.groups := by
    rw [old]
    exact mem_append_right _ mem_cons_self
  have hpanes : (root.leaves.map (·.id)).Perm (pane.id :: group.paneIds) := hroot.map _
  have hsessions : (root.leaves.filterMap (·.content.sessionId)).Perm (pane.content.sessionId.toList ++ group.sessionIds) := by
    refine (hroot.filterMap _).trans ?_
    rw [filterMap_cons]
    cases pane.content.sessionId <;> exact .refl _
  have hnew : ∀ id ∈ pane.content.sessionId.toList, id ∉ s.groups.flatMap (·.sessionIds) := by
    intro id hin
    cases hcontent : pane.content with
    | session other =>
      rw [hcontent] at hin
      rw [mem_singleton.mp hin]
      exact hsession other hcontent
    | launcher projectId =>
      rw [hcontent] at hin
      exact absurd hin not_mem_nil
  refine .grown before after group _ old new ⟨rfl,hvalid,?_,?_,?_⟩ ?_ ?_
  · refine hpanes.nodup_iff.mpr (nodup_cons.mpr ⟨fun hin => hid ?_,nodup_of_mem hs.panes hmem⟩)
    exact mem_flatMap.mpr ⟨group,hmem,hin⟩
  · refine hsessions.nodup_iff.mpr (nodup_append.mpr ⟨?_,nodup_of_mem hs.sessions hmem,?_⟩)
    · cases pane.content.sessionId with
      | none => exact nodup_nil
      | some id => exact nodup_singleton id
    · rintro id hin _ hother rfl
      exact hnew id hin (mem_flatMap.mpr ⟨group,hmem,hother⟩)
  · intro other hother
    obtain ⟨hin,hsome⟩ := mem_sessionLeaves.mp hother
    exact .inl (mem_sessionLeaves.mpr ⟨hroot.mem_iff.mpr (mem_cons_of_mem _ hin),hsome⟩)
  · intro id hin
    rcases mem_cons.mp (hpanes.mem_iff.mp hin) with rfl | hin
    · exact .inr hid
    · exact .inl hin
  · intro id hin
    rcases mem_append.mp (hsessions.mem_iff.mp hin) with hin | hin
    · exact .inr (hnew id hin)
    · exact .inl hin

end Edits

end Unpeel.Panes
