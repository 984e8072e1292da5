import Unpeel.Foundation.Fallible
import Unpeel.Panes.PaneTree

/-! # The layout of the panes

Sessions that share a window are grouped, each group with its tree of panes and the pane
that stands for it in the sidebar. A launcher is a pane that lasts until a Session takes its
place or the user gives up; the tree from before it is kept for the second case.
-/
namespace Unpeel.Panes
open Manifest Fallible
variable {R : Type} [SplitArithmetic R]

structure PaneGroup (R : Type) [SplitArithmetic R] where
  id : Text
  representativePaneId : Text
  root : PaneNode R
  preLauncherRoot : Option (PaneNode R)
  stable : canonical id = some id

namespace PaneGroup

theorem ext_iff_data (a b : PaneGroup R) :
    a.id = b.id ∧ a.representativePaneId = b.representativePaneId ∧ a.root = b.root ∧ a.preLauncherRoot = b.preLauncherRoot ↔
      a = b := by
  cases a
  cases b
  simp

instance [DecidableEq R] : DecidableEq (PaneGroup R) := fun a b => decidable_of_iff _ (ext_iff_data a b)

def make (id : StableId) (representativePaneId : Text) (root : PaneNode R) (preLauncherRoot : Option (PaneNode R)) :
    PaneGroup R :=
  ⟨id.text,(canonical representativePaneId).getD representativePaneId,root,preLauncherRoot,id.stable⟩

def panes (group : PaneGroup R) : List Pane := group.root.leaves

def sessionIds (group : PaneGroup R) : List Text := group.root.leaves.filterMap (·.content.sessionId)

end PaneGroup

structure PaneLocation where
  groupId : Text
  paneId : Text
deriving DecidableEq

structure PaneLayoutChange where
  groupId : Text
  removedPaneIds : List Text
  releasedSessionIds : List Text
  representativePaneId : Option Text
  dissolved : Bool
deriving DecidableEq

inductive PaneLayoutError where
  | invalidSessionId
  | sameSession
  | duplicateSession (sessionId : Text)
  | groupNotFound (groupId : Text)
  | paneNotFound (paneId : Text)
  | splitNotFound (groupId : Text)
  | capacityReached (groupId : Text)
  | launcherAlreadyPresent (groupId : Text)
  | paneIsNotLauncher (paneId : Text)
  | panesBelongToDifferentGroups
  | invalidRatio
deriving DecidableEq

structure PaneLayoutState (R : Type) [SplitArithmetic R] where
  groups : List (PaneGroup R)
deriving DecidableEq

def maximumSessionLeafCount : ℕ := 8

structure NewId where
  given : Option Text
  made : StableId

def NewId.id (new : NewId) : StableId := .choose new.given new.made

namespace PaneNode

def canRemainGrouped (root : PaneNode R) : Bool :=
  2 ≤ root.sessionLeaves.length || (root.sessionLeaves.length == 1 && root.containsLauncher)

def sameIds (panes others : List Pane) : Bool :=
  panes.all (fun pane => others.any (·.id = pane.id)) && others.all fun other => panes.any (·.id = other.id)

def promoted (root : PaneNode R) (representativePaneId : Text) : Text :=
  if ((root.leafOf representativePaneId).bind (·.content.sessionId)).isSome then representativePaneId
  else
    match root.sessionLeaves with
    | [] => representativePaneId
    | first :: _ => first.id

def removingLeaves (node : Option (PaneNode R)) (panes : List Pane) : Option (PaneNode R) :=
  panes.foldl (fun node pane => node.bind (removingLeaf pane.id)) node

end PaneNode

namespace PaneLayoutState

def locationOfSession (state : PaneLayoutState R) (sessionId : Text) : Option PaneLocation :=
  state.groups.findSome? fun group =>
    (group.root.leaves.find? (·.content.sessionId = some sessionId)).map fun pane => ⟨group.id,pane.id⟩

def locationOfPane (state : PaneLayoutState R) (paneId : Text) : Option PaneLocation :=
  state.groups.findSome? fun group => (group.root.leafOf paneId).map fun _ => ⟨group.id,paneId⟩

def findGroup (groupId : Text) : List (PaneGroup R) → Option (ℕ × PaneGroup R)
  | [] => none
  | group :: groups =>
    if group.id = groupId then some (0,group) else (findGroup groupId groups).map fun (index,found) => (index + 1,found)

def addGroup (group : PaneGroup R) (state : PaneLayoutState R) : PaneLayoutState R := ⟨state.groups ++ [group]⟩

def setGroup (index : ℕ) (group : PaneGroup R) (state : PaneLayoutState R) : PaneLayoutState R := ⟨state.groups.set index group⟩

def removeGroup (index : ℕ) (state : PaneLayoutState R) : PaneLayoutState R := ⟨state.groups.eraseIdx index⟩

end PaneLayoutState

open PaneLayoutState

abbrev PaneOperation (R : Type) [SplitArithmetic R] (α : Type) := Attempt (PaneLayoutState R) PaneLayoutError α

section Checks

def validateNewSession (sessionId : Text) : PaneOperation R PUnit :=
  if sessionId = [] then throw .invalidSessionId
  else do
    let state ← get
    if (state.locationOfSession sessionId).isSome then throw (.duplicateSession sessionId) else pure ⟨⟩

def validateCapacity (group : PaneGroup R) : PaneOperation R PUnit :=
  let prospective := group.root.sessionLeaves.length + if group.root.containsLauncher then 1 else 0
  if prospective < maximumSessionLeafCount then pure ⟨⟩ else throw (.capacityReached group.id)

def indexOfGroup (groupId : Text) : PaneOperation R (ℕ × PaneGroup R) := do
  let state ← get
  match findGroup groupId state.groups with
  | none => throw (.groupNotFound groupId)
  | some found => pure found

def groupOfPane (paneId : Text) : PaneOperation R (ℕ × PaneGroup R) := do
  let state ← get
  match state.locationOfPane paneId with
  | none => throw (.paneNotFound paneId)
  | some location => indexOfGroup location.groupId

end Checks

section Inserting

def createGroup (representativeSessionId sessionId : Text) (edge : PaneEdge)
    (newGroupId newRepresentativePaneId newPaneId : NewId) : PaneOperation R PaneLocation := do
  validateNewSession sessionId
  if representativeSessionId = [] then throw .invalidSessionId
  else if representativeSessionId = sessionId then throw .sameSession
  else do
    let state ← get
    if (state.locationOfSession representativeSessionId).isSome then throw (.duplicateSession representativeSessionId)
    else do
      let representative := Pane.make newRepresentativePaneId.id (.session representativeSessionId)
      let inserted := Pane.make newPaneId.id (.session sessionId)
      let root := PaneNode.beside edge SplitArithmetic.half inserted (.leaf representative)
      let group : PaneGroup R := .make newGroupId.id representative.id root none
      modify (addGroup group)
      pure ⟨group.id,inserted.id⟩

def insertSessionSplitting (sessionId targetPaneId : Text) (edge : PaneEdge) (newPaneId : NewId) :
    PaneOperation R PaneLocation := do
  validateNewSession sessionId
  let (index,group) ← groupOfPane targetPaneId
  validateCapacity group
  let pane := Pane.make newPaneId.id (.session sessionId)
  match group.root.splittingLeaf targetPaneId pane edge with
  | none => throw (.paneNotFound targetPaneId)
  | some root => do
    modify (setGroup index { group with root := root, preLauncherRoot := none })
    pure ⟨group.id,pane.id⟩

def insertSessionBeside (sessionId targetSessionId : Text) (edge : PaneEdge)
    (newGroupId newRepresentativePaneId newPaneId : NewId) : PaneOperation R PaneLocation := do
  validateNewSession sessionId
  if targetSessionId = [] then throw .invalidSessionId
  else if sessionId = targetSessionId then throw .sameSession
  else do
    let state ← get
    match state.locationOfSession targetSessionId with
    | some target => insertSessionSplitting sessionId target.paneId edge newPaneId
    | none => createGroup targetSessionId sessionId edge newGroupId newRepresentativePaneId newPaneId

def insertSessionAtGroupEdge (sessionId : Text) (edge : PaneEdge) (groupId : Text) (newPaneId : NewId) :
    PaneOperation R PaneLocation := do
  validateNewSession sessionId
  let (index,group) ← indexOfGroup groupId
  validateCapacity group
  let pane := Pane.make newPaneId.id (.session sessionId)
  let share : R := SplitArithmetic.share group.root.sessionLeaves.length
  let ratio := if edge.newLeafIsLeftChild then share else SplitArithmetic.allBut share
  modify (setGroup index { group with root := PaneNode.beside edge ratio pane group.root, preLauncherRoot := none })
  pure ⟨group.id,pane.id⟩

end Inserting

section Launching

def insertLauncherSplitting (projectId targetPaneId : Text) (edge : PaneEdge) (newPaneId : NewId) :
    PaneOperation R PaneLocation := do
  let (index,group) ← groupOfPane targetPaneId
  validateCapacity group
  if group.root.containsLauncher then throw (.launcherAlreadyPresent group.id)
  else
    let launcher := Pane.make newPaneId.id (.launcher projectId)
    match group.root.splittingLeaf targetPaneId launcher edge with
    | none => throw (.paneNotFound targetPaneId)
    | some root => do
      modify (setGroup index { group with root := root, preLauncherRoot := some group.root })
      pure ⟨group.id,launcher.id⟩

def insertLauncherBeside (projectId targetSessionId : Text) (edge : PaneEdge)
    (newGroupId newRepresentativePaneId newPaneId : NewId) : PaneOperation R PaneLocation :=
  if targetSessionId = [] then throw .invalidSessionId
  else do
    let state ← get
    match state.locationOfSession targetSessionId with
    | some target => insertLauncherSplitting projectId target.paneId edge newPaneId
    | none => do
      let representative := Pane.make newRepresentativePaneId.id (.session targetSessionId)
      let launcher := Pane.make newPaneId.id (.launcher projectId)
      let root := PaneNode.beside edge SplitArithmetic.half launcher (.leaf representative)
      let group : PaneGroup R := .make newGroupId.id representative.id root none
      modify (addGroup group)
      pure ⟨group.id,launcher.id⟩

def isLauncherOf (group : PaneGroup R) (paneId : Text) : Bool :=
  (group.root.leafOf paneId).any (·.content.isLauncher)

def bindLauncher (paneId sessionId : Text) : PaneOperation R PUnit := do
  validateNewSession sessionId
  let (index,group) ← groupOfPane paneId
  if isLauncherOf group paneId then
    let root := group.root.updatingLeaf paneId fun pane => { pane with content := .session sessionId }
    modify (setGroup index { group with root := root, preLauncherRoot := none })
  else throw (.paneIsNotLauncher paneId)

end Launching

section Removing

def dissolution (group : PaneGroup R) : PaneLayoutChange := ⟨group.id,group.panes.map (·.id),group.sessionIds,none,true⟩

/-- The group without one of its panes: the tree from before the launcher comes back with its
cancellation and loses the pane of a Session. -/
def withoutPane (group : PaneGroup R) (removedPane : Pane) (newRoot : PaneNode R) : PaneGroup R :=
  if removedPane.content.isLauncher then
    let root := match group.preLauncherRoot with
      | some snapshot => if PaneNode.sameIds snapshot.sessionLeaves newRoot.sessionLeaves then snapshot else newRoot
      | none => newRoot
    { group with root := root, preLauncherRoot := none, representativePaneId := root.promoted group.representativePaneId }
  else
    let snapshot := group.preLauncherRoot.bind fun snapshot =>
      (snapshot.removingLeaf removedPane.id).filter fun pruned => 2 ≤ (PaneNode.sessionLeaves pruned).length
    { group with
      root := newRoot
      preLauncherRoot := snapshot
      representativePaneId := newRoot.promoted group.representativePaneId }

def detachPane (paneId : Text) : PaneOperation R PaneLayoutChange := do
  let (index,group) ← groupOfPane paneId
  match group.root.leafOf paneId with
  | none => throw (.paneNotFound paneId)
  | some removedPane =>
    match (group.root.removingLeaf paneId).filter PaneNode.canRemainGrouped with
    | none => do
      modify (removeGroup index)
      pure (dissolution group)
    | some newRoot => do
      let updated := withoutPane group removedPane newRoot
      modify (setGroup index updated)
      pure ⟨group.id,[paneId],removedPane.content.sessionId.toList,some updated.representativePaneId,false⟩

def removeLauncher (paneId : Text) : PaneOperation R PaneLayoutChange := do
  let (_,group) ← groupOfPane paneId
  if isLauncherOf group paneId then detachPane paneId else throw (.paneIsNotLauncher paneId)

def closeGroup (groupId : Text) : PaneOperation R PaneLayoutChange := do
  let (index,group) ← indexOfGroup groupId
  modify (removeGroup index)
  pure (dissolution group)

end Removing

section Geometry

def resizeSplit [DecidableEq R] (groupId : Text) (path : List Branch) (ratio : R) : PaneOperation R R :=
  if SplitArithmetic.isFinite ratio then do
    let (index,group) ← indexOfGroup groupId
    match group.root.nodeAt path with
    | some (.split label left right) => do
      let applied := SplitRatio.clamp ratio
      if label.ratio = applied then pure applied.value
      else do
        let root := group.root.replaceAt path (.split { label with ratio := applied } left right)
        modify (setGroup index { group with root := root, preLauncherRoot := none })
        pure applied.value
    | _ => throw (.splitNotFound groupId)
  else throw .invalidRatio

def equalize (groupId : Text) : PaneOperation R PUnit := do
  let (index,group) ← indexOfGroup groupId
  modify (setGroup index { group with root := group.root.equalized, preLauncherRoot := none })

def swapPanes (paneId otherPaneId : Text) : PaneOperation R Bool := do
  let state ← get
  match state.locationOfPane paneId with
  | none => throw (.paneNotFound paneId)
  | some source =>
    match state.locationOfPane otherPaneId with
    | none => throw (.paneNotFound otherPaneId)
    | some target =>
      if source.groupId = target.groupId then
        if paneId = otherPaneId then pure false
        else do
          let (index,group) ← indexOfGroup source.groupId
          match group.root.leafOf paneId, group.root.leafOf otherPaneId, group.root.pathTo paneId,
            group.root.pathTo otherPaneId with
          | some first, some second, some firstPath, some secondPath => do
            let root := (group.root.replaceAt firstPath (.leaf second)).replaceAt secondPath (.leaf first)
            modify (setGroup index { group with root := root, preLauncherRoot := none })
            pure true
          | _, _, _, _ => throw (.paneNotFound paneId)
      else throw .panesBelongToDifferentGroups

end Geometry

section Reconciling
variable [DecidableEq R]

def ineligibleLeaves (eligible : Text → Bool) (root : PaneNode R) : List Pane :=
  root.sessionLeaves.filter fun pane => pane.content.sessionId.any fun sessionId => !eligible sessionId

def withoutSessions (eligible : Text → Bool) (group : PaneGroup R) (newRoot : PaneNode R) : PaneGroup R :=
  let ineligible := ineligibleLeaves eligible group.root
  let snapshot :=
    if newRoot.containsLauncher then
      group.preLauncherRoot.bind fun snapshot =>
        (PaneNode.removingLeaves (some snapshot) ineligible).filter fun pruned =>
          2 ≤ (PaneNode.sessionLeaves pruned).length && PaneNode.sameIds (PaneNode.sessionLeaves pruned) newRoot.sessionLeaves
    else none
  { group with
    root := newRoot
    preLauncherRoot := snapshot
    representativePaneId := newRoot.promoted group.representativePaneId }

def reconcileGroup (eligible : Text → Bool) (original : PaneGroup R) : Option (PaneGroup R) × Option PaneLayoutChange :=
  let remaining := PaneNode.removingLeaves (some original.root) (ineligibleLeaves eligible original.root)
  match remaining.filter PaneNode.canRemainGrouped with
  | none => (none,some (dissolution original))
  | some newRoot =>
    let updated := withoutSessions eligible original newRoot
    let removed := (original.panes.map (·.id)).filter fun id => !(updated.panes.map (·.id)).contains id
    let released := original.sessionIds.filter fun sessionId => !eligible sessionId
    (some updated,
      if updated = original then none
      else some ⟨original.id,removed,released,some updated.representativePaneId,false⟩)

def reconcile (eligible : Text → Bool) : PaneOperation R (List PaneLayoutChange) := do
  let state ← get
  modify fun _ => ⟨state.groups.filterMap fun group => (reconcileGroup eligible group).1⟩
  pure (state.groups.filterMap fun group => (reconcileGroup eligible group).2)

end Reconciling

inductive LayoutCall (R : Type) where
  | createGroup (representativeSessionId sessionId : Text) (edge : PaneEdge)
      (newGroupId newRepresentativePaneId newPaneId : NewId)
  | insertSessionBeside (sessionId targetSessionId : Text) (edge : PaneEdge)
      (newGroupId newRepresentativePaneId newPaneId : NewId)
  | insertSessionSplitting (sessionId targetPaneId : Text) (edge : PaneEdge) (newPaneId : NewId)
  | insertSessionAtGroupEdge (sessionId : Text) (edge : PaneEdge) (groupId : Text) (newPaneId : NewId)
  | insertLauncherSplitting (projectId targetPaneId : Text) (edge : PaneEdge) (newPaneId : NewId)
  | insertLauncherBeside (projectId targetSessionId : Text) (edge : PaneEdge)
      (newGroupId newRepresentativePaneId newPaneId : NewId)
  | bindLauncher (paneId sessionId : Text)
  | removeLauncher (paneId : Text)
  | detachPane (paneId : Text)
  | closeGroup (groupId : Text)
  | resizeSplit (groupId : Text) (path : List Branch) (ratio : R)
  | equalize (groupId : Text)
  | swapPanes (paneId otherPaneId : Text)
  | reconcile (eligible : Text → Bool)

def LayoutCall.changes [DecidableEq R] : LayoutCall R → PaneOperation R (List PaneLayoutChange)
  | .createGroup representative session edge group representativePane pane => do
    let _ ← Panes.createGroup representative session edge group representativePane pane
    pure []
  | .insertSessionBeside session target edge group representativePane pane => do
    let _ ← Panes.insertSessionBeside session target edge group representativePane pane
    pure []
  | .insertSessionSplitting session target edge pane => do
    let _ ← Panes.insertSessionSplitting session target edge pane
    pure []
  | .insertSessionAtGroupEdge session edge group pane => do
    let _ ← Panes.insertSessionAtGroupEdge session edge group pane
    pure []
  | .insertLauncherSplitting project target edge pane => do
    let _ ← Panes.insertLauncherSplitting project target edge pane
    pure []
  | .insertLauncherBeside project target edge group representativePane pane => do
    let _ ← Panes.insertLauncherBeside project target edge group representativePane pane
    pure []
  | .bindLauncher pane session => do
    Panes.bindLauncher pane session
    pure []
  | .removeLauncher pane => do
    let change ← Panes.removeLauncher pane
    pure [change]
  | .detachPane pane => do
    let change ← Panes.detachPane pane
    pure [change]
  | .closeGroup group => do
    let change ← Panes.closeGroup group
    pure [change]
  | .resizeSplit group path ratio => do
    let _ ← Panes.resizeSplit group path ratio
    pure []
  | .equalize group => do
    Panes.equalize group
    pure []
  | .swapPanes pane other => do
    let _ ← Panes.swapPanes pane other
    pure []
  | .reconcile eligible => Panes.reconcile eligible

end Unpeel.Panes
