import Mathlib.Data.List.Nodup
import Mathlib.Data.List.Perm.Basic
import Mathlib.Tactic.NormNum
import Unpeel.Foundation.SplitTree
import Unpeel.Manifest.Record

/-! # The tree of panes of a group

Each leaf is a pane that shows a Session or a launcher, each split has a direction and the
share of its left child. A pane is found, split and removed by its id.
-/
namespace Unpeel.Panes
open Manifest

section StableIds

def isHexDigit (c : Char) : Bool := "0123456789abcdefABCDEF".toList.contains c

def hyphens : List Bool :=
  [8,4,4,4].flatMap (fun digits => List.replicate digits false ++ [true]) ++ List.replicate 12 false

def uuidShaped : List Bool → Text → Bool
  | [], [] => true
  | true :: rest, c :: text => c == '-' && uuidShaped rest text
  | false :: rest, c :: text => isHexDigit c && uuidShaped rest text
  | _, _ => false

def canonical (value : Text) : Option Text := if uuidShaped hyphens value then some (value.map Char.toLower) else none

theorem uuidShaped_toLower {shape : List Bool} {value : Text} (h : uuidShaped shape value = true) :
    uuidShaped shape (value.map Char.toLower) = true ∧ (value.map Char.toLower).map Char.toLower = value.map Char.toLower := by
  have hhex : ∀ c, isHexDigit c = true → isHexDigit c.toLower = true ∧ c.toLower.toLower = c.toLower := by
    intro c hc
    have hall : ("0123456789abcdefABCDEF".toList.all fun c => isHexDigit c.toLower && c.toLower.toLower == c.toLower) = true := by
      decide +kernel
    simpa using List.all_eq_true.mp hall c (List.contains_iff_mem.mp hc)
  induction shape, value using uuidShaped.induct with
  | case1 => exact ⟨rfl,rfl⟩
  | case2 rest c text ih =>
    obtain ⟨hc,hrest⟩ := Bool.and_eq_true_iff.mp h
    obtain ⟨hshape,hlower⟩ := ih hrest
    obtain rfl : c = '-' := eq_of_beq hc
    exact ⟨hshape,by rw [List.map_cons, List.map_cons, hlower]; rfl⟩
  | case3 rest c text ih =>
    obtain ⟨hc,hrest⟩ := Bool.and_eq_true_iff.mp h
    obtain ⟨hshape,hlower⟩ := ih hrest
    refine ⟨Bool.and_eq_true_iff.mpr ⟨(hhex c hc).1,hshape⟩,?_⟩
    rw [List.map_cons, List.map_cons, hlower, (hhex c hc).2]
  | case4 shape value h1 h2 h3 =>
    rw [uuidShaped] at h
    · cases h
    all_goals assumption

theorem canonical_canonical {value text : Text} (h : canonical value = some text) : canonical text = some text := by
  unfold canonical at h ⊢
  split at h
  · rename_i hshape
    cases h
    obtain ⟨hlower,hsame⟩ := uuidShaped_toLower hshape
    rw [if_pos hlower, hsame]
  · cases h

/-- An id as `PaneStableID` makes them. -/
structure StableId where
  text : Text
  stable : canonical text = some text
deriving DecidableEq

def StableId.choose (given : Option Text) (made : StableId) : StableId :=
  match h : given.bind canonical with
  | some text =>
    { text := text
      stable := by
        obtain ⟨value,-,hvalue⟩ := Option.bind_eq_some_iff.mp h
        exact canonical_canonical hvalue }
  | none => made

end StableIds

section Ratios

/-- The arithmetic of split ratios. -/
class SplitArithmetic (R : Type) where
  isFinite : R → Bool
  clampedRatio : R → R
  half : R
  /-- One of this many more than the given number. -/
  share : ℕ → R
  allBut : R → R
  /-- The part of the first in both. -/
  portion : ℕ → ℕ → R
  clampedRatio_clampedRatio : ∀ ratio, clampedRatio (clampedRatio ratio) = clampedRatio ratio

structure SplitRatio (R : Type) [SplitArithmetic R] where
  value : R
  clamped : SplitArithmetic.clampedRatio value = value
deriving DecidableEq

variable {R : Type} [SplitArithmetic R]

def SplitRatio.clamp (ratio : R) : SplitRatio R :=
  ⟨SplitArithmetic.clampedRatio ratio,SplitArithmetic.clampedRatio_clampedRatio ratio⟩

theorem SplitRatio.clamp_value (ratio : SplitRatio R) : SplitRatio.clamp ratio.value = ratio := by
  cases ratio with
  | mk value clamped =>
    unfold SplitRatio.clamp
    simp only [clamped]

/-- Exact fractions, between a tenth and nine tenths. -/
instance rationalArithmetic : SplitArithmetic ℚ where
  isFinite _ := true
  clampedRatio ratio := min (max ratio (1 / 10)) (9 / 10)
  half := 1 / 2
  share count := 1 / (count + 1)
  allBut ratio := 1 - ratio
  portion left right := left / (left + right)
  clampedRatio_clampedRatio ratio := by
    have hle : (1 / 10 : ℚ) ≤ 9 / 10 := by norm_num
    have hlow : 1 / 10 ≤ min (max ratio (1 / 10)) (9 / 10) := le_min (le_max_right _ _) hle
    rw [max_eq_left hlow, min_eq_left (min_le_right _ _)]

end Ratios

inductive PaneContent where
  | session (id : Text)
  | launcher (projectId : Text)
deriving DecidableEq

namespace PaneContent

def sessionId : PaneContent → Option Text
  | .session id => some id
  | .launcher _ => none

def isLauncher : PaneContent → Bool
  | .session _ => false
  | .launcher _ => true

end PaneContent

structure Pane where
  id : Text
  content : PaneContent
  stable : canonical id = some id
deriving DecidableEq

def Pane.make (id : StableId) (content : PaneContent) : Pane := ⟨id.text,content,id.stable⟩

inductive SplitDirection where
  | horizontal
  | vertical
deriving DecidableEq

inductive PaneEdge where
  | left
  | right
  | up
  | down
deriving DecidableEq

namespace PaneEdge

def splitDirection : PaneEdge → SplitDirection
  | .left | .right => .horizontal
  | .up | .down => .vertical

def newLeafIsLeftChild : PaneEdge → Bool
  | .left | .up => true
  | .right | .down => false

end PaneEdge

structure Divider (R : Type) [SplitArithmetic R] where
  direction : SplitDirection
  ratio : SplitRatio R
deriving DecidableEq

abbrev PaneNode (R : Type) [SplitArithmetic R] := SplitTree (Divider R) Pane

namespace PaneNode
variable {R : Type} [SplitArithmetic R]

def sessionLeaves (node : PaneNode R) : List Pane := node.leaves.filter (·.content.sessionId.isSome)

def containsLauncher (node : PaneNode R) : Bool := node.leaves.any (·.content.isLauncher)

def leafOf (node : PaneNode R) (paneId : Text) : Option Pane := node.leaves.find? (·.id = paneId)

def pathTo (paneId : Text) : PaneNode R → Option (List Branch)
  | .leaf pane => if pane.id = paneId then some [] else none
  | .split _ left right =>
    match pathTo paneId left with
    | some path => some (.left :: path)
    | none => (pathTo paneId right).map (.right :: ·)

def isLeafOf (paneId : Text) : PaneNode R → Bool
  | .leaf pane => pane.id = paneId
  | .split _ _ _ => false

def removingLeaf (paneId : Text) : PaneNode R → Option (PaneNode R)
  | .leaf pane => if pane.id = paneId then none else some (.leaf pane)
  | .split label left right =>
    if isLeafOf paneId left then some right
    else if isLeafOf paneId right then some left
    else
      match removingLeaf paneId left with
      | none => some right
      | some left' =>
        match removingLeaf paneId right with
        | none => some left
        | some right' => some (.split label left' right')

def updatingLeaf (paneId : Text) (transform : Pane → Pane) (node : PaneNode R) : PaneNode R :=
  node.map fun pane => if pane.id = paneId then transform pane else pane

def beside (edge : PaneEdge) (ratio : R) (pane : Pane) (node : PaneNode R) : PaneNode R :=
  .split ⟨edge.splitDirection,.clamp ratio⟩ (if edge.newLeafIsLeftChild then .leaf pane else node)
    (if edge.newLeafIsLeftChild then node else .leaf pane)

def splittingLeaf (node : PaneNode R) (paneId : Text) (pane : Pane) (edge : PaneEdge) : Option (PaneNode R) :=
  (pathTo paneId node).bind fun path => (node.nodeAt path).map fun target =>
    node.replaceAt path (beside edge SplitArithmetic.half pane target)

def weight (direction : SplitDirection) : PaneNode R → ℕ
  | .leaf _ => 1
  | .split label left right => if label.direction = direction then weight direction left + weight direction right else 1

def equalized : PaneNode R → PaneNode R
  | .leaf pane => .leaf pane
  | .split label left right =>
    .split ⟨label.direction,.clamp (SplitArithmetic.portion (weight label.direction left) (weight label.direction right))⟩
      (equalized left) (equalized right)

variable {node : PaneNode R} {paneId : Text}

def Distinct (node : PaneNode R) : Prop := (node.leaves.map (·.id)).Nodup

theorem Distinct.split {label : Divider R} {left right : PaneNode R} (h : Distinct (.split label left right)) :
    Distinct left ∧ Distinct right ∧ ∀ a ∈ left.leaves, ∀ b ∈ right.leaves, a.id ≠ b.id := by
  unfold Distinct at h
  rw [SplitTree.leaves, List.map_append, List.nodup_append] at h
  obtain ⟨hl,hr,hne⟩ := h
  exact ⟨hl,hr,fun a ha b hb => hne a.id (List.mem_map_of_mem ha) b.id (List.mem_map_of_mem hb)⟩

theorem Distinct.eq (h : Distinct node) {a b : Pane} (ha : a ∈ node.leaves) (hb : b ∈ node.leaves) (hid : a.id = b.id) :
    a = b :=
  List.inj_on_of_nodup_map h ha hb hid

section Finding

theorem mem_of_leafOf {pane : Pane} (h : node.leafOf paneId = some pane) : pane ∈ node.leaves ∧ pane.id = paneId := by
  refine ⟨List.mem_of_find?_eq_some h,?_⟩
  simpa using List.find?_some h

theorem leafOf_eq_none : node.leafOf paneId = none ↔ ∀ pane ∈ node.leaves, pane.id ≠ paneId := by
  unfold leafOf
  rw [List.find?_eq_none]
  exact forall₂_congr fun pane _ => by rw [decide_eq_true_eq]

theorem Distinct.leafOf (h : Distinct node) {pane : Pane} (hpane : pane ∈ node.leaves) :
    node.leafOf pane.id = some pane := by
  cases hfind : node.leafOf pane.id with
  | none => exact absurd rfl (leafOf_eq_none.mp hfind pane hpane)
  | some found =>
    obtain ⟨hmem,hid⟩ := mem_of_leafOf hfind
    rw [h.eq hmem hpane hid]

theorem pathTo_eq_none : node.pathTo paneId = none ↔ ∀ pane ∈ node.leaves, pane.id ≠ paneId := by
  induction node with
  | leaf pane =>
    rw [pathTo, SplitTree.leaves]
    simp
  | split label left right ihl ihr =>
    rw [pathTo, SplitTree.leaves]
    simp only [List.mem_append, or_imp, forall_and]
    rw [← ihl, ← ihr]
    cases pathTo paneId left with
    | some path => simp
    | none => simp

/-- The path leads to a leaf with the id. -/
theorem nodeAt_pathTo {path : List Branch} (h : node.pathTo paneId = some path) :
    ∃ pane ∈ node.leaves, pane.id = paneId ∧ node.nodeAt path = some (.leaf pane) := by
  induction node generalizing path with
  | leaf pane =>
    rw [pathTo] at h
    split at h
    · rename_i hid
      cases h
      exact ⟨pane,List.mem_cons_self,hid,rfl⟩
    · cases h
  | split label left right ihl ihr =>
    rw [pathTo] at h
    split at h
    · rename_i path' hpath
      cases h
      obtain ⟨pane,hmem,hid,hnode⟩ := ihl hpath
      exact ⟨pane,List.mem_append_left _ hmem,hid,hnode⟩
    · obtain ⟨path',hpath,rfl⟩ := Option.map_eq_some_iff.mp h
      obtain ⟨pane,hmem,hid,hnode⟩ := ihr hpath
      exact ⟨pane,List.mem_append_right _ hmem,hid,hnode⟩

end Finding

section Removing

theorem isLeafOf_eq_true : node.isLeafOf paneId = true ↔ ∃ pane, node = .leaf pane ∧ pane.id = paneId := by
  cases node with
  | leaf pane =>
    rw [isLeafOf, decide_eq_true_eq]
    exact ⟨fun h => ⟨pane,rfl,h⟩,fun ⟨other,hother,hid⟩ => by cases hother; exact hid⟩
  | split label left right => exact ⟨fun h => (by cases h),fun ⟨_,h,_⟩ => (by cases h)⟩

theorem prune_of_absent (h : ∀ pane ∈ node.leaves, pane.id ≠ paneId) : node.prune (·.id ≠ paneId) = some node :=
  SplitTree.prune_eq_self fun pane hpane => decide_eq_true (h pane hpane)

/-- With distinct ids, removing a leaf by its id prunes it. -/
theorem Distinct.removingLeaf (h : Distinct node) : node.removingLeaf paneId = node.prune (·.id ≠ paneId) := by
  induction node with
  | leaf pane =>
    rw [PaneNode.removingLeaf, SplitTree.prune]
    by_cases hid : pane.id = paneId
    · simp [hid]
    · simp [hid]
  | split label left right ihl ihr =>
    obtain ⟨hl,hr,hne⟩ := h.split
    rw [PaneNode.removingLeaf, SplitTree.prune]
    split
    · rename_i hleaf
      obtain ⟨pane,rfl,hid⟩ := isLeafOf_eq_true.mp hleaf
      have habsent : ∀ other ∈ right.leaves, other.id ≠ paneId :=
        fun other hother heq => hne pane List.mem_cons_self other hother (hid.trans heq.symm)
      rw [prune_of_absent habsent, SplitTree.prune, if_neg (by simpa using hid)]
      rfl
    · split
      · rename_i hleaf
        obtain ⟨pane,rfl,hid⟩ := isLeafOf_eq_true.mp hleaf
        have habsent : ∀ other ∈ left.leaves, other.id ≠ paneId :=
          fun other hother heq => hne other hother pane List.mem_cons_self (heq.trans hid.symm)
        rw [prune_of_absent habsent, SplitTree.prune, if_neg (by simpa using hid)]
        rfl
      · rename_i hnotLeft hnotRight
        -- neither side is the leaf alone, so something is left of both
        have hsome : ∀ side : PaneNode R, ¬side.isLeafOf paneId = true → Distinct side →
            side.prune (·.id ≠ paneId) ≠ none := by
          intro side hside hdistinct hnone
          have hall := SplitTree.prune_eq_none.mp hnone
          cases side with
          | leaf pane =>
            have hid := hall pane List.mem_cons_self
            rw [decide_eq_false_iff_not, not_not] at hid
            exact hside (isLeafOf_eq_true.mpr ⟨pane,rfl,hid⟩)
          | split label left right =>
            obtain ⟨-,-,hapart⟩ := hdistinct.split
            obtain ⟨a,ha⟩ := List.exists_mem_of_ne_nil _ left.leaves_ne_nil
            obtain ⟨b,hb⟩ := List.exists_mem_of_ne_nil _ right.leaves_ne_nil
            have hida := hall a (List.mem_append_left _ ha)
            have hidb := hall b (List.mem_append_right _ hb)
            rw [decide_eq_false_iff_not, not_not] at hida hidb
            exact hapart a ha b hb (hida.trans hidb.symm)
        rw [ihl hl, ihr hr]
        cases hleft : left.prune (·.id ≠ paneId) with
        | none => exact absurd hleft (hsome left hnotLeft hl)
        | some left' =>
          cases hright : right.prune (·.id ≠ paneId) with
          | none => exact absurd hright (hsome right hnotRight hr)
          | some right' => rfl

theorem Distinct.prune (h : Distinct node) {keep : Pane → Bool} {pruned : PaneNode R}
    (hpruned : node.prune keep = some pruned) : Distinct pruned := by
  unfold Distinct
  rw [SplitTree.leaves_prune hpruned]
  exact h.sublist (List.filter_sublist.map _)

theorem Distinct.leaves_removingLeaf (h : Distinct node) {removed : PaneNode R}
    (hremoved : node.removingLeaf paneId = some removed) : removed.leaves = node.leaves.filter (·.id ≠ paneId) := by
  rw [h.removingLeaf] at hremoved
  exact SplitTree.leaves_prune hremoved

end Removing

section Adding
variable {pane : Pane}

theorem leaves_beside (edge : PaneEdge) (ratio : R) (pane : Pane) (node : PaneNode R) :
    (beside edge ratio pane node).leaves.Perm (pane :: node.leaves) := by
  unfold beside
  cases edge.newLeafIsLeftChild with
  | true => exact .refl _
  | false => exact List.perm_append_singleton pane node.leaves

theorem prune_beside {edge : PaneEdge} {ratio : R} {keep : Pane → Bool} (hpane : keep pane = false)
    (hkeep : ∀ other ∈ node.leaves, keep other = true) : (beside edge ratio pane node).prune keep = some node := by
  have hgone : (SplitTree.leaf pane : PaneNode R).prune keep = none := by
    rw [SplitTree.prune, hpane]
    rfl
  unfold beside
  cases edge.newLeafIsLeftChild with
  | true =>
    show SplitTree.join _ ((SplitTree.leaf pane : PaneNode R).prune keep) (node.prune keep) = _
    rw [hgone, SplitTree.prune_eq_self hkeep]
    rfl
  | false =>
    show SplitTree.join _ (node.prune keep) ((SplitTree.leaf pane : PaneNode R).prune keep) = _
    rw [hgone, SplitTree.prune_eq_self hkeep]
    rfl

theorem splittingLeaf_spec {edge : PaneEdge} {added : PaneNode R}
    (h : node.splittingLeaf paneId pane edge = some added) :
    (added.leaves).Perm (pane :: node.leaves) ∧ ∀ keep : Pane → Bool, keep pane = false →
      (∀ other ∈ node.leaves, keep other = true) → added.prune keep = some node := by
  obtain ⟨path,hpath,h⟩ := Option.bind_eq_some_iff.mp h
  obtain ⟨target,htarget,rfl⟩ := Option.map_eq_some_iff.mp h
  obtain ⟨before,after,hold,hnew⟩ := SplitTree.leaves_replaceAt htarget
  constructor
  · rw [hold, hnew]
    have hmiddle := ((leaves_beside edge SplitArithmetic.half pane target).append_left before).append_right after
    refine hmiddle.trans ?_
    rw [List.append_assoc, List.append_assoc]
    exact List.perm_middle
  · intro keep hpane hkeep
    apply SplitTree.prune_replaceAt htarget
    · apply prune_beside hpane
      intro other hother
      apply hkeep
      rw [hold]
      exact List.mem_append_left _ (List.mem_append_right _ hother)
    · exact hkeep

theorem leaves_equalized (node : PaneNode R) : node.equalized.leaves = node.leaves := by
  induction node with
  | leaf pane => rfl
  | split label left right ihl ihr =>
    show (equalized left).leaves ++ (equalized right).leaves = _
    rw [ihl, ihr]
    rfl

end Adding

section Swapping
variable {a b : Text} {x y : Pane} {path path' : List Branch}

theorem map_of_absent {f : Pane → Pane} (h : ∀ pane ∈ node.leaves, pane.id ≠ a) (other : Pane → Pane) :
    (node.map fun pane => if pane.id = a then f pane else other pane) = node.map other :=
  SplitTree.map_congr fun pane hpane => if_neg (h pane hpane)

/-- Putting a pane in the place of another. -/
theorem Distinct.replaceAt (h : Distinct node) (hpath : node.pathTo a = some path) :
    node.replaceAt path (.leaf x) = node.map fun pane => if pane.id = a then x else pane := by
  induction node generalizing path with
  | leaf pane =>
    rw [pathTo] at hpath
    split at hpath
    · rename_i hid
      cases hpath
      rw [SplitTree.replaceAt, SplitTree.map, if_pos hid]
    · cases hpath
  | split label left right ihl ihr =>
    obtain ⟨hl,hr,hne⟩ := h.split
    rw [pathTo] at hpath
    split at hpath
    · rename_i path' hleft
      cases hpath
      obtain ⟨found,hfound,hid,-⟩ := nodeAt_pathTo hleft
      have habsent : ∀ pane ∈ right.leaves, pane.id ≠ a :=
        fun pane hpane heq => hne found hfound pane hpane (hid.trans heq.symm)
      rw [SplitTree.replaceAt, ihl hl hleft, SplitTree.map, map_of_absent habsent, SplitTree.map_eq_self fun _ _ => rfl]
    · rename_i hleft
      obtain ⟨path',hright,rfl⟩ := Option.map_eq_some_iff.mp hpath
      rw [SplitTree.replaceAt, ihr hr hright, SplitTree.map, map_of_absent (pathTo_eq_none.mp hleft),
        SplitTree.map_eq_self fun _ _ => rfl]

/-- Two panes in the places of two others. -/
theorem Distinct.replaceAt_replaceAt (h : Distinct node) (hab : a ≠ b) (hpath : node.pathTo a = some path)
    (hpath' : node.pathTo b = some path') :
    (node.replaceAt path (.leaf x)).replaceAt path' (.leaf y) =
      node.map fun pane => if pane.id = a then x else if pane.id = b then y else pane := by
  induction node generalizing path path' with
  | leaf pane =>
    rw [pathTo] at hpath hpath'
    split at hpath
    · split at hpath'
      · rename_i ha hb
        exact absurd (ha.symm.trans hb) hab
      · cases hpath'
    · cases hpath
  | split label left right ihl ihr =>
    obtain ⟨hl,hr,hne⟩ := h.split
    have hapart : ∀ c path, pathTo c left = some path → ∀ pane ∈ right.leaves, pane.id ≠ c := by
      intro c path hc pane hpane heq
      obtain ⟨found,hfound,hid,-⟩ := nodeAt_pathTo hc
      exact hne found hfound pane hpane (hid.trans heq.symm)
    rw [pathTo] at hpath hpath'
    split at hpath
    · rename_i pathA hleft
      cases hpath
      split at hpath'
      · rename_i pathB hleft'
        cases hpath'
        rw [SplitTree.replaceAt, SplitTree.replaceAt, ihl hl hleft hleft', SplitTree.map, map_of_absent (hapart a _ hleft),
          map_of_absent (hapart b _ hleft'), SplitTree.map_eq_self fun _ _ => rfl]
      · rename_i hleft'
        obtain ⟨pathB,hright,rfl⟩ := Option.map_eq_some_iff.mp hpath'
        rw [SplitTree.replaceAt, SplitTree.replaceAt, hl.replaceAt hleft, hr.replaceAt hright, SplitTree.map,
          map_of_absent (hapart a _ hleft)]
        congr 1
        refine SplitTree.map_congr fun pane hpane => ?_
        rw [if_neg (pathTo_eq_none.mp hleft' pane hpane)]
    · rename_i hleft
      obtain ⟨pathA,hright,rfl⟩ := Option.map_eq_some_iff.mp hpath
      split at hpath'
      · rename_i pathB hleft'
        cases hpath'
        rw [SplitTree.replaceAt, SplitTree.replaceAt, hl.replaceAt hleft', hr.replaceAt hright, SplitTree.map,
          map_of_absent (pathTo_eq_none.mp hleft)]
        congr 1
        refine SplitTree.map_congr fun pane hpane => ?_
        rw [if_neg (hapart b _ hleft' pane hpane)]
      · rename_i hleft'
        obtain ⟨pathB,hright',rfl⟩ := Option.map_eq_some_iff.mp hpath'
        rw [SplitTree.replaceAt, SplitTree.replaceAt, ihr hr hright hright', SplitTree.map,
          map_of_absent (pathTo_eq_none.mp hleft), map_of_absent (pathTo_eq_none.mp hleft'),
          SplitTree.map_eq_self fun _ _ => rfl]

/-- Two leaves in each other's place. -/
theorem Distinct.leaves_swap (h : Distinct node) (hab : a ≠ b) (hx : node.leafOf a = some x) (hy : node.leafOf b = some y)
    (hpath : node.pathTo a = some path) (hpath' : node.pathTo b = some path') :
    ((node.replaceAt path (.leaf y)).replaceAt path' (.leaf x)).leaves.Perm node.leaves := by
  obtain ⟨hxMem,hxId⟩ := mem_of_leafOf hx
  obtain ⟨hyMem,hyId⟩ := mem_of_leafOf hy
  have hnodup : node.leaves.Nodup := h.of_map _
  rw [h.replaceAt_replaceAt hab hpath hpath', SplitTree.leaves_map]
  have hswap : ∀ pane ∈ node.leaves, (if pane.id = a then y else if pane.id = b then x else pane) ∈ node.leaves := by
    intro pane hpane
    split
    · exact hyMem
    · split
      · exact hxMem
      · exact hpane
  have hback : ∀ pane ∈ node.leaves, (if (if pane.id = a then y else if pane.id = b then x else pane).id = a then y else
      if (if pane.id = a then y else if pane.id = b then x else pane).id = b then x else
        (if pane.id = a then y else if pane.id = b then x else pane)) = pane := by
    intro pane hpane
    by_cases ha : pane.id = a
    · rw [if_pos ha, hyId, if_neg hab.symm, if_pos rfl]
      exact h.eq hxMem hpane (hxId.trans ha.symm)
    · rw [if_neg ha]
      by_cases hb : pane.id = b
      · rw [if_pos hb, hxId, if_pos rfl]
        exact h.eq hyMem hpane (hyId.trans hb.symm)
      · rw [if_neg hb, if_neg ha, if_neg hb]
  apply (List.perm_ext_iff_of_nodup (List.Nodup.map_on ?_ hnodup) hnodup).mpr
  · intro pane
    constructor
    · intro hmem
      obtain ⟨old,hold,rfl⟩ := List.mem_map.mp hmem
      exact hswap old hold
    · intro hmem
      exact List.mem_map.mpr ⟨_,hswap pane hmem,hback pane hmem⟩
  · intro p hp q hq heq
    have hleft := hback p hp
    have hright := hback q hq
    rw [heq] at hleft
    exact hleft.symm.trans hright

end Swapping

end PaneNode

end Unpeel.Panes
