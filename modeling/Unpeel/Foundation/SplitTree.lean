import Mathlib.Data.List.Basic

/-! # Trees of splits

A binary tree with its values at the leaves and a label at each split. Pruning takes leaves
away, and what is left of a split with one child is that child, so that the order in which
leaves are pruned does not matter. A position is a path of branches from the root.
-/
namespace Unpeel
open List

inductive SplitTree (δ α : Type) where
  | leaf (value : α)
  | split (label : δ) (left right : SplitTree δ α)
deriving DecidableEq

inductive Branch where
  | left
  | right
deriving DecidableEq

namespace SplitTree
variable {δ α β : Type}

def leaves : SplitTree δ α → List α
  | .leaf value => [value]
  | .split _ left right => left.leaves ++ right.leaves

def map (f : α → α) : SplitTree δ α → SplitTree δ α
  | .leaf value => .leaf (f value)
  | .split label left right => .split label (left.map f) (right.map f)

def join (label : δ) : Option (SplitTree δ α) → Option (SplitTree δ α) → Option (SplitTree δ α)
  | some left, some right => some (.split label left right)
  | some left, none => some left
  | none, right => right

def prune (keep : α → Bool) : SplitTree δ α → Option (SplitTree δ α)
  | .leaf value => if keep value then some (.leaf value) else none
  | .split label left right => join label (left.prune keep) (right.prune keep)

def nodeAt : SplitTree δ α → List Branch → Option (SplitTree δ α)
  | node, [] => some node
  | .leaf _, _ :: _ => none
  | .split _ left _, .left :: path => left.nodeAt path
  | .split _ _ right, .right :: path => right.nodeAt path

def replaceAt : SplitTree δ α → List Branch → SplitTree δ α → SplitTree δ α
  | _, [], node => node
  | .leaf value, _ :: _, _ => .leaf value
  | .split label left right, .left :: path, node => .split label (left.replaceAt path node) right
  | .split label left right, .right :: path, node => .split label left (right.replaceAt path node)

def leavesOf (tree : Option (SplitTree δ α)) : List α := tree.elim [] leaves

variable {tree : SplitTree δ α} {keep : α → Bool}

theorem leaves_ne_nil (tree : SplitTree δ α) : tree.leaves ≠ [] := by
  induction tree with
  | leaf value => exact cons_ne_nil _ _
  | split label left right ihl ihr => exact append_ne_nil_of_left_ne_nil ihl _

theorem leaves_map (f : α → α) (tree : SplitTree δ α) : (tree.map f).leaves = tree.leaves.map f := by
  induction tree with
  | leaf value => rfl
  | split label left right ihl ihr =>
    show (left.map f).leaves ++ (right.map f).leaves = _
    rw [ihl, ihr, ← map_append]
    rfl

theorem map_congr {f g : α → α} (h : ∀ a ∈ tree.leaves, f a = g a) : tree.map f = tree.map g := by
  induction tree with
  | leaf value => exact congrArg SplitTree.leaf (h value mem_cons_self)
  | split label left right ihl ihr =>
    have hl := ihl fun a ha => h a (mem_append_left _ ha)
    have hr := ihr fun a ha => h a (mem_append_right _ ha)
    rw [map, map, hl, hr]

theorem map_eq_self {f : α → α} (h : ∀ a ∈ tree.leaves, f a = a) : tree.map f = tree := by
  induction tree with
  | leaf value => exact congrArg SplitTree.leaf (h value mem_cons_self)
  | split label left right ihl ihr =>
    have hl := ihl fun a ha => h a (mem_append_left _ ha)
    have hr := ihr fun a ha => h a (mem_append_right _ ha)
    rw [map, hl, hr]

section Pruning

theorem leavesOf_join (label : δ) (left right : Option (SplitTree δ α)) :
    leavesOf (join label left right) = leavesOf left ++ leavesOf right := by
  cases left with
  | none => rfl
  | some left =>
    cases right with
    | none => exact (append_nil _).symm
    | some right => rfl

@[simp] theorem leavesOf_prune (keep : α → Bool) (tree : SplitTree δ α) :
    leavesOf (tree.prune keep) = tree.leaves.filter keep := by
  induction tree with
  | leaf value =>
    rw [prune, leaves]
    split
    · rename_i hkeep
      rw [filter_cons_of_pos hkeep]
      rfl
    · rename_i hdrop
      rw [filter_cons_of_neg hdrop]
      rfl
  | split label left right ihl ihr => rw [prune, leavesOf_join, ihl, ihr, leaves, List.filter_append]

theorem prune_congr {keep' : α → Bool} (h : ∀ a ∈ tree.leaves, keep a = keep' a) : tree.prune keep = tree.prune keep' := by
  induction tree with
  | leaf value => rw [prune, prune, h value mem_cons_self]
  | split label left right ihl ihr =>
    have hl := ihl fun a ha => h a (mem_append_left _ ha)
    have hr := ihr fun a ha => h a (mem_append_right _ ha)
    rw [prune, prune, hl, hr]

theorem prune_eq_self (h : ∀ a ∈ tree.leaves, keep a = true) : tree.prune keep = some tree := by
  induction tree with
  | leaf value => exact if_pos (h value mem_cons_self)
  | split label left right ihl ihr =>
    have hl := ihl fun a ha => h a (mem_append_left _ ha)
    have hr := ihr fun a ha => h a (mem_append_right _ ha)
    rw [prune, hl, hr]
    rfl

theorem leavesOf_eq_nil {tree : Option (SplitTree δ α)} : leavesOf tree = [] ↔ tree = none := by
  cases tree with
  | none => exact ⟨fun _ => rfl,fun _ => rfl⟩
  | some tree => exact ⟨fun h => absurd h tree.leaves_ne_nil,nofun⟩

theorem prune_eq_none : tree.prune keep = none ↔ ∀ a ∈ tree.leaves, keep a = false := by
  rw [← leavesOf_eq_nil, leavesOf_prune, filter_eq_nil_iff]
  exact forall₂_congr fun a _ => by rw [Bool.not_eq_true]

theorem leaves_prune {pruned : SplitTree δ α} (h : tree.prune keep = some pruned) :
    pruned.leaves = tree.leaves.filter keep := by
  rw [← leavesOf_prune, h]
  rfl

theorem join_bind_prune (label : δ) (left right : Option (SplitTree δ α)) (keep : α → Bool) :
    (join label left right).bind (prune keep) = join label (left.bind (prune keep)) (right.bind (prune keep)) := by
  cases left with
  | none => rfl
  | some left =>
    cases right with
    | none =>
      show left.prune keep = join label (left.prune keep) none
      cases left.prune keep <;> rfl
    | some right => rfl

/-- Pruning twice is pruning once. -/
theorem prune_prune (keep keep' : α → Bool) (tree : SplitTree δ α) :
    (tree.prune keep).bind (prune keep') = tree.prune fun a => keep a && keep' a := by
  induction tree with
  | leaf value =>
    rw [prune, prune]
    cases keep value <;> rfl
  | split label left right ihl ihr => rw [prune, join_bind_prune, ihl, ihr, prune]

theorem prune_comm (keep keep' : α → Bool) (tree : SplitTree δ α) :
    (tree.prune keep).bind (prune keep') = (tree.prune keep').bind (prune keep) := by
  rw [prune_prune, prune_prune]
  exact prune_congr fun a _ => Bool.and_comm _ _

end Pruning

section Positions

/-- The leaves before a position, those below it and those after it. -/
theorem leaves_replaceAt {path : List Branch} {old : SplitTree δ α} (h : tree.nodeAt path = some old) :
    ∃ before after, tree.leaves = before ++ old.leaves ++ after ∧
      ∀ new : SplitTree δ α, (tree.replaceAt path new).leaves = before ++ new.leaves ++ after := by
  induction path generalizing tree with
  | nil =>
    refine ⟨[],[],?_,fun new => ?_⟩
    · rw [nodeAt] at h
      rw [Option.some.inj h, nil_append, append_nil]
    · rw [replaceAt, nil_append, append_nil]
  | cons branch path ih =>
    cases tree with
    | leaf value => cases h
    | split label left right =>
      cases branch with
      | left =>
        obtain ⟨before,after,hsplit,hnew⟩ := ih (show left.nodeAt path = some old from h)
        refine ⟨before,after ++ right.leaves,?_,fun new => ?_⟩
        · rw [leaves, hsplit, append_assoc]
        · rw [replaceAt, leaves, hnew, append_assoc]
      | right =>
        obtain ⟨before,after,hsplit,hnew⟩ := ih (show right.nodeAt path = some old from h)
        refine ⟨left.leaves ++ before,after,?_,fun new => ?_⟩
        · rw [leaves, hsplit, append_assoc, append_assoc, append_assoc]
        · rw [replaceAt, leaves, hnew, append_assoc, append_assoc, append_assoc]

/-- What was put in a place goes again by pruning, if nothing else does. -/
theorem prune_replaceAt {path : List Branch} {old new : SplitTree δ α} (h : tree.nodeAt path = some old)
    (hnew : new.prune keep = some old) (hkeep : ∀ a ∈ tree.leaves, keep a = true) :
    (tree.replaceAt path new).prune keep = some tree := by
  induction path generalizing tree with
  | nil =>
    rw [nodeAt] at h
    rw [replaceAt, hnew, h]
  | cons branch path ih =>
    cases tree with
    | leaf value => cases h
    | split label left right =>
      have hl := fun a ha => hkeep a (mem_append_left _ ha)
      have hr := fun a ha => hkeep a (mem_append_right _ ha)
      cases branch with
      | left =>
        rw [replaceAt, prune, ih h hl, prune_eq_self hr]
        rfl
      | right =>
        rw [replaceAt, prune, ih h hr, prune_eq_self hl]
        rfl

end Positions

end SplitTree

end Unpeel
