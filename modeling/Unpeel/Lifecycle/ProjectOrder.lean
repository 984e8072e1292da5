import Unpeel.Foundation.Refill
import Unpeel.Lifecycle.IdentityTransfer

/-! # The order of the projects

One flat list holds the projects of every parent. A drag gives the projects of one parent
the places that they already have, in a new order.
-/
namespace Unpeel.Lifecycle
open Manifest Refill List
variable {shared fallbackAllIds siblingIds others : List Text}

def extendOrder (shared fallbackAllIds : List Text) : List Text :=
  fallbackAllIds.foldl (fun shared id => if shared.contains id then shared else shared ++ [id]) shared

/-- `merge_project_sibling_order`. -/
def mergeProjectSiblingOrder (shared siblingIds fallbackAllIds : List Text) : Except Text (List Text) :=
  let shared := extendOrder shared fallbackAllIds
  let siblingSet := fun id => siblingIds.contains id
  let slots := shared.zipIdx.filterMap fun entry => if siblingSet entry.1 then some entry.2 else none
  if slots.length ≠ siblingIds.length then .error "project sibling order does not match the current project list".toList
  else .ok ((slots.zip siblingIds).foldl (fun shared entry => shared.set entry.1 entry.2) shared)

/-- `project-order.json`, as the list that can be read from it, and how often a change was announced. -/
structure ProjectOrderFile where
  order : Option (List Text)
  announced : ℕ

/-- `write_project_order`: the file is replaced by the last of its steps. -/
def writeProjectOrder (faults : EditFaults) (ids : List Text) (file : ProjectOrderFile) : Except Text Unit × ProjectOrderFile :=
  match faults.write with
  | some error => (.error error,file)
  | none => (.ok (),{ file with order := some ids })

structure DragFaults extends EditFaults where
  unreadable : Bool

/-- Everything succeeds. -/
def DragFaults.none : DragFaults := ⟨⟨.none,.none⟩,false⟩

/-- An order that cannot be read is taken for a missing one. -/
def ProjectOrderFile.read (file : ProjectOrderFile) (faults : DragFaults) : Option (List Text) :=
  if faults.unreadable then none else file.order

/-- `set_project_sibling_order`. -/
def setProjectSiblingOrder (faults : DragFaults) (siblingIds fallbackAllIds : List Text) (file : ProjectOrderFile) :
    Except Text Unit × ProjectOrderFile :=
  if siblingIds = [] then (.ok (),file)
  else match faults.lock with
  | some error => (.error error,file)
  | none =>
    match mergeProjectSiblingOrder ((file.read faults).getD fallbackAllIds) siblingIds fallbackAllIds with
    | .error error => (.error error,file)
    | .ok shared =>
      match writeProjectOrder faults.toEditFaults shared file with
      | (.error error,file) => (.error error,file)
      | (.ok (),file) => (.ok (),{ file with announced := file.announced + 1 })

structure Reordered (stored siblingIds fallbackAllIds merged : List Text) : Prop where
  nodup : merged.Nodup
  perm : merged.Perm (stored ++ fallbackAllIds).dedup
  siblings : merged.filter (fun id => decide (id ∈ siblingIds)) = siblingIds
  others : ∀ (i : ℕ) id, stored[i]? = some id → id ∉ siblingIds → merged[i]? = some id

/-! ### The list with the fallback -/

theorem mem_extendOrder {id : Text} :
    id ∈ extendOrder shared fallbackAllIds ↔ id ∈ shared ∨ id ∈ fallbackAllIds := by
  unfold extendOrder
  induction fallbackAllIds generalizing shared with
  | nil => simp
  | cons first fallbackAllIds ih =>
    rw [foldl_cons, ih, mem_cons]
    split
    next h =>
      constructor
      · exact fun hid => hid.imp_right .inr
      · rintro (hid | rfl | hid)
        · exact .inl hid
        · exact .inl (contains_iff_mem.mp h)
        · exact .inr hid
    next => rw [mem_append, mem_singleton, or_assoc]

theorem nodup_extendOrder (h : shared.Nodup) (fallbackAllIds : List Text) : (extendOrder shared fallbackAllIds).Nodup := by
  unfold extendOrder
  induction fallbackAllIds generalizing shared with
  | nil => exact h
  | cons first fallbackAllIds ih =>
    rw [foldl_cons]
    apply ih
    split
    next => exact h
    next hnew =>
      refine nodup_append.mpr ⟨h,nodup_singleton _,fun a ha b hb hab => hnew (contains_iff_mem.mpr ?_)⟩
      rwa [← mem_singleton.mp hb, ← hab]

theorem exists_extendOrder (shared fallbackAllIds : List Text) : ∃ later, extendOrder shared fallbackAllIds = shared ++ later := by
  unfold extendOrder
  induction fallbackAllIds generalizing shared with
  | nil => exact ⟨[],(append_nil _).symm⟩
  | cons first fallbackAllIds ih =>
    rw [foldl_cons]
    split
    next => exact ih shared
    next =>
      obtain ⟨later,hlater⟩ := ih (shared ++ [first])
      exact ⟨first :: later,by rw [hlater, append_assoc]; rfl⟩

theorem extendOrder_eq_self (h : ∀ id ∈ fallbackAllIds, id ∈ shared) :
    extendOrder shared fallbackAllIds = shared := by
  unfold extendOrder
  induction fallbackAllIds with
  | nil => rfl
  | cons first fallbackAllIds ih =>
    rw [foldl_cons, if_pos (contains_iff_mem.mpr (h first mem_cons_self))]
    exact ih fun id hid => h id (mem_cons_of_mem _ hid)

theorem extendOrder_perm {stored : List Text} (h : stored.Nodup) (fallbackAllIds : List Text) :
    (extendOrder stored fallbackAllIds).Perm (stored ++ fallbackAllIds).dedup := by
  refine (perm_ext_iff_of_nodup (nodup_extendOrder h _) (nodup_dedup _)).mpr fun id => ?_
  rw [mem_extendOrder, mem_dedup, mem_append]

/-! ### One drag -/

theorem mergeProjectSiblingOrder_eq (shared siblingIds fallbackAllIds : List Text) :
    mergeProjectSiblingOrder shared siblingIds fallbackAllIds =
      if ((extendOrder shared fallbackAllIds).filter fun id => decide (id ∈ siblingIds)).length = siblingIds.length then
        .ok (refill (fun id => decide (id ∈ siblingIds)) (extendOrder shared fallbackAllIds) siblingIds)
      else .error "project sibling order does not match the current project list".toList := by
  have hlength := length_slotsFrom (p := fun id => decide (id ∈ siblingIds)) 0 (extendOrder shared fallbackAllIds)
  have hset := foldl_set_slotsFrom (p := fun id => decide (id ∈ siblingIds)) [] (extendOrder shared fallbackAllIds) siblingIds
  unfold mergeProjectSiblingOrder
  simp only [contains_eq_mem]
  rw [← hlength, ite_not]
  exact if_congr Iff.rfl (congrArg Except.ok hset) rfl

theorem length_filter_mem (h : shared.Nodup) (siblingIds : List Text) :
    (shared.filter fun id => decide (id ∈ siblingIds)).length = siblingIds.length ↔
      siblingIds.Nodup ∧ ∀ id ∈ siblingIds, id ∈ shared := by
  have hnodup : (shared.filter fun id => decide (id ∈ siblingIds)).Nodup := h.filter _
  have hsub : (shared.filter fun id => decide (id ∈ siblingIds)) ⊆ siblingIds := fun id hid =>
    of_decide_eq_true (mem_filter.mp hid).2
  constructor
  · intro hlength
    have hperm := (subperm_of_subset hnodup hsub).perm_of_length_le hlength.ge
    exact ⟨hperm.nodup_iff.mp hnodup,fun id hid => (mem_filter.mp (hperm.mem_iff.mpr hid)).1⟩
  · rintro ⟨hdistinct,hall⟩
    refine List.Perm.length_eq ((perm_ext_iff_of_nodup hnodup hdistinct).mpr fun id => ?_)
    rw [mem_filter, decide_eq_true_iff]
    exact and_iff_right_of_imp (hall id)

theorem mergeProjectSiblingOrder_isOk {stored : List Text} (h : stored.Nodup) (siblingIds fallbackAllIds : List Text) :
    (∃ merged, mergeProjectSiblingOrder stored siblingIds fallbackAllIds = .ok merged) ↔
      siblingIds.Nodup ∧ ∀ id ∈ siblingIds, id ∈ stored ∨ id ∈ fallbackAllIds := by
  have hiff := length_filter_mem (nodup_extendOrder h fallbackAllIds) siblingIds
  simp only [mem_extendOrder] at hiff
  rw [mergeProjectSiblingOrder_eq, ← hiff]
  split
  next hlength => exact ⟨fun _ => hlength,fun _ => ⟨_,rfl⟩⟩
  next hlength =>
    refine ⟨?_,fun heq => absurd heq hlength⟩
    rintro ⟨merged,hmerged⟩
    cases hmerged

variable {stored merged : List Text}

theorem mergeProjectSiblingOrder_ok (h : stored.Nodup)
    (hmerged : mergeProjectSiblingOrder stored siblingIds fallbackAllIds = .ok merged) :
    merged = refill (fun id => decide (id ∈ siblingIds)) (extendOrder stored fallbackAllIds) siblingIds ∧
      siblingIds.Perm ((extendOrder stored fallbackAllIds).filter fun id => decide (id ∈ siblingIds)) := by
  rw [mergeProjectSiblingOrder_eq] at hmerged
  split at hmerged
  next hlength =>
    refine ⟨(Except.ok.inj hmerged).symm,?_⟩
    have hnodup := (nodup_extendOrder h fallbackAllIds).filter fun id => decide (id ∈ siblingIds)
    have hsub : ((extendOrder stored fallbackAllIds).filter fun id => decide (id ∈ siblingIds)) ⊆ siblingIds := fun id hid =>
      of_decide_eq_true (mem_filter.mp hid).2
    exact ((subperm_of_subset hnodup hsub).perm_of_length_le hlength.ge).symm
  next => cases hmerged

theorem mergeProjectSiblingOrder_reordered (h : stored.Nodup)
    (hmerged : mergeProjectSiblingOrder stored siblingIds fallbackAllIds = .ok merged) :
    Reordered stored siblingIds fallbackAllIds merged := by
  obtain ⟨rfl,hsiblings⟩ := mergeProjectSiblingOrder_ok h hmerged
  have hin : ∀ id ∈ siblingIds, decide (id ∈ siblingIds) = true := fun id hid => decide_eq_true hid
  have hperm := perm_refill hin hsiblings
  refine ⟨hperm.nodup_iff.mpr (nodup_extendOrder h _),hperm.trans (extendOrder_perm h _),filter_refill hin hsiblings.length_eq,?_⟩
  intro i id hid hother
  obtain ⟨later,hlater⟩ := exists_extendOrder stored fallbackAllIds
  refine getElem?_refill (p := fun id => decide (id ∈ siblingIds)) ?_ (decide_eq_false hother) _
  rw [hlater, getElem?_append_left (List.getElem?_eq_some_iff.mp hid).1, hid]

/-! ### Two drags -/

theorem mergeProjectSiblingOrder_error {stored : List Text} (h : stored.Nodup)
    (hfail : ¬(siblingIds.Nodup ∧ ∀ id ∈ siblingIds, id ∈ stored ∨ id ∈ fallbackAllIds)) :
    mergeProjectSiblingOrder stored siblingIds fallbackAllIds =
      .error "project sibling order does not match the current project list".toList := by
  rw [← mergeProjectSiblingOrder_isOk h] at hfail
  rw [mergeProjectSiblingOrder_eq] at hfail ⊢
  split at hfail
  next => exact absurd ⟨_,rfl⟩ hfail
  next hlength => exact if_neg hlength

theorem Reordered.mem_iff {stored siblingIds fallbackAllIds merged : List Text} (h : Reordered stored siblingIds fallbackAllIds merged)
    {id : Text} : id ∈ merged ↔ id ∈ stored ∨ id ∈ fallbackAllIds := by
  rw [h.perm.mem_iff, mem_dedup, mem_append]

theorem Reordered.merge_again (h : Reordered stored siblingIds fallbackAllIds merged)
    (hothers : others.Nodup ∧ ∀ id ∈ others, id ∈ stored ∨ id ∈ fallbackAllIds) :
    mergeProjectSiblingOrder merged others fallbackAllIds = .ok (refill (fun id => decide (id ∈ others)) merged others) := by
  obtain ⟨again,hagain⟩ := (mergeProjectSiblingOrder_isOk h.nodup others fallbackAllIds).mpr
    ⟨hothers.1,fun id hid => .inl (h.mem_iff.mpr (hothers.2 id hid))⟩
  rw [hagain, (mergeProjectSiblingOrder_ok h.nodup hagain).1, extendOrder_eq_self fun id hid => h.mem_iff.mpr (.inr hid)]

theorem Reordered.merge_error (h : Reordered stored siblingIds fallbackAllIds merged)
    (hothers : ¬(others.Nodup ∧ ∀ id ∈ others, id ∈ stored ∨ id ∈ fallbackAllIds)) :
    mergeProjectSiblingOrder merged others fallbackAllIds =
      .error "project sibling order does not match the current project list".toList := by
  refine mergeProjectSiblingOrder_error h.nodup fun hall => hothers ⟨hall.1,fun id hid => ?_⟩
  exact (hall.2 id hid).elim h.mem_iff.mp .inr

/-- Two drags of different parents give the same list, and the same answer, in either order. -/
theorem mergeProjectSiblingOrder_comm {stored : List Text} (h : stored.Nodup)
    (hdisjoint : siblingIds.Disjoint others) (fallbackAllIds : List Text) :
    ((mergeProjectSiblingOrder stored siblingIds fallbackAllIds).bind fun shared =>
        mergeProjectSiblingOrder shared others fallbackAllIds) =
      (mergeProjectSiblingOrder stored others fallbackAllIds).bind fun shared =>
        mergeProjectSiblingOrder shared siblingIds fallbackAllIds := by
  by_cases hone : siblingIds.Nodup ∧ ∀ id ∈ siblingIds, id ∈ stored ∨ id ∈ fallbackAllIds
  · obtain ⟨merged,hmerged⟩ := (mergeProjectSiblingOrder_isOk h siblingIds fallbackAllIds).mpr hone
    have hreordered := mergeProjectSiblingOrder_reordered h hmerged
    rw [hmerged, Except.bind]
    by_cases htwo : others.Nodup ∧ ∀ id ∈ others, id ∈ stored ∨ id ∈ fallbackAllIds
    · obtain ⟨turned,hturned⟩ := (mergeProjectSiblingOrder_isOk h others fallbackAllIds).mpr htwo
      rw [hturned, Except.bind, hreordered.merge_again htwo, (mergeProjectSiblingOrder_reordered h hturned).merge_again hone]
      rw [(mergeProjectSiblingOrder_ok h hmerged).1, (mergeProjectSiblingOrder_ok h hturned).1]
      refine congrArg Except.ok (refill_comm _ (fun id hid => ?_) (fun id hid => ?_) fun id _ hboth => ?_)
      · exact ⟨decide_eq_true hid,decide_eq_false (hdisjoint hid)⟩
      · exact ⟨decide_eq_true hid,decide_eq_false fun hin => hdisjoint hin hid⟩
      · exact hdisjoint (of_decide_eq_true hboth.1) (of_decide_eq_true hboth.2)
    · rw [hreordered.merge_error htwo, mergeProjectSiblingOrder_error h htwo, Except.bind]
  · rw [mergeProjectSiblingOrder_error h hone, Except.bind]
    by_cases htwo : others.Nodup ∧ ∀ id ∈ others, id ∈ stored ∨ id ∈ fallbackAllIds
    · obtain ⟨turned,hturned⟩ := (mergeProjectSiblingOrder_isOk h others fallbackAllIds).mpr htwo
      rw [hturned, Except.bind, (mergeProjectSiblingOrder_reordered h hturned).merge_error hone]
    · rw [mergeProjectSiblingOrder_error h htwo, Except.bind]

/-! ### The file -/

/-- What a drag can do to the file. -/
theorem setProjectSiblingOrder_cases (faults : DragFaults) (siblingIds fallbackAllIds : List Text) (file : ProjectOrderFile) :
    (∃ error, setProjectSiblingOrder faults siblingIds fallbackAllIds file = (.error error,file)) ∨
      setProjectSiblingOrder faults siblingIds fallbackAllIds file = (.ok (),file) ∧ siblingIds = [] ∨
      ∃ merged, mergeProjectSiblingOrder ((file.read faults).getD fallbackAllIds) siblingIds fallbackAllIds = .ok merged ∧
        setProjectSiblingOrder faults siblingIds fallbackAllIds file = (.ok (),⟨some merged,file.announced + 1⟩) := by
  unfold setProjectSiblingOrder
  split
  next hnone => exact .inr (.inl ⟨rfl,hnone⟩)
  next =>
    split
    next error _ => exact .inl ⟨error,rfl⟩
    next =>
      split
      next error _ => exact .inl ⟨error,rfl⟩
      next merged hmerged =>
        unfold writeProjectOrder
        cases hwrite : faults.write with
        | some error => exact .inl ⟨error,rfl⟩
        | none => exact .inr (.inr ⟨merged,hmerged,rfl⟩)

theorem setProjectSiblingOrder_error {faults : DragFaults} {file : ProjectOrderFile} {error : Text}
    (h : (setProjectSiblingOrder faults siblingIds fallbackAllIds file).1 = .error error) :
    (setProjectSiblingOrder faults siblingIds fallbackAllIds file).2 = file := by
  rcases setProjectSiblingOrder_cases faults siblingIds fallbackAllIds file with ⟨e,he⟩ | ⟨hok,-⟩ | ⟨merged,-,hok⟩
  · rw [he]
  · rw [hok] at h
    cases h
  · rw [hok] at h
    cases h

theorem setProjectSiblingOrder_refused (file : ProjectOrderFile) {error : Text}
    (h : mergeProjectSiblingOrder (file.order.getD fallbackAllIds) siblingIds fallbackAllIds = .error error) :
    (setProjectSiblingOrder .none siblingIds fallbackAllIds file).2 = file := by
  rcases setProjectSiblingOrder_cases .none siblingIds fallbackAllIds file with ⟨e,he⟩ | ⟨hok,-⟩ | ⟨merged,hmerged,-⟩
  · rw [he]
  · rw [hok]
  · cases hmerged.symm.trans h

theorem setProjectSiblingOrder_accepted (file : ProjectOrderFile) {merged : List Text} (hne : siblingIds ≠ [])
    (h : mergeProjectSiblingOrder (file.order.getD fallbackAllIds) siblingIds fallbackAllIds = .ok merged) :
    (setProjectSiblingOrder .none siblingIds fallbackAllIds file).2 = ⟨some merged,file.announced + 1⟩ := by
  have hread : mergeProjectSiblingOrder ((file.read .none).getD fallbackAllIds) siblingIds fallbackAllIds = .ok merged := h
  rw [setProjectSiblingOrder, if_neg hne, hread]
  rfl

theorem setProjectSiblingOrder_nil (faults : DragFaults) (fallbackAllIds : List Text) (file : ProjectOrderFile) :
    (setProjectSiblingOrder faults [] fallbackAllIds file).2 = file := by
  rw [setProjectSiblingOrder, if_pos rfl]

/-- Whichever of two drags gets the lock first, the file ends the same. -/
theorem setProjectSiblingOrder_comm {file : ProjectOrderFile} {stored : List Text} (horder : file.order = some stored)
    (h : stored.Nodup) (hdisjoint : siblingIds.Disjoint others) (fallbackAllIds : List Text) :
    (setProjectSiblingOrder .none others fallbackAllIds
        (setProjectSiblingOrder .none siblingIds fallbackAllIds file).2).2 =
      (setProjectSiblingOrder .none siblingIds fallbackAllIds
        (setProjectSiblingOrder .none others fallbackAllIds file).2).2 := by
  by_cases hone : siblingIds = []
  · rw [hone, setProjectSiblingOrder_nil, setProjectSiblingOrder_nil]
  by_cases htwo : others = []
  · rw [htwo, setProjectSiblingOrder_nil, setProjectSiblingOrder_nil]
  have hcomm := mergeProjectSiblingOrder_comm h hdisjoint fallbackAllIds
  have hread : file.order.getD fallbackAllIds = stored := by rw [horder, Option.getD_some]
  cases hmerged : mergeProjectSiblingOrder stored siblingIds fallbackAllIds with
  | error error =>
    rw [setProjectSiblingOrder_refused file (hread.symm ▸ hmerged)]
    cases hturned : mergeProjectSiblingOrder stored others fallbackAllIds with
    | error failure =>
      rw [setProjectSiblingOrder_refused file (hread.symm ▸ hturned), setProjectSiblingOrder_refused file (hread.symm ▸ hmerged)]
    | ok turned =>
      rw [hmerged, hturned, Except.bind, Except.bind] at hcomm
      rw [setProjectSiblingOrder_accepted file htwo (hread.symm ▸ hturned),
        setProjectSiblingOrder_refused ⟨some turned,_⟩ hcomm.symm]
  | ok merged =>
    rw [setProjectSiblingOrder_accepted file hone (hread.symm ▸ hmerged)]
    cases hturned : mergeProjectSiblingOrder stored others fallbackAllIds with
    | error failure =>
      rw [hmerged, hturned, Except.bind, Except.bind] at hcomm
      rw [setProjectSiblingOrder_refused ⟨some merged,_⟩ hcomm, setProjectSiblingOrder_refused file (hread.symm ▸ hturned),
        setProjectSiblingOrder_accepted file hone (hread.symm ▸ hmerged)]
    | ok turned =>
      rw [hmerged, hturned, Except.bind, Except.bind] at hcomm
      have hagain := (mergeProjectSiblingOrder_reordered h hmerged).merge_again ((mergeProjectSiblingOrder_isOk h _ _).mp ⟨_,hturned⟩)
      rw [setProjectSiblingOrder_accepted file htwo (hread.symm ▸ hturned),
        setProjectSiblingOrder_accepted ⟨some merged,_⟩ htwo hagain,
        setProjectSiblingOrder_accepted ⟨some turned,_⟩ hone (hcomm.symm.trans hagain)]

theorem setProjectSiblingOrder_comm_four :
    (setProjectSiblingOrder .none [['d'],['c']] [] (setProjectSiblingOrder .none [['b'],['a']] []
        ⟨some [['a'],['b'],['c'],['d']],0⟩).2).2 =
      (setProjectSiblingOrder .none [['b'],['a']] [] (setProjectSiblingOrder .none [['d'],['c']] []
        ⟨some [['a'],['b'],['c'],['d']],0⟩).2).2 :=
  setProjectSiblingOrder_comm rfl (by decide) (by simp [List.Disjoint]) []

def dragged (file : ProjectOrderFile) (drags : List (DragFaults × List Text × List Text)) : ProjectOrderFile :=
  drags.foldl (fun file drag => (setProjectSiblingOrder drag.1 drag.2.1 drag.2.2 file).2) file

/-- Whatever is dragged, no project is lost or doubled while the order can be read. -/
theorem dragged_keeps {file : ProjectOrderFile} {stored : List Text} (horder : file.order = some stored) (h : stored.Nodup)
    {drags : List (DragFaults × List Text × List Text)} (hread : ∀ drag ∈ drags, drag.1.unreadable = false) :
    ∃ merged, (dragged file drags).order = some merged ∧ merged.Nodup ∧ stored ⊆ merged := by
  induction drags generalizing file stored with
  | nil => exact ⟨stored,horder,h,List.Subset.refl _⟩
  | cons drag drags ih =>
    obtain ⟨hfirst,hlater⟩ := forall_mem_cons.mp hread
    rcases setProjectSiblingOrder_cases drag.1 drag.2.1 drag.2.2 file with ⟨error,he⟩ | ⟨hok,-⟩ | ⟨merged,hmerged,hok⟩
    · rw [dragged, foldl_cons, he]
      exact ih horder h hlater
    · rw [dragged, foldl_cons, hok]
      exact ih horder h hlater
    · rw [ProjectOrderFile.read, hfirst, if_neg Bool.false_ne_true, horder, Option.getD_some] at hmerged
      have hreordered := mergeProjectSiblingOrder_reordered h hmerged
      rw [dragged, foldl_cons, hok]
      obtain ⟨final,hfinal,hnodup,hsub⟩ := @ih ⟨some merged,file.announced + 1⟩ merged rfl hreordered.nodup hlater
      exact ⟨final,hfinal,hnodup,fun id hid => hsub (hreordered.mem_iff.mpr (.inl hid))⟩

theorem dragged_keeps_three : ∃ merged,
    (dragged ⟨some [['a'],['b']],0⟩ [(.none,[['b'],['a']],[]),(⟨⟨none,some ['f','u','l','l']⟩,false⟩,[['a'],['b']],[]),
      (.none,[['c'],['a']],[['c']])]).order = some merged ∧
      merged.Nodup ∧ [['a'],['b']] ⊆ merged :=
  dragged_keeps rfl (by decide) (by simp [DragFaults.none])

/-- Of an order that cannot be read, only what the next drag brings is left. -/
example : (dragged ⟨some [['a'],['b']],0⟩ [(⟨⟨none,none⟩,true⟩,[['c']],[['c']])]).order = some [['c']] := by decide

/-- The law of a drag: when it is accepted, what it makes of the list, that drags of different
parents commute, and that a refused one leaves the file alone. -/
theorem project_sibling_reorder {stored : List Text} (hstored : stored.Nodup) (siblingIds fallbackAllIds : List Text) :
    ((∃ merged, mergeProjectSiblingOrder stored siblingIds fallbackAllIds = .ok merged) ↔
      siblingIds.Nodup ∧ ∀ id ∈ siblingIds, id ∈ stored ∨ id ∈ fallbackAllIds) ∧
    (∀ merged, mergeProjectSiblingOrder stored siblingIds fallbackAllIds = .ok merged →
      Reordered stored siblingIds fallbackAllIds merged) ∧
    (∀ others, siblingIds.Disjoint others →
      ((mergeProjectSiblingOrder stored siblingIds fallbackAllIds).bind fun shared =>
          mergeProjectSiblingOrder shared others fallbackAllIds) =
        (mergeProjectSiblingOrder stored others fallbackAllIds).bind fun shared =>
          mergeProjectSiblingOrder shared siblingIds fallbackAllIds) ∧
    ∀ faults file error, (setProjectSiblingOrder faults siblingIds fallbackAllIds file).1 = .error error →
      (setProjectSiblingOrder faults siblingIds fallbackAllIds file).2 = file := by
  refine ⟨mergeProjectSiblingOrder_isOk hstored _ _,fun merged hmerged => ?_,fun others hdisjoint => ?_,fun faults file error herror => ?_⟩
  · exact mergeProjectSiblingOrder_reordered hstored hmerged
  · exact mergeProjectSiblingOrder_comm hstored hdisjoint _
  · exact setProjectSiblingOrder_error herror

/-- Two of three projects are exchanged. -/
theorem project_sibling_reorder_three :
    Reordered ["a".toList,"b".toList,"c".toList] ["c".toList,"a".toList] ["d".toList]
      ["c".toList,"b".toList,"a".toList,"d".toList] := by
  have hstored : ["a".toList,"b".toList,"c".toList].Nodup := by decide
  exact (project_sibling_reorder hstored ["c".toList,"a".toList] ["d".toList]).2.1 _ (by decide)

end Unpeel.Lifecycle
