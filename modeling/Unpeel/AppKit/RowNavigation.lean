import Mathlib.Algebra.Order.BigOperators.Group.List
import Mathlib.Algebra.Order.Ring.Nat
import Unpeel.Foundation.IndexSearch

/-! # Focus navigation and viewport of row collections

A collection shows its items from an item on, each in one or more terminal rows. The selection
and the offset are indexes of items; paging and revealing count rows. Counts and rows stay below
`2^64`, where the saturating additions of the source are additions.
-/
namespace Unpeel.AppKit.RowNavigation
open IndexSearch List

inductive ListPageBehavior
  | selection
  | scroll
deriving DecidableEq

inductive RowBoundaryBehavior
  | clamp
  | wrap
deriving DecidableEq

inductive ListNavigationAction
  | down
  | up
  | first
  | last
  | pageDown
  | pageUp
  | activate
  | back
deriving DecidableEq

inductive ListNavigationOutcome
  | none
  | selectionChanged (index : ℕ)
  | scrolled (offset : ℕ)
  | activate (index : ℕ)
  | back
deriving DecidableEq

structure RowMetrics where
  height : ℕ
  selectable : Bool
deriving DecidableEq

/-- `heights` is empty where every item is one row, `selectable` where every item is selectable;
`starts` holds the first row of each item, and the total. -/
structure RowNavigationState where
  selected : Option ℕ
  offset : ℕ
  viewportRows : ℕ
  scrollPadding : ℕ
  pageOverlap : ℕ
  pageBehavior : ListPageBehavior
  boundaryBehavior : RowBoundaryBehavior
  revealSelected : Bool
  heights : List ℕ
  selectable : List Bool
  starts : List ℕ
deriving DecidableEq

namespace RowNavigationState
variable {itemCount current : ℕ} {action : ListNavigationAction}
variable {index : ℕ}

def new (selected : Option ℕ) : RowNavigationState :=
  ⟨selected,0,0,0,1,.selection,.clamp,true,[],[],[]⟩

variable (s : RowNavigationState)

def isSelectable (index : ℕ) : Bool := s.selectable.getD index true

def snapSelectable (start itemCount : ℕ) : Option ℕ :=
  if itemCount = 0 then none
  else
    let start := min start (itemCount - 1)
    (firstFrom s.isSelectable start itemCount).or (lastBelow s.isSelectable start)

def nextSelectable (start itemCount : ℕ) : Option ℕ := firstFrom s.isSelectable (start + 1) itemCount

def previousSelectable (start : ℕ) : Option ℕ := lastBelow s.isSelectable start

def itemHeight (index : ℕ) : ℕ := s.heights.getD index 1

def itemStartRow (index : ℕ) : ℕ :=
  if s.heights = [] then index else s.starts.getD (min index s.heights.length) 0

def offsetRow : ℕ := s.itemStartRow s.offset

/-- The loop of `visible_item_count`, over the heights of the items from the offset on. -/
def fitting (viewportRows used : ℕ) : List ℕ → ℕ
  | [] => 0
  | height :: heights => if viewportRows < used + height then 0 else fitting viewportRows (used + height) heights + 1

def visibleItemCount (itemCount : ℕ) : ℕ :=
  if s.heights = [] then min s.viewportRows (itemCount - s.offset)
  else fitting s.viewportRows 0
    ((List.range' s.offset (min itemCount s.heights.length - s.offset)).map s.itemHeight)

def itemAtRow (row : ℕ) : ℕ :=
  if s.heights = [] then row
  else partitionPoint (fun start => start ≤ row) (s.starts.take s.heights.length) - 1

def itemStartingAtOrAfter (row : ℕ) : ℕ :=
  if s.heights = [] then row else partitionPoint (fun start => start < row) (s.starts.take s.heights.length)

def setNavigation (scrollPadding pageOverlap : ℕ) (pageBehavior : ListPageBehavior) : RowNavigationState :=
  { s with scrollPadding := scrollPadding, pageOverlap := pageOverlap, pageBehavior := pageBehavior }

def setBoundaryBehavior (behavior : RowBoundaryBehavior) : RowNavigationState :=
  { s with boundaryBehavior := behavior }

def select (selected : Option ℕ) (itemCount : ℕ) : RowNavigationState × Bool :=
  let next := if itemCount = 0 then none else selected.bind fun index => s.snapSelectable index itemCount
  ({ s with selected := next, revealSelected := s.revealSelected || decide (next ≠ s.selected) },
    decide (next ≠ s.selected))

def maxOffset (itemCount : ℕ) : ℕ :=
  if s.heights = [] then itemCount - s.viewportRows
  else
    let itemCount := min itemCount s.heights.length
    let firstRow := s.starts.getD itemCount 0 - s.viewportRows
    partitionPoint (fun start => start < firstRow) (s.starts.take itemCount)

def setOffset (offset itemCount : ℕ) : RowNavigationState :=
  { s with offset := min offset (s.maxOffset itemCount), revealSelected := false }

def scrollBy (delta : ℤ) (itemCount : ℕ) : RowNavigationState × Bool :=
  let next := min ((s.offset : ℤ) + delta).toNat (s.maxOffset itemCount)
  ({ s with offset := next, revealSelected := false },decide (next ≠ s.offset))

/-- The rows of padding that `reveal` keeps. -/
def padding : ℕ := min s.scrollPadding ((s.viewportRows - 1) / 2)

/-- Where `reveal` moves the offset to, before its last bound. -/
def revealedOffset (selected : ℕ) : ℕ :=
  let selectedStart := s.itemStartRow selected
  let selectedEnd := selectedStart + s.itemHeight selected
  if selectedStart < s.offsetRow + s.padding then s.itemAtRow (selectedStart - s.padding)
  else if s.offsetRow + (s.viewportRows - s.padding) < selectedEnd then
    min (s.itemStartingAtOrAfter (selectedEnd + s.padding - s.viewportRows)) selected
  else s.offset

def reveal (itemCount : ℕ) : RowNavigationState :=
  match s.selected with
  | none => { s with offset := min s.offset (s.maxOffset itemCount), revealSelected := false }
  | some selected =>
    if s.viewportRows = 0 then { s with offset := 0 }
    else { s with offset := min (s.revealedOffset selected) (s.maxOffset itemCount), revealSelected := false }

def page (itemCount : ℕ) : ℕ :=
  max ((if s.heights = [] then s.viewportRows else s.visibleItemCount itemCount) - s.pageOverlap) 1

/-- The item a movement from the item `current` goes to, before its last bound. -/
def next (action : ListNavigationAction) (itemCount current : ℕ) : ℕ :=
  let wrap := s.boundaryBehavior = .wrap
  let first := (s.snapSelectable 0 itemCount).getD current
  let last := (s.previousSelectable itemCount).getD current
  match action with
  | .down => (s.nextSelectable current itemCount).getD (if wrap then first else current)
  | .up => (s.previousSelectable current).getD (if wrap then last else current)
  | .first => first
  | .last => last
  | .pageDown =>
    let target := min (current + s.page itemCount) (itemCount - 1)
    ((firstFrom s.isSelectable target itemCount).or (s.previousSelectable (target + 1))).getD current
  | .pageUp =>
    let target := current - s.page itemCount
    ((lastBelow s.isSelectable (target + 1)).or (s.nextSelectable (target - 1) itemCount)).getD current
  | .activate | .back => current

def Scrolls (action : ListNavigationAction) : Prop :=
  s.pageBehavior = .scroll ∧ (action = .pageDown ∨ action = .pageUp)

instance (action : ListNavigationAction) : Decidable (s.Scrolls action) := inferInstanceAs (Decidable (_ ∧ _))

/-- The tail of `navigate`: select and reveal. -/
def moveTo (next itemCount : ℕ) : RowNavigationState × ListNavigationOutcome :=
  let (t,changed) := s.select (some next) itemCount
  (t.reveal itemCount,if changed then .selectionChanged next else .none)

def navigate (action : ListNavigationAction) (itemCount : ℕ) : RowNavigationState × ListNavigationOutcome :=
  if action = .back then (s,.back)
  else if itemCount = 0 then ({ s with selected := none, offset := 0 },.none)
  else
    match s.snapSelectable (s.selected.getD 0) itemCount with
    | none => ({ s with selected := none },.none)
    | some current =>
      if action = .activate then ({ s with selected := some current },.activate current)
      else if s.Scrolls action then
        let delta : ℤ := if action = .pageDown then s.page itemCount else -s.page itemCount
        let (t,changed) := s.scrollBy delta itemCount
        (t,if changed then .scrolled t.offset else .none)
      else s.moveTo (min (s.next action itemCount current) (itemCount - 1)) itemCount

def prepareCommon (height itemCount : ℕ) : RowNavigationState :=
  let s := { s with viewportRows := height }
  if itemCount = 0 then { s with selected := none, offset := 0, revealSelected := false }
  else
    let s := { s with selected := s.selected.bind fun selected => s.snapSelectable selected itemCount }
    let s := { s with offset := min s.offset (s.maxOffset itemCount) }
    if s.revealSelected then s.reveal itemCount else s

def prepare (height itemCount : ℕ) : RowNavigationState :=
  { s with heights := [], starts := [], selectable := [] }.prepareCommon height itemCount

/-- The loop that fills `starts`. -/
def startsFrom (total : ℕ) : List ℕ → List ℕ
  | [] => [total]
  | height :: heights => total :: startsFrom (total + height) heights

def prepareWithHeightsAndSelectable (height : ℕ) (heights : List ℕ) : RowNavigationState :=
  let heights := heights.map fun height => max height 1
  { s with heights := heights, starts := startsFrom 0 heights }.prepareCommon height heights.length

def prepareWithHeights (height : ℕ) (heights : List ℕ) : RowNavigationState :=
  { s with selectable := [] }.prepareWithHeightsAndSelectable height heights

def prepareWithRows (height : ℕ) (rows : List RowMetrics) : RowNavigationState :=
  { s with selectable := rows.map RowMetrics.selectable }.prepareWithHeightsAndSelectable height (rows.map RowMetrics.height)

theorem startsFrom_getElem? {total : ℕ} {heights : List ℕ} {i : ℕ} (hi : i ≤ heights.length) :
    (startsFrom total heights)[i]? = some (total + (heights.take i).sum) := by
  induction heights generalizing total i with
  | nil =>
    obtain rfl : i = 0 := Nat.le_zero.mp hi
    simp [startsFrom]
  | cons height heights ih =>
    cases i with
    | zero => simp [startsFrom]
    | succ i =>
      rw [startsFrom, getElem?_cons_succ, ih (Nat.le_of_succ_le_succ hi), take_succ_cons, sum_cons, add_assoc]

@[simp] theorem length_startsFrom (total : ℕ) (heights : List ℕ) :
    (startsFrom total heights).length = heights.length + 1 := by
  induction heights generalizing total with
  | nil => rfl
  | cons height heights ih => rw [startsFrom, length_cons, ih, length_cons]

structure Wf : Prop where
  starts : s.heights ≠ [] → s.starts = startsFrom 0 s.heights
  pos : ∀ height ∈ s.heights, 1 ≤ height

def Known (index : ℕ) : Prop := s.heights = [] ∨ index < s.heights.length

instance (index : ℕ) : Decidable (s.Known index) := inferInstanceAs (Decidable (_ ∨ _))

variable {s}

namespace Wf
variable {i : ℕ}

theorem itemStartRow_eq (h : s.Wf) (hne : s.heights ≠ []) (i : ℕ) :
    s.itemStartRow i = (s.heights.take i).sum := by
  have hlookup : (startsFrom 0 s.heights)[min i s.heights.length]? = some (0 + (s.heights.take (min i s.heights.length)).sum) :=
    startsFrom_getElem? (min_le_right _ _)
  rw [itemStartRow, if_neg hne, h.starts hne, getD_eq_getElem?_getD, hlookup, Option.getD_some, zero_add,
    ← take_eq_take_min]

theorem one_le_itemHeight (h : s.Wf) (i : ℕ) : 1 ≤ s.itemHeight i := by
  rw [itemHeight, getD_eq_getElem?_getD]
  rcases hi : s.heights[i]? with _ | height
  · exact le_rfl
  · exact h.pos height (mem_of_getElem? hi)

theorem itemStartRow_succ (h : s.Wf) {i : ℕ} (hi : s.Known i) :
    s.itemStartRow (i + 1) = s.itemStartRow i + s.itemHeight i := by
  by_cases hne : s.heights = []
  · simp [itemStartRow, itemHeight, hne]
  · have hlt : i < s.heights.length := hi.resolve_left hne
    rw [h.itemStartRow_eq hne, h.itemStartRow_eq hne, sum_take_succ s.heights i hlt, itemHeight,
      getD_eq_getElem?_getD, getElem?_eq_getElem hlt, Option.getD_some]

theorem itemStartRow_le_succ (h : s.Wf) (i : ℕ) : s.itemStartRow i ≤ s.itemStartRow (i + 1) := by
  by_cases hi : s.Known i
  · rw [h.itemStartRow_succ hi]
    exact Nat.le_add_right _ _
  · obtain ⟨hne,hge⟩ := not_or.mp hi
    rw [h.itemStartRow_eq hne, h.itemStartRow_eq hne, take_of_length_le (not_lt.mp hge),
      take_of_length_le ((not_lt.mp hge).trans (Nat.le_succ i))]

theorem itemStartRow_mono (h : s.Wf) {j : ℕ} (hij : i ≤ j) : s.itemStartRow i ≤ s.itemStartRow j :=
  monotone_nat_of_le_succ h.itemStartRow_le_succ hij

theorem itemEnd_le (h : s.Wf) {j : ℕ} (hi : s.Known i) (hij : i < j) :
    s.itemStartRow i + s.itemHeight i ≤ s.itemStartRow j := by
  rw [← h.itemStartRow_succ hi]
  exact h.itemStartRow_mono hij

theorem le_of_itemStartRow_le (h : s.Wf) {j : ℕ} (hj : s.Known j) (hij : s.itemStartRow i ≤ s.itemStartRow j) : i ≤ j := by
  by_contra hlt
  have hend := h.itemEnd_le hj (not_le.mp hlt)
  have hone := h.one_le_itemHeight j
  omega

theorem starts_getElem? (h : s.Wf) (hne : s.heights ≠ []) (hi : i ≤ s.heights.length) :
    s.starts[i]? = some (s.itemStartRow i) := by
  rw [h.itemStartRow_eq hne, h.starts hne, startsFrom_getElem? hi, zero_add]

theorem take_starts_getElem? (h : s.Wf) (hne : s.heights ≠ []) {count : ℕ} (hi : i < count) (hcount : count ≤ s.heights.length) :
    (s.starts.take count)[i]? = some (s.itemStartRow i) := by
  rw [getElem?_take_of_lt hi, h.starts_getElem? hne (hi.le.trans hcount)]

theorem length_take_starts (h : s.Wf) (hne : s.heights ≠ []) {count : ℕ} (hcount : count ≤ s.heights.length) :
    (s.starts.take count).length = count := by
  rw [length_take, h.starts hne, length_startsFrom]
  omega

theorem itemStartRow_itemAtRow_le (h : s.Wf) (row : ℕ) : s.itemStartRow (s.itemAtRow row) ≤ row := by
  by_cases hne : s.heights = []
  · simp [itemStartRow, itemAtRow, hne]
  · have hlen := h.length_take_starts hne le_rfl
    rw [itemAtRow, if_neg hne]
    set point := partitionPoint (fun start => start ≤ row) (s.starts.take s.heights.length) with hpoint
    have hle : point ≤ s.heights.length := partitionPoint_le.trans_eq hlen
    rcases Nat.eq_zero_or_pos point with hzero | hpos
    · rw [hzero, h.itemStartRow_eq hne]
      exact Nat.zero_le _
    · have hlt : point - 1 < point := Nat.sub_lt hpos Nat.one_pos
      have hstart := of_lt_partitionPoint (hpoint ▸ hlt) (h.take_starts_getElem? hne (by omega) le_rfl)
      exact of_decide_eq_true hstart

theorem le_itemAtRow (h : s.Wf) {row : ℕ} (hk : s.Known i) (hrow : s.itemStartRow i ≤ row) : i ≤ s.itemAtRow row := by
  by_cases hne : s.heights = []
  · simpa [itemStartRow, itemAtRow, hne] using hrow
  · have hlt := hk.resolve_left hne
    rw [itemAtRow, if_neg hne]
    set point := partitionPoint (fun start => start ≤ row) (s.starts.take s.heights.length) with hpoint
    by_contra hgt
    -- the search stopped at an item that starts no later
    have hstop := not_of_partitionPoint (hpoint ▸ h.take_starts_getElem? hne (show point < s.heights.length by omega) le_rfl)
    have hlater := h.itemStartRow_mono (show point ≤ i by omega)
    exact of_decide_eq_false hstop (hlater.trans hrow)

theorem le_itemStartRow_itemStartingAtOrAfter (h : s.Wf) {row : ℕ} (hk : s.Known (s.itemStartingAtOrAfter row)) :
    row ≤ s.itemStartRow (s.itemStartingAtOrAfter row) := by
  by_cases hne : s.heights = []
  · simp [itemStartRow, itemStartingAtOrAfter, hne]
  · have hlt := hk.resolve_left hne
    rw [itemStartingAtOrAfter, if_neg hne] at hlt ⊢
    have hstop := not_of_partitionPoint (h.take_starts_getElem? hne hlt le_rfl)
    exact not_lt.mp (of_decide_eq_false hstop)

theorem itemStartRow_min (h : s.Wf) (hne : s.heights ≠ []) (i : ℕ) :
    s.itemStartRow (min i s.heights.length) = s.itemStartRow i := by
  rw [h.itemStartRow_eq hne, h.itemStartRow_eq hne, ← take_eq_take_min]

theorem maxOffset_eq (h : s.Wf) (hne : s.heights ≠ []) (itemCount : ℕ) :
    s.maxOffset itemCount = partitionPoint (fun start => start < s.itemStartRow itemCount - s.viewportRows)
      (s.starts.take (min itemCount s.heights.length)) := by
  have htotal : s.starts.getD (min itemCount s.heights.length) 0 = s.itemStartRow itemCount := by
    rw [getD_eq_getElem?_getD, h.starts_getElem? hne (min_le_right _ _), Option.getD_some, h.itemStartRow_min hne]
  rw [maxOffset, if_neg hne]
  simp only [htotal]

theorem maxOffset_le_min (h : s.Wf) (hne : s.heights ≠ []) (itemCount : ℕ) :
    s.maxOffset itemCount ≤ min itemCount s.heights.length := by
  rw [h.maxOffset_eq hne]
  exact partitionPoint_le.trans_eq (h.length_take_starts hne (min_le_right _ _))

theorem itemStartRow_le_maxOffset (h : s.Wf) (itemCount : ℕ) :
    s.itemStartRow itemCount ≤ s.itemStartRow (s.maxOffset itemCount) + s.viewportRows := by
  by_cases hne : s.heights = []
  · simp only [itemStartRow, maxOffset, if_pos hne]
    omega
  · rcases Nat.eq_or_lt_of_le (h.maxOffset_le_min hne itemCount) with heq | hlt
    · rw [heq, h.itemStartRow_min hne]
      exact Nat.le_add_right _ _
    · have hlookup := h.take_starts_getElem? hne hlt (min_le_right _ _)
      rw [h.maxOffset_eq hne] at hlookup
      have hge := not_lt.mp (of_decide_eq_false (not_of_partitionPoint hlookup))
      rw [h.maxOffset_eq hne]
      omega

theorem maxOffset_lt (h : s.Wf) (hne : s.heights ≠ []) {itemCount : ℕ} (hpos : 0 < min itemCount s.heights.length)
    (hfits : s.itemHeight (min itemCount s.heights.length - 1) ≤ s.viewportRows) :
    s.maxOffset itemCount < min itemCount s.heights.length := by
  have hcount := min_le_right itemCount s.heights.length
  have hlast := Nat.sub_lt hpos Nat.one_pos
  by_contra hge
  rw [h.maxOffset_eq hne] at hge
  have hbelow := of_decide_eq_true (of_lt_partitionPoint (Nat.lt_of_lt_of_le hlast (not_lt.mp hge))
    (h.take_starts_getElem? hne hlast hcount))
  have hsucc := h.itemStartRow_succ (i := min itemCount s.heights.length - 1) (Or.inr (by omega))
  rw [Nat.sub_add_cancel hpos, h.itemStartRow_min hne] at hsucc
  omega

end Wf

/-! ## Selection -/

theorem snapSelectable_spec {start itemCount j : ℕ} (h : s.snapSelectable start itemCount = some j) :
    s.isSelectable j = true ∧ j < itemCount := by
  rw [snapSelectable] at h
  split_ifs at h with hzero
  simp only [Option.or_eq_some_iff] at h
  rcases h with hfound | ⟨-,hfound⟩
  · obtain ⟨hsel,hrange,-⟩ := firstFrom_eq_some.mp hfound
    exact ⟨hsel,hrange.2⟩
  · obtain ⟨hsel,hlt,-⟩ := lastBelow_eq_some.mp hfound
    exact ⟨hsel,by omega⟩

theorem snapSelectable_self {i : ℕ} (hsel : s.isSelectable i = true) (hi : i < itemCount) :
    s.snapSelectable i itemCount = some i := by
  have hfirst : firstFrom s.isSelectable i itemCount = some i :=
    firstFrom_eq_some.mpr ⟨hsel,⟨le_rfl,hi⟩,fun j hlow hhigh => absurd hlow (by omega)⟩
  have hmin : min i (itemCount - 1) = i := by omega
  simp only [snapSelectable, if_neg (show itemCount ≠ 0 by omega), hmin, hfirst, Option.some_or]

theorem snapSelectable_zero_le {j i : ℕ} (h : s.snapSelectable 0 itemCount = some j) (hsel : s.isSelectable i = true) :
    j ≤ i := by
  rw [snapSelectable] at h
  split_ifs at h with hzero
  simp only [Nat.zero_min, Option.or_eq_some_iff, lastBelow, reduceCtorEq, and_false, or_false] at h
  obtain ⟨-,-,hmin⟩ := firstFrom_eq_some.mp h
  by_contra hlt
  rw [hmin i (Nat.zero_le i) (not_le.mp hlt)] at hsel
  cases hsel

theorem getD_of {P : ℕ → Prop} {found : Option ℕ} {d : ℕ} (hfound : ∀ j, found = some j → P j) (hd : P d) : P (found.getD d) := by
  cases found with
  | none => exact hd
  | some j => exact hfound j rfl

/-- From a selectable item, every movement ends at one. -/
theorem next_selectable (hsel : s.isSelectable current = true) (hlt : current < itemCount) :
    s.isSelectable (s.next action itemCount current) = true ∧ s.next action itemCount current < itemCount := by
  have hcur : s.isSelectable current = true ∧ current < itemCount := ⟨hsel,hlt⟩
  have hfirstFrom : ∀ start j, firstFrom s.isSelectable start itemCount = some j → s.isSelectable j = true ∧ j < itemCount :=
    fun start j h => ⟨(firstFrom_eq_some.mp h).1,(firstFrom_eq_some.mp h).2.1.2⟩
  have hlastBelow : ∀ stop j, stop ≤ itemCount → lastBelow s.isSelectable stop = some j → s.isSelectable j = true ∧ j < itemCount :=
    fun stop j hle h => ⟨(lastBelow_eq_some.mp h).1,(lastBelow_eq_some.mp h).2.1.trans_le hle⟩
  have hfirst : ∀ j, s.snapSelectable 0 itemCount = some j → s.isSelectable j = true ∧ j < itemCount :=
    fun j h => snapSelectable_spec h
  cases action with
  | down =>
    refine getD_of (P := fun j => s.isSelectable j = true ∧ j < itemCount) (hfirstFrom _) ?_
    split_ifs
    · exact getD_of (P := fun j => s.isSelectable j = true ∧ j < itemCount) hfirst hcur
    · exact hcur
  | up =>
    refine getD_of (P := fun j => s.isSelectable j = true ∧ j < itemCount) (fun j h => hlastBelow _ j hlt.le h) ?_
    split_ifs
    · exact getD_of (P := fun j => s.isSelectable j = true ∧ j < itemCount) (fun j h => hlastBelow _ j le_rfl h) hcur
    · exact hcur
  | first => exact getD_of (P := fun j => s.isSelectable j = true ∧ j < itemCount) hfirst hcur
  | last => exact getD_of (P := fun j => s.isSelectable j = true ∧ j < itemCount) (fun j h => hlastBelow _ j le_rfl h) hcur
  | pageDown =>
    refine getD_of (P := fun j => s.isSelectable j = true ∧ j < itemCount) (fun j h => ?_) hcur
    rcases Option.or_eq_some_iff.mp h with hfound | ⟨-,hfound⟩
    · exact hfirstFrom _ j hfound
    · exact hlastBelow _ j (by omega) hfound
  | pageUp =>
    refine getD_of (P := fun j => s.isSelectable j = true ∧ j < itemCount) (fun j h => ?_) hcur
    rcases Option.or_eq_some_iff.mp h with hfound | ⟨-,hfound⟩
    · exact hlastBelow _ j (by omega) hfound
    · exact hfirstFrom _ j hfound
  | activate | back => exact hcur

/-- Down, PageDown and Last do not go back, unless Down wraps. -/
theorem le_next (hsel : s.isSelectable current = true)
    (hlt : current < itemCount) (haction : action = .last ∨ action = .pageDown ∨
      action = .down ∧ (s.boundaryBehavior = .clamp ∨ (s.nextSelectable current itemCount).isSome)) :
    current ≤ s.next action itemCount current := by
  have hbelow : ∀ stop j, current < stop → lastBelow s.isSelectable stop = some j → current ≤ j := by
    intro stop j hstop h
    obtain ⟨-,-,hmax⟩ := lastBelow_eq_some.mp h
    by_contra hgt
    rw [hmax current (not_le.mp hgt) hstop] at hsel
    cases hsel
  rcases haction with rfl | rfl | ⟨rfl,hwrap⟩ <;> simp only [next]
  · exact getD_of (P := fun j => current ≤ j) (fun j h => hbelow _ j hlt h) le_rfl
  · refine getD_of (P := fun j => current ≤ j) (fun j h => ?_) le_rfl
    rcases Option.or_eq_some_iff.mp h with hfound | ⟨-,hfound⟩
    · have hrange := (firstFrom_eq_some.mp hfound).2.1.1
      omega
    · exact hbelow _ j (by omega) hfound
  · rcases hnext : s.nextSelectable current itemCount with _ | j
    · have hclamp : s.boundaryBehavior = .clamp := by simpa [hnext] using hwrap
      rw [hclamp, if_neg (by decide)]
      exact le_rfl
    · have hrange := (firstFrom_eq_some.mp hnext).2.1.1
      exact (Nat.le_succ current).trans hrange

/-- Up, PageUp and First do not go on, unless Up wraps. -/
theorem next_le (hsel : s.isSelectable current = true) (haction : action = .first ∨ action = .pageUp ∨
      action = .up ∧ (s.boundaryBehavior = .clamp ∨ (s.previousSelectable current).isSome)) :
    s.next action itemCount current ≤ current := by
  rcases haction with rfl | rfl | ⟨rfl,hwrap⟩ <;> simp only [next]
  · exact getD_of (P := fun j => j ≤ current) (fun j h => snapSelectable_zero_le h hsel) le_rfl
  · refine getD_of (P := fun j => j ≤ current) (fun j h => ?_) le_rfl
    rcases Option.or_eq_some_iff.mp h with hfound | ⟨hnone,hfound⟩
    · have hrange := (lastBelow_eq_some.mp hfound).2.1
      omega
    · -- the item itself is selectable, so the page went past it
      have hpast : current - s.page itemCount < current := by
        by_contra hge
        rw [lastBelow_eq_none.mp hnone current (by omega)] at hsel
        cases hsel
      obtain ⟨-,-,hmin⟩ := firstFrom_eq_some.mp hfound
      by_contra hgt
      rw [hmin current (by omega) (not_le.mp hgt)] at hsel
      cases hsel
  · rcases hprev : s.previousSelectable current with _ | j
    · have hclamp : s.boundaryBehavior = .clamp := by simpa [hprev] using hwrap
      rw [hclamp, if_neg (by decide)]
      exact le_rfl
    · exact (lastBelow_eq_some.mp hprev).2.1.le

/-! ## Revealing -/

def ShowsFrom (s : RowNavigationState) (offset index : ℕ) : Prop :=
  s.itemStartRow offset ≤ s.itemStartRow index ∧
    s.itemStartRow index + s.itemHeight index ≤ s.itemStartRow offset + s.viewportRows

instance (s : RowNavigationState) (offset index : ℕ) : Decidable (s.ShowsFrom offset index) := inferInstanceAs (Decidable (_ ∧ _))

def PaddingFits (s : RowNavigationState) (index : ℕ) : Prop :=
  s.itemStartRow index + s.itemHeight index ≤
    s.itemStartRow (s.itemAtRow (s.itemStartRow index - s.padding)) + s.viewportRows

instance (s : RowNavigationState) (index : ℕ) : Decidable (s.PaddingFits index) := inferInstanceAs (Decidable (_ ≤ _))

namespace Wf

theorem itemStartRow_of_ones (h : s.Wf) (hone : ∀ height ∈ s.heights, height = 1) (hk : s.Known index) :
    s.itemStartRow index = index := by
  by_cases hne : s.heights = []
  · rw [itemStartRow, if_pos hne]
  · have hlt := hk.resolve_left hne
    rw [h.itemStartRow_eq hne, eq_replicate_of_mem hone, take_replicate, sum_replicate_nat]
    omega

/-- The padding fits where there is none, and where every item is one row. -/
theorem paddingFits (h : s.Wf) (hk : s.Known index) (hfits : s.itemHeight index ≤ s.viewportRows)
    (hplain : s.padding = 0 ∨ ∀ height ∈ s.heights, height = 1) : s.PaddingFits index := by
  obtain ⟨first,hle,hstart,hroom⟩ : ∃ first ≤ index, s.itemStartRow first = s.itemStartRow index - s.padding ∧
      s.itemHeight index + s.padding ≤ s.viewportRows := by
    rcases hplain with hnone | hone
    · exact ⟨index,le_rfl,by rw [hnone, Nat.sub_zero],by rwa [hnone]⟩
    · have hheight : s.itemHeight index = 1 := by
        rw [itemHeight, getD_eq_getElem?_getD]
        rcases hi : s.heights[index]? with _ | height
        · rfl
        · exact hone height (mem_of_getElem? hi)
      have hhalf : s.padding ≤ (s.viewportRows - 1) / 2 := min_le_right _ _
      have hk' : s.Known (index - s.padding) := hk.imp_right (Nat.sub_le _ _).trans_lt
      refine ⟨index - s.padding,Nat.sub_le _ _,?_,by omega⟩
      rw [h.itemStartRow_of_ones hone hk, h.itemStartRow_of_ones hone hk']
  have hmono := h.itemStartRow_mono (h.le_itemAtRow (hk.imp_right hle.trans_lt) hstart.le)
  rw [PaddingFits]
  omega

theorem revealedOffset_le (h : s.Wf) {selected : ℕ} (hk : s.Known selected) : s.revealedOffset selected ≤ selected := by
  simp only [revealedOffset]
  split_ifs with habove hbelow
  · exact h.le_of_itemStartRow_le hk ((h.itemStartRow_itemAtRow_le _).trans (Nat.sub_le _ _))
  · exact min_le_right _ _
  · exact h.le_of_itemStartRow_le hk ((Nat.le_add_right _ _).trans (not_lt.mp habove))

theorem showsFrom_revealedOffset (h : s.Wf) {selected : ℕ} (hk : s.Known selected)
    (hfits : s.itemHeight selected ≤ s.viewportRows)
    (hpad : s.offsetRow + s.padding ≤ s.itemStartRow selected ∨ s.PaddingFits selected) :
    s.ShowsFrom (s.revealedOffset selected) selected := by
  refine ⟨h.itemStartRow_mono (h.revealedOffset_le hk),?_⟩
  simp only [revealedOffset]
  split_ifs with habove hbelow
  · exact hpad.resolve_left (not_le.mpr habove)
  · set first := s.itemStartingAtOrAfter (s.itemStartRow selected + s.itemHeight selected + s.padding - s.viewportRows)
    rcases le_total first selected with hle | hge
    · have hknown : s.Known first := hk.imp_right hle.trans_lt
      have hstart : s.itemStartRow selected + s.itemHeight selected + s.padding - s.viewportRows ≤ s.itemStartRow first :=
        h.le_itemStartRow_itemStartingAtOrAfter hknown
      rw [min_eq_left hle]
      omega
    · rw [min_eq_right hge]
      exact Nat.add_le_add_left hfits _
  · rw [offsetRow] at hbelow
    omega

theorem showsFrom_min_maxOffset (h : s.Wf) {offset index itemCount : ℕ} (hk : s.Known index) (hlt : index < itemCount)
    (hshows : s.ShowsFrom offset index) : s.ShowsFrom (min offset (s.maxOffset itemCount)) index := by
  rcases le_total offset (s.maxOffset itemCount) with hle | hge
  · rwa [min_eq_left hle]
  · rw [min_eq_right hge]
    exact ⟨(h.itemStartRow_mono hge).trans hshows.1,(h.itemEnd_le hk hlt).trans (h.itemStartRow_le_maxOffset itemCount)⟩

end Wf

/-! ## What an operation does -/

def landing (s : RowNavigationState) (index itemCount : ℕ) : ℕ :=
  if s.viewportRows = 0 then 0 else min (s.revealedOffset index) (s.maxOffset itemCount)

theorem reveal_eq (hsel : s.selected = some index) (itemCount : ℕ) :
    ∃ r, s.reveal itemCount = { s with offset := s.landing index itemCount, revealSelected := r } := by
  simp only [reveal, hsel, landing]
  split_ifs
  · exact ⟨s.revealSelected,rfl⟩
  · exact ⟨false,rfl⟩

theorem reveal_none (hsel : s.selected = none) :
    s.reveal itemCount = { s with offset := min s.offset (s.maxOffset itemCount), revealSelected := false } := by
  simp only [reveal, hsel]

theorem landing_le (h : s.Wf) {index : ℕ} (hk : s.Known index) (itemCount : ℕ) : s.landing index itemCount ≤ index := by
  rw [landing]
  split_ifs
  · exact Nat.zero_le _
  · exact (min_le_left _ _).trans (h.revealedOffset_le hk)

theorem moveTo_eq (hsel : s.isSelectable index = true) (hlt : index < itemCount) :
    ∃ r, (s.moveTo index itemCount).1 = { s with selected := some index, offset := s.landing index itemCount, revealSelected := r } := by
  have hnext : (if itemCount = 0 then none else (some index).bind fun index => s.snapSelectable index itemCount) = some index := by
    rw [if_neg (by omega)]
    exact snapSelectable_self hsel hlt
  simp only [moveTo, select, hnext]
  exact reveal_eq rfl itemCount

def Moves (s : RowNavigationState) (action : ListNavigationAction) : Prop :=
  action ≠ .back ∧ action ≠ .activate ∧ ¬s.Scrolls action

instance (s : RowNavigationState) (action : ListNavigationAction) : Decidable (s.Moves action) := inferInstanceAs (Decidable (_ ∧ _))

/-- What `navigate` can do. -/
theorem navigate_cases (s : RowNavigationState) (action : ListNavigationAction) (itemCount : ℕ) :
    action = .back ∧ (s.navigate action itemCount).1 = s ∨
    action ≠ .back ∧ itemCount = 0 ∧ (s.navigate action itemCount).1 = { s with selected := none, offset := 0 } ∨
    action ≠ .back ∧ s.snapSelectable (s.selected.getD 0) itemCount = none ∧
      (s.navigate action itemCount).1 = { s with selected := none } ∨
    (∃ current, s.snapSelectable (s.selected.getD 0) itemCount = some current ∧ (
      action = .activate ∧ (s.navigate action itemCount).1 = { s with selected := some current } ∨
      action ≠ .activate ∧ s.Scrolls action ∧ (∃ delta, (s.navigate action itemCount).1 = (s.scrollBy delta itemCount).1) ∨
      s.Moves action ∧ s.isSelectable (s.next action itemCount current) = true ∧ s.next action itemCount current < itemCount ∧
        ∃ r, (s.navigate action itemCount).1 = { s with
          selected := some (s.next action itemCount current)
          offset := s.landing (s.next action itemCount current) itemCount, revealSelected := r })) := by
  rw [navigate]
  by_cases hback : action = .back
  · rw [if_pos hback]
    exact Or.inl ⟨hback,rfl⟩
  rw [if_neg hback]
  by_cases hzero : itemCount = 0
  · rw [if_pos hzero]
    exact Or.inr (Or.inl ⟨hback,hzero,rfl⟩)
  rw [if_neg hzero]
  refine Or.inr (Or.inr ?_)
  rcases hcur : s.snapSelectable (s.selected.getD 0) itemCount with _ | current
  · exact Or.inl ⟨hback,rfl,rfl⟩
  refine Or.inr ⟨current,rfl,?_⟩
  dsimp only
  by_cases hactivate : action = .activate
  · rw [if_pos hactivate]
    exact Or.inl ⟨hactivate,rfl⟩
  rw [if_neg hactivate]
  by_cases hscrolls : s.Scrolls action
  · rw [if_pos hscrolls]
    exact Or.inr (Or.inl ⟨hactivate,hscrolls,_,rfl⟩)
  rw [if_neg hscrolls]
  obtain ⟨hsel,hlt⟩ := snapSelectable_spec hcur
  obtain ⟨hnext,hbelow⟩ : s.isSelectable (s.next action itemCount current) = true ∧ s.next action itemCount current < itemCount :=
    next_selectable hsel hlt
  have hbound : min (s.next action itemCount current) (itemCount - 1) = s.next action itemCount current := by omega
  refine Or.inr (Or.inr ⟨⟨hback,hactivate,hscrolls⟩,hnext,hbelow,?_⟩)
  rw [hbound]
  exact moveTo_eq hnext hbelow

/-- What preparing does once the geometry is set. -/
theorem prepareCommon_cases (s : RowNavigationState) (height itemCount : ℕ) :
    ∃ selected offset r, s.prepareCommon height itemCount =
        { s with viewportRows := height, selected := selected, offset := offset, revealSelected := r } ∧
      (∀ j, selected = some j → s.isSelectable j = true ∧ j < itemCount) ∧
      (s.Wf → (∀ j, j < itemCount → s.Known j) → 0 < itemCount →
        s.offset < itemCount ∨ { s with viewportRows := height }.maxOffset itemCount < itemCount → offset < itemCount) := by
  rw [prepareCommon]
  split_ifs with hzero
  · exact ⟨none,0,false,rfl,fun j h => (by cases h),fun _ _ hpos _ => hpos⟩
  · set u : RowNavigationState := { s with viewportRows := height } with hu
    set selected := s.selected.bind fun selected => u.snapSelectable selected itemCount with hselected
    have hspec : ∀ j, selected = some j → s.isSelectable j = true ∧ j < itemCount := by
      intro j hj
      obtain ⟨i,-,hsnap⟩ := Option.bind_eq_some_iff.mp (hselected ▸ hj)
      exact snapSelectable_spec (s := u) hsnap
    set w : RowNavigationState := { u with selected := selected, offset := min s.offset (u.maxOffset itemCount) } with hw
    change ∃ selected' offset r, (if w.revealSelected = true then w.reveal itemCount else w) = _ ∧ _
    split_ifs
    · rcases hj : w.selected with _ | j
      · refine ⟨none,min w.offset (w.maxOffset itemCount),false,?_,fun j h => (by cases h),?_⟩
        · rw [reveal_none hj, ← hj]
        · exact fun _ _ _ hfits => (min_le_left _ _).trans_lt (min_lt_iff.mpr hfits)
      · obtain ⟨r,hr⟩ := reveal_eq hj itemCount
        refine ⟨some j,w.landing j itemCount,r,?_,fun i hi => hspec i (hj.trans hi),?_⟩
        · rw [hr, ← hj]
        · intro hwf hknown _ _
          have hlt := (hspec j hj).2
          exact (landing_le (s := w) ⟨hwf.starts,hwf.pos⟩ (hknown j hlt) itemCount).trans_lt hlt
    · exact ⟨selected,w.offset,w.revealSelected,rfl,hspec,fun _ _ _ hfits => min_lt_iff.mpr hfits⟩

end RowNavigationState

end Unpeel.AppKit.RowNavigation
