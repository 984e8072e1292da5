import Unpeel.AppKit.RowNavigation
import Unpeel.Foundation.Runs

/-! # Runs of a row collection

Each call brings its own item count. Next to the state stand the number of items last prepared and
the count of the last call that settled the selection: one that prepares, selects or moves. Scrolling
and going back leave the selection as it is.
-/
namespace Unpeel.AppKit.RowNavigation
open IndexSearch Runs RowNavigationState

inductive Call
  | prepare (height itemCount : ℕ)
  | prepareWithHeights (height : ℕ) (heights : List ℕ)
  | prepareWithRows (height : ℕ) (rows : List RowMetrics)
  | select (selected : Option ℕ) (itemCount : ℕ)
  | setOffset (offset itemCount : ℕ)
  | scrollBy (delta : ℤ) (itemCount : ℕ)
  | navigate (action : ListNavigationAction) (itemCount : ℕ)
  | setNavigation (scrollPadding pageOverlap : ℕ) (pageBehavior : ListPageBehavior)
  | setBoundaryBehavior (behavior : RowBoundaryBehavior)

namespace Call

def apply (s : RowNavigationState) : Call → RowNavigationState
  | .prepare height itemCount => s.prepare height itemCount
  | .prepareWithHeights height heights => s.prepareWithHeights height heights
  | .prepareWithRows height rows => s.prepareWithRows height rows
  | .select selected itemCount => (s.select selected itemCount).1
  | .setOffset offset itemCount => s.setOffset offset itemCount
  | .scrollBy delta itemCount => (s.scrollBy delta itemCount).1
  | .navigate action itemCount => (s.navigate action itemCount).1
  | .setNavigation scrollPadding pageOverlap pageBehavior => s.setNavigation scrollPadding pageOverlap pageBehavior
  | .setBoundaryBehavior behavior => s.setBoundaryBehavior behavior

def prepares : Call → Option ℕ
  | .prepare _ itemCount => some itemCount
  | .prepareWithHeights _ heights => some heights.length
  | .prepareWithRows _ rows => some rows.length
  | _ => none

def settles (s : RowNavigationState) : Call → Option ℕ
  | .select _ itemCount => some itemCount
  | .navigate action itemCount => if action = .back ∨ s.Scrolls action then none else some itemCount
  | call => call.prepares

end Call

structure Tracked where
  nav : RowNavigationState
  prepared : ℕ
  settled : Option ℕ

namespace Tracked
variable {itemCount : ℕ}

def start (selected : Option ℕ) : Tracked := ⟨.new selected,0,none⟩

def step (t : Tracked) (call : Call) : Option Tracked :=
  some ⟨call.apply t.nav,call.prepares.getD t.prepared,(call.settles t.nav).or t.settled⟩

variable (t : Tracked)

/-- The lookups and slices of `starts` go up to the number of heights. -/
def InRange : Prop := t.nav.heights ≠ [] → t.nav.heights.length < t.nav.starts.length

instance : Decidable t.InRange := inferInstanceAs (Decidable (_ → _))

def SelectionValid : Prop :=
  ∀ index ∈ t.nav.selected, t.nav.isSelectable index = true ∧ ∀ count ∈ t.settled, index < count

def ShowsARow : Prop := 0 < t.prepared → 0 < t.nav.viewportRows → t.nav.offset < t.prepared

instance : Decidable t.ShowsARow := inferInstanceAs (Decidable (_ → _))

def MovesOn : Call → Prop
  | .navigate action itemCount => ∀ i ∈ t.nav.selected, ∀ j ∈ (t.nav.navigate action itemCount).1.selected,
      (i < itemCount → (action = .last ∨ action = .pageDown ∨ action = .down ∧
        (t.nav.boundaryBehavior = .clamp ∨ (t.nav.nextSelectable i itemCount).isSome)) → i ≤ j) ∧
      ((action = .first ∨ action = .pageUp ∨ action = .up ∧
        (t.nav.boundaryBehavior = .clamp ∨ (t.nav.previousSelectable i).isSome)) → j ≤ i)
  | _ => True

/-- A movement shows all of the item it selects, if its height fits the viewport. Where it went up
behind the padding, the padding has to fit as well. -/
def Reveals : Call → Prop
  | .navigate action itemCount => t.nav.Moves action → ∀ j ∈ (t.nav.navigate action itemCount).1.selected,
      t.nav.Known j → t.nav.itemHeight j ≤ t.nav.viewportRows →
      t.nav.offsetRow + t.nav.padding ≤ t.nav.itemStartRow j ∨ t.nav.PaddingFits j →
      t.nav.ShowsFrom (t.nav.navigate action itemCount).1.offset j
  | _ => True

/-- Without padding, and with one-row items, the padding fits. -/
def PlainFits : Prop :=
  t.nav.padding = 0 ∨ (∀ height ∈ t.nav.heights, height = 1) → ∀ index, t.nav.Known index →
    t.nav.itemHeight index ≤ t.nav.viewportRows → t.nav.PaddingFits index

def EndShows (itemCount : ℕ) : Prop :=
  if t.nav.heights = [] then itemCount < t.prepared + t.nav.viewportRows
  else itemCount < t.prepared ∨ t.nav.itemHeight (t.prepared - 1) ≤ t.nav.viewportRows

def Fits : Call → Prop
  | .prepareWithHeights height heights => t.nav.offset < heights.length ∨ ∀ last ∈ heights.getLast?, last ≤ height
  | .prepareWithRows height rows => t.nav.offset < rows.length ∨ ∀ last ∈ rows.getLast?, last.height ≤ height
  | .setOffset offset itemCount => offset < t.prepared ∨ t.EndShows itemCount
  | .scrollBy delta itemCount => ((t.nav.offset : ℤ) + delta).toNat < t.prepared ∨ t.EndShows itemCount
  | .navigate action itemCount =>
    (t.nav.Scrolls action → t.EndShows itemCount) ∧ (t.nav.Moves action → itemCount ≤ t.prepared ∨ t.EndShows itemCount)
  | _ => True

structure Kept : Prop where
  wf : t.nav.Wf
  length : t.nav.heights ≠ [] → t.nav.heights.length = t.prepared
  selection : t.SelectionValid

variable {t}

theorem Kept.inRange (h : t.Kept) : t.InRange := by
  intro hne
  rw [h.wf.starts hne, length_startsFrom]
  exact Nat.lt_succ_self _

theorem kept_start (selected : Option ℕ) : (start selected).Kept where
  wf := ⟨fun h => absurd rfl h,fun _ h => absurd h List.not_mem_nil⟩
  length := fun h => absurd rfl h
  selection := fun _ _ => ⟨rfl,fun _ h => (by cases h)⟩

theorem Kept.known (h : t.Kept) {i : ℕ} (hi : i < t.prepared) : t.nav.Known i := by
  by_cases hne : t.nav.heights = []
  · exact Or.inl hne
  · exact Or.inr (h.length hne ▸ hi)

theorem kept_prepareCommon {s : RowNavigationState} (height : ℕ) (hwf : s.Wf)
    (hlength : s.heights ≠ [] → s.heights.length = itemCount) :
    (Tracked.mk (s.prepareCommon height itemCount) itemCount (some itemCount)).Kept := by
  obtain ⟨selected,offset,r,heq,hspec,-⟩ := prepareCommon_cases s height itemCount
  rw [heq]
  refine ⟨⟨hwf.starts,hwf.pos⟩,hlength,?_⟩
  intro j hj
  refine ⟨(hspec j hj).1,?_⟩
  rintro count ⟨⟩
  exact (hspec j hj).2

theorem wf_heights (s : RowNavigationState) (heights : List ℕ) :
    { s with heights := heights.map fun height => max height 1, starts := startsFrom 0 (heights.map fun height => max height 1) }.Wf where
  starts := fun _ => rfl
  pos := by
    intro height hheight
    obtain ⟨h,-,rfl⟩ := List.mem_map.mp hheight
    exact Nat.le_max_right _ _

theorem kept_prepareWithHeights (s : RowNavigationState) (height : ℕ) (heights : List ℕ) :
    (Tracked.mk (s.prepareWithHeightsAndSelectable height heights) heights.length (some heights.length)).Kept := by
  have hwf := wf_heights s heights
  have hkept := kept_prepareCommon height hwf (fun _ => rfl)
  simpa [prepareWithHeightsAndSelectable] using hkept

theorem Kept.navigate (h : t.Kept) (action : ListNavigationAction) (itemCount : ℕ) :
    (Tracked.mk (t.nav.navigate action itemCount).1 t.prepared (((Call.navigate action itemCount).settles t.nav).or t.settled)).Kept := by
  -- with a settled selection the count is the one given, unless the call leaves the selection alone
  have hsettled : action ≠ .back → ¬t.nav.Scrolls action → ∀ j, j < itemCount →
      ∀ count ∈ ((Call.navigate action itemCount).settles t.nav).or t.settled, j < count := by
    intro hback hscrolls j hj count hcount
    rw [Call.settles, if_neg (not_or.mpr ⟨hback,hscrolls⟩), Option.some_or] at hcount
    cases hcount
    exact hj
  rcases navigate_cases t.nav action itemCount with ⟨hback,heq⟩ | ⟨-,-,heq⟩ | ⟨-,-,heq⟩ | ⟨current,hcur,hrest⟩
  · rw [heq, Call.settles, if_pos (Or.inl hback), Option.none_or]
    exact h
  · rw [heq]
    exact ⟨⟨h.wf.starts,h.wf.pos⟩,h.length,fun _ hj => (by cases hj)⟩
  · rw [heq]
    exact ⟨⟨h.wf.starts,h.wf.pos⟩,h.length,fun _ hj => (by cases hj)⟩
  · obtain ⟨hsel,hlt⟩ := snapSelectable_spec hcur
    rcases hrest with ⟨hactivate,heq⟩ | ⟨-,hscrolls,delta,heq⟩ | ⟨⟨hback,-,hscrolls⟩,hnext,hbelow,r,heq⟩
    · rw [heq]
      refine ⟨⟨h.wf.starts,h.wf.pos⟩,h.length,?_⟩
      rintro j ⟨⟩
      exact ⟨hsel,hsettled (by rw [hactivate]; decide) (fun hscrolls => by simp [Scrolls, hactivate] at hscrolls) _ hlt⟩
    · rw [heq, Call.settles, if_pos (Or.inr hscrolls), Option.none_or]
      exact ⟨⟨h.wf.starts,h.wf.pos⟩,h.length,h.selection⟩
    · rw [heq]
      refine ⟨⟨h.wf.starts,h.wf.pos⟩,h.length,?_⟩
      rintro j ⟨⟩
      exact ⟨hnext,hsettled hback hscrolls _ hbelow⟩

theorem Kept.step (h : t.Kept) {call : Call} {u : Tracked} (hu : t.step call = some u) : u.Kept := by
  cases hu
  cases call with
  | prepare height itemCount =>
    exact kept_prepareCommon height ⟨fun h => absurd rfl h,fun _ h => absurd h List.not_mem_nil⟩ (fun h => absurd rfl h)
  | prepareWithHeights height heights => exact kept_prepareWithHeights _ height heights
  | prepareWithRows height rows =>
    have hkept := kept_prepareWithHeights { t.nav with selectable := rows.map RowMetrics.selectable } height (rows.map RowMetrics.height)
    simpa [Call.apply, Call.prepares, Call.settles, prepareWithRows] using hkept
  | select selected itemCount =>
    refine ⟨⟨h.wf.starts,h.wf.pos⟩,h.length,?_⟩
    intro j hj
    simp only [Call.apply, RowNavigationState.select] at hj
    split_ifs at hj with hzero
    · cases hj
    · obtain ⟨i,-,hsnap⟩ := Option.bind_eq_some_iff.mp hj
      refine ⟨(snapSelectable_spec hsnap).1,?_⟩
      rintro count ⟨⟩
      exact (snapSelectable_spec hsnap).2
  | setOffset offset itemCount | scrollBy delta itemCount | setNavigation scrollPadding pageOverlap pageBehavior
  | setBoundaryBehavior behavior => exact ⟨⟨h.wf.starts,h.wf.pos⟩,h.length,h.selection⟩
  | navigate action itemCount => exact h.navigate action itemCount

/-! ## Movements -/

theorem Kept.movesOn (h : t.Kept) (call : Call) : t.MovesOn call := by
  cases call <;> try trivial
  rename_i action itemCount
  intro i hi j hj
  rcases navigate_cases t.nav action itemCount with ⟨-,heq⟩ | ⟨-,-,heq⟩ | ⟨-,-,heq⟩ | ⟨current,hcur,hrest⟩ <;>
    try rw [heq] at hj
  · cases hi.symm.trans hj
    exact ⟨fun _ _ => le_rfl,fun _ => le_rfl⟩
  · cases hj
  · cases hj
  · obtain ⟨hsel,hlt⟩ := snapSelectable_spec hcur
    have hi' : t.nav.selected = some i := hi
    rw [hi', Option.getD_some] at hcur
    -- inside the count, the movement starts at the selection; else the count alone decides
    have hself : i < itemCount → current = i := by
      intro hbelow
      exact Option.some.inj (hcur.symm.trans (snapSelectable_self (h.selection i hi).1 hbelow))
    rcases hrest with ⟨hactivate,heq⟩ | ⟨-,-,delta,heq⟩ | ⟨-,-,hbelow,r,heq⟩ <;> rw [heq] at hj
    · cases hj
      refine ⟨fun hin _ => (hself hin).ge,fun _ => ?_⟩
      rcases Nat.lt_or_ge i itemCount with hin | hout
      · exact (hself hin).le
      · exact hlt.le.trans hout
    · cases hi.symm.trans hj
      exact ⟨fun _ _ => le_rfl,fun _ => le_rfl⟩
    · cases hj
      constructor
      · intro hin haction
        obtain rfl := hself hin
        exact le_next hsel hlt haction
      · intro haction
        rcases Nat.lt_or_ge i itemCount with hin | hout
        · obtain rfl := hself hin
          exact next_le hsel haction
        · exact hbelow.le.trans hout

theorem Kept.reveals (h : t.Kept) (call : Call) : t.Reveals call := by
  cases call <;> try trivial
  rename_i action itemCount
  rintro ⟨hback,hactivate,hscrolls⟩ j hj hknown hfits hpad
  have hpos : 0 < t.nav.viewportRows := (h.wf.one_le_itemHeight j).trans hfits
  rcases navigate_cases t.nav action itemCount with ⟨hback',-⟩ | ⟨-,-,heq⟩ | ⟨-,-,heq⟩ | ⟨current,-,hrest⟩
  · exact absurd hback' hback
  · rw [heq] at hj
    cases hj
  · rw [heq] at hj
    cases hj
  · rcases hrest with ⟨hactivate',-⟩ | ⟨-,hscrolls',-⟩ | ⟨-,-,hbelow,r,heq⟩
    · exact absurd hactivate' hactivate
    · exact absurd hscrolls' hscrolls
    · rw [heq] at hj ⊢
      cases hj
      rw [landing, if_neg (by omega)]
      exact h.wf.showsFrom_min_maxOffset hknown hbelow (h.wf.showsFrom_revealedOffset hknown hfits hpad)

/-! ## The offset -/

theorem Kept.maxOffset_lt (h : t.Kept) (hpos : 0 < t.prepared) {itemCount : ℕ} (hend : t.EndShows itemCount) :
    t.nav.maxOffset itemCount < t.prepared := by
  rw [EndShows] at hend
  split_ifs at hend with hu
  · rw [maxOffset, if_pos hu]
    omega
  · have hlength := h.length hu
    have hle := h.wf.maxOffset_le_min hu itemCount
    rcases Nat.lt_or_ge itemCount t.prepared with hlt | hge
    · omega
    · have hmin : min itemCount t.nav.heights.length = t.prepared := by omega
      have hlt : t.nav.maxOffset itemCount < min itemCount t.nav.heights.length :=
        h.wf.maxOffset_lt hu (by omega) (by rw [hmin]; exact hend.resolve_left (not_lt.mpr hge))
      omega

theorem showsARow_prepareCommon {s : RowNavigationState} (height : ℕ) (settled : Option ℕ) (hwf : s.Wf)
    (hlength : s.heights ≠ [] → s.heights.length = itemCount)
    (hfits : 0 < itemCount → 0 < height → s.offset < itemCount ∨ { s with viewportRows := height }.maxOffset itemCount < itemCount) :
    (Tracked.mk (s.prepareCommon height itemCount) itemCount settled).ShowsARow := by
  obtain ⟨selected,offset,r,heq,-,hlt⟩ := prepareCommon_cases s height itemCount
  rw [heq]
  intro hpos hheight
  refine hlt hwf (fun j hj => ?_) hpos (hfits hpos hheight)
  by_cases hne : s.heights = []
  · exact Or.inl hne
  · exact Or.inr (hlength hne ▸ hj)

theorem showsARow_prepareWithHeights (s : RowNavigationState) {height : ℕ} {heights : List ℕ} (settled : Option ℕ)
    (hfits : s.offset < heights.length ∨ ∀ last ∈ heights.getLast?, last ≤ height) :
    (Tracked.mk (s.prepareWithHeightsAndSelectable height heights) heights.length settled).ShowsARow := by
  have hwf := wf_heights s heights
  have hshows := showsARow_prepareCommon height settled hwf (fun _ => rfl) ?_
  · simpa [prepareWithHeightsAndSelectable] using hshows
  · intro hpos hheight
    refine hfits.imp (fun hlt => by simpa using hlt) fun hlast => ?_
    simp only [List.length_map] at hpos ⊢
    have hne : heights.map (fun height => max height 1) ≠ [] := List.length_pos_iff.mp (by simpa using hpos)
    have hlt := Wf.maxOffset_lt (s := { s with
        heights := heights.map fun height => max height 1
        starts := startsFrom 0 (heights.map fun height => max height 1), viewportRows := height })
      ⟨hwf.starts,hwf.pos⟩ hne (show 0 < min heights.length _ by simpa using hpos) ?_
    · simpa using hlt
    · have hindex : heights.length - 1 < heights.length := Nat.sub_lt hpos Nat.one_pos
      have hbound := hlast heights[heights.length - 1] (by rw [Option.mem_def, List.getLast?_eq_getElem?, List.getElem?_eq_getElem hindex])
      simpa [itemHeight, List.getElem?_eq_getElem hindex] using ⟨hbound,hheight⟩

theorem Kept.showsARow_navigate (h : t.Kept) (hshows : t.ShowsARow) {action : ListNavigationAction}
    (hfits : t.Fits (.navigate action itemCount)) {settled : Option ℕ} :
    (Tracked.mk (t.nav.navigate action itemCount).1 t.prepared settled).ShowsARow := by
  rcases navigate_cases t.nav action itemCount with ⟨-,heq⟩ | ⟨-,-,heq⟩ | ⟨-,-,heq⟩ | ⟨current,-,hrest⟩
  · rw [heq]
    exact hshows
  · rw [heq]
    exact fun hpos _ => hpos
  · rw [heq]
    exact hshows
  · rcases hrest with ⟨-,heq⟩ | ⟨-,hscrolls,delta,heq⟩ | ⟨hmoves,-,hbelow,r,heq⟩ <;> rw [heq]
    · exact hshows
    · exact fun hpos _ => (min_le_right _ _).trans_lt (h.maxOffset_lt hpos (hfits.1 hscrolls))
    · intro hpos hview
      have hview' : t.nav.viewportRows ≠ 0 := hview.ne'
      rcases hfits.2 hmoves with hle | hend
      · have hlt := hbelow.trans_le hle
        exact (landing_le h.wf (h.known hlt) itemCount).trans_lt hlt
      · rw [landing, if_neg hview']
        exact (min_le_right _ _).trans_lt (h.maxOffset_lt hpos hend)

theorem Kept.showsARow_step (h : t.Kept) (hshows : t.ShowsARow) {call : Call} (hfits : t.Fits call) {u : Tracked}
    (hu : t.step call = some u) : u.ShowsARow := by
  cases hu
  cases call with
  | prepare height itemCount =>
    refine showsARow_prepareCommon _ _ ⟨fun h => absurd rfl h,fun _ h => absurd h List.not_mem_nil⟩ (fun h => absurd rfl h) ?_
    intro hpos hheight
    refine Or.inr ?_
    exact Nat.sub_lt hpos hheight
  | prepareWithHeights height heights => exact showsARow_prepareWithHeights _ _ hfits
  | prepareWithRows height rows =>
    have hshows := showsARow_prepareWithHeights { t.nav with selectable := rows.map RowMetrics.selectable } (some rows.length)
      (show _ < (rows.map RowMetrics.height).length ∨ ∀ last ∈ (rows.map RowMetrics.height).getLast?, last ≤ height from ?_)
    · simpa [Call.apply, Call.prepares, Call.settles, prepareWithRows] using hshows
    · simpa [Fits] using hfits
  | select selected itemCount | setNavigation scrollPadding pageOverlap pageBehavior | setBoundaryBehavior behavior => exact hshows
  | setOffset offset itemCount | scrollBy delta itemCount =>
    exact fun hpos hview => min_lt_iff.mpr (hfits.imp_right (h.maxOffset_lt hpos))
  | navigate action itemCount => exact h.showsARow_navigate hshows hfits

end Tracked

/-! ## Going down -/

theorem navigate_down {s : RowNavigationState} {itemCount i j : ℕ} (hsel : s.selected = some i) (hi : s.isSelectable i = true)
    (hlt : i < itemCount) (hnext : s.nextSelectable i itemCount = some j) :
    (s.navigate .down itemCount).1.selected = some j ∧ (s.navigate .down itemCount).1.selectable = s.selectable := by
  have hgoes : s.next .down itemCount i = j := by rw [next, hnext, Option.getD_some]
  have hcur : s.snapSelectable (s.selected.getD 0) itemCount = some i := by
    rw [hsel]
    exact snapSelectable_self hi hlt
  have hscrolls : ¬s.Scrolls .down := by simp [Scrolls]
  rcases navigate_cases s .down itemCount with ⟨hback,-⟩ | ⟨-,hzero,-⟩ | ⟨-,hnone,-⟩ | ⟨current,hcurrent,hrest⟩
  · cases hback
  · omega
  · cases hnone.symm.trans hcur
  · obtain rfl : i = current := Option.some.inj (hcur.symm.trans hcurrent)
    rcases hrest with ⟨hactivate,-⟩ | ⟨-,hscrolls',-⟩ | ⟨-,-,-,r,heq⟩
    · cases hactivate
    · exact absurd hscrolls' hscrolls
    · rw [heq, hgoes]
      exact ⟨rfl,rfl⟩

def RowNavigationState.selectables (s : RowNavigationState) (itemCount : ℕ) : List ℕ := (List.range itemCount).filter s.isSelectable

/-- From the first selectable item, going down visits them all in order. -/
theorem down_visits {s : RowNavigationState} {itemCount : ℕ} (hfirst : s.selected = (s.selectables itemCount)[0]?) {k : ℕ}
    (hk : k < (s.selectables itemCount).length) :
    ((fun s : RowNavigationState => (s.navigate .down itemCount).1)^[k] s).selected = (s.selectables itemCount)[k]? ∧
      ((fun s : RowNavigationState => (s.navigate .down itemCount).1)^[k] s).selectable = s.selectable := by
  induction k with
  | zero => exact ⟨hfirst,rfl⟩
  | succ k ih =>
    obtain ⟨hsel,hsame⟩ := ih (Nat.lt_of_succ_lt hk)
    obtain ⟨i,hi⟩ : ∃ i, (s.selectables itemCount)[k]? = some i := ⟨_,List.getElem?_eq_getElem (Nat.lt_of_succ_lt hk)⟩
    obtain ⟨j,hj⟩ : ∃ j, (s.selectables itemCount)[k + 1]? = some j := ⟨_,List.getElem?_eq_getElem hk⟩
    obtain ⟨hrange,hselectable⟩ := List.mem_filter.mp (List.mem_of_getElem? hi)
    rw [Function.iterate_succ_apply']
    set u := (fun s : RowNavigationState => (s.navigate .down itemCount).1)^[k] s
    have hflags : u.isSelectable = s.isSelectable := by
      funext index
      rw [isSelectable, isSelectable, hsame]
    have hnext : u.nextSelectable i itemCount = some j := by
      rw [nextSelectable, hflags]
      exact firstFrom_succ_of_getElem? hi hj
    obtain ⟨hsel',hsame'⟩ := navigate_down (hsel.trans hi) (by rw [hflags]; exact hselectable) (List.mem_range.mp hrange) hnext
    exact ⟨hsel'.trans hj.symm,hsame'.trans hsame⟩

/-! ## Whole runs -/

/-- Over every run of calls the lookups are in range, the selection is a selectable item below the
count it was settled with, movements go their way and show what they select, and going down visits
every selectable item. As long as the calls fit the prepared list, there is an item at the offset. -/
theorem navigation_run (selected : Option ℕ) (calls : List Call) :
    Always Tracked.step (fun t => t.InRange ∧ t.SelectionValid ∧ t.PlainFits) (Tracked.start selected) calls ∧
    Guarded Tracked.step (fun t call => t.MovesOn call ∧ t.Reveals call) (Tracked.start selected) calls ∧
    (Guarded Tracked.step Tracked.Fits (Tracked.start selected) calls →
      Always Tracked.step Tracked.ShowsARow (Tracked.start selected) calls) ∧
    ∀ (s : RowNavigationState) (itemCount k : ℕ), s.selected = (s.selectables itemCount)[0]? →
      k < (s.selectables itemCount).length →
      ((fun s : RowNavigationState => (s.navigate .down itemCount).1)^[k] s).selected = (s.selectables itemCount)[k]? := by
  have hstart := Tracked.kept_start selected
  refine ⟨?_,?_,?_,fun s itemCount k hfirst hk => (down_visits hfirst hk).1⟩
  · refine always_of_invariant (J := Tracked.Kept) (fun t _ u h hu => h.step hu) ?_ hstart calls
    exact fun t h => ⟨h.inRange,h.selection,fun hplain index hk hfits => h.wf.paddingFits hk hfits hplain⟩
  · exact Guarded.mono (J := Tracked.Kept) (fun t _ u h _ hu => h.step hu) (fun t call h _ => ⟨h.movesOn call,h.reveals call⟩) hstart
      (guarded_of_forall (fun _ _ _ => trivial) _)
  · exact always_of_guarded (J := fun t : Tracked => t.Kept ∧ t.ShowsARow)
      (fun t _ u h hfits hu => ⟨h.1.step hu,h.1.showsARow_step h.2 hfits hu⟩) (fun t h => h.2)
      ⟨hstart,fun hpos _ => absurd hpos (Nat.lt_irrefl 0)⟩

def scrolled : List Call :=
  [.prepareWithHeights 5 [4,1,2],.scrollBy 1 3,.select (some 0) 3,.navigate .down 3,.setOffset 2 3]

/-- While this list is scrolled and walked, its offset names one of its items. -/
theorem scrolled_shows_a_row :
    Guarded Tracked.step Tracked.Fits (.start none) scrolled ∧ Always Tracked.step Tracked.ShowsARow (.start none) scrolled := by
  have hfits : Guarded Tracked.step Tracked.Fits (.start none) scrolled := by
    rintro _ ⟨⟩
    refine ⟨.inr (by decide),?_⟩
    rintro _ ⟨⟩
    refine ⟨.inl (by decide),?_⟩
    rintro _ ⟨⟩
    refine ⟨trivial,?_⟩
    rintro _ ⟨⟩
    refine ⟨⟨fun h => absurd h (by decide),fun _ => .inl (by decide)⟩,?_⟩
    rintro _ ⟨⟩
    exact ⟨.inl (by decide),trivial⟩
  exact ⟨hfits,(navigation_run none scrolled).2.2.1 hfits⟩

/-- Scrolling with a smaller count keeps a selection outside of it, and so going down goes back. A
last item taller than the viewport, or a count beyond the prepared list, can be scrolled past, and
a padding that reaches into a tall item leaves the selected one outside the viewport. -/
theorem navigation_limits :
    (∃ t, run Tracked.step (.start none) [.prepare 2 3,.select (some 2) 3,.scrollBy 0 1] = some t ∧ t.nav.selected = some 2) ∧
    (∃ t, run Tracked.step (.start none) [.prepare 2 3,.select (some 2) 3,.navigate .down 2] = some t ∧ t.nav.selected = some 1) ∧
    (∃ t, run Tracked.step (.start none) [.prepareWithHeights 5 [10],.scrollBy 1 1] = some t ∧ ¬t.ShowsARow) ∧
    (∃ t, run Tracked.step (.start none) [.prepare 2 3,.setOffset 9 9] = some t ∧ ¬t.ShowsARow) ∧
    ∃ t, run Tracked.step (.start none) [.setNavigation 1 1 .selection,.prepareWithHeights 5 [4,3,2,2],.select (some 2) 4,
      .prepareWithHeights 5 [4,3,2,2],.navigate .up 4] = some t ∧
      t.nav.selected = some 1 ∧ t.nav.itemHeight 1 ≤ t.nav.viewportRows ∧ ¬t.nav.ShowsFrom t.nav.offset 1 :=
  ⟨⟨_,rfl,by decide⟩,⟨_,rfl,by decide⟩,⟨_,rfl,by decide⟩,⟨_,rfl,by decide⟩,⟨_,rfl,by decide,by decide,by decide⟩⟩

end Unpeel.AppKit.RowNavigation
