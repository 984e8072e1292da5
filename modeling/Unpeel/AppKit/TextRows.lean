import Mathlib.Algebra.BigOperators.Group.List.Basic
import Mathlib.Algebra.Ring.Nat
import Unpeel.Manifest.Record

/-! # Wrapped rows of a text

A text box shows its text in rows, broken at newlines and, where a row is full, behind a space.
A row is a range of characters; positions on the screen are found in rows and columns.
-/
namespace Unpeel.AppKit.TextRows
open Manifest (Text)
variable {characters : Text}
variable {stop width : ℕ}

/-- A range of characters. A `hard` row ends at a newline or at the end of the text. -/
structure Row where
  start : ℕ
  stop : ℕ
  hard : Bool
deriving DecidableEq

section
variable (charWidth : Char → ℕ)

/-- `character.width().unwrap_or(0).max(1)`. -/
def cells (c : Char) : ℕ := max (charWidth c) 1

/-- `display_width`. -/
def displayWidth (text : Text) : ℕ := (text.map (cells charWidth)).sum

/-- `display_width_between`. -/
def displayWidthBetween (text : Text) (start stop : ℕ) : ℕ := displayWidth charWidth ((text.drop start).take (stop - start))

/-- The inner loop of `wrap_line`: the index behind the row, and its last space. -/
def fillRow (characters : Text) (stop width used index : ℕ) (lastSpace : Option ℕ) : ℕ × Option ℕ :=
  if index < stop then
    let c := characters.getD index ' '
    if width < used + cells charWidth c then
      -- a space hangs past the edge
      if c = ' ' then (index + 1,some index) else (index,lastSpace)
    else fillRow characters stop width (used + cells charWidth c) (index + 1) (if c = ' ' then some index else lastSpace)
  else (index,lastSpace)
termination_by stop - index

def breakAt (rowStart index : ℕ) : Option ℕ → ℕ
  | some space => if rowStart < space + 1 then space + 1 else max index (rowStart + 1)
  | none => max index (rowStart + 1)

theorem lt_breakAt (rowStart index : ℕ) (lastSpace : Option ℕ) : rowStart < breakAt rowStart index lastSpace := by
  unfold breakAt
  split
  · split_ifs <;> omega
  · omega

/-- The outer loop of `wrap_line`. -/
def wrapFrom (characters : Text) (stop width rowStart : ℕ) : List Row :=
  if rowStart < stop then
    let (index,lastSpace) := fillRow charWidth characters stop width 0 rowStart none
    if stop ≤ index then [⟨rowStart,stop,true⟩]
    else ⟨rowStart,breakAt rowStart index lastSpace,false⟩ :: wrapFrom characters stop width (breakAt rowStart index lastSpace)
  else [⟨stop,stop,true⟩]
termination_by stop - rowStart
decreasing_by
  have := lt_breakAt rowStart index lastSpace
  omega

def wrapLine (characters : Text) (start stop width : ℕ) : List Row :=
  if width = 0 ∨ start = stop then [⟨start,stop,true⟩] else wrapFrom charWidth characters stop width start

/-- The loop of `wrap_rows`. -/
def wrapLines (characters : Text) (width lineStart : ℕ) : List Row :=
  let lineEnd := lineStart + (characters.drop lineStart).findIdx (· = '\n')
  wrapLine charWidth characters lineStart lineEnd width ++
    if characters.length ≤ lineEnd then [] else wrapLines characters width (lineEnd + 1)
termination_by characters.length - lineStart

def wrapRows (text : Text) (width : ℕ) : List Row := wrapLines charWidth text width 0

/-- `row_col_of`. -/
def rowColOf (rows : List Row) (text : Text) (index : ℕ) : ℕ × ℕ :=
  let rowIndex := (rows.findIdx? fun row => index < row.stop || (index = row.stop && row.hard)).getD (rows.length - 1)
  match rows[rowIndex]? with
  | none => (0,0)
  | some row => (rowIndex,displayWidth charWidth ((text.drop row.start).take (index - row.start)))

/-- The loop of `index_at_column`: the index of the column among the characters, if they reach it. -/
def columnIndex (column : ℕ) : ℕ → ℕ → Text → Option ℕ
  | _, _, [] => none
  | used, index, c :: text =>
    if column < used + cells charWidth c then some (if (column - used) * 2 < cells charWidth c then index else index + 1)
    else columnIndex column (used + cells charWidth c) (index + 1) text

def indexAtColumn (row : Row) (text : Text) (column : ℕ) : ℕ :=
  (columnIndex charWidth column 0 row.start ((text.drop row.start).take (row.stop - row.start))).getD
    (if row.hard then row.stop else max (row.stop - 1) row.start)

end

/-! ### Rows are inside the text -/

variable {charWidth : Char → ℕ}

def Row.Inside (row : Row) (length : ℕ) : Prop := row.start ≤ row.stop ∧ row.stop ≤ length

/-- The index behind a row and its last space are not behind the line. -/
theorem fillRow_le {characters : Text} {stop width used index : ℕ} {lastSpace : Option ℕ} (hindex : index ≤ stop)
    (hspace : ∀ space ∈ lastSpace, space < stop) :
    (fillRow charWidth characters stop width used index lastSpace).1 ≤ stop ∧
      ∀ space ∈ (fillRow charWidth characters stop width used index lastSpace).2, space < stop := by
  induction used, index, lastSpace using fillRow.induct charWidth characters stop width with
  | case1 used index lastSpace hlt c hfull hc =>
    rw [fillRow, if_pos hlt]
    rw [if_pos hfull, if_pos hc]
    exact ⟨hlt,fun space hin => (by cases hin; exact hlt)⟩
  | case2 used index lastSpace hlt c hfull hc =>
    rw [fillRow, if_pos hlt]
    rw [if_pos hfull, if_neg hc]
    exact ⟨hindex,hspace⟩
  | case3 used index lastSpace hlt c hfits ih =>
    rw [fillRow, if_pos hlt]
    rw [if_neg hfits]
    refine ih hlt fun space hin => ?_
    split_ifs at hin
    · cases hin
      exact hlt
    · exact hspace space hin
  | case4 used index lastSpace hge =>
    rw [fillRow, if_neg hge]
    exact ⟨hindex,hspace⟩

theorem breakAt_le {rowStart index : ℕ} {lastSpace : Option ℕ} (hlt : rowStart < stop) (hindex : index ≤ stop)
    (hspace : ∀ space ∈ lastSpace, space < stop) : breakAt rowStart index lastSpace ≤ stop := by
  unfold breakAt
  split
  next space =>
    have := hspace space rfl
    split_ifs <;> omega
  next => omega

/-- Induction over the rows of a line: the row that ends it, a row that breaks before its end, and nothing left of it. -/
theorem wrapFrom_induction {characters : Text} {stop width : ℕ} {P : ℕ → List Row → Prop}
    (hlast : ∀ rowStart lastSpace, rowStart < stop → fillRow charWidth characters stop width 0 rowStart none = (stop,lastSpace) →
      P rowStart [⟨rowStart,stop,true⟩])
    (hbreak : ∀ rowStart index lastSpace rows, rowStart < stop →
      fillRow charWidth characters stop width 0 rowStart none = (index,lastSpace) → breakAt rowStart index lastSpace ≤ stop →
      P (breakAt rowStart index lastSpace) rows → P rowStart (⟨rowStart,breakAt rowStart index lastSpace,false⟩ :: rows))
    (hend : P stop [⟨stop,stop,true⟩]) {rowStart : ℕ} (h : rowStart ≤ stop) :
    P rowStart (wrapFrom charWidth characters stop width rowStart) := by
  induction rowStart using wrapFrom.induct charWidth characters stop width with
  | case1 rowStart hlt index lastSpace hfill hstop =>
    have hindex := (@fillRow_le charWidth characters stop width 0 rowStart none h (fun _ hin => (by cases hin))).1
    rw [hfill] at hindex
    obtain rfl : index = stop := Nat.le_antisymm hindex hstop
    rw [wrapFrom, if_pos hlt, hfill]
    dsimp only
    rw [if_pos hstop]
    exact hlast rowStart lastSpace hlt hfill
  | case2 rowStart hlt index lastSpace hfill hstop ih =>
    obtain ⟨hindex,hspace⟩ := @fillRow_le charWidth characters stop width 0 rowStart none h (fun _ hin => (by cases hin))
    rw [hfill] at hindex hspace
    have hle := breakAt_le hlt hindex hspace
    rw [wrapFrom, if_pos hlt, hfill]
    dsimp only
    rw [if_neg hstop]
    exact hbreak rowStart index lastSpace _ hlt hfill hle (ih hle)
  | case3 rowStart hge =>
    obtain rfl : rowStart = stop := Nat.le_antisymm h (Nat.le_of_not_lt hge)
    rw [wrapFrom, if_neg hge]
    exact hend

theorem wrapFrom_inside {rowStart : ℕ} (h : rowStart ≤ stop) :
    ∀ row ∈ wrapFrom charWidth characters stop width rowStart, row.Inside stop := by
  refine wrapFrom_induction (P := fun _ rows => ∀ row ∈ rows, row.Inside stop) ?_ ?_ ?_ h
  · intro rowStart lastSpace hlt _
    exact List.forall_mem_singleton.mpr ⟨Nat.le_of_lt hlt,le_rfl⟩
  · intro rowStart index lastSpace rows _ _ hbreak hrows
    exact List.forall_mem_cons.mpr ⟨⟨Nat.le_of_lt (lt_breakAt _ _ _),hbreak⟩,hrows⟩
  · exact List.forall_mem_singleton.mpr ⟨le_rfl,le_rfl⟩

theorem wrapLine_inside {start : ℕ} (h : start ≤ stop) :
    ∀ row ∈ wrapLine charWidth characters start stop width, row.Inside stop := by
  unfold wrapLine
  split_ifs
  · intro row hrow
    rw [List.mem_singleton.mp hrow]
    exact ⟨h,le_rfl⟩
  · exact wrapFrom_inside h

theorem lineEnd_le {lineStart : ℕ} (h : lineStart ≤ characters.length) :
    lineStart + (characters.drop lineStart).findIdx (· = '\n') ≤ characters.length := by
  have hle : (characters.drop lineStart).findIdx (· = '\n') ≤ (characters.drop lineStart).length := List.findIdx_le_length
  rw [List.length_drop] at hle
  omega

theorem forall_wrapLines {P : Row → Prop} {lineStart : ℕ} (h : lineStart ≤ characters.length)
    (hline : ∀ start stop, start ≤ stop → stop ≤ characters.length → ∀ row ∈ wrapLine charWidth characters start stop width, P row) :
    ∀ row ∈ wrapLines charWidth characters width lineStart, P row := by
  induction lineStart using wrapLines.induct characters with
  | case1 lineStart lineEnd ih =>
    have hend : lineEnd ≤ characters.length := lineEnd_le h
    rw [wrapLines]
    intro row hrow
    rcases List.mem_append.mp hrow with hrow | hrow
    · exact hline lineStart lineEnd (Nat.le_add_right _ _) hend row hrow
    · split_ifs at hrow with hlast
      · cases hrow
      · exact ih hlast (by omega) row hrow

theorem wrapRows_inside (text : Text) (width : ℕ) : ∀ row ∈ wrapRows charWidth text width, row.Inside text.length :=
  forall_wrapLines (Nat.zero_le _) fun _ _ hrange hstop row hrow =>
    ⟨(wrapLine_inside hrange row hrow).1,(wrapLine_inside hrange row hrow).2.trans hstop⟩

/-- A place that is found for a column is not before the first character, and behind the last one only if the column is in
its farther half. -/
theorem columnIndex_spec {text : Text} {column used index i : ℕ} (h : columnIndex charWidth column used index text = some i) :
    index ≤ i ∧ (i < index + text.length ∨ i = index + text.length ∧ ∃ c, text.getLast? = some c ∧
      column < used + displayWidth charWidth text.dropLast + cells charWidth c ∧
      cells charWidth c ≤ (column - (used + displayWidth charWidth text.dropLast)) * 2) := by
  induction text generalizing used index with
  | nil => cases h
  | cons c text ih =>
    rw [columnIndex] at h
    rw [List.length_cons]
    split_ifs at h with hreach hhalf
    · cases h
      exact ⟨Nat.le_refl _,Or.inl (by omega)⟩
    · cases h
      refine ⟨Nat.le_succ _,?_⟩
      cases text with
      | nil =>
        refine Or.inr ⟨rfl,c,rfl,?_,?_⟩
        · simpa [displayWidth] using hreach
        · simpa [displayWidth] using hhalf
      | cons d text =>
        rw [List.length_cons]
        exact Or.inl (by omega)
    · obtain ⟨hlow,hhigh⟩ := ih h
      refine ⟨by omega,?_⟩
      rcases hhigh with hlt | ⟨heq,d,hlast,hcolumn,hfar⟩
      · exact Or.inl (by omega)
      · refine Or.inr ⟨by omega,d,?_,?_,?_⟩
        · cases text with
          | nil => cases hlast
          | cons e text => rw [List.getLast?_cons_cons]; exact hlast
        all_goals
          have hdrop : (c :: text).dropLast = c :: text.dropLast := by
            cases text with
            | nil => cases hlast
            | cons e text => rfl
          rw [hdrop, show displayWidth charWidth (c :: text.dropLast) = cells charWidth c + displayWidth charWidth text.dropLast from by
            simp [displayWidth], ← Nat.add_assoc]
          assumption

theorem indexAtColumn_le {row : Row} {text : Text} (h : row.Inside text.length) (column : ℕ) :
    indexAtColumn charWidth row text column ≤ text.length := by
  obtain ⟨hrange,hstop⟩ := h
  unfold indexAtColumn
  cases hindex : columnIndex charWidth column 0 row.start ((text.drop row.start).take (row.stop - row.start)) with
  | none =>
    rw [Option.getD_none]
    split_ifs <;> omega
  | some i =>
    have hhigh := (columnIndex_spec hindex).2
    rw [List.length_take, List.length_drop] at hhigh
    rw [Option.getD_some]
    omega

end Unpeel.AppKit.TextRows
