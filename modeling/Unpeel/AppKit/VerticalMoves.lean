import Unpeel.AppKit.RowCover
import Unpeel.AppKit.TextBox

/-! # Moving up and down

Up and Down look for a column in the next row. A column in the farther half of the character that a
soft row ends with is the place behind it, and that place is in the row after.
-/
namespace Unpeel.AppKit.Editing
open Manifest (Text)
open Tilings TextRows

def FarHalf (charWidth : Char → ℕ) (row : Row) (text : Text) (column : ℕ) : Prop :=
  row.hard = false ∧ ∃ c, (row.characters text).getLast? = some c ∧
    column < displayWidth charWidth (row.characters text).dropLast + cells charWidth c ∧
    cells charWidth c ≤ (column - displayWidth charWidth (row.characters text).dropLast) * 2

section
variable {charWidth : Char → ℕ}
variable {row : Row} {text : Text} {column : ℕ}

theorem FarHalf.wide (h : FarHalf charWidth row text column) :
    ∃ c, (row.characters text).getLast? = some c ∧ 2 ≤ cells charWidth c := by
  obtain ⟨-,c,hlast,hcolumn,hfar⟩ := h
  have hcells : 1 ≤ cells charWidth c := Nat.le_max_right _ _
  exact ⟨c,hlast,by omega⟩

/-! ### Columns and places -/

theorem rowColOf_eq {rows : List Row} {hi i index : ℕ} (h : Tiles Row.start Row.past 0 rows hi)
    (hrow : rows[i]? = some row) (hstart : row.start ≤ index) (hpast : index < row.past) :
    rowColOf charWidth rows text index = (i,displayWidthBetween charWidth text row.start index) := by
  have hfind : (rows.findIdx? fun row => index < row.stop || (index = row.stop && row.hard)) = some i := by
    simp only [before_past]
    exact h.findIdx?_eq hrow hstart hpast
  unfold rowColOf
  dsimp only
  rw [hfind, Option.getD_some, hrow]
  rfl

theorem characters_length (h : row.stop ≤ text.length) : (row.characters text).length = row.stop - row.start := by
  rw [Row.characters, List.length_take, List.length_drop]
  omega

/-- A column of a row is a place in this row, but for the farther half of the character that ends a soft one. -/
theorem indexAtColumn_inside (hrange : row.start < row.past) (hinside : row.Inside text.length)
    (hnear : ¬FarHalf charWidth row text column) :
    row.start ≤ indexAtColumn charWidth row text column ∧ indexAtColumn charWidth row text column < row.past := by
  obtain ⟨hstart,hstop⟩ := hinside
  have hpast : row.past = if row.hard then row.stop + 1 else row.stop := rfl
  unfold indexAtColumn
  cases hindex : columnIndex charWidth column 0 row.start ((text.drop row.start).take (row.stop - row.start)) with
  | none =>
    rw [Option.getD_none]
    rw [hpast] at hrange ⊢
    cases hhard : row.hard with
    | true =>
      exact ⟨hstart,Nat.lt_succ_self _⟩
    | false =>
      rw [hhard, if_neg Bool.false_ne_true] at hrange
      rw [if_neg Bool.false_ne_true, if_neg Bool.false_ne_true]
      omega
  | some i =>
    rw [Option.getD_some]
    obtain ⟨hlow,hhigh⟩ := columnIndex_spec hindex
    rw [show ((text.drop row.start).take (row.stop - row.start)).length = row.stop - row.start from characters_length hstop] at hhigh
    refine ⟨hlow,?_⟩
    rw [hpast]
    rcases hhigh with hlt | ⟨heq,c,hlast,hcolumn,hfar⟩
    · split_ifs <;> omega
    · cases hhard : row.hard with
      | true =>
        rw [if_pos rfl]
        omega
      | false =>
        rw [Nat.zero_add] at hcolumn hfar
        exact absurd ⟨hhard,c,hlast,hcolumn,hfar⟩ hnear

/-- Where a column of a row is looked for, it is found in that row. -/
theorem rowColOf_indexAtColumn {width i : ℕ} (hrow : (wrapRows charWidth text width)[i]? = some row)
    (hnear : ¬FarHalf charWidth row text column) :
    (rowColOf charWidth (wrapRows charWidth text width) text (indexAtColumn charWidth row text column)).1 = i := by
  have htiles := @wrapRows_tiles charWidth text width
  have hinside := wrapRows_inside text width row (List.mem_of_getElem? hrow)
  obtain ⟨hstart,hpast⟩ := indexAtColumn_inside (htiles.inside hrow).2.1 hinside hnear
  rw [rowColOf_eq htiles hrow hstart hpast]

theorem rowColOf_contains {width index : ℕ} (h : index ≤ text.length) :
    ∃ row, (wrapRows charWidth text width)[(rowColOf charWidth (wrapRows charWidth text width) text index).1]? = some row ∧
      row.start ≤ index ∧ (index < row.stop ∨ index = row.stop ∧ row.hard = true) := by
  have htiles := @wrapRows_tiles charWidth text width
  obtain ⟨i,row,hrow,hstart,hpast⟩ := htiles.exists_mem (Nat.zero_le index) (Nat.lt_succ_of_le h)
  rw [rowColOf_eq htiles hrow hstart hpast]
  refine ⟨row,hrow,hstart,?_⟩
  have hbefore := (@before_past row index).trans (decide_eq_true hpast)
  simpa using hbefore

end

/-! ### Up and down -/

section
variable {tables : CharTables} {box : TextBox}

def TextBox.column (tables : CharTables) (box : TextBox) : ℕ := box.preferredColumn.getD (box.cursorRowCol tables).2

theorem moveVertical_eq {delta : ℤ} {target : ℕ} {row : Row} (extend : Bool)
    (htarget : ((box.cursorRowCol tables).1 : ℤ) + delta = target) (hrow : (box.layout tables box.contentWidth)[target]? = some row) :
    (box.moveVertical tables delta extend).1 = { box with
      editor := (box.editor.moveTo (indexAtColumn tables.width row box.editor.text (box.column tables)) extend).1,
      preferredColumn := some (box.column tables) } := by
  unfold TextBox.moveVertical
  dsimp only
  rw [TextBox.cursorRowCol] at htarget
  rw [htarget, if_neg (Int.not_lt.mpr (Int.natCast_nonneg target)), Int.toNat_natCast, hrow]
  rfl

/-- A move to a row that exists ends in that row, in a text and a width that stay, and keeps the column. -/
theorem moveVertical_row {delta : ℤ} {target : ℕ} {row : Row} (extend : Bool)
    (htarget : ((box.cursorRowCol tables).1 : ℤ) + delta = target) (hrow : (box.layout tables box.contentWidth)[target]? = some row)
    (hnear : ¬FarHalf tables.width row box.editor.text (box.column tables)) :
    ((box.moveVertical tables delta extend).1.cursorRowCol tables).1 = target ∧
      (box.moveVertical tables delta extend).1.column tables = box.column tables ∧
      (box.moveVertical tables delta extend).1.editor.text = box.editor.text ∧
      (box.moveVertical tables delta extend).1.contentWidth = box.contentWidth := by
  have hplace := @indexAtColumn_le tables.width _ _ (layout_inside hrow) (box.column tables)
  have hfound := rowColOf_indexAtColumn hrow hnear
  rw [moveVertical_eq extend htarget hrow]
  refine ⟨?_,rfl,rfl,rfl⟩
  rw [← Nat.min_eq_left hplace] at hfound
  exact hfound

end

section
variable (tables : CharTables)

def TextBox.moves (delta : ℤ) (box : TextBox) (extending : List Bool) : TextBox :=
  extending.foldl (fun box extend => (box.moveVertical tables delta extend).1) box

end

section
variable {tables : CharTables} {box : TextBox}

/-- Moves end in the row that is so many rows on, when each row on the way exists and has the column in it. -/
theorem moves_row {delta : ℤ} (extending : List Bool)
    (h : ∀ k < extending.length, ∃ (target : ℕ) (row : Row), ((box.cursorRowCol tables).1 : ℤ) + delta * (k + 1 : ℕ) = target ∧
      (box.layout tables box.contentWidth)[target]? = some row ∧ ¬FarHalf tables.width row box.editor.text (box.column tables)) :
    (((box.moves tables delta extending).cursorRowCol tables).1 : ℤ) = (box.cursorRowCol tables).1 + delta * extending.length := by
  induction extending generalizing box with
  | nil => simp [TextBox.moves]
  | cons extend extending ih =>
    obtain ⟨target,row,htarget,hrow,hnear⟩ := h 0 (Nat.succ_pos _)
    rw [Nat.zero_add, Nat.cast_one, mul_one] at htarget
    obtain ⟨hmoved,hcolumn,htext,hwidth⟩ := moveVertical_row extend htarget hrow hnear
    have hrest := @ih (box.moveVertical tables delta extend).1 fun k hk => (by
      obtain ⟨next,row,hnext,hrow,hnear⟩ := h (k + 1) (Nat.succ_lt_succ hk)
      refine ⟨next,row,?_,?_,?_⟩
      · rw [hmoved, ← htarget, ← hnext, Nat.cast_succ (k + 1), mul_add delta, mul_one]
        omega
      · rw [TextBox.layout, htext, hwidth]
        exact hrow
      · rw [htext, hcolumn]
        exact hnear)
    rw [List.length_cons, Nat.cast_succ, mul_add, mul_one]
    refine hrest.trans ?_
    omega

theorem rowColOf_lt {charWidth : Char → ℕ} {rows : List Row} (text : Text) (index : ℕ) (h : 0 < rows.length) :
    (rowColOf charWidth rows text index).1 < rows.length := by
  unfold rowColOf
  dsimp only
  split
  next => exact h
  next row hrow => exact (List.getElem?_eq_some_iff.mp hrow).1

theorem cursorRow_lt : (box.cursorRowCol tables).1 < (box.layout tables box.contentWidth).length := by
  obtain ⟨first,row,hrow,-⟩ := (@wrapRows_tiles tables.width box.editor.text box.contentWidth).exists_mem
    (Nat.le_refl 0) (Nat.succ_pos _)
  exact rowColOf_lt _ _ (Nat.lt_of_le_of_lt (Nat.zero_le first) (List.getElem?_eq_some_iff.mp hrow).1)

/-- Ups end in the row that is so many rows above. -/
theorem moves_up {extending : List Bool} (hroom : extending.length ≤ (box.cursorRowCol tables).1)
    (hnear : ∀ (i : ℕ) (row : Row), i < (box.cursorRowCol tables).1 → (box.cursorRowCol tables).1 ≤ i + extending.length →
      (box.layout tables box.contentWidth)[i]? = some row → ¬FarHalf tables.width row box.editor.text (box.column tables)) :
    ((box.moves tables (-1) extending).cursorRowCol tables).1 = (box.cursorRowCol tables).1 - extending.length := by
  have hmoves := @moves_row tables box (-1) extending fun k hk => (by
    have hlt : (box.cursorRowCol tables).1 - (k + 1) < (box.layout tables box.contentWidth).length :=
      Nat.lt_of_le_of_lt (Nat.sub_le _ _) cursorRow_lt
    exact ⟨(box.cursorRowCol tables).1 - (k + 1),_,by omega,List.getElem?_eq_getElem hlt,
      hnear _ _ (by omega) (by omega) (List.getElem?_eq_getElem hlt)⟩)
  omega

/-- Downs end in the row that is so many rows below. -/
theorem moves_down {extending : List Bool}
    (hroom : (box.cursorRowCol tables).1 + extending.length < (box.layout tables box.contentWidth).length)
    (hnear : ∀ (i : ℕ) (row : Row), (box.cursorRowCol tables).1 < i → i ≤ (box.cursorRowCol tables).1 + extending.length →
      (box.layout tables box.contentWidth)[i]? = some row → ¬FarHalf tables.width row box.editor.text (box.column tables)) :
    ((box.moves tables 1 extending).cursorRowCol tables).1 = (box.cursorRowCol tables).1 + extending.length := by
  have hmoves := @moves_row tables box 1 extending fun k hk => (by
    have hlt : (box.cursorRowCol tables).1 + (k + 1) < (box.layout tables box.contentWidth).length := by omega
    exact ⟨(box.cursorRowCol tables).1 + (k + 1),_,by omega,List.getElem?_eq_getElem hlt,
      hnear _ _ (by omega) (by omega) (List.getElem?_eq_getElem hlt)⟩)
  omega

end

/-! ### The rows of a text, and the way through them -/

/-- The rows of a text cover its lines, each place of the text is in one of them, and ups and downs go through them one by
one, as long as the column that is kept is not behind the wide end of a soft row. Without any width there is one row for
each line. -/
theorem text_box_rows (tables : CharTables) (text : Text) (width : ℕ) :
    (∃ lines : List (List Row), wrapRows tables.width text width = lines.flatten ∧
      List.Forall₂ (Covers text) (text.splitOn '\n') lines) ∧
    (0 < width → ∀ row ∈ wrapRows tables.width text width, Fits tables.width text width row) ∧
    (width = 0 → ∀ row ∈ wrapRows tables.width text width, row.hard = true) ∧
    (∀ index ≤ text.length, ∃ row,
      (wrapRows tables.width text width)[(rowColOf tables.width (wrapRows tables.width text width) text index).1]? = some row ∧
      row.start ≤ index ∧ (index < row.stop ∨ index = row.stop ∧ row.hard = true)) ∧
    (∀ (i column : ℕ) (row : Row), (wrapRows tables.width text width)[i]? = some row → ¬FarHalf tables.width row text column →
      (rowColOf tables.width (wrapRows tables.width text width) text (indexAtColumn tables.width row text column)).1 = i) ∧
    ∀ box : TextBox, box.editor.text = text → box.contentWidth = width → ∀ extending : List Bool,
      (extending.length ≤ (box.cursorRowCol tables).1 →
        (∀ (i : ℕ) (row : Row), i < (box.cursorRowCol tables).1 → (box.cursorRowCol tables).1 ≤ i + extending.length →
          (wrapRows tables.width text width)[i]? = some row → ¬FarHalf tables.width row text (box.column tables)) →
        ((box.moves tables (-1) extending).cursorRowCol tables).1 = (box.cursorRowCol tables).1 - extending.length) ∧
      ((box.cursorRowCol tables).1 + extending.length < (wrapRows tables.width text width).length →
        (∀ (i : ℕ) (row : Row), (box.cursorRowCol tables).1 < i → i ≤ (box.cursorRowCol tables).1 + extending.length →
          (wrapRows tables.width text width)[i]? = some row → ¬FarHalf tables.width row text (box.column tables)) →
        ((box.moves tables 1 extending).cursorRowCol tables).1 = (box.cursorRowCol tables).1 + extending.length) := by
  refine ⟨wrapLines_covers (Nat.zero_le _),wrapRows_fits text,?_,fun index h => rowColOf_contains h,
    fun i column row hrow hnear => rowColOf_indexAtColumn hrow hnear,?_⟩
  · rintro rfl
    exact wrapRows_hard text
  · rintro box rfl rfl extending
    exact ⟨moves_up,moves_down⟩

def wideTables : CharTables where
  width c := if c.toNat < 128 then 1 else 2
  isAlphanumeric _ := false
  isWhitespace c := c = ' '

def boxWith (text : Text) (cursor width : ℕ) : TextBox :=
  { TextBox.new with editor := ⟨text,cursor,none,none,⟨none⟩⟩, contentWidth := width }

theorem text_box_rows_narrow :
    (∀ row ∈ wrapRows wideTables.width ['a','b',' ','c','d'] 3, Fits wideTables.width ['a','b',' ','c','d'] 3 row) ∧
    (∀ row ∈ wrapRows wideTables.width ['a','b',' ','c','d'] 0, row.hard = true) ∧
    (((boxWith ['a','b',' ','c','d'] 4 3).moves wideTables (-1) [false]).cursorRowCol wideTables).1 = 0 ∧
    (((boxWith ['a','b',' ','c','d'] 1 3).moves wideTables 1 [true]).cursorRowCol wideTables).1 = 1 := by
  obtain ⟨-,hfits,-,-,-,hmoves⟩ := text_box_rows wideTables ['a','b',' ','c','d'] 3
  obtain ⟨-,-,hhard,-⟩ := text_box_rows wideTables ['a','b',' ','c','d'] 0
  have hrows : wrapRows wideTables.width ['a','b',' ','c','d'] 3 = [⟨0,3,false⟩,⟨3,5,true⟩] := by decide +kernel
  have hnear : ∀ (row : Row) (column : ℕ), ¬FarHalf wideTables.width row ['a','b',' ','c','d'] column := by
    intro row column hfar
    obtain ⟨c,hlast,hwide⟩ := hfar.wide
    have hnarrow : ∀ c ∈ ['a','b',' ','c','d'], cells wideTables.width c = 1 := by simp [cells, wideTables]
    have hc := hnarrow c (List.mem_of_mem_drop (List.mem_of_mem_take (List.mem_of_getLast? hlast)))
    omega
  have hup : ((boxWith ['a','b',' ','c','d'] 4 3).cursorRowCol wideTables).1 = 1 := by decide +kernel
  have hdown : ((boxWith ['a','b',' ','c','d'] 1 3).cursorRowCol wideTables).1 = 0 := by decide +kernel
  refine ⟨hfits (by decide),hhard rfl,?_,?_⟩
  · have hmoved := (hmoves (boxWith ['a','b',' ','c','d'] 4 3) rfl rfl [false]).1 (by rw [hup]; decide) fun _ row _ _ _ => hnear row _
    rw [hmoved, hup]
    rfl
  · have hmoved := (hmoves (boxWith ['a','b',' ','c','d'] 1 3) rfl rfl [true]).2 (by rw [hdown, hrows]; decide)
      fun _ row _ _ _ => hnear row _
    rw [hmoved, hdown]
    rfl

def wideText : Text := ['宽','宽','a','宽']

theorem wideRows : wrapRows wideTables.width wideText 4 = [⟨0,2,false⟩,⟨2,4,true⟩] := by decide +kernel

structure Stuck (box : TextBox) : Prop where
  text : box.editor.text = wideText
  width : box.contentWidth = 4
  row : (box.cursorRowCol wideTables).1 = 1
  column : box.column wideTables = 3

theorem Stuck.up {box : TextBox} (h : Stuck box) (extend : Bool) : Stuck (box.moveVertical wideTables (-1) extend).1 := by
  have htarget : ((box.cursorRowCol wideTables).1 : ℤ) + -1 = (0 : ℕ) := by
    rw [h.row]
    rfl
  have hrow : (box.layout wideTables box.contentWidth)[0]? = some ⟨0,2,false⟩ := by
    rw [TextBox.layout, h.text, h.width, wideRows]
    rfl
  have hfound : (rowColOf wideTables.width (wrapRows wideTables.width wideText 4) wideText
      (min (indexAtColumn wideTables.width ⟨0,2,false⟩ wideText 3) wideText.length)).1 = 1 := by decide +kernel
  rw [moveVertical_eq extend htarget hrow, h.column]
  refine ⟨h.text,h.width,?_,rfl⟩
  rw [← h.text, ← h.width] at hfound
  exact hfound

theorem Stuck.ups {box : TextBox} (h : Stuck box) (extending : List Bool) : Stuck (box.moves wideTables (-1) extending) := by
  induction extending generalizing box with
  | nil => exact h
  | cons extend extending ih => exact ih (h.up extend)

/-- Without any width a row is wider than the width, and a column over the farther half of a wide character at the end of a
soft row is not a place in this row, so that no number of ups leaves the row below. -/
theorem text_box_rows_wide :
    (¬∀ row ∈ wrapRows wideTables.width ['a','b'] 0, Fits wideTables.width ['a','b'] 0 row) ∧
    (wrapRows wideTables.width wideText 4)[0]? = some ⟨0,2,false⟩ ∧
    (rowColOf wideTables.width (wrapRows wideTables.width wideText 4) wideText
      (indexAtColumn wideTables.width ⟨0,2,false⟩ wideText 3)).1 = 1 ∧
    ∀ extending : List Bool, (((boxWith wideText 4 4).moves wideTables (-1) extending).cursorRowCol wideTables).1 = 1 := by
  have hstuck : Stuck (boxWith wideText 4 4) := ⟨rfl,rfl,by decide +kernel,by decide +kernel⟩
  have hrows : wrapRows wideTables.width ['a','b'] 0 = [⟨0,2,true⟩] := by decide +kernel
  refine ⟨fun hall => ?_,by rw [wideRows]; rfl,by decide +kernel,fun extending => (hstuck.ups extending).row⟩
  rw [hrows] at hall
  have hfits := hall ⟨0,2,true⟩ (List.mem_singleton_self _)
  revert hfits
  unfold Fits
  decide

end Unpeel.AppKit.Editing
