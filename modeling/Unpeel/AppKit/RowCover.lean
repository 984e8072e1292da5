import Unpeel.AppKit.TextRows
import Unpeel.Foundation.Tilings

/-! # Rows cover their text

The rows of a text stand one behind the other: each place of the text is in exactly one of them, the
place at a newline in the row that the newline ends. No row is wider than it must be.
-/
namespace Unpeel.AppKit.TextRows
open List

open Manifest (Text)
open Tilings
variable {rowStart : ℕ}

def Row.past (row : Row) : ℕ := if row.hard then row.stop + 1 else row.stop

def Row.characters (row : Row) (text : Text) : Text := (text.drop row.start).take (row.stop - row.start)

section
variable (charWidth : Char → ℕ)

def Fits (text : Text) (width : ℕ) (row : Row) : Prop :=
  displayWidth charWidth (row.characters text) ≤ width ∨
  ((row.characters text).getLast? = some ' ' ∧ displayWidth charWidth (row.characters text).dropLast ≤ width) ∨
  (row.characters text).length = 1

end

variable {charWidth : Char → ℕ}

theorem before_past {row : Row} {index : ℕ} : (index < row.stop || (index = row.stop && row.hard)) = decide (index < row.past) := by
  unfold Row.past
  cases row.hard with
  | true =>
    rw [if_pos rfl, Bool.and_true, ← Bool.decide_or, decide_eq_decide]
    omega
  | false => simp

theorem displayWidth_append (left right : Text) :
    displayWidth charWidth (left ++ right) = displayWidth charWidth left + displayWidth charWidth right := by
  simp [displayWidth]

/-! ### Slices -/

theorem slice_append (text : Text) {start middle stop : ℕ} (hstart : start ≤ middle) (hstop : middle ≤ stop) :
    (text.drop start).take (middle - start) ++ (text.drop middle).take (stop - middle) = (text.drop start).take (stop - start) := by
  have hdrop : text.drop middle = (text.drop start).drop (middle - start) := by
    rw [drop_drop]
    congr 1
    omega
  have hsum : stop - start = (middle - start) + (stop - middle) := by omega
  rw [hdrop, hsum, take_add]

variable {text : Text}

theorem slice_succ {start index : ℕ} (hstart : start ≤ index) (hindex : index < text.length) :
    (text.drop start).take (index + 1 - start) = (text.drop start).take (index - start) ++ [text.getD index ' '] := by
  rw [← slice_append text hstart (Nat.le_succ index)]
  congr 1
  rw [show index.succ - index = 1 from by omega, drop_eq_getElem_cons hindex, getD_eq_getElem?_getD,
    getElem?_eq_getElem hindex]
  rfl

theorem displayWidthBetween_self (text : Text) (start : ℕ) : displayWidthBetween charWidth text start start = 0 := by
  rw [displayWidthBetween, Nat.sub_self]
  rfl

theorem displayWidthBetween_succ {start index : ℕ} (hstart : start ≤ index) (hindex : index < text.length) :
    displayWidthBetween charWidth text start (index + 1) =
      displayWidthBetween charWidth text start index + cells charWidth (text.getD index ' ') := by
  rw [displayWidthBetween, slice_succ hstart hindex, displayWidth_append]
  simp [displayWidth, displayWidthBetween]

theorem displayWidthBetween_mono (text : Text) {start middle stop : ℕ} (hstart : start ≤ middle) (hstop : middle ≤ stop) :
    displayWidthBetween charWidth text start middle ≤ displayWidthBetween charWidth text start stop := by
  rw [displayWidthBetween, displayWidthBetween, ← slice_append text hstart hstop, displayWidth_append]
  exact Nat.le_add_right _ _

/-! ### Positions -/

variable {characters : Text} {stop width : ℕ}

theorem wrapFrom_tiles (h : rowStart ≤ stop) :
    Tiles Row.start Row.past rowStart (wrapFrom charWidth characters stop width rowStart) (stop + 1) := by
  refine wrapFrom_induction (P := fun rowStart rows => Tiles Row.start Row.past rowStart rows (stop + 1)) ?_ ?_ ?_ h
  · intro rowStart lastSpace hlt _
    exact ⟨rfl,Nat.lt_succ_of_lt hlt,rfl⟩
  · intro rowStart index lastSpace rows _ _ _ hrows
    exact ⟨rfl,lt_breakAt rowStart index lastSpace,hrows⟩
  · exact ⟨rfl,Nat.lt_succ_self stop,rfl⟩

theorem wrapLine_tiles {start stop width : ℕ} (h : start ≤ stop) :
    Tiles Row.start Row.past start (wrapLine charWidth characters start stop width) (stop + 1) := by
  unfold wrapLine
  split_ifs
  · exact ⟨rfl,Nat.lt_succ_of_le h,rfl⟩
  · exact wrapFrom_tiles h

theorem wrapLines_tiles {width lineStart : ℕ} (h : lineStart ≤ characters.length) :
    Tiles Row.start Row.past lineStart (wrapLines charWidth characters width lineStart) (characters.length + 1) := by
  induction lineStart using wrapLines.induct characters with
  | case1 lineStart lineEnd ih =>
    have hend : lineEnd ≤ characters.length := lineEnd_le h
    rw [wrapLines]
    refine (wrapLine_tiles (Nat.le_add_right _ _)).append ?_
    split_ifs with hlast
    · exact congrArg (· + 1) (Nat.le_antisymm hend hlast)
    · exact ih hlast (by omega)

theorem wrapRows_tiles (text : Text) (width : ℕ) : Tiles Row.start Row.past 0 (wrapRows charWidth text width) (text.length + 1) :=
  wrapLines_tiles (Nat.zero_le _)

/-! ### Widths -/

def Filled (charWidth : Char → ℕ) (text : Text) (width rowStart index : ℕ) (lastSpace : Option ℕ) : Prop :=
  rowStart ≤ index ∧ displayWidthBetween charWidth text rowStart index ≤ width ∧ ∀ space ∈ lastSpace, rowStart ≤ space ∧ space < index

/-- Behind the loop the row fits, or a space hangs at its end. -/
theorem fillRow_spec {characters : Text} {stop width rowStart used index : ℕ} {lastSpace : Option ℕ} (hstop : stop ≤ characters.length)
    (h : Filled charWidth characters width rowStart index lastSpace) (hused : used = displayWidthBetween charWidth characters rowStart index) :
    Filled charWidth characters width rowStart (fillRow charWidth characters stop width used index lastSpace).1
      (fillRow charWidth characters stop width used index lastSpace).2 ∨
    ∃ space, fillRow charWidth characters stop width used index lastSpace = (space + 1,some space) ∧ rowStart ≤ space ∧ space < stop ∧
      characters.getD space ' ' = ' ' ∧ displayWidthBetween charWidth characters rowStart space ≤ width := by
  induction used, index, lastSpace using fillRow.induct charWidth characters stop width with
  | case1 used index lastSpace hlt c hfull hc =>
    rw [fillRow, if_pos hlt]
    rw [if_pos hfull, if_pos hc]
    exact Or.inr ⟨index,rfl,h.1,hlt,hc,h.2.1⟩
  | case2 used index lastSpace hlt c hfull hc =>
    rw [fillRow, if_pos hlt]
    rw [if_pos hfull, if_neg hc]
    exact Or.inl h
  | case3 used index lastSpace hlt c hfits ih =>
    obtain ⟨hstart,hwidth,hspace⟩ := h
    have hnext : used + cells charWidth c = displayWidthBetween charWidth characters rowStart (index + 1) := by
      rw [displayWidthBetween_succ hstart (Nat.lt_of_lt_of_le hlt hstop), hused]
    rw [fillRow, if_pos hlt]
    rw [if_neg hfits]
    refine ih ⟨Nat.le_succ_of_le hstart,by omega,fun space hin => ?_⟩ hnext
    split_ifs at hin
    · cases hin
      exact ⟨hstart,Nat.lt_succ_self _⟩
    · exact ⟨(hspace space hin).1,Nat.lt_succ_of_lt (hspace space hin).2⟩
  | case4 used index lastSpace hge =>
    rw [fillRow, if_neg hge]
    exact Or.inl h

variable {hard : Bool}

theorem fits_of_le {width start stop : ℕ} (h : displayWidthBetween charWidth text start stop ≤ width) :
    Fits charWidth text width ⟨start,stop,hard⟩ := Or.inl h

theorem fits_of_hanging {width start space : ℕ} (hstart : start ≤ space) (hlength : space < text.length)
    (hspace : text.getD space ' ' = ' ') (h : displayWidthBetween charWidth text start space ≤ width) :
    Fits charWidth text width ⟨start,space + 1,hard⟩ := by
  have hcharacters : (⟨start,space + 1,hard⟩ : Row).characters text = (text.drop start).take (space - start) ++ [' '] := by
    rw [Row.characters, slice_succ hstart hlength, hspace]
  refine Or.inr (Or.inl ⟨?_,?_⟩)
  · rw [hcharacters, getLast?_concat]
  · rw [hcharacters, dropLast_concat]
    exact h

theorem fits_single {width start : ℕ} (h : start < text.length) : Fits charWidth text width ⟨start,start + 1,hard⟩ := by
  refine Or.inr (Or.inr ?_)
  rw [Row.characters, slice_succ (Nat.le_refl start) h, Nat.sub_self]
  rfl

/-- Where a full row breaks it fits. -/
theorem break_fits {stop width index : ℕ} {lastSpace : Option ℕ} (hstop : stop ≤ characters.length)
    (hlt : rowStart < stop) (h : Filled charWidth characters width rowStart index lastSpace ∨
      ∃ space, (index,lastSpace) = (space + 1,some space) ∧ rowStart ≤ space ∧ space < stop ∧ characters.getD space ' ' = ' ' ∧
        displayWidthBetween charWidth characters rowStart space ≤ width) :
    Fits charWidth characters width ⟨rowStart,breakAt rowStart index lastSpace,false⟩ := by
  rcases h with ⟨hstart,hwidth,hspace⟩ | ⟨space,heq,hstart,hspace,hchar,hwidth⟩
  · cases lastSpace with
    | some space =>
      obtain ⟨hlow,hhigh⟩ := hspace space rfl
      rw [breakAt, if_pos (by omega)]
      exact fits_of_le (Nat.le_trans (displayWidthBetween_mono characters (by omega) hhigh) hwidth)
    | none =>
      rw [breakAt]
      rcases Nat.lt_or_ge rowStart index with hmore | hnone
      · rw [Nat.max_eq_left hmore]
        exact fits_of_le hwidth
      · rw [Nat.max_eq_right (by omega)]
        exact fits_single (Nat.lt_of_lt_of_le hlt hstop)
  · cases heq
    rw [breakAt, if_pos (by omega)]
    exact fits_of_hanging hstart (Nat.lt_of_lt_of_le hspace hstop) hchar hwidth

theorem filled_start (text : Text) (width rowStart : ℕ) : Filled charWidth text width rowStart rowStart none := by
  refine ⟨Nat.le_refl _,?_,fun _ hin => (by cases hin)⟩
  rw [displayWidthBetween_self]
  exact Nat.zero_le _

theorem wrapFrom_fits (hstop : stop ≤ characters.length) (h : rowStart ≤ stop) :
    ∀ row ∈ wrapFrom charWidth characters stop width rowStart, Fits charWidth characters width row := by
  have hspec : ∀ rowStart, _ := fun rowStart =>
    @fillRow_spec charWidth characters stop width rowStart 0 rowStart none hstop (filled_start _ _ _) (displayWidthBetween_self _ _).symm
  refine wrapFrom_induction (P := fun _ rows => ∀ row ∈ rows, Fits charWidth characters width row) ?_ ?_ ?_ h
  · intro rowStart lastSpace _ hfill
    refine forall_mem_singleton.mpr ?_
    have hfilled := hspec rowStart
    rw [hfill] at hfilled
    rcases hfilled with ⟨-,hwidth,-⟩ | ⟨space,heq,hstart,hspace,hchar,hwidth⟩
    · exact fits_of_le hwidth
    · cases heq
      exact fits_of_hanging hstart (Nat.lt_of_lt_of_le hspace hstop) hchar hwidth
  · intro rowStart index lastSpace rows hlt hfill _ hrows
    have hfilled := hspec rowStart
    rw [hfill] at hfilled
    exact forall_mem_cons.mpr ⟨break_fits hstop hlt hfilled,hrows⟩
  · exact forall_mem_singleton.mpr (fits_of_le (filled_start _ _ _).2.1)

theorem wrapLine_fits {start stop width : ℕ} (hwidth : 0 < width) (hstop : stop ≤ characters.length) (h : start ≤ stop) :
    ∀ row ∈ wrapLine charWidth characters start stop width, Fits charWidth characters width row := by
  unfold wrapLine
  split_ifs with hline
  · obtain rfl : start = stop := hline.resolve_left (by omega)
    intro row hrow
    rw [mem_singleton.mp hrow]
    exact fits_of_le (filled_start _ _ _).2.1
  · exact wrapFrom_fits hstop h

theorem wrapRows_fits (text : Text) {width : ℕ} (hwidth : 0 < width) : ∀ row ∈ wrapRows charWidth text width, Fits charWidth text width row :=
  forall_wrapLines (Nat.zero_le _) fun _ _ hrange hstop => wrapLine_fits hwidth hstop hrange

/-- Without any width each line is one row. -/
theorem wrapRows_hard (text : Text) : ∀ row ∈ wrapRows charWidth text 0, row.hard = true := by
  refine forall_wrapLines (Nat.zero_le _) fun start stop _ _ row hrow => ?_
  rw [mem_singleton.mp hrow]

/-! ### Lines -/

structure Covers (text line : Text) (rows : List Row) : Prop where
  characters : rows.flatMap (fun row => row.characters text) = line
  ends : ∃ soft last, rows = soft ++ [last] ∧ last.hard = true ∧ ∀ row ∈ soft, row.hard = false

theorem covers_singleton (text : Text) (start stop : ℕ) : Covers text ((text.drop start).take (stop - start)) [⟨start,stop,true⟩] :=
  ⟨append_nil _,[],⟨start,stop,true⟩,rfl,rfl,fun _ h => (by cases h)⟩

theorem wrapFrom_covers (h : rowStart ≤ stop) :
    Covers characters ((characters.drop rowStart).take (stop - rowStart)) (wrapFrom charWidth characters stop width rowStart) := by
  refine wrapFrom_induction
    (P := fun rowStart rows => Covers characters ((characters.drop rowStart).take (stop - rowStart)) rows) ?_ ?_ ?_ h
  · intro rowStart lastSpace _ _
    exact covers_singleton characters rowStart stop
  · rintro rowStart index lastSpace rows _ _ hbreak ⟨hcharacters,soft,last,hrows,hlast,hsoft⟩
    refine ⟨?_,⟨rowStart,breakAt rowStart index lastSpace,false⟩ :: soft,last,by rw [hrows]; rfl,hlast,forall_mem_cons.mpr ⟨rfl,hsoft⟩⟩
    rw [flatMap_cons, hcharacters]
    exact slice_append characters (Nat.le_of_lt (lt_breakAt rowStart index lastSpace)) hbreak
  · exact covers_singleton characters stop stop

theorem wrapLine_covers {characters : Text} {start stop width : ℕ} (h : start ≤ stop) :
    Covers characters ((characters.drop start).take (stop - start)) (wrapLine charWidth characters start stop width) := by
  unfold wrapLine
  split_ifs
  · exact covers_singleton characters start stop
  · exact wrapFrom_covers h

/-- The next line, and what is behind it. -/
theorem splitOn_line (text : Text) : text.splitOn '\n' = text.take (text.findIdx (· = '\n')) ::
    if text.length ≤ text.findIdx (· = '\n') then [] else (text.drop (text.findIdx (· = '\n') + 1)).splitOn '\n' := by
  have hline : ∀ c ∈ text.take (text.findIdx (· = '\n')), (c == '\n') = false := by
    intro c hc
    obtain ⟨i,hi,rfl⟩ := mem_iff_getElem.mp hc
    rw [length_take] at hi
    have hnot := @List.not_of_lt_findIdx _ (fun c => decide (c = '\n')) text i (by omega)
    simpa using hnot
  rw [splitOn_eq_splitOnP]
  split_ifs with hend
  · rw [take_of_length_le hend] at hline ⊢
    exact splitOnP_eq_singleton hline
  · have hlt : text.findIdx (· = '\n') < text.length := Nat.lt_of_not_le hend
    have hnewline : text[text.findIdx (· = '\n')] = '\n' := by simpa using findIdx_getElem (w := hlt)
    have hsplit : text = text.take (text.findIdx (· = '\n')) ++ '\n' :: text.drop (text.findIdx (· = '\n') + 1) := by
      have hdrop := drop_eq_getElem_cons hlt
      rw [hnewline] at hdrop
      rw [← hdrop, take_append_drop]
    conv_lhs => rw [hsplit]
    rw [splitOnP_append_cons_of_forall_mem hline _ (by rfl)]
    rfl

/-- The rows of each line cover it. -/
theorem wrapLines_covers {width lineStart : ℕ} (h : lineStart ≤ characters.length) :
    ∃ lines : List (List Row), wrapLines charWidth characters width lineStart = lines.flatten ∧
      List.Forall₂ (Covers characters) ((characters.drop lineStart).splitOn '\n') lines := by
  induction lineStart using wrapLines.induct characters with
  | case1 lineStart lineEnd ih =>
    have hfirst := @wrapLine_covers charWidth characters lineStart lineEnd width (Nat.le_add_right _ _)
    rw [show lineEnd - lineStart = (characters.drop lineStart).findIdx (· = '\n') from Nat.add_sub_cancel_left _ _] at hfirst
    rw [wrapLines, splitOn_line]
    have hcond : (characters.drop lineStart).length ≤ (characters.drop lineStart).findIdx (· = '\n') ↔ characters.length ≤ lineEnd := by
      rw [length_drop]
      omega
    by_cases hlast : characters.length ≤ lineEnd
    · rw [if_pos hlast, if_pos (hcond.mpr hlast)]
      exact ⟨[wrapLine charWidth characters lineStart lineEnd width],rfl,.cons hfirst .nil⟩
    · obtain ⟨lines,hlines,hcovers⟩ := ih hlast (by omega)
      rw [if_neg hlast, if_neg (mt hcond.mp hlast), drop_drop]
      refine ⟨_ :: lines,by rw [hlines]; rfl,.cons hfirst ?_⟩
      exact hcovers

end Unpeel.AppKit.TextRows
