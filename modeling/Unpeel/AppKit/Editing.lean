import Unpeel.Foundation.TextSlices
import Unpeel.Manifest.Record

/-! # Editing a text with a selection

The text fields keep a cursor and anchors as numbers of characters and edit the text by byte
offsets. A selection is an anchor away from the cursor; an anchor at the cursor is kept.
-/
namespace Unpeel.AppKit.Editing
open List

open Manifest (Text)
open TextSlices
variable {start stop : ℕ}

/-- The Unicode tables: `UnicodeWidthChar::width` with 0 for none, `is_alphanumeric` and `is_whitespace`. -/
structure CharTables where
  width : Char → ℕ
  isAlphanumeric : Char → Bool
  isWhitespace : Char → Bool

/-- `char::is_control`. -/
def isControl (c : Char) : Bool := c.toNat < 32 || (127 ≤ c.toNat && c.toNat < 160)

/-! ### Byte offsets -/

def charIndices (byte : ℕ) : Text → List (ℕ × Char)
  | [] => []
  | c :: text => (byte,c) :: charIndices (byte + c.utf8Size) text

def charToByte (text : Text) (column : ℕ) : ℕ := ((charIndices 0 text)[column]?.map Prod.fst).getD (byteLen text)

/-- `String::replace_range`, which panics where there is no slice. -/
def replaceRange (text : Text) (start stop : ℕ) (replacement : Text) : Option Text := do
  let before ← sliceTo text start
  let after ← sliceFrom text stop
  if start ≤ stop then some (before ++ replacement ++ after) else none

/-- `String::insert_str`. -/
def insertStr (text : Text) (byte : ℕ) (insertion : Text) : Option Text := do
  let before ← sliceTo text byte
  let after ← sliceFrom text byte
  some (before ++ insertion ++ after)

/-! ### Words -/

inductive WordClass where
  | word
  | space
  | punctuation
deriving DecidableEq

section
variable (tables : CharTables)

def wordClass (c : Char) : WordClass :=
  if tables.isAlphanumeric c || c = '_' || c = '-' then .word else if tables.isWhitespace c then .space else .punctuation

def retreat (characters : Text) (cls : WordClass) : ℕ → ℕ
  | 0 => 0
  | index + 1 => if wordClass tables (characters.getD index ' ') = cls then retreat characters cls index else index + 1

def advance (characters : Text) (cls : WordClass) (index : ℕ) : ℕ :=
  if index < characters.length ∧ wordClass tables (characters.getD index ' ') = cls then advance characters cls (index + 1) else index
termination_by characters.length - index

def wordBounds (characters : Text) (index : ℕ) : ℕ × ℕ :=
  if characters.length ≤ index then (characters.length,characters.length)
  else
    let cls := wordClass tables (characters.getD index ' ')
    (retreat tables characters cls index,advance tables characters cls (index + 1))

def previousWordBoundary (characters : Text) (cursor : ℕ) : ℕ :=
  let index := retreat tables characters .space (min cursor characters.length)
  if index = 0 then 0 else retreat tables characters (wordClass tables (characters.getD (index - 1) ' ')) index

def nextWordBoundary (characters : Text) (cursor : ℕ) : ℕ :=
  let index := min cursor characters.length
  advance tables characters .space
    (if index < characters.length then advance tables characters (wordClass tables (characters.getD index ' ')) index else index)

end

/-! ### The editor -/

/-- `DoubleClickTracker` over ranges; times are in nanoseconds. -/
structure DoubleClickTracker where
  previous : Option ((ℕ × ℕ) × ℕ)

def doubleClickInterval : ℕ := 500000000

/-- `click_at`. -/
def DoubleClickTracker.click (clicks : DoubleClickTracker) (target : ℕ × ℕ) (now : ℕ) : Bool × DoubleClickTracker :=
  let completed := clicks.previous.any fun (previous,at') => previous = target && at' ≤ now && now - at' ≤ doubleClickInterval
  (completed,⟨if completed then none else some (target,now)⟩)

structure Editor where
  text : Text
  cursor : ℕ
  selectionAnchor : Option ℕ
  dragAnchor : Option ℕ
  clicks : DoubleClickTracker

def ordered (left right : ℕ) : ℕ × ℕ := if right < left then (right,left) else (left,right)

namespace Editor
variable (e : Editor)

def resetClicks : Editor := { e with clicks := ⟨none⟩ }

def selectionRange : Option (ℕ × ℕ) :=
  e.selectionAnchor.bind fun anchor => if anchor ≠ e.cursor then some (ordered anchor e.cursor) else none

/-- `selected_text`; the outer `none` is a panic. -/
def selectedText : Option (Option Text) :=
  match e.selectionRange with
  | none => some none
  | some (start,stop) => (slice e.text (charToByte e.text start) (charToByte e.text stop)).map some

def setText (text : Text) : Editor × Bool :=
  (⟨text,text.length,none,none,⟨none⟩⟩,text ≠ e.text)

/-- `delete_selection`; `none` is a panic. -/
def deleteSelection : Option (Editor × Bool) :=
  match e.selectionRange with
  | none => some (e,false)
  | some (start,stop) =>
    (replaceRange e.text (charToByte e.text start) (charToByte e.text stop) []).map fun text =>
      ({ e with text := text, cursor := start, selectionAnchor := none, dragAnchor := none },true)

/-- `insert_text` behind the sanitizing. -/
def insertText (insertion : Text) : Option (Editor × Bool) :=
  if insertion = [] then some (e.resetClicks,false)
  else do
    let (e,_) ← e.resetClicks.deleteSelection
    let text ← insertStr e.text (charToByte e.text e.cursor) insertion
    some ({ e with text := text, cursor := e.cursor + insertion.length, selectionAnchor := none },true)

def backspace : Option (Editor × Bool) := do
  let (e,deleted) ← e.resetClicks.deleteSelection
  if deleted then some (e,true)
  else if e.cursor = 0 then some (e,false)
  else do
    let text ← replaceRange e.text (charToByte e.text (e.cursor - 1)) (charToByte e.text e.cursor) []
    some ({ e with text := text, cursor := e.cursor - 1 },true)

def delete : Option (Editor × Bool) := do
  let (e,deleted) ← e.resetClicks.deleteSelection
  if deleted then some (e,true)
  else if e.text.length ≤ e.cursor then some (e,false)
  else do
    let text ← replaceRange e.text (charToByte e.text e.cursor) (charToByte e.text (e.cursor + 1)) []
    some ({ e with text := text },true)

def selectAll : Editor × Bool :=
  let all := if 0 < e.text.length then some (0,e.text.length) else none
  ({ e.resetClicks with selectionAnchor := if 0 < e.text.length then some 0 else none, cursor := e.text.length },
    e.selectionRange ≠ all)

/-- `move_to`, in the text box `move_to_keeping_column`. -/
def moveTo (target : ℕ) (extend : Bool) : Editor × Bool :=
  let moved : Editor := { e.resetClicks with
    cursor := min target e.text.length
    selectionAnchor := if extend then some (e.selectionAnchor.getD e.cursor) else none }
  (moved,e.cursor ≠ moved.cursor || e.selectionAnchor ≠ moved.selectionAnchor)

def moveLeft (tables : CharTables) (extend word : Bool) : Editor × Bool :=
  match if extend then none else e.selectionRange with
  | some (start,_) => e.moveTo start false
  | none => e.moveTo (if word then previousWordBoundary tables e.text e.cursor else e.cursor - 1) extend

def moveRight (tables : CharTables) (extend word : Bool) : Editor × Bool :=
  match if extend then none else e.selectionRange with
  | some (_,stop) => e.moveTo stop false
  | none => e.moveTo (if word then nextWordBoundary tables e.text e.cursor else min (e.cursor + 1) e.text.length) extend

/-- `mouse_down` at an index of the text. -/
def press (tables : CharTables) (wasFocused : Bool) (index : ℕ) (extend : Bool) (now : ℕ) : Editor × Bool :=
  let word := wordBounds tables e.text index
  let (double,clicks) := if word.1 < word.2 then e.clicks.click word now else (false,e.clicks)
  let pressed : Editor :=
    if double then { e with clicks := clicks, selectionAnchor := some word.1, cursor := word.2, dragAnchor := some word.1 }
    else if extend then
      { e with
        clicks := clicks
        selectionAnchor := some (e.selectionAnchor.getD e.cursor)
        cursor := index
        dragAnchor := some (e.selectionAnchor.getD e.cursor) }
    else { e with clicks := clicks, cursor := index, selectionAnchor := none, dragAnchor := some index }
  (pressed,!wasFocused || e.cursor ≠ pressed.cursor || e.selectionAnchor ≠ pressed.selectionAnchor ||
    e.dragAnchor ≠ pressed.dragAnchor)

/-- `mouse_drag` to an index of the text. -/
def dragTo (next : ℕ) : Editor × Bool :=
  match e.dragAnchor with
  | none => (e,false)
  | some anchor =>
    ({ e.resetClicks with selectionAnchor := some anchor, cursor := next },e.cursor ≠ next || e.selectionAnchor ≠ some anchor)

def mouseUp : Editor × Bool := ({ e with dragAnchor := none },e.dragAnchor.isSome)

/-- The part of `set_focused` about the mouse. -/
def setFocused (focused : Bool) : Editor := if focused then e else { e.resetClicks with dragAnchor := none }

end Editor

/-! ### Slices of characters -/

theorem charIndices_fst (text : Text) (byte column : ℕ) :
    ((charIndices byte text)[column]?.map Prod.fst).getD (byte + byteLen text) = byte + byteLen (text.take column) := by
  induction text generalizing byte column with
  | nil => simp [charIndices]
  | cons c text ih =>
    cases column with
    | zero => simp [charIndices]
    | succ column => rw [charIndices, getElem?_cons_succ, byteLen_cons, ← Nat.add_assoc, ih, take_succ_cons, byteLen_cons, Nat.add_assoc]

theorem charToByte_eq (text : Text) (column : ℕ) : charToByte text column = byteLen (text.take column) := by
  have h := charIndices_fst text 0 column
  rwa [Nat.zero_add, Nat.zero_add] at h

theorem sliceTo_charToByte (text : Text) (column : ℕ) : sliceTo text (charToByte text column) = some (text.take column) := by
  have h := sliceTo_append (text.take column) (text.drop column)
  rwa [take_append_drop, ← charToByte_eq] at h

theorem sliceFrom_charToByte (text : Text) (column : ℕ) : sliceFrom text (charToByte text column) = some (text.drop column) := by
  have h := sliceFrom_append (text.take column) (text.drop column)
  rwa [take_append_drop, ← charToByte_eq] at h

theorem charToByte_mono (text : Text) (h : start ≤ stop) : charToByte text start ≤ charToByte text stop := by
  obtain ⟨rest,hsplit⟩ : text.take start <+: text.take stop := take_prefix_take_left h
  rw [charToByte_eq, charToByte_eq, ← hsplit, byteLen_append]
  exact Nat.le_add_right _ _

theorem replaceRange_charToByte (text replacement : Text) (h : start ≤ stop) :
    replaceRange text (charToByte text start) (charToByte text stop) replacement =
      some (text.take start ++ replacement ++ text.drop stop) := by
  unfold replaceRange
  rw [sliceTo_charToByte, sliceFrom_charToByte, Option.bind_eq_bind, Option.bind_some, Option.bind_some, if_pos (charToByte_mono text h)]

theorem insertStr_charToByte (text insertion : Text) (column : ℕ) :
    insertStr text (charToByte text column) insertion = some (text.take column ++ insertion ++ text.drop column) := by
  unfold insertStr
  rw [sliceTo_charToByte, sliceFrom_charToByte]
  rfl

/-! ### Selections -/

variable {e : Editor}

structure Inside (e : Editor) : Prop where
  cursor : e.cursor ≤ e.text.length
  selection : ∀ anchor, e.selectionAnchor = some anchor → anchor ≤ e.text.length
  drag : ∀ anchor, e.dragAnchor = some anchor → anchor ≤ e.text.length

theorem selectionRange_eq_none : e.selectionRange = none ↔ ∀ anchor, e.selectionAnchor = some anchor → anchor = e.cursor := by
  unfold Editor.selectionRange
  cases e.selectionAnchor with
  | none | some anchor => simp

theorem selectionRange_eq_some (h : e.selectionRange = some (start,stop)) :
    start < stop ∧ (start = e.cursor ∧ e.selectionAnchor = some stop ∨ e.selectionAnchor = some start ∧ stop = e.cursor) := by
  unfold Editor.selectionRange ordered at h
  cases hanchor : e.selectionAnchor with
  | none =>
    rw [hanchor] at h
    cases h
  | some anchor =>
    rw [hanchor, Option.bind_some] at h
    split_ifs at h with hne hlt
    · cases h
      exact ⟨hlt,.inl ⟨rfl,rfl⟩⟩
    · cases h
      exact ⟨by omega,.inr ⟨rfl,rfl⟩⟩

theorem Inside.range (h : Inside e) (hrange : e.selectionRange = some (start,stop)) :
    start < stop ∧ stop ≤ e.text.length := by
  obtain ⟨hlt,⟨-,hanchor⟩ | ⟨-,rfl⟩⟩ := selectionRange_eq_some hrange
  · exact ⟨hlt,h.selection _ hanchor⟩
  · exact ⟨hlt,h.cursor⟩

theorem selectedText_isSome (e : Editor) : e.selectedText.isSome = true := by
  unfold Editor.selectedText
  cases hrange : e.selectionRange with
  | none => rfl
  | some range =>
    obtain ⟨start,stop⟩ := range
    have hlt := (selectionRange_eq_some hrange).1
    obtain ⟨middle,hmiddle⟩ : e.text.take start <+: e.text.take stop := take_prefix_take_left (Nat.le_of_lt hlt)
    have hslice := slice_append (e.text.take start) middle (e.text.drop stop)
    rw [← append_assoc, hmiddle, take_append_drop, ← byteLen_append, hmiddle, ← charToByte_eq, ← charToByte_eq] at hslice
    dsimp only
    rw [hslice]
    rfl

theorem deleteSelection_none (h : e.selectionRange = none) : e.deleteSelection = some (e,false) := by
  rw [Editor.deleteSelection, h]

theorem deleteSelection_some {start stop : ℕ} (h : e.selectionRange = some (start,stop)) : e.deleteSelection =
    some ({ e with text := e.text.take start ++ e.text.drop stop, cursor := start, selectionAnchor := none, dragAnchor := none },true) := by
  rw [Editor.deleteSelection, h]
  dsimp only
  rw [replaceRange_charToByte e.text [] (Nat.le_of_lt (selectionRange_eq_some h).1), append_nil]
  rfl

/-! ### Plain edits -/

inductive Edit where
  | backspace
  | delete
  | insert (text : Text)

def Edit.range (length cursor : ℕ) : Option (ℕ × ℕ) → Edit → ℕ × ℕ
  | some range, _ => range
  | none, .backspace => (cursor - 1,cursor)
  | none, .delete => (cursor,min (cursor + 1) length)
  | none, .insert _ => (cursor,cursor)

def Edit.replacement : Edit → Text
  | .insert text => text
  | .backspace | .delete => []

def Edited (before after : Editor) (edit : Edit) : Prop :=
  let range := edit.range before.text.length before.cursor before.selectionRange
  after.text = before.text.take range.1 ++ edit.replacement ++ before.text.drop range.2 ∧
    after.cursor = range.1 + edit.replacement.length ∧ after.selectionRange = none

def Edit.perform (e : Editor) : Edit → Option (Editor × Bool)
  | .backspace => e.backspace
  | .delete => e.delete
  | .insert text => e.insertText text

/-- Without a selection, no anchor is left at the cursor of a backspace, and no drag anchor at the end of a text
that gets shorter; with one, something is inserted. -/
def Harmless (e : Editor) : Edit → Prop
  | .backspace => e.selectionRange = none → e.cursor ≠ 0 → e.selectionAnchor = none ∧ e.dragAnchor ≠ some e.text.length
  | .delete => e.selectionRange = none → e.cursor < e.text.length → e.dragAnchor ≠ some e.text.length
  | .insert text => text = [] → e.selectionRange = none

theorem edited_selection (h : Inside e) (hrange : e.selectionRange = some (start,stop)) (edit : Edit) (after : Editor)
    (htext : after.text = e.text.take start ++ edit.replacement ++ e.text.drop stop)
    (hcursor : after.cursor = start + edit.replacement.length) (hanchor : after.selectionAnchor = none) (hdrag : after.dragAnchor = none) :
    Inside after ∧ Edited e after edit := by
  obtain ⟨hlt,hstop⟩ := h.range hrange
  refine ⟨⟨?_,fun anchor heq => ?_,fun anchor heq => ?_⟩,?_⟩
  · rw [htext, hcursor, length_append, length_append, length_take]
    omega
  · rw [hanchor] at heq
    cases heq
  · rw [hdrag] at heq
    cases heq
  · unfold Edited
    rw [hrange]
    refine ⟨htext,hcursor,?_⟩
    rw [Editor.selectionRange, hanchor]
    rfl

theorem edited_deletion {start stop : ℕ} {edit : Edit} (h : Inside e) (hrange : e.selectionRange = some (start,stop))
    (hreplacement : edit.replacement = []) :
    Inside { e.resetClicks with
      text := e.text.take start ++ e.text.drop stop, cursor := start, selectionAnchor := none, dragAnchor := none } ∧
    Edited e { e.resetClicks with
      text := e.text.take start ++ e.text.drop stop, cursor := start, selectionAnchor := none, dragAnchor := none } edit :=
  edited_selection h hrange edit _ (by rw [hreplacement, append_nil]) (by rw [hreplacement]; rfl) rfl rfl

theorem backspace_good_iff (h : Inside e) : ∃ after changed, e.backspace = some (after,changed) ∧
    ((Inside after ∧ Edited e after .backspace) ↔ Harmless e .backspace) := by
  unfold Editor.backspace
  cases hrange : e.selectionRange with
  | some range =>
    rw [deleteSelection_some (e := e.resetClicks) hrange]
    refine ⟨_,true,rfl,?_⟩
    exact iff_of_true (edited_deletion (e := e) h hrange rfl) fun hnone => (by rw [hrange] at hnone; cases hnone)
  | none =>
    have hanchor := selectionRange_eq_none.mp hrange
    have hcursor := h.cursor
    rw [deleteSelection_none (e := e.resetClicks) hrange, Option.bind_eq_bind, Option.bind_some]
    dsimp only
    by_cases hzero : e.cursor = 0
    · rw [if_pos (show e.resetClicks.cursor = 0 from hzero)]
      refine ⟨_,false,rfl,fun _ _ hne => absurd hzero hne,fun _ => ⟨⟨h.cursor,h.selection,h.drag⟩,?_,?_,hrange⟩⟩
      · rw [hrange, Edit.range, hzero]
        rfl
      · rw [hrange, Edit.range]
        exact hzero.trans (by rw [hzero]; rfl)
    · rw [if_neg (show ¬e.resetClicks.cursor = 0 from hzero)]
      have hremove := replaceRange_charToByte e.text [] (Nat.sub_le e.cursor 1)
      rw [Editor.resetClicks, hremove]
      refine ⟨_,true,rfl,?_⟩
      have hlength : (e.text.take (e.cursor - 1) ++ [] ++ e.text.drop e.cursor).length = e.text.length - 1 := by
        rw [append_nil, length_append, length_take, length_drop]
        omega
      constructor
      · rintro ⟨hinside,-,-,hafter⟩ - -
        constructor
        · cases hsome : e.selectionAnchor with
          | none => rfl
          | some anchor =>
            have hold := hanchor anchor hsome
            have hnew : anchor = e.cursor - 1 := selectionRange_eq_none.mp hafter anchor hsome
            omega
        · intro hdrag
          have hle : e.text.length ≤ (e.text.take (e.cursor - 1) ++ [] ++ e.text.drop e.cursor).length := hinside.drag _ hdrag
          omega
      · intro hharmless
        obtain ⟨hnone,hdrag⟩ := hharmless hrange hzero
        refine ⟨⟨?_,fun anchor heq => ?_,fun anchor heq => ?_⟩,?_,?_,?_⟩
        · rw [hlength]
          exact Nat.sub_le_sub_right hcursor 1
        · rw [hnone] at heq
          cases heq
        · have hle := h.drag anchor heq
          have hne : anchor ≠ e.text.length := fun hend => hdrag (by rw [← hend]; exact heq)
          rw [hlength]
          omega
        · rw [hrange]
          rfl
        · rw [hrange]
          rfl
        · rw [selectionRange_eq_none]
          intro anchor heq
          rw [hnone] at heq
          cases heq

theorem delete_good_iff (h : Inside e) : ∃ after changed, e.delete = some (after,changed) ∧
    ((Inside after ∧ Edited e after .delete) ↔ Harmless e .delete) := by
  unfold Editor.delete
  cases hrange : e.selectionRange with
  | some range =>
    rw [deleteSelection_some (e := e.resetClicks) hrange]
    refine ⟨_,true,rfl,?_⟩
    exact iff_of_true (edited_deletion (e := e) h hrange rfl) fun hnone => (by rw [hrange] at hnone; cases hnone)
  | none =>
    have hanchor := selectionRange_eq_none.mp hrange
    have hcursor := h.cursor
    rw [deleteSelection_none (e := e.resetClicks) hrange, Option.bind_eq_bind, Option.bind_some]
    dsimp only
    by_cases hend : e.text.length ≤ e.cursor
    · rw [if_pos (show e.resetClicks.text.length ≤ e.resetClicks.cursor from hend)]
      refine ⟨_,false,rfl,fun _ _ hlt => absurd hend (Nat.not_le.mpr hlt),fun _ => ⟨⟨h.cursor,h.selection,h.drag⟩,?_,?_,hrange⟩⟩
      · rw [hrange, Edit.range, Edit.replacement, append_nil, Nat.min_eq_right (by omega), Nat.le_antisymm hcursor hend]
        exact (take_append_drop _ _).symm
      · rw [hrange]
        rfl
    · rw [if_neg (show ¬e.resetClicks.text.length ≤ e.resetClicks.cursor from hend)]
      have hremove := replaceRange_charToByte e.text [] (Nat.le_add_right e.cursor 1)
      rw [Editor.resetClicks, hremove]
      refine ⟨_,true,rfl,?_⟩
      have hlength : (e.text.take e.cursor ++ [] ++ e.text.drop (e.cursor + 1)).length = e.text.length - 1 := by
        rw [append_nil, length_append, length_take, length_drop]
        omega
      constructor
      · rintro ⟨hinside,-⟩ - - hdrag
        have hle : e.text.length ≤ (e.text.take e.cursor ++ [] ++ e.text.drop (e.cursor + 1)).length := hinside.drag _ hdrag
        omega
      · intro hharmless
        have hdrag := hharmless hrange (Nat.lt_of_not_le hend)
        refine ⟨⟨?_,fun anchor heq => ?_,fun anchor heq => ?_⟩,?_,?_,hrange⟩
        · rw [hlength]
          dsimp only
          omega
        · rw [hlength, hanchor anchor heq]
          omega
        · have hle := h.drag anchor heq
          have hne : anchor ≠ e.text.length := fun hend => hdrag (by rw [← hend]; exact heq)
          rw [hlength]
          omega
        · rw [hrange, Edit.range, Nat.min_eq_left (by omega)]
          rfl
        · rw [hrange]
          rfl

theorem insertText_good_iff (h : Inside e) (insertion : Text) : ∃ after changed, e.insertText insertion = some (after,changed) ∧
    ((Inside after ∧ Edited e after (.insert insertion)) ↔ Harmless e (.insert insertion)) := by
  unfold Editor.insertText
  have hcursor := h.cursor
  by_cases hempty : insertion = []
  · subst hempty
    refine ⟨_,false,rfl,fun hgood _ => hgood.2.2.2,fun hharmless => ⟨⟨h.cursor,h.selection,h.drag⟩,?_⟩⟩
    have hrange := hharmless rfl
    refine ⟨?_,?_,hrange⟩
    · rw [hrange, Edit.range, Edit.replacement, append_nil]
      exact (take_append_drop _ _).symm
    · rw [hrange]
      rfl
  · rw [if_neg hempty]
    cases hrange : e.selectionRange with
    | some range =>
      obtain ⟨start,stop⟩ := range
      obtain ⟨hlt,hstop⟩ := h.range hrange
      rw [deleteSelection_some (e := e.resetClicks) hrange, Option.bind_eq_bind, Option.bind_some]
      dsimp only
      have hlength : (e.text.take start).length = start := length_take_of_le (by omega)
      have htake : (e.text.take start ++ e.text.drop stop).take start = e.text.take start := by
        rw [take_append_of_le_length (by rw [hlength]), take_take, Nat.min_self]
      have hdrop : (e.text.take start ++ e.text.drop stop).drop start = e.text.drop stop := by
        rw [drop_append_of_le_length (by rw [hlength]), drop_take_self, nil_append]
      rw [show e.resetClicks.text = e.text from rfl, insertStr_charToByte, htake, hdrop]
      refine ⟨_,true,rfl,?_⟩
      have hgood := edited_selection h hrange (.insert insertion)
        { e.resetClicks with
          text := e.text.take start ++ insertion ++ e.text.drop stop, cursor := start + insertion.length, selectionAnchor := none, dragAnchor := none }
        rfl rfl rfl rfl
      exact ⟨fun _ hnil => absurd hnil hempty,fun _ => hgood⟩
    | none =>
      rw [deleteSelection_none (e := e.resetClicks) hrange, Option.bind_eq_bind, Option.bind_some]
      dsimp only
      rw [Editor.resetClicks, insertStr_charToByte]
      refine ⟨_,true,rfl,fun _ hnil => absurd hnil hempty,fun _ => ⟨⟨?_,fun anchor heq => (by cases heq),fun anchor heq => ?_⟩,?_,?_,rfl⟩⟩
      · rw [length_append, length_append, length_take]
        dsimp only
        omega
      · have hle := h.drag anchor heq
        dsimp only
        rw [length_append, length_append, length_take, length_drop]
        omega
      · rw [hrange]
        rfl
      · rw [hrange]
        rfl

theorem perform_good_iff (h : Inside e) (edit : Edit) : ∃ after changed, edit.perform e = some (after,changed) ∧
    ((Inside after ∧ Edited e after edit) ↔ Harmless e edit) := by
  cases edit with
  | backspace => exact backspace_good_iff h
  | delete => exact delete_good_iff h
  | insert text => exact insertText_good_iff h text

end Unpeel.AppKit.Editing
