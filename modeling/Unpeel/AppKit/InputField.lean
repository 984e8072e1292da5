import Unpeel.AppKit.Geometry
import Unpeel.AppKit.TextFields
import Unpeel.AppKit.TextRows

/-! # The single-line input

Its text scrolls sideways; what is painted and where the native cursor stands is not followed.
-/
namespace Unpeel.AppKit.Editing
open Manifest (Text)
open TextRows

inductive InputFieldAction where
  | insert (character : Char)
  | insertText (text : Text)
  | backspace
  | delete
  | clear
  | selectAll
  | left (extend word : Bool)
  | right (extend word : Bool)
  | home (extend : Bool)
  | stop (extend : Bool)

structure InputField where
  editor : Editor
  focused : Bool
  prompt : Text
  leftPadding : ℕ
  area : Rect
  contentArea : Rect
  scroll : ℕ

/-- `sanitize` of the input: no control characters. -/
def sanitizeLine (text : Text) : Text := text.filter fun c => !isControl c

def selectableLeftPadding : ℕ := 2

namespace InputField

def new : InputField := ⟨⟨[],0,none,none,⟨none⟩⟩,false,[],selectableLeftPadding,.empty,.empty,0⟩

section
variable (tables : CharTables) (input : InputField)

def setText (text : Text) : InputField × Bool :=
  ({ input with editor := (input.editor.setText (sanitizeLine text)).1, scroll := 0 },(input.editor.setText (sanitizeLine text)).2)

def edits (outcome : Editor × Bool) : InputField × Bool := ({ input with editor := outcome.1 },outcome.2)

def insertText (text : Text) : Option (InputField × Bool) := (input.editor.insertText (sanitizeLine text)).map input.edits

def backspace : Option (InputField × Bool) := input.editor.backspace.map input.edits

def delete : Option (InputField × Bool) := input.editor.delete.map input.edits

def clear : InputField × Bool :=
  if input.editor.text = [] then ({ input with editor := input.editor.resetClicks },false)
  else ({ input with editor := ⟨[],0,none,none,⟨none⟩⟩, scroll := 0 },true)

def selectAll : InputField × Bool := input.edits input.editor.selectAll

def moveTo (target : ℕ) (extend : Bool) : InputField × Bool := input.edits (input.editor.moveTo target extend)

def moveLeft (extend word : Bool) : InputField × Bool := input.edits (input.editor.moveLeft tables extend word)

def moveRight (extend word : Bool) : InputField × Bool := input.edits (input.editor.moveRight tables extend word)

def handle : InputFieldAction → Option (InputField × Bool)
  | .insert character => input.insertText [character]
  | .insertText text => input.insertText text
  | .backspace => input.backspace
  | .delete => input.delete
  | .clear => some input.clear
  | .selectAll => some input.selectAll
  | .left extend word => some (input.moveLeft tables extend word)
  | .right extend word => some (input.moveRight tables extend word)
  | .home extend => some (input.moveTo 0 extend)
  | .stop extend => some (input.moveTo input.editor.text.length extend)

def setFocused (focused : Bool) : InputField × Bool :=
  ({ input with focused := focused, editor := input.editor.setFocused focused },input.focused ≠ focused)

/-- The loop of `hit_index`. -/
def hitFrom (charWidth : Char → ℕ) (target limit width index : ℕ) : Text → Option ℕ
  | [] => none
  | c :: text =>
    if target < width + cells charWidth c then some (if (target - width) * 2 < cells charWidth c then index else index + 1)
    else if limit ≤ width + cells charWidth c then none
    else hitFrom charWidth target limit (width + cells charWidth c) (index + 1) text

def hitIndex (position : Position) : ℕ :=
  if input.contentArea.isEmpty ∨ position.x ≤ input.contentArea.x then min input.scroll input.editor.text.length
  else if input.contentArea.right ≤ position.x then input.editor.text.length
  else (hitFrom tables.width (position.x - input.contentArea.x) input.contentArea.width 0 input.scroll
    (input.editor.text.drop input.scroll)).getD input.editor.text.length

def mouseDown (position : Position) (extend : Bool) (now : ℕ) : InputField × Bool :=
  if input.area.Contains position then
    { input with focused := true }.edits (input.editor.press tables input.focused (input.hitIndex tables position) extend now)
  else ({ input with editor := input.editor.resetClicks },false)

def mouseDrag (position : Position) : InputField × Bool :=
  input.edits (input.editor.dragTo
    (if position.x ≤ input.contentArea.x then 0
      else if input.contentArea.right ≤ position.x then input.editor.text.length
      else input.hitIndex tables position))

def mouseUp : InputField × Bool := input.edits input.editor.mouseUp

/-- The loop of `ensure_cursor_visible`. -/
def scrollTo (charWidth : Char → ℕ) (text : Text) (cursor width scroll : ℕ) : ℕ :=
  if scroll < cursor ∧ width ≤ displayWidthBetween charWidth text scroll cursor then scrollTo charWidth text cursor width (scroll + 1)
  else scroll
termination_by cursor - scroll

def ensureCursorVisible : InputField :=
  let cursor := min input.editor.cursor input.editor.text.length
  let scroll := min (min input.scroll input.editor.text.length) cursor
  { input with
    editor := { input.editor with cursor := cursor }
    scroll := if input.contentArea.width = 0 then cursor else scrollTo tables.width input.editor.text cursor input.contentArea.width scroll }

def render (area : Rect) : InputField :=
  let padding := min input.leftPadding area.width
  let promptWidth := min (displayWidth tables.width input.prompt) (area.width - padding)
  { input with
    area := ⟨area.x,area.y,area.width,min area.height 1,area.right_fits,area.line_fits⟩
    contentArea := ⟨area.x + padding + promptWidth,area.y,area.width - padding - promptWidth,min area.height 1,
      area.inset_fits (Nat.min_le_right _ _) (Nat.min_le_right _ _),area.line_fits⟩ }.ensureCursorVisible tables

end

end InputField

inductive InputFieldOp where
  | handle (action : InputFieldAction)
  | setText (text : Text)
  | moveTo (target : ℕ) (extend : Bool)
  | setFocused (focused : Bool)
  | mouseDown (position : Position) (extend : Bool) (now : ℕ)
  | mouseDrag (position : Position)
  | mouseUp
  | render (area : Rect)
  | setPrompt (prompt : Text)
  | setTheme (leftPadding : ℕ)
  | clearRenderState

namespace InputFieldOp

def step (tables : CharTables) (input : InputField) : InputFieldOp → Option InputField
  | .handle action => (input.handle tables action).map Prod.fst
  | .setText text => some (input.setText text).1
  | .moveTo target extend => some (input.moveTo target extend).1
  | .setFocused focused => some (input.setFocused focused).1
  | .mouseDown position extend now => some (input.mouseDown tables position extend now).1
  | .mouseDrag position => some (input.mouseDrag tables position).1
  | .mouseUp => some input.mouseUp.1
  | .render area => some (input.render tables area)
  | .setPrompt prompt => some { input with prompt := sanitizeLine prompt }
  | .setTheme leftPadding => some { input with leftPadding := leftPadding }
  | .clearRenderState => some { input with area := .empty, contentArea := .empty }

def edit : InputFieldOp → Option Edit
  | .handle (.insert character) => some (.insert (sanitizeLine [character]))
  | .handle (.insertText text) => some (.insert (sanitizeLine text))
  | .handle .backspace => some .backspace
  | .handle .delete => some .delete
  | _ => none

def plainText : InputFieldOp → Text → Text
  | .handle .clear, _ => []
  | .setText text, _ => sanitizeLine text
  | _, text => text

end InputFieldOp

def inputField (tables : CharTables) : TextField InputField InputFieldOp where
  editor := InputField.editor
  step := InputFieldOp.step tables
  edit := InputFieldOp.edit
  text := InputFieldOp.plainText

/-! ### The input is sound -/

variable {tables : CharTables} {input : InputField}

theorem hitFrom_le {charWidth : Char → ℕ} {target limit width index : ℕ} {text : Text} {i : ℕ}
    (h : InputField.hitFrom charWidth target limit width index text = some i) : i ≤ index + text.length := by
  induction text generalizing width index with
  | nil => cases h
  | cons c text ih =>
    rw [InputField.hitFrom] at h
    rw [List.length_cons]
    split_ifs at h with hhere hhalf
    · cases h
      omega
    · cases h
      omega
    · have := ih h
      omega

/-- A click is at a place of the text. -/
theorem hitIndex_le (position : Position) : input.hitIndex tables position ≤ input.editor.text.length := by
  unfold InputField.hitIndex
  split_ifs
  · exact Nat.min_le_right _ _
  · exact Nat.le_refl _
  · cases hhit : InputField.hitFrom tables.width (position.x - input.contentArea.x) input.contentArea.width 0 input.scroll
        (input.editor.text.drop input.scroll) with
    | none => exact Nat.le_refl _
    | some i =>
      have hle := hitFrom_le hhit
      rw [List.length_drop] at hle
      rw [Option.getD_some]
      rcases Nat.lt_or_ge input.editor.text.length input.scroll with hbehind | hscroll
      · rw [List.drop_eq_nil_of_le (Nat.le_of_lt hbehind)] at hhit
        cases hhit
      · omega

theorem map_edits (input : InputField) (outcome : Option (Editor × Bool)) :
    ((outcome.map input.edits).map Prod.fst).map InputField.editor = outcome.map Prod.fst := by
  cases outcome <;> rfl

theorem inside_clear (h : Inside input.editor) : Inside input.clear.1.editor ∧ input.clear.1.editor.text = [] := by
  unfold InputField.clear
  split_ifs with hempty
  · exact ⟨⟨h.cursor,h.selection,h.drag⟩,hempty⟩
  · exact ⟨inside_empty _,rfl⟩

theorem inside_render (h : Inside input.editor) (area : Rect) :
    Inside (input.render tables area).editor ∧ (input.render tables area).editor.text = input.editor.text :=
  ⟨⟨Nat.min_le_right _ _,h.selection,h.drag⟩,rfl⟩

theorem inside_mouseDown (h : Inside input.editor) (position : Position) (extend : Bool) (now : ℕ) :
    Inside (input.mouseDown tables position extend now).1.editor ∧
      (input.mouseDown tables position extend now).1.editor.text = input.editor.text := by
  unfold InputField.mouseDown
  split_ifs
  · exact inside_press h input.focused (hitIndex_le position) extend now
  · exact ⟨⟨h.cursor,h.selection,h.drag⟩,rfl⟩

theorem inside_mouseDrag (h : Inside input.editor) (position : Position) :
    Inside (input.mouseDrag tables position).1.editor ∧ (input.mouseDrag tables position).1.editor.text = input.editor.text := by
  refine inside_dragTo h ?_
  split_ifs
  · exact Nat.zero_le _
  · exact Nat.le_refl _
  · exact hitIndex_le position

theorem inputField_sound (tables : CharTables) : Sound (inputField tables) where
  edits := by
    intro input op edit hedit
    cases op with
    | handle action =>
      cases action with
      | insert character | insertText text | backspace | delete => cases hedit; exact map_edits input _
      | clear | selectAll | left | right | home | stop => cases hedit
    | setText | moveTo | setFocused | mouseDown | mouseDrag | mouseUp | render | setPrompt | setTheme
    | clearRenderState => cases hedit
  moves := by
    intro input op hedit h
    cases op with
    | handle action =>
      cases action with
      | insert character | insertText text | backspace | delete => cases hedit
      | clear => exact ⟨_,rfl,inside_clear h⟩
      | selectAll => exact ⟨_,rfl,inside_selectAll h,rfl⟩
      | left extend word => exact ⟨_,rfl,inside_moveLeft h _ _,moveLeft_text _ _ _⟩
      | right extend word => exact ⟨_,rfl,inside_moveRight h _ _,moveRight_text _ _ _⟩
      | home extend | stop extend => exact ⟨_,rfl,inside_moveTo h _ _,rfl⟩
    | setText text => exact ⟨_,rfl,inside_setText input.editor _,rfl⟩
    | moveTo target extend => exact ⟨_,rfl,inside_moveTo h _ _,rfl⟩
    | setFocused focused => exact ⟨_,rfl,inside_setFocused h _⟩
    | mouseDown position extend now => exact ⟨_,rfl,inside_mouseDown h _ _ _⟩
    | mouseDrag position => exact ⟨_,rfl,inside_mouseDrag h _⟩
    | mouseUp => exact ⟨_,rfl,inside_mouseUp h,rfl⟩
    | render area => exact ⟨_,rfl,inside_render h _⟩
    | setPrompt prompt | setTheme leftPadding | clearRenderState => exact ⟨_,rfl,h,rfl⟩

end Unpeel.AppKit.Editing
