import Unpeel.AppKit.InputField

/-! # The text box

A bordered field of several rows. It wraps its text into rows, scrolls them, and moves the cursor
up and down in a column that it keeps; what is painted is not followed.
-/
namespace Unpeel.AppKit.Editing
open Manifest (Text)
open Runs TextRows

inductive TextBoxAction where
  | insert (character : Char)
  | insertText (text : Text)
  | newline
  | backspace
  | delete
  | clear
  | selectAll
  | left (extend word : Bool)
  | right (extend word : Bool)
  | up (extend : Bool)
  | down (extend : Bool)
  | home (extend : Bool)
  | stop (extend : Bool)
  | documentStart (extend : Bool)
  | documentEnd (extend : Bool)
  | submit

inductive TextBoxOutcome where
  | unchanged
  | changed
  | submitted (text : Text)

/-- The state of a text box; `busy` and `hints` say whether there is a status row and a footer. -/
structure TextBox where
  editor : Editor
  preferredColumn : Option ℕ
  focused : Bool
  prompt : Text
  leftPadding : ℕ
  busy : Bool
  hints : Bool
  minRows : ℕ
  maxRows : ℕ
  rows_ordered : minRows ≤ maxRows
  boxArea : Rect
  contentArea : Rect
  contentWidth : ℕ
  scrollRow : ℕ

/-- `CR LF` becomes `LF`. -/
def joinLineEnds : Text → Text
  | '\r' :: '\n' :: text => '\n' :: joinLineEnds text
  | c :: text => c :: joinLineEnds text
  | [] => []

/-- `sanitize` of the text box. -/
def sanitize (text : Text) : Text :=
  (joinLineEnds text).filterMap fun c =>
    if c = '\n' then some '\n' else if c = '\r' then some '\n' else if c = '\t' then some ' '
    else if isControl c then none else some c

namespace TextBox

def new : TextBox :=
  ⟨⟨[],0,none,none,⟨none⟩⟩,none,false,[],1,false,false,3,10,by decide,.empty,.empty,0,0⟩

section
variable (tables : CharTables) (box : TextBox)

def setText (text : Text) : TextBox × Bool :=
  ({ box with editor := (box.editor.setText (sanitize text)).1, preferredColumn := none, scrollRow := 0 },
    (box.editor.setText (sanitize text)).2)

def edits (outcome : Editor × Bool) : TextBox × Bool := ({ box with editor := outcome.1, preferredColumn := none },outcome.2)

def insertText (text : Text) : Option (TextBox × Bool) := (box.editor.insertText (sanitize text)).map box.edits

def backspace : Option (TextBox × Bool) := box.editor.backspace.map box.edits

def delete : Option (TextBox × Bool) := box.editor.delete.map box.edits

def clear : TextBox × Bool :=
  ({ box with editor := ⟨[],0,none,none,⟨none⟩⟩, preferredColumn := none, scrollRow := 0 },box.editor.text ≠ [])

def selectAll : TextBox × Bool := box.edits box.editor.selectAll

def moveTo (target : ℕ) (extend : Bool) : TextBox × Bool := box.edits (box.editor.moveTo target extend)

def moveLeft (extend word : Bool) : TextBox × Bool := box.edits (box.editor.moveLeft tables extend word)

def moveRight (extend word : Bool) : TextBox × Bool := box.edits (box.editor.moveRight tables extend word)

def layout (width : ℕ) : List Row := wrapRows tables.width box.editor.text width

def cursorRowCol : ℕ × ℕ := rowColOf tables.width (box.layout tables box.contentWidth) box.editor.text box.editor.cursor

def moveVertical (delta : ℤ) (extend : Bool) : TextBox × Bool :=
  let rows := box.layout tables box.contentWidth
  let (row,column) := rowColOf tables.width rows box.editor.text box.editor.cursor
  let column := box.preferredColumn.getD column
  if row + delta < 0 then box.moveTo 0 extend
  else
    match rows[(row + delta).toNat]? with
    | none => box.moveTo box.editor.text.length extend
    | some target =>
      let moved := box.editor.moveTo (indexAtColumn tables.width target box.editor.text column) extend
      ({ box with editor := moved.1, preferredColumn := some column },moved.2)

def submit : TextBox × Option Text :=
  if box.editor.text.all tables.isWhitespace then (box,none) else (box.clear.1,some box.editor.text)

def outcome (result : TextBox × Bool) : TextBox × TextBoxOutcome := (result.1,if result.2 then .changed else .unchanged)

def handle : TextBoxAction → Option (TextBox × TextBoxOutcome)
  | .insert character => (box.insertText [character]).map outcome
  | .insertText text => (box.insertText text).map outcome
  | .newline => (box.insertText ['\n']).map outcome
  | .backspace => box.backspace.map outcome
  | .delete => box.delete.map outcome
  | .clear => some (outcome box.clear)
  | .selectAll => some (outcome box.selectAll)
  | .left extend word => some (outcome (box.moveLeft tables extend word))
  | .right extend word => some (outcome (box.moveRight tables extend word))
  | .up extend => some (outcome (box.moveVertical tables (-1) extend))
  | .down extend => some (outcome (box.moveVertical tables 1 extend))
  | .home extend =>
    some (outcome (box.moveTo (((box.layout tables box.contentWidth)[(box.cursorRowCol tables).1]?.map Row.start).getD 0) extend))
  | .stop extend =>
    some (outcome (box.moveTo
      (((box.layout tables box.contentWidth)[(box.cursorRowCol tables).1]?.map Row.stop).getD box.editor.text.length) extend))
  | .documentStart extend => some (outcome (box.moveTo 0 extend))
  | .documentEnd extend => some (outcome (box.moveTo box.editor.text.length extend))
  | .submit => some ((box.submit tables).1,(box.submit tables).2.elim .unchanged .submitted)

def setFocused (focused : Bool) : TextBox × Bool :=
  ({ box with focused := focused, editor := box.editor.setFocused focused },box.focused ≠ focused)

def scrollRows (delta : ℤ) : TextBox × Bool :=
  let maxScroll := (box.layout tables box.contentWidth).length - max box.contentArea.height 1
  let next := min (box.scrollRow + delta).toNat maxScroll
  ({ box with scrollRow := next },next ≠ box.scrollRow)

def hitIndex (position : Position) : ℕ :=
  let rows := box.layout tables box.contentWidth
  if rows = [] ∨ box.contentArea.isEmpty then 0
  else if position.y < box.contentArea.y then rows.head?.elim 0 Row.start
  else
    match rows[box.scrollRow + (position.y - box.contentArea.y)]? with
    | none => box.editor.text.length
    | some row =>
      if position.x ≤ box.contentArea.x then row.start
      else indexAtColumn tables.width row box.editor.text (position.x - box.contentArea.x)

def mouseDown (position : Position) (extend : Bool) (now : ℕ) : TextBox × Bool :=
  if box.boxArea.Contains position then
    { box with focused := true }.edits (box.editor.press tables box.focused (box.hitIndex tables position) extend now)
  else ({ box with editor := box.editor.resetClicks },false)

def mouseDrag (position : Position) : TextBox × Bool :=
  let dragged := box.editor.dragTo
    (if position.y < box.contentArea.y then 0
      else if box.contentArea.bottom ≤ position.y then box.editor.text.length
      else box.hitIndex tables position)
  ({ box with editor := dragged.1 },dragged.2)

def mouseUp : TextBox × Bool := ({ box with editor := box.editor.mouseUp.1 },box.editor.mouseUp.2)

def contentWidthFor (width : ℕ) : ℕ :=
  let inner := width - 2
  inner - min box.leftPadding inner - min (displayWidth tables.width box.prompt) 65535 - 1

def visibleRows (width : ℕ) : ℕ :=
  max box.minRows (min (min (box.layout tables (box.contentWidthFor tables width)).length 65535) box.maxRows)

def ensureCursorVisible (rows : List Row) : TextBox :=
  let row := (rowColOf tables.width rows box.editor.text box.editor.cursor).1
  let visible := max box.contentArea.height 1
  let scroll := min box.scrollRow (rows.length - visible)
  { box with scrollRow := if row < scroll then row else if scroll + visible ≤ row then row + 1 - visible else scroll }

/-- The part of `render_box` that keeps something. `inner` is the area in a border. -/
def renderBox (inner : Rect → Rect) : TextBox :=
  if box.boxArea.isEmpty then { box with contentArea := .empty }
  else
    let inner := inner box.boxArea
    let padding := min box.leftPadding inner.width
    let promptWidth := min (min (displayWidth tables.width box.prompt) 65535) (inner.width - padding)
    let width := inner.width - padding - promptWidth - 1
    let box : TextBox := { box with
      contentArea := ⟨inner.x + padding + promptWidth,inner.y,width,inner.height,by have := inner.right_fits; omega,inner.bottom_fits⟩
      contentWidth := width }
    box.ensureCursorVisible tables (box.layout tables width)

def render (inner : Rect → Rect) (area : Rect) : TextBox :=
  let box : TextBox := { box with editor := { box.editor with cursor := min box.editor.cursor box.editor.text.length } }
  if area.isEmpty then { box with boxArea := .empty, contentArea := .empty }
  else
    let status := if box.busy ∧ 0 < area.height then 1 else 0
    let footer := if box.hints ∧ 0 < area.height - status then 1 else 0
    let wanted := saturatingAdd16 (box.visibleRows tables area.width) 2
    { box with
      boxArea := ⟨area.x,area.y + status,area.width,min wanted (area.height - status - footer),area.right_fits,
        by have := area.bottom_fits; dsimp only [status]; split_ifs <;> omega⟩ }.renderBox tables inner

end

end TextBox

inductive TextBoxOp where
  | handle (action : TextBoxAction)
  | submit
  | setText (text : Text)
  | moveTo (target : ℕ) (extend : Bool)
  | setFocused (focused : Bool)
  | scrollRows (delta : ℤ)
  | mouseDown (position : Position) (extend : Bool) (now : ℕ)
  | mouseDrag (position : Position)
  | mouseUp
  | render (area : Rect)
  | setPrompt (prompt : Text)
  | setTheme (leftPadding : ℕ)
  | setBusy (busy : Bool)
  | setFooterHints (hints : Bool)
  | withRows (minRows maxRows : ℕ)

namespace TextBoxOp

def step (tables : CharTables) (inner : Rect → Rect) (box : TextBox) : TextBoxOp → Option TextBox
  | .handle action => (box.handle tables action).map Prod.fst
  | .submit => some (box.submit tables).1
  | .setText text => some (box.setText text).1
  | .moveTo target extend => some (box.moveTo target extend).1
  | .setFocused focused => some (box.setFocused focused).1
  | .scrollRows delta => some (box.scrollRows tables delta).1
  | .mouseDown position extend now => some (box.mouseDown tables position extend now).1
  | .mouseDrag position => some (box.mouseDrag tables position).1
  | .mouseUp => some box.mouseUp.1
  | .render area => some (box.render tables inner area)
  | .setPrompt prompt => some { box with prompt := sanitizeLine prompt }
  | .setTheme leftPadding => some { box with leftPadding := leftPadding }
  | .setBusy busy => some { box with busy := busy }
  | .setFooterHints hints => some { box with hints := hints }
  | .withRows minRows maxRows =>
    some { box with minRows := max minRows 1, maxRows := max maxRows (max minRows 1), rows_ordered := by omega }

def edit : TextBoxOp → Option Edit
  | .handle (.insert character) => some (.insert (sanitize [character]))
  | .handle (.insertText text) => some (.insert (sanitize text))
  | .handle .newline => some (.insert (sanitize ['\n']))
  | .handle .backspace => some .backspace
  | .handle .delete => some .delete
  | _ => none

def plainText (tables : CharTables) : TextBoxOp → Text → Text
  | .handle .clear, _ => []
  | .handle .submit, text => if text.all tables.isWhitespace then text else []
  | .submit, text => if text.all tables.isWhitespace then text else []
  | .setText text, _ => sanitize text
  | _, text => text

end TextBoxOp

def textBox (tables : CharTables) (inner : Rect → Rect) : TextField TextBox TextBoxOp where
  editor := TextBox.editor
  step := TextBoxOp.step tables inner
  edit := TextBoxOp.edit
  text := TextBoxOp.plainText tables

/-! ### The text box is sound -/

section
variable {tables : CharTables} {box : TextBox}

theorem layout_inside {width i : ℕ} {row : Row} (h : (box.layout tables width)[i]? = some row) : row.Inside box.editor.text.length :=
  wrapRows_inside _ _ row (List.mem_of_getElem? h)

/-- A click is at a place of the text. -/
theorem boxHitIndex_le (position : Position) : box.hitIndex tables position ≤ box.editor.text.length := by
  have hfirst : (box.layout tables box.contentWidth).head?.elim 0 Row.start ≤ box.editor.text.length := by
    cases hhead : (box.layout tables box.contentWidth).head? with
    | none => exact Nat.zero_le _
    | some row =>
      rw [List.head?_eq_getElem?] at hhead
      exact Nat.le_trans (layout_inside hhead).1 (layout_inside hhead).2
  unfold TextBox.hitIndex
  dsimp only
  cases hrow : (box.layout tables box.contentWidth)[box.scrollRow + (position.y - box.contentArea.y)]? with
  | none =>
    dsimp only
    split_ifs
    · exact Nat.zero_le _
    · exact hfirst
    · exact Nat.le_refl _
  | some row =>
    split_ifs
    · exact Nat.zero_le _
    · exact hfirst
    · exact Nat.le_trans (layout_inside hrow).1 (layout_inside hrow).2
    · exact indexAtColumn_le (layout_inside hrow) _

theorem map_boxEdits (box : TextBox) (outcome : Option (Editor × Bool)) :
    (((outcome.map box.edits).map TextBox.outcome).map Prod.fst).map TextBox.editor = outcome.map Prod.fst := by
  cases outcome <;> rfl

theorem inside_moveVertical (h : Inside box.editor) (delta : ℤ) (extend : Bool) :
    Inside (box.moveVertical tables delta extend).1.editor ∧ (box.moveVertical tables delta extend).1.editor.text = box.editor.text := by
  unfold TextBox.moveVertical
  dsimp only
  split_ifs
  · exact ⟨inside_moveTo h _ _,rfl⟩
  · split
    next => exact ⟨inside_moveTo h _ _,rfl⟩
    next => exact ⟨inside_moveTo h _ _,rfl⟩

theorem inside_submit (h : Inside box.editor) : Inside (box.submit tables).1.editor ∧
    (box.submit tables).1.editor.text = if box.editor.text.all tables.isWhitespace then box.editor.text else [] := by
  unfold TextBox.submit
  split_ifs
  · exact ⟨h,rfl⟩
  · exact ⟨inside_empty _,rfl⟩

theorem inside_boxMouseDown (h : Inside box.editor) (position : Position) (extend : Bool) (now : ℕ) :
    Inside (box.mouseDown tables position extend now).1.editor ∧
      (box.mouseDown tables position extend now).1.editor.text = box.editor.text := by
  unfold TextBox.mouseDown
  split_ifs
  · exact inside_press h box.focused (boxHitIndex_le position) extend now
  · exact ⟨⟨h.cursor,h.selection,h.drag⟩,rfl⟩

theorem inside_boxMouseDrag (h : Inside box.editor) (position : Position) :
    Inside (box.mouseDrag tables position).1.editor ∧ (box.mouseDrag tables position).1.editor.text = box.editor.text := by
  refine inside_dragTo h ?_
  split_ifs
  · exact Nat.zero_le _
  · exact Nat.le_refl _
  · exact boxHitIndex_le position

theorem renderBox_editor (inner : Rect → Rect) : (box.renderBox tables inner).editor = box.editor := by
  unfold TextBox.renderBox
  split_ifs <;> rfl

theorem render_editor (inner : Rect → Rect) (area : Rect) :
    (box.render tables inner area).editor = { box.editor with cursor := min box.editor.cursor box.editor.text.length } := by
  unfold TextBox.render
  dsimp only
  split_ifs
  all_goals first | rfl | exact renderBox_editor inner

theorem inside_boxRender (h : Inside box.editor) (inner : Rect → Rect) (area : Rect) :
    Inside (box.render tables inner area).editor ∧ (box.render tables inner area).editor.text = box.editor.text := by
  rw [render_editor]
  exact ⟨⟨Nat.min_le_right _ _,h.selection,h.drag⟩,rfl⟩

end

theorem textBox_sound (tables : CharTables) (inner : Rect → Rect) : Sound (textBox tables inner) where
  edits := by
    intro box op edit hedit
    cases op with
    | handle action =>
      cases action with
      | insert character | insertText text | newline | backspace | delete => cases hedit; exact map_boxEdits box _
      | clear | selectAll | left | right | up | down | home | stop | documentStart | documentEnd | submit => cases hedit
    | submit | setText | moveTo | setFocused | scrollRows | mouseDown | mouseDrag | mouseUp | render | setPrompt | setTheme
    | setBusy | setFooterHints | withRows => cases hedit
  moves := by
    intro box op hedit h
    cases op with
    | handle action =>
      cases action with
      | insert character | insertText text | newline | backspace | delete => cases hedit
      | clear => exact ⟨_,rfl,inside_empty _,rfl⟩
      | selectAll => exact ⟨_,rfl,inside_selectAll h,rfl⟩
      | left extend word => exact ⟨_,rfl,inside_moveLeft h _ _,moveLeft_text _ _ _⟩
      | right extend word => exact ⟨_,rfl,inside_moveRight h _ _,moveRight_text _ _ _⟩
      | up extend | down extend => exact ⟨_,rfl,inside_moveVertical h _ _⟩
      | home extend | stop extend | documentStart extend | documentEnd extend => exact ⟨_,rfl,inside_moveTo h _ _,rfl⟩
      | submit => exact ⟨_,rfl,inside_submit h⟩
    | submit => exact ⟨_,rfl,inside_submit h⟩
    | setText text => exact ⟨_,rfl,inside_setText box.editor _,rfl⟩
    | moveTo target extend => exact ⟨_,rfl,inside_moveTo h _ _,rfl⟩
    | setFocused focused => exact ⟨_,rfl,inside_setFocused h _⟩
    | scrollRows delta | setPrompt prompt | setTheme leftPadding | setBusy busy | setFooterHints hints
    | withRows minRows maxRows => exact ⟨_,rfl,h,rfl⟩
    | mouseDown position extend now => exact ⟨_,rfl,inside_boxMouseDown h _ _ _⟩
    | mouseDrag position => exact ⟨_,rfl,inside_boxMouseDrag h _⟩
    | mouseUp => exact ⟨_,rfl,inside_mouseUp h,rfl⟩
    | render area => exact ⟨_,rfl,inside_boxRender h _ _⟩

/-- Both text fields edit as a plain editor does over a run exactly if no operation of it leaves an anchor behind. -/
theorem text_fields_refine_iff (tables : CharTables) (inner : Rect → Rect) :
    (∀ ops, Meets (inputField tables).step (Refines (inputField tables)) InputField.new ops ↔
      Meets (inputField tables).step (LeavesNoAnchor (inputField tables)) InputField.new ops) ∧
    ∀ ops, Meets (textBox tables inner).step (Refines (textBox tables inner)) TextBox.new ops ↔
      Meets (textBox tables inner).step (LeavesNoAnchor (textBox tables inner)) TextBox.new ops :=
  ⟨(inputField_sound tables).run_iff (inside_empty _),(textBox_sound tables inner).run_iff (inside_empty _)⟩

def asciiTables : CharTables := ⟨fun _ => 1,Char.isAlphanum,fun c => c = ' '⟩

/-- `a b c`, one to the left, a selection to the right and back, and a backspace: behind it the `c` is selected. -/
def phantomOps : List InputFieldOp :=
  [.setText ['a','b','c'],.handle (.left false false),.handle (.right true false),.handle (.left true false),.handle .backspace]

theorem phantom_selection : ¬Meets (inputField asciiTables).step (Refines (inputField asciiTables)) InputField.new phantomOps := by
  have hstart : Inside ((inputField asciiTables).editor InputField.new) := inside_empty _
  rw [(inputField_sound asciiTables).run_iff hstart]
  rintro ⟨-,h⟩
  obtain ⟨-,h⟩ := h _ rfl
  obtain ⟨-,h⟩ := h _ rfl
  obtain ⟨-,h⟩ := h _ rfl
  obtain ⟨h,-⟩ := h _ rfl
  obtain ⟨hanchor,-⟩ := h .backspace rfl rfl (show (2 : ℕ) ≠ 0 by decide)
  cases hanchor

end Unpeel.AppKit.Editing
