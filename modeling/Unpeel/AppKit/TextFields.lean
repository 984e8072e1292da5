import Unpeel.AppKit.Editing
import Unpeel.Foundation.Runs

/-! # Text fields over a run

A text field edits through an editor and moves it by its own geometry. Over a run it agrees with
a plain editor step by step, as long as no anchor is left behind.
-/
namespace Unpeel.AppKit.Editing
open Manifest (Text)
open Runs

structure TextField (σ ω : Type) where
  editor : σ → Editor
  step : σ → ω → Option σ
  edit : ω → Option Edit
  text : ω → Text → Text

variable {σ ω : Type} (field : TextField σ ω)

def Refines (s : σ) (op : ω) : Prop :=
  ∃ t, field.step s op = some t ∧ Inside (field.editor t) ∧ (field.editor t).selectedText.isSome = true ∧
    match field.edit op with
    | some edit => Edited (field.editor s) (field.editor t) edit
    | none => (field.editor t).text = field.text op (field.editor s).text

def LeavesNoAnchor (s : σ) (op : ω) : Prop := ∀ edit, field.edit op = some edit → Harmless (field.editor s) edit

structure Sound (field : TextField σ ω) : Prop where
  edits : ∀ s op edit, field.edit op = some edit → (field.step s op).map field.editor = (edit.perform (field.editor s)).map Prod.fst
  moves : ∀ s op, field.edit op = none → Inside (field.editor s) →
    ∃ t, field.step s op = some t ∧ Inside (field.editor t) ∧ (field.editor t).text = field.text op (field.editor s).text

variable {field}

theorem Sound.refines_iff (h : Sound field) {s : σ} (hs : Inside (field.editor s)) (op : ω) :
    Refines field s op ↔ LeavesNoAnchor field s op := by
  unfold Refines LeavesNoAnchor
  cases hedit : field.edit op with
  | none =>
    obtain ⟨t,ht,hinside,htext⟩ := h.moves s op hedit hs
    exact ⟨fun _ edit heq => (by cases heq),fun _ => ⟨t,ht,hinside,selectedText_isSome _,htext⟩⟩
  | some edit =>
    obtain ⟨after,changed,hperform,hiff⟩ := perform_good_iff hs edit
    have hstep := h.edits s op edit hedit
    rw [hperform, Option.map_some] at hstep
    obtain ⟨t,ht,hafter⟩ := Option.map_eq_some_iff.mp hstep
    dsimp only at hafter
    constructor
    · rintro ⟨u,hu,hinside,-,hedited⟩ edit' heq
      cases heq
      cases ht.symm.trans hu
      rw [hafter] at hinside hedited
      exact hiff.mp ⟨hinside,hedited⟩
    · intro hharmless
      obtain ⟨hinside,hedited⟩ := hiff.mpr (hharmless edit rfl)
      rw [← hafter] at hinside hedited
      exact ⟨t,ht,hinside,selectedText_isSome _,hedited⟩

/-- Over a run a text field does what a plain editor does exactly if no anchor is ever left behind. -/
theorem Sound.run_iff (h : Sound field) {s : σ} (hs : Inside (field.editor s)) (ops : List ω) :
    Meets field.step (Refines field) s ops ↔ Meets field.step (LeavesNoAnchor field) s ops := by
  refine meets_congr (J := fun s => Inside (field.editor s)) ?_ (fun s op hs => h.refines_iff hs op) hs ops
  rintro s op t - ⟨u,hu,hinside,-⟩ ht
  cases hu.symm.trans ht
  exact hinside

/-! ### What moves keep -/

variable {e : Editor} {tables : CharTables}

theorem inside_empty (clicks : DoubleClickTracker) : Inside ⟨[],0,none,none,clicks⟩ :=
  ⟨Nat.le_refl 0,fun _ h => (by cases h),fun _ h => (by cases h)⟩

theorem inside_setText (e : Editor) (text : Text) : Inside (e.setText text).1 :=
  ⟨Nat.le_refl _,fun _ h => (by cases h),fun _ h => (by cases h)⟩

theorem inside_selectAll (h : Inside e) : Inside e.selectAll.1 := by
  refine ⟨Nat.le_refl _,fun anchor hanchor => ?_,h.drag⟩
  have hanchor : (if 0 < e.text.length then some 0 else none) = some anchor := hanchor
  split_ifs at hanchor
  cases hanchor
  exact Nat.zero_le _

theorem inside_moveTo (h : Inside e) (target : ℕ) (extend : Bool) : Inside (e.moveTo target extend).1 := by
  refine ⟨Nat.min_le_right _ _,fun anchor hanchor => ?_,h.drag⟩
  have hanchor : (if extend then some (e.selectionAnchor.getD e.cursor) else none) = some anchor := hanchor
  split_ifs at hanchor
  cases hanchor
  cases hold : e.selectionAnchor with
  | none => exact h.cursor
  | some old => exact h.selection old hold

theorem inside_moveLeft (h : Inside e) (extend word : Bool) : Inside (e.moveLeft tables extend word).1 := by
  unfold Editor.moveLeft
  split
  · exact inside_moveTo h _ _
  · exact inside_moveTo h _ _

theorem inside_moveRight (h : Inside e) (extend word : Bool) : Inside (e.moveRight tables extend word).1 := by
  unfold Editor.moveRight
  split
  · exact inside_moveTo h _ _
  · exact inside_moveTo h _ _

@[simp] theorem moveLeft_text (e : Editor) (extend word : Bool) : (e.moveLeft tables extend word).1.text = e.text := by
  unfold Editor.moveLeft
  split <;> rfl

@[simp] theorem moveRight_text (e : Editor) (extend word : Bool) : (e.moveRight tables extend word).1.text = e.text := by
  unfold Editor.moveRight
  split <;> rfl

theorem retreat_le (characters : Text) (cls : WordClass) (index : ℕ) : retreat tables characters cls index ≤ index := by
  induction index with
  | zero => exact Nat.le_refl 0
  | succ index ih =>
    rw [retreat]
    split_ifs
    · exact Nat.le_succ_of_le ih
    · exact Nat.le_refl _

theorem advance_le {characters : Text} {cls : WordClass} {index : ℕ} (h : index ≤ characters.length) :
    advance tables characters cls index ≤ characters.length := by
  induction index using advance.induct tables characters cls with
  | case1 index hon ih =>
    rw [advance, if_pos hon]
    exact ih hon.1
  | case2 index hoff =>
    rw [advance, if_neg hoff]
    exact h

theorem wordBounds_le {characters : Text} {index : ℕ} : (wordBounds tables characters index).1 ≤ characters.length ∧
    (wordBounds tables characters index).2 ≤ characters.length := by
  unfold wordBounds
  split_ifs with hend
  · exact ⟨Nat.le_refl _,Nat.le_refl _⟩
  · exact ⟨Nat.le_trans (retreat_le _ _ _) (by omega),advance_le (by omega)⟩

theorem inside_press (h : Inside e) (wasFocused : Bool) {index : ℕ} (hindex : index ≤ e.text.length) (extend : Bool) (now : ℕ) :
    Inside (e.press tables wasFocused index extend now).1 ∧ (e.press tables wasFocused index extend now).1.text = e.text := by
  obtain ⟨hstart,hstop⟩ := @wordBounds_le tables e.text index
  have hanchor : e.selectionAnchor.getD e.cursor ≤ e.text.length := by
    cases hold : e.selectionAnchor with
    | none => exact h.cursor
    | some old => exact h.selection old hold
  unfold Editor.press
  dsimp only
  generalize (if (wordBounds tables e.text index).1 < (wordBounds tables e.text index).2 then
    e.clicks.click (wordBounds tables e.text index) now else (false,e.clicks)) = clicked
  obtain ⟨double,clicks⟩ := clicked
  cases double with
  | true => exact ⟨⟨hstop,fun _ heq => (by cases heq; exact hstart),fun _ heq => (by cases heq; exact hstart)⟩,rfl⟩
  | false =>
    cases extend with
    | true => exact ⟨⟨hindex,fun _ heq => (by cases heq; exact hanchor),fun _ heq => (by cases heq; exact hanchor)⟩,rfl⟩
    | false => exact ⟨⟨hindex,fun _ heq => (by cases heq),fun _ heq => (by cases heq; exact hindex)⟩,rfl⟩

theorem inside_dragTo (h : Inside e) {next : ℕ} (hnext : next ≤ e.text.length) : Inside (e.dragTo next).1 ∧ (e.dragTo next).1.text = e.text := by
  unfold Editor.dragTo
  cases hdrag : e.dragAnchor with
  | none => exact ⟨h,rfl⟩
  | some anchor =>
    refine ⟨⟨hnext,fun anchor' heq => ?_,h.drag⟩,rfl⟩
    cases heq
    exact h.drag anchor hdrag

theorem inside_mouseUp (h : Inside e) : Inside e.mouseUp.1 := ⟨h.cursor,h.selection,fun _ heq => (by cases heq)⟩

theorem inside_setFocused (h : Inside e) (focused : Bool) : Inside (e.setFocused focused) ∧ (e.setFocused focused).text = e.text := by
  unfold Editor.setFocused
  split_ifs
  · exact ⟨h,rfl⟩
  · exact ⟨⟨h.cursor,h.selection,fun _ heq => (by cases heq)⟩,rfl⟩

end Unpeel.AppKit.Editing
