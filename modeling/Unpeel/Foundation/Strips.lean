import Mathlib.Algebra.BigOperators.Group.List.Basic
import Mathlib.Algebra.Ring.Nat

/-! # Strips in a row

Items lie side by side with a gap between, each as wide as it is; a column is in at most one of them.
-/
namespace Unpeel.Strips
variable {α : Type*} {gap : ℕ} {width : α → ℕ} {items : List α}
variable {x i column : ℕ}

def start (gap : ℕ) (width : α → ℕ) (items : List α) (i : ℕ) : ℕ := ((items.take i).map fun item => width item + gap).sum

/-- The column is one of the item's, when the row begins at `x`. -/
def InStrip (gap : ℕ) (width : α → ℕ) (items : List α) (x i column : ℕ) : Prop :=
  ∃ item, items[i]? = some item ∧ x + start gap width items i ≤ column ∧ column < x + start gap width items i + width item

@[simp] theorem start_cons (item : α) (i : ℕ) : start gap width (item :: items) (i + 1) = width item + gap + start gap width items i := rfl

theorem inStrip_nil : ¬InStrip gap width [] x i column := by
  rintro ⟨item,hitem,-⟩
  cases hitem

theorem inStrip_zero {item : α} : InStrip gap width (item :: items) x 0 column ↔ x ≤ column ∧ column < x + width item := by
  constructor
  · rintro ⟨item',hitem,hcolumn⟩
    cases hitem
    exact hcolumn
  · exact fun hcolumn => ⟨item,rfl,hcolumn⟩

theorem inStrip_succ {item : α} :
    InStrip gap width (item :: items) x (i + 1) column ↔ InStrip gap width items (x + width item + gap) i column := by
  unfold InStrip
  simp only [List.getElem?_cons_succ, start_cons]
  have hstart : x + (width item + gap + start gap width items i) = x + width item + gap + start gap width items i := by omega
  rw [hstart]

theorem InStrip.le (h : InStrip gap width items x i column) : x ≤ column := by
  obtain ⟨-,-,hle,-⟩ := h
  omega

/-- A column is in one strip only. -/
theorem InStrip.unique {j : ℕ} (hi : InStrip gap width items x i column) (hj : InStrip gap width items x j column) : i = j := by
  induction items generalizing x i j with
  | nil => exact absurd hi inStrip_nil
  | cons item items ih =>
    cases i with
    | zero =>
      cases j with
      | zero => rfl
      | succ j =>
        rw [inStrip_zero] at hi
        have hle := (inStrip_succ.mp hj).le
        omega
    | succ i =>
      cases j with
      | zero =>
        rw [inStrip_zero] at hj
        have hle := (inStrip_succ.mp hi).le
        omega
      | succ j => rw [ih (inStrip_succ.mp hi) (inStrip_succ.mp hj)]

variable {owner : α → Option ℕ} {x i column : ℕ}

end Unpeel.Strips
