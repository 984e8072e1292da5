import Mathlib.Data.Nat.Notation

/-! # Areas of the screen

Cells are counted in `u16`; an area keeps both of its bounds there.
-/
namespace Unpeel.AppKit

/-- `u16::saturating_add`. -/
def saturatingAdd16 (a b : ℕ) : ℕ := min (a + b) 65535

structure Position where
  x : ℕ
  y : ℕ

/-- `Rect::new` keeps both bounds in `u16`. -/
structure Rect where
  x : ℕ
  y : ℕ
  width : ℕ
  height : ℕ
  right_fits : x + width ≤ 65535
  bottom_fits : y + height ≤ 65535

namespace Rect

theorem line_fits (area : Rect) : area.y + min area.height 1 ≤ 65535 := by
  have hfits := area.bottom_fits
  omega

theorem inset_fits (area : Rect) {left right : ℕ} (hleft : left ≤ area.width) (hright : right ≤ area.width - left) :
    area.x + left + right + (area.width - left - right) ≤ 65535 := by
  have hfits := area.right_fits
  omega

def right (area : Rect) : ℕ := saturatingAdd16 area.x area.width

def bottom (area : Rect) : ℕ := saturatingAdd16 area.y area.height

def Contains (area : Rect) (position : Position) : Prop :=
  area.x ≤ position.x ∧ position.x < area.right ∧ area.y ≤ position.y ∧ position.y < area.bottom

instance (area : Rect) (position : Position) : Decidable (area.Contains position) := by
  unfold Contains
  infer_instance

def isEmpty (area : Rect) : Bool := area.width = 0 || area.height = 0

/-- `Rect::default`. -/
def empty : Rect := ⟨0,0,0,0,by decide,by decide⟩

end Rect

end Unpeel.AppKit
