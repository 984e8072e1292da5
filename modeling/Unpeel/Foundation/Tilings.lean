import Mathlib.Data.List.Basic

/-! # Tilings

Ranges of numbers that stand one behind the other. Each starts where the one before it ended, and
every number in between lies in exactly one of them.
-/
namespace Unpeel.Tilings
variable {α : Type} (start past : α → ℕ)
variable {lo hi : ℕ} {tiles : List α}

/-- The ranges go from `lo` to `hi`, none of them empty. -/
def Tiles : ℕ → List α → ℕ → Prop
  | lo, [], hi => lo = hi
  | lo, tile :: tiles, hi => start tile = lo ∧ lo < past tile ∧ Tiles (past tile) tiles hi

variable {start past}

theorem Tiles.append {mid : ℕ} {left right : List α} (hleft : Tiles start past lo left mid) (hright : Tiles start past mid right hi) :
    Tiles start past lo (left ++ right) hi := by
  induction left generalizing lo with
  | nil =>
    rwa [hleft]
  | cons tile tiles ih =>
    obtain ⟨hstart,hlt,htiles⟩ := hleft
    exact ⟨hstart,hlt,ih htiles⟩

theorem Tiles.le (h : Tiles start past lo tiles hi) : lo ≤ hi := by
  induction tiles generalizing lo with
  | nil => exact Nat.le_of_eq h
  | cons tile tiles ih =>
    obtain ⟨-,hlt,htiles⟩ := h
    exact Nat.le_trans (Nat.le_of_lt hlt) (ih htiles)

/-- Each range lies between the ends. -/
theorem Tiles.inside {i : ℕ} {tile : α} (h : Tiles start past lo tiles hi) (hi' : tiles[i]? = some tile) :
    lo ≤ start tile ∧ start tile < past tile ∧ past tile ≤ hi := by
  induction tiles generalizing lo i with
  | nil => cases hi'
  | cons first tiles ih =>
    obtain ⟨rfl,hlt,htiles⟩ := h
    cases i with
    | zero =>
      cases hi'
      exact ⟨Nat.le_refl _,hlt,htiles.le⟩
    | succ i =>
      obtain ⟨hlo,hrange⟩ := ih htiles hi'
      exact ⟨Nat.le_trans (Nat.le_of_lt hlt) hlo,hrange⟩

/-- The first range that ends behind a number is the one it lies in. -/
theorem Tiles.findIdx?_eq {i n : ℕ} {tile : α} (h : Tiles start past lo tiles hi) (hi' : tiles[i]? = some tile)
    (hstart : start tile ≤ n) (hpast : n < past tile) : tiles.findIdx? (fun tile => n < past tile) = some i := by
  induction tiles generalizing lo i with
  | nil => cases hi'
  | cons first tiles ih =>
    obtain ⟨rfl,hlt,htiles⟩ := h
    rw [List.findIdx?_cons]
    cases i with
    | zero =>
      cases hi'
      rw [if_pos (by simpa using hpast)]
    | succ i =>
      have hbehind := (htiles.inside hi').1
      rw [if_neg (by simpa using Nat.le_trans hbehind hstart), ih htiles hi']
      rfl

theorem Tiles.exists_mem {n : ℕ} (h : Tiles start past lo tiles hi) (hlo : lo ≤ n) (hhi : n < hi) :
    ∃ (i : ℕ) (tile : α), tiles[i]? = some tile ∧ start tile ≤ n ∧ n < past tile := by
  induction tiles generalizing lo with
  | nil =>
    rw [Tiles] at h
    omega
  | cons first tiles ih =>
    obtain ⟨rfl,hlt,htiles⟩ := h
    rcases Nat.lt_or_ge n (past first) with hpast | hpast
    · exact ⟨0,first,rfl,hlo,hpast⟩
    · obtain ⟨i,tile,hi',hrange⟩ := ih htiles hpast
      exact ⟨i + 1,tile,hi',hrange⟩

end Unpeel.Tilings
