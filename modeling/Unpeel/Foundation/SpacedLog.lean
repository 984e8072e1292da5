import Mathlib.Data.List.DropRight
import Mathlib.Data.Finset.Card

/-! # Logs without early repetitions

A log is spaced when an element comes back only after a given number of other
elements. A window over the last entries decides this entry by entry: a log
stays spaced exactly when the new entry is not in the window.
-/
namespace Unpeel.SpacedLog
open List

variable {α : Type*} [DecidableEq α]
variable {n : ℕ} {l : List α}

/-- Between two occurrences of an element there are at least `n` other elements. -/
def Spaced (n : ℕ) (log : List α) : Prop :=
  ∀ before between after x, log = before ++ x :: (between ++ x :: after) →
    n ≤ (between.toFinset.erase x).card

theorem spaced_nil (n : ℕ) : Spaced n ([] : List α) := by
  intro before between after x h
  simp at h

omit [DecidableEq α] in
theorem rtake_append (n : ℕ) (l m : List α) :
    (l ++ m).rtake n = l.rtake (n - m.length) ++ m.rtake n := by
  simp only [List.rtake, drop_append, length_append]
  congr 1
  · rcases Nat.le_total n m.length with hn | hn
    · rw [drop_eq_nil_of_le (by omega), drop_eq_nil_of_le (by omega)]
    · congr 1
      omega
  · rcases Nat.le_total n m.length with hn | hn
    · congr 1
      omega
    · rw [show l.length + m.length - n - l.length = 0 by omega, show m.length - n = 0 by omega]

omit [DecidableEq α] in
/-- A window that takes a new entry and is cut again is the window of the log. -/
theorem rtake_concat_window (n : ℕ) (l : List α) (x : α) :
    (l.rtake n ++ [x]).rtake n = (l ++ [x]).rtake n := by
  cases n with
  | zero => simp
  | succ n =>
    rw [rtake_concat_succ, rtake_concat_succ]
    simp only [List.rtake, drop_drop, length_drop]
    rw [show l.length - (n + 1) + (l.length - (l.length - (n + 1)) - n) = l.length - n by omega]

omit [DecidableEq α] in
theorem mem_rtake_split {x : α} (h : x ∈ l.rtake n) :
    ∃ before between, l = before ++ x :: between ∧ between.length < n := by
  obtain ⟨a,b,hab⟩ := append_of_mem h
  have hlen := congrArg List.length hab
  simp only [List.rtake, length_drop, length_append, length_cons] at hlen
  refine ⟨l.take (l.length - n) ++ a,b,?_,by omega⟩
  rw [append_assoc, ← hab]
  exact (take_append_drop _ l).symm

theorem Spaced.of_append {m : List α} (h : Spaced n (l ++ m)) : Spaced n l := by
  intro before between after x hl
  exact h before between (after ++ m) x (by simp [hl])

theorem Spaced.not_mem {x : α} (h : Spaced n (l ++ [x])) : x ∉ l.rtake n := by
  intro hx
  obtain ⟨before,between,rfl,hlt⟩ := mem_rtake_split hx
  have hn := h before between [] x (by simp)
  have hle := (Finset.card_erase_le (s := between.toFinset) (a := x)).trans between.toFinset_card_le
  omega

/-- The window of a spaced log holds no element twice. -/
theorem Spaced.rtake_nodup (h : Spaced n l) : (l.rtake n).Nodup := by
  induction l using List.reverseRecOn with
  | nil => simp
  | append_singleton l x ih =>
    cases n with
    | zero => simp
    | succ n =>
      rw [rtake_concat_succ]
      have hw := ih h.of_append
      have hx := h.not_mem
      have hsub : (l.rtake n).Sublist (l.rtake (n + 1)) := by
        have hle : l.length - (n + 1) ≤ l.length - n := by omega
        exact drop_sublist_drop_left l hle
      rw [nodup_append]
      refine ⟨hw.sublist hsub,by simp,?_⟩
      rintro a ha b hb rfl
      cases mem_singleton.mp hb
      exact hx (hsub.subset ha)

/-- One more entry: it must not be in the window. -/
theorem spaced_concat {x : α} :
    Spaced n (l ++ [x]) ↔ Spaced n l ∧ x ∉ l.rtake n := by
  refine ⟨fun h => ⟨h.of_append,h.not_mem⟩,?_⟩
  rintro ⟨hs,hx⟩ before between after y hl
  rcases eq_nil_or_concat after with rfl | ⟨after,z,rfl⟩
  · have hl' : l ++ [x] = (before ++ y :: between) ++ [y] := by simpa using hl
    obtain ⟨rfl,hxy⟩ := append_inj' hl' rfl
    cases singleton_injective hxy
    -- the window has to lie behind the first occurrence
    have hsplit : (before ++ x :: between).rtake n =
        (before ++ [x]).rtake (n - between.length) ++ between.rtake n := by
      rw [← rtake_append]
      simp
    rw [hsplit, mem_append, not_or] at hx
    have hlen : n ≤ between.length := by
      by_contra hlt
      obtain ⟨k,hk⟩ : ∃ k, n - between.length = k + 1 := ⟨n - between.length - 1,by omega⟩
      apply hx.1
      rw [hk, rtake_concat_succ]
      simp
    have hnodup : (between.rtake n).Nodup := by
      have hn := hs.rtake_nodup
      rw [hsplit] at hn
      exact (nodup_append.mp hn).2.1
    calc n = (between.rtake n).length := by simp [List.rtake]; omega
      _ = (between.rtake n).toFinset.card := (toFinset_card_of_nodup hnodup).symm
      _ ≤ (between.toFinset.erase x).card := by
        apply Finset.card_le_card
        intro z hz
        rw [mem_toFinset] at hz
        have hzx : z ≠ x := by
          rintro rfl
          exact hx.2 hz
        exact Finset.mem_erase.mpr ⟨hzx,mem_toFinset.mpr ((drop_subset _ _) hz)⟩
  · have hl' : l ++ [x] = (before ++ y :: (between ++ y :: after)) ++ [z] := by simpa using hl
    obtain ⟨rfl,_⟩ := append_inj' hl' rfl
    exact hs before between after y rfl

end Unpeel.SpacedLog
