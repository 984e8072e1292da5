import Unpeel.Foundation.SpacedLog

/-! # Feeds that do not repeat themselves

Each entry of a feed has a key and a label. An entry is shown unless the next entry of its key has
the same label. A list that takes the entries one by one, drops the last entry of the key if it is
repeated and is cut to a length, holds the end of what is shown; so the feed may be replaced by that
list at any time.
-/
namespace Unpeel.Collapsing
open List

variable {α κ ν : Type*} [DecidableEq κ] [DecidableEq ν] (key : α → κ) (label : α → ν)

def shown : List α → List α
  | [] => []
  | x :: rest =>
    if (rest.find? fun y => key y = key x).map label = some (label x) then shown rest else x :: shown rest

/-- Without the last entry of the key of `e`, if that has the label of `e`. -/
def unsaid (e : α) : List α → List α
  | [] => []
  | x :: rest =>
    if rest.any fun y => key y = key e then x :: unsaid e rest
    else if key x = key e ∧ label x = label e then rest
    else x :: rest

/-- A list that is cut to `n` entries whenever it takes one. -/
def view (n : ℕ) (feed : List α) : List α := feed.foldl (fun entries e => (unsaid key label e entries ++ [e]).rtake n) []

variable {key label} {e x : α} {k : κ} {l : List α} {n : ℕ}

omit [DecidableEq ν] in
theorem find_same (h : key x = k) : (x :: l).find? (fun y => key y = k) = some x := find?_cons_of_pos (by simpa using h)

omit [DecidableEq ν] in
theorem find_other (h : key x ≠ k) : (x :: l).find? (fun y => key y = k) = l.find? fun y => key y = k :=
  find?_cons_of_neg (by simpa using h)

theorem mem_of_shown (h : x ∈ shown key label l) : x ∈ l := by
  induction l with
  | nil => exact h
  | cons y rest ih =>
    unfold shown at h
    split_ifs at h
    · exact mem_cons_of_mem y (ih h)
    · exact mem_cons.mpr ((mem_cons.mp h).imp_right ih)

/-- What a key says first stays. -/
theorem label_shown (k : κ) (l : List α) :
    ((shown key label l).find? fun y => key y = k).map label = (l.find? fun y => key y = k).map label := by
  induction l with
  | nil => rfl
  | cons x rest ih =>
    unfold shown
    by_cases hkey : key x = k
    · subst hkey
      rw [find_same rfl]
      split_ifs with hrepeated
      · rw [ih, hrepeated]
        rfl
      · rw [find_same rfl]
    · rw [find_other hkey]
      split_ifs with hrepeated
      · exact ih
      · rw [find_other hkey, ih]

theorem any_shown (k : κ) (l : List α) : ((shown key label l).any fun y => key y = k) = l.any fun y => key y = k := by
  have h := congrArg Option.isSome (@label_shown _ _ _ _ _ key label k l)
  rw [Option.isSome_map, Option.isSome_map] at h
  rwa [Bool.eq_iff_iff, find?_isSome, find?_isSome, ← any_eq_true, ← any_eq_true, ← Bool.eq_iff_iff] at h

omit [DecidableEq ν] in
theorem find_of_any (h : (l.any fun y => key y = k) = false) : l.find? (fun y => key y = k) = none :=
  find?_eq_none.mpr fun y hy => by simpa using any_eq_false.mp h y hy

theorem unsaid_of_any (h : (l.any fun y => key y = key e) = false) : unsaid key label e l = l := by
  induction l with
  | nil => rfl
  | cons x rest ih =>
    rw [any_cons, Bool.or_eq_false_iff] at h
    rw [unsaid, if_neg (by simp [h.2]), if_neg fun hsame => by simp [hsame.1] at h]

theorem unsaid_last (h : (l.any fun y => key y = key e) = false) :
    unsaid key label e (x :: l) = if key x = key e ∧ label x = label e then l else x :: l := by
  rw [unsaid, if_neg (by simp [h])]

theorem shown_concat (l : List α) (e : α) : shown key label (l ++ [e]) = unsaid key label e (shown key label l) ++ [e] := by
  induction l with
  | nil => rfl
  | cons x rest ih =>
    rw [cons_append, shown, shown]
    by_cases hlater : rest.any fun y => key y = key x
    · -- what decides about `x` is in the rest already
      obtain ⟨y,hy⟩ := Option.isSome_iff_exists.mp (find?_isSome.mpr (any_eq_true.mp hlater))
      rw [find?_append, hy, Option.some_or]
      split_ifs with hrepeated
      · exact ih
      · rw [ih, unsaid]
        by_cases he : (shown key label rest).any fun z => key z = key e
        · rw [if_pos he, cons_append]
        · have hother : key x ≠ key e := fun h => he (by rw [any_shown, ← h]; exact hlater)
          rw [if_neg he, if_neg fun h => hother h.1, unsaid_of_any (eq_false_of_ne_true he)]
          rfl
    · have hnone := find_of_any (eq_false_of_ne_true hlater)
      rw [find?_append, hnone, Option.none_or]
      simp only [Option.map_none, reduceCtorEq, if_false]
      by_cases hkey : key e = key x
      · have hgone : ((shown key label rest).any fun z => key z = key e) = false := by
          rw [any_shown, hkey]
          exact eq_false_of_ne_true hlater
        rw [ih, unsaid_of_any hgone, unsaid_last hgone, find_same hkey, Option.map_some]
        by_cases hlabel : label e = label x
        · rw [if_pos (congrArg some hlabel), if_pos ⟨hkey.symm,hlabel.symm⟩]
        · rw [if_neg fun h => hlabel (Option.some.inj h), if_neg fun h => hlabel h.2.symm]
          rfl
      · rw [find_other hkey, find?_nil, Option.map_none, if_neg (by simp), ih, unsaid]
        by_cases he : (shown key label rest).any fun z => key z = key e
        · rw [if_pos he, cons_append]
        · rw [if_neg he, if_neg fun h => hkey h.1.symm, unsaid_of_any (eq_false_of_ne_true he)]
          rfl

theorem shown_drop_shown (k : ℕ) (l : List α) : shown key label ((shown key label l).drop k) = (shown key label l).drop k := by
  induction l generalizing k with
  | nil => rw [shown, drop_nil, shown]
  | cons x rest ih =>
    rw [shown]
    split_ifs with hrepeated
    · exact ih k
    · cases k with
      | zero =>
        have hrest : shown key label (shown key label rest) = shown key label rest := ih 0
        rw [drop_zero, shown, label_shown, if_neg hrepeated, hrest]
      | succ k => exact ih k

theorem unsaid_append (e : α) (a b : List α) : unsaid key label e (a ++ b) =
    if b.any fun y => key y = key e then a ++ unsaid key label e b else unsaid key label e a ++ b := by
  induction a with
  | nil =>
    split_ifs with h
    · rfl
    · exact unsaid_of_any (eq_false_of_ne_true h)
  | cons x a ih =>
    rw [cons_append, unsaid, any_append, ih, unsaid]
    by_cases h : b.any fun y => key y = key e
    · rw [if_pos (by rw [h, Bool.or_true]), if_pos h, if_pos h]
      rfl
    · rw [eq_false_of_ne_true h, Bool.or_false, if_neg Bool.false_ne_true, if_neg Bool.false_ne_true]
      split_ifs <;> rfl

theorem length_le_unsaid (e : α) (l : List α) : l.length ≤ (unsaid key label e l).length + 1 := by
  induction l with
  | nil => exact Nat.zero_le _
  | cons x rest ih =>
    rw [unsaid]
    split_ifs
    · exact Nat.succ_le_succ ih
    · exact Nat.le_refl _
    · exact Nat.le_succ _

theorem rtake_unsaid (n : ℕ) (e : α) (l : List α) :
    (unsaid key label e (l.rtake n) ++ [e]).rtake n = (unsaid key label e l ++ [e]).rtake n := by
  have hlong {a b : List α} (h : n ≤ b.length) : (a ++ b).rtake n = b.rtake n := by
    rw [SpacedLog.rtake_append, Nat.sub_eq_zero_of_le h, rtake_zero, nil_append]
  by_cases hlength : l.length ≤ n
  · have hwhole : l.rtake n = l := by rw [List.rtake, Nat.sub_eq_zero_of_le hlength, drop_zero]
    rw [hwhole]
  · have hcut : (l.rtake n).length = n := by rw [List.rtake, length_drop]; omega
    obtain ⟨a,ha⟩ : ∃ a, l = a ++ l.rtake n := ⟨_,(take_append_drop (l.length - n) l).symm⟩
    conv_rhs => rw [ha]
    rw [unsaid_append]
    split_ifs with hany
    · have := @length_le_unsaid _ _ _ _ _ key label e (l.rtake n)
      rw [append_assoc]
      exact (hlong (by rw [length_append, length_singleton]; omega)).symm
    · rw [unsaid_of_any (eq_false_of_ne_true hany), append_assoc]
      exact (hlong (by rw [length_append]; omega)).symm

theorem view_eq (n : ℕ) (feed : List α) : view key label n feed = (shown key label feed).rtake n := by
  induction feed using List.reverseRecOn with
  | nil => rw [view, shown, foldl_nil, rtake_nil]
  | append_singleton feed e ih =>
    rw [view, foldl_append, foldl_cons, foldl_nil, ← view, ih, rtake_unsaid, shown_concat]

theorem view_view (n : ℕ) (feed : List α) : view key label n (view key label n feed) = view key label n feed := by
  have hsettled : shown key label ((shown key label feed).rtake n) = (shown key label feed).rtake n := shown_drop_shown _ _
  have hshort : ((shown key label feed).rtake n).length ≤ n := by rw [List.rtake, length_drop]; omega
  rw [view_eq, view_eq, hsettled]
  exact congrArg (List.drop · _) (Nat.sub_eq_zero_of_le hshort)

/-- A feed may be cut down to its view. -/
theorem view_append_view (n : ℕ) (feed more : List α) :
    view key label n (view key label n feed ++ more) = view key label n (feed ++ more) := by
  rw [view, foldl_append, ← view, view_view, view, ← foldl_append]
  rfl

end Unpeel.Collapsing
