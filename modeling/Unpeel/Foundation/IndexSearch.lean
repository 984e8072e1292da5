import Mathlib.Data.List.Range

/-! # Searches in ranges of indexes

The first index of a range, or the last one below a bound, that a predicate accepts, and the
number of elements at the front of a list that it accepts.
-/
namespace Unpeel.IndexSearch
variable {p : ℕ → Bool} {start stop i : ℕ}

/-- `(start..stop).find(p)`. -/
def firstFrom (p : ℕ → Bool) (start stop : ℕ) : Option ℕ := (List.range' start (stop - start)).find? p

/-- `(0..stop).rev().find(p)`. -/
def lastBelow (p : ℕ → Bool) : ℕ → Option ℕ
  | 0 => none
  | stop + 1 => if p stop then some stop else lastBelow p stop

theorem firstFrom_eq_some : firstFrom p start stop = some i ↔ p i = true ∧ (start ≤ i ∧ i < stop) ∧ ∀ j, start ≤ j → j < i → p j = false := by
  rw [firstFrom, List.find?_range'_eq_some, List.mem_range'_1]
  simp only [Bool.not_eq_true']
  constructor
  · rintro ⟨hp,⟨hle,hlt⟩,hmin⟩
    exact ⟨hp,⟨hle,by omega⟩,hmin⟩
  · rintro ⟨hp,⟨hle,hlt⟩,hmin⟩
    exact ⟨hp,⟨hle,by omega⟩,hmin⟩

theorem lastBelow_eq_some : lastBelow p stop = some i ↔ p i = true ∧ i < stop ∧ ∀ j, i < j → j < stop → p j = false := by
  induction stop with
  | zero => exact ⟨fun h => (by cases h),fun h => absurd h.2.1 (Nat.not_lt_zero i)⟩
  | succ stop ih =>
    rw [lastBelow]
    split_ifs with hp
    · constructor
      · rintro ⟨⟩
        exact ⟨hp,Nat.lt_succ_self _,fun j hlow hhigh => absurd hlow (by omega)⟩
      · rintro ⟨hi,hlt,hmax⟩
        rcases Nat.lt_or_ge i stop with hbelow | hge
        · rw [hmax stop hbelow (Nat.lt_succ_self _)] at hp
          cases hp
        · rw [show stop = i by omega]
    · rw [ih]
      constructor
      · rintro ⟨hi,hlt,hmax⟩
        refine ⟨hi,Nat.lt_succ_of_lt hlt,fun j hlow hhigh => ?_⟩
        rcases Nat.lt_or_ge j stop with hbelow | hge
        · exact hmax j hlow hbelow
        · rw [show j = stop by omega]
          exact Bool.eq_false_iff.mpr hp
      · rintro ⟨hi,hlt,hmax⟩
        have hne : i ≠ stop := fun heq => hp (by rwa [← heq])
        exact ⟨hi,by omega,fun j hlow hhigh => hmax j hlow (Nat.lt_succ_of_lt hhigh)⟩

theorem lastBelow_eq_none : lastBelow p stop = none ↔ ∀ j, j < stop → p j = false := by
  induction stop with
  | zero => exact ⟨fun _ j hlt => absurd hlt (Nat.not_lt_zero j),fun _ => rfl⟩
  | succ stop ih =>
    rw [lastBelow]
    split_ifs with hp
    · refine ⟨fun h => (by cases h),fun h => ?_⟩
      rw [h stop (Nat.lt_succ_self _)] at hp
      cases hp
    · rw [ih]
      refine ⟨fun h j hlt => ?_,fun h j hlt => h j (Nat.lt_succ_of_lt hlt)⟩
      rcases Nat.lt_or_ge j stop with hbelow | hge
      · exact h j hbelow
      · rw [show j = stop by omega]
        exact Bool.eq_false_iff.mpr hp

/-- `partition_point`, on a list that the predicate accepts up to a point. -/
def partitionPoint (p : ℕ → Bool) (l : List ℕ) : ℕ := l.findIdx fun x => !p x

variable {l : List ℕ}

theorem partitionPoint_le : partitionPoint p l ≤ l.length := List.findIdx_le_length

theorem of_lt_partitionPoint {x : ℕ} (h : i < partitionPoint p l) (hx : l[i]? = some x) : p x = true := by
  obtain ⟨hi,rfl⟩ := List.getElem?_eq_some_iff.mp hx
  simpa using List.not_of_lt_findIdx h

theorem not_of_partitionPoint {x : ℕ} (hx : l[partitionPoint p l]? = some x) : p x = false := by
  have hstop : (!p x) = true := List.findIdx_of_getElem?_eq_some (p := fun x => !p x) hx
  simpa using hstop

/-- The accepted indexes below a bound, in order: behind one comes the first accepted one after it. -/
theorem firstFrom_succ_of_getElem? {k j : ℕ} (hi : ((List.range stop).filter p)[k]? = some i)
    (hj : ((List.range stop).filter p)[k + 1]? = some j) : firstFrom p (i + 1) stop = some j := by
  have hsorted : ((List.range stop).filter p).Pairwise (· < ·) := List.pairwise_lt_range.filter p
  obtain ⟨hk,rfl⟩ := List.getElem?_eq_some_iff.mp hi
  obtain ⟨hk',rfl⟩ := List.getElem?_eq_some_iff.mp hj
  obtain ⟨hlt,hp⟩ := List.mem_filter.mp (List.getElem_mem hk')
  have hnext := List.pairwise_iff_getElem.mp hsorted
  refine firstFrom_eq_some.mpr ⟨hp,⟨hnext k (k + 1) hk hk' (Nat.lt_succ_self k),List.mem_range.mp hlt⟩,?_⟩
  intro m hlow hhigh
  by_contra hm
  -- an accepted index in between would stand at a place in between
  have hmem : m ∈ (List.range stop).filter p :=
    List.mem_filter.mpr ⟨List.mem_range.mpr (hhigh.trans (List.mem_range.mp hlt)),(Bool.not_eq_false (p m)).mp hm⟩
  obtain ⟨place,hplace,rfl⟩ := List.mem_iff_getElem.mp hmem
  rcases Nat.lt_or_ge k place with hbehind | hbefore
  · rcases Nat.eq_or_lt_of_le hbehind with heq | hlater
    · subst heq
      exact absurd hhigh (Nat.lt_irrefl _)
    · exact absurd (hnext (k + 1) place hk' hplace hlater) (by omega)
  · rcases Nat.eq_or_lt_of_le hbefore with heq | hearlier
    · subst heq
      omega
    · exact absurd (hnext place k hplace hk hearlier) (by omega)

end Unpeel.IndexSearch
