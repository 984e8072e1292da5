import Mathlib.Data.List.Perm.Basic
import Mathlib.Data.List.Perm.Lattice
import Mathlib.Data.List.Dedup

/-! # Lists refilled in place

Some entries of a list are marked. New entries take the marked places from left to right,
and the rest of the list stays where it is.
-/
namespace Unpeel.Refill
open List

variable {α : Type*} (p q : α → Bool)
variable {a : α} {new : List α}
variable {l : List α}

def refill : List α → List α → List α
  | [], _ => []
  | a :: l, [] => a :: l
  | a :: l, b :: new => if p a then b :: refill l new else a :: refill l (b :: new)

/-- The places of the marked entries of a list that begins at place `k`. -/
def slotsFrom (k : ℕ) (l : List α) : List ℕ := (l.zipIdx k).filterMap fun entry => if p entry.1 then some entry.2 else none

variable {p q}

@[simp] theorem refill_nil (new : List α) : refill p [] new = [] := by cases new <;> rfl

@[simp] theorem refill_nil_right (l : List α) : refill p l [] = l := by cases l <;> rfl

theorem refill_cons_marked (h : p a = true) (l : List α) (b : α) (new : List α) :
    refill p (a :: l) (b :: new) = b :: refill p l new := if_pos h

theorem refill_cons_plain (h : p a = false) (l new : List α) : refill p (a :: l) new = a :: refill p l new := by
  cases new with
  | nil => rw [refill_nil_right, refill_nil_right]
  | cons b new => exact if_neg (by rw [h]; decide)

/-- An entry that is not marked keeps its place. -/
theorem getElem?_refill {i : ℕ} (h : l[i]? = some a) (ha : p a = false) (new : List α) : (refill p l new)[i]? = some a := by
  induction l generalizing i new with
  | nil => cases h
  | cons c l ih =>
    cases new with
    | nil => rwa [refill_nil_right]
    | cons b new =>
      cases i with
      | zero =>
        obtain rfl : c = a := Option.some.inj h
        rw [refill_cons_plain ha]
        rfl
      | succ i =>
        by_cases hc : p c = true
        · rw [refill_cons_marked hc]
          exact ih h new
        · rw [refill_cons_plain (Bool.not_eq_true _ ▸ hc)]
          exact ih h (b :: new)

theorem filter_not_refill (l : List α) (hnew : ∀ b ∈ new, p b = true) :
    (refill p l new).filter (fun a => !p a) = l.filter (fun a => !p a) := by
  induction l generalizing new with
  | nil => rw [refill_nil]
  | cons a l ih =>
    cases new with
    | nil => rw [refill_nil_right]
    | cons b new =>
      by_cases h : p a = true
      · have hb := hnew b mem_cons_self
        rw [refill_cons_marked h, filter_cons_of_neg (by rw [hb]; decide), filter_cons_of_neg (by rw [h]; decide)]
        exact ih fun c hc => hnew c (mem_cons_of_mem _ hc)
      · have ha : p a = false := Bool.not_eq_true _ ▸ h
        rw [refill_cons_plain ha, filter_cons_of_pos (by rw [ha]; rfl), filter_cons_of_pos (by rw [ha]; rfl), ih hnew]

/-- The marked places are the new entries, in their order, if there are as many. -/
theorem filter_refill (hnew : ∀ b ∈ new, p b = true) (hlength : new.length = (l.filter p).length) :
    (refill p l new).filter p = new := by
  induction l generalizing new with
  | nil =>
    rw [filter_nil, length_nil, length_eq_zero_iff] at hlength
    rw [hlength, refill_nil, filter_nil]
  | cons a l ih =>
    by_cases h : p a = true
    · rw [filter_cons_of_pos h, length_cons] at hlength
      cases new with
      | nil => cases hlength
      | cons b new =>
        rw [refill_cons_marked h, filter_cons_of_pos (hnew b mem_cons_self),
          ih (fun c hc => hnew c (mem_cons_of_mem _ hc)) (Nat.succ.inj hlength)]
    · rw [filter_cons_of_neg h] at hlength
      rw [refill_cons_plain (Bool.not_eq_true _ ▸ h), filter_cons_of_neg h, ih hnew hlength]

theorem perm_refill (hnew : ∀ b ∈ new, p b = true) (hperm : new.Perm (l.filter p)) : (refill p l new).Perm l :=
  calc (refill p l new).Perm ((refill p l new).filter p ++ (refill p l new).filter fun a => !p a) :=
        (filter_append_perm p _).symm
    _ = new ++ l.filter (fun a => !p a) := by rw [filter_refill hnew hperm.length_eq, filter_not_refill l hnew]
    _ |>.Perm (l.filter p ++ l.filter fun a => !p a) := hperm.append_right _
    _ |>.Perm l := filter_append_perm p l

/-- Two sets of places can be refilled in either order. -/
theorem refill_comm (l : List α) {more : List α} (hnew : ∀ b ∈ new, p b = true ∧ q b = false)
    (hmore : ∀ b ∈ more, q b = true ∧ p b = false) (hapart : ∀ a ∈ l, ¬(p a = true ∧ q a = true)) :
    refill q (refill p l new) more = refill p (refill q l more) new := by
  induction l generalizing new more with
  | nil => rw [refill_nil, refill_nil, refill_nil]
  | cons a l ih =>
    have hrest : ∀ c ∈ l, ¬(p c = true ∧ q c = true) := fun c hc => hapart c (mem_cons_of_mem _ hc)
    cases new with
    | nil => rw [refill_nil_right, refill_nil_right]
    | cons b new =>
      cases more with
      | nil => rw [refill_nil_right, refill_nil_right]
      | cons d more =>
        have hnew' : ∀ c ∈ new, p c = true ∧ q c = false := fun c hc => hnew c (mem_cons_of_mem _ hc)
        have hmore' : ∀ c ∈ more, q c = true ∧ p c = false := fun c hc => hmore c (mem_cons_of_mem _ hc)
        by_cases hp : p a = true
        · have hq : q a = false := Bool.not_eq_true _ ▸ fun hq => hapart a mem_cons_self ⟨hp,hq⟩
          rw [refill_cons_marked hp, refill_cons_plain (hnew b mem_cons_self).2, refill_cons_plain hq,
            refill_cons_marked hp, ih hnew' hmore hrest]
        · have hp' : p a = false := Bool.not_eq_true _ ▸ hp
          by_cases hq : q a = true
          · rw [refill_cons_plain hp', refill_cons_marked hq, refill_cons_marked hq,
              refill_cons_plain (hmore d mem_cons_self).2, ih hnew hmore' hrest]
          · have hq' : q a = false := Bool.not_eq_true _ ▸ hq
            rw [refill_cons_plain hp', refill_cons_plain hq', refill_cons_plain hq', refill_cons_plain hp', ih hnew hmore hrest]

/-! ### The places one by one -/

theorem slotsFrom_marked (h : p a = true) (k : ℕ) (l : List α) : slotsFrom p k (a :: l) = k :: slotsFrom p (k + 1) l := by
  simp only [slotsFrom, zipIdx_cons, filterMap_cons, h, if_true]

theorem slotsFrom_plain (h : p a = false) (k : ℕ) (l : List α) : slotsFrom p k (a :: l) = slotsFrom p (k + 1) l := by
  simp only [slotsFrom, zipIdx_cons, filterMap_cons, h, Bool.false_eq_true, if_false]

theorem length_slotsFrom (k : ℕ) (l : List α) : (slotsFrom p k l).length = (l.filter p).length := by
  induction l generalizing k with
  | nil => rfl
  | cons a l ih =>
    by_cases h : p a = true
    · rw [slotsFrom_marked h, filter_cons_of_pos h, length_cons, length_cons, ih]
    · rw [slotsFrom_plain (Bool.not_eq_true _ ▸ h), filter_cons_of_neg h, ih]

/-- Setting the marked places one by one refills them. -/
theorem foldl_set_slotsFrom (front l new : List α) :
    ((slotsFrom p front.length l).zip new).foldl (fun l entry => l.set entry.1 entry.2) (front ++ l) = front ++ refill p l new := by
  induction l generalizing front new with
  | nil => rw [refill_nil]; rfl
  | cons a l ih =>
    have hmove : ∀ b : α, front ++ b :: l = (front ++ [b]) ++ l := fun b => (append_cons front b l)
    have hcount : ∀ b : α, front.length + 1 = (front ++ [b]).length := fun b => by rw [length_append, length_singleton]
    cases new with
    | nil => rw [zip_nil_right, refill_nil_right, foldl_nil]
    | cons b new =>
      by_cases h : p a = true
      · rw [slotsFrom_marked h, zip_cons_cons, foldl_cons, refill_cons_marked h, set_append_right _ _ (Nat.le_refl _),
          Nat.sub_self, set_cons_zero, hmove, hcount b, ih, append_assoc]
        rfl
      · have hplain : p a = false := Bool.not_eq_true _ ▸ h
        rw [slotsFrom_plain hplain, refill_cons_plain hplain, hmove, hcount a, ih, append_assoc]
        rfl

end Unpeel.Refill
