import Mathlib.Data.List.Basic
import Mathlib.Data.List.Pairwise

/-! # Logs with an increasing key

A log whose entries carry a strictly increasing key. Picking entries by ever
larger keys picks a subsequence of the log, whatever was skipped in between.
-/
namespace Unpeel
variable {α : Type*} (key : α → ℕ)

def Increasing (log : List α) : Prop := log.Pairwise (fun a b => key a < key b)

variable {key} {log picked : List α} {a : α}

theorem increasing_nil : Increasing key [] := List.Pairwise.nil

theorem Increasing.snoc (h : Increasing key log) (ha : ∀ b ∈ log, key b < key a) :
    Increasing key (log ++ [a]) := by
  refine List.pairwise_append.mpr ⟨h,List.pairwise_singleton _ _,?_⟩
  intro b hb c hc
  rw [List.mem_singleton.mp hc]
  exact ha b hb

/-- An entry with a larger key than everything picked so far can be picked next. -/
theorem Increasing.pick (h : Increasing key log) (hp : picked.Sublist log) (ha : a ∈ log)
    (hlt : ∀ b ∈ picked, key b < key a) : (picked ++ [a]).Sublist log := by
  obtain ⟨before,after,rfl⟩ := List.append_of_mem ha
  obtain ⟨front,back,rfl,hf,hb⟩ := List.sublist_append_iff.mp hp
  have hback : back = [] := by
    by_contra hne
    obtain ⟨b,rest,rfl⟩ := List.exists_cons_of_ne_nil hne
    have hmem : b ∈ a :: after := hb.subset List.mem_cons_self
    have hlt' := hlt b (List.mem_append_right _ List.mem_cons_self)
    rcases List.mem_cons.mp hmem with rfl | hin
    · exact Nat.lt_irrefl _ hlt'
    · have hcons := List.pairwise_cons.mp (List.pairwise_append.mp h).2.1
      exact Nat.lt_asymm hlt' (hcons.1 b hin)
  rw [hback, List.append_nil]
  exact hf.append (List.singleton_sublist.mpr List.mem_cons_self)

end Unpeel
