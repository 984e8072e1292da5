import Mathlib.Data.List.Basic
import Mathlib.Data.List.Induction

/-! # Histories

A list that only grows at its end, with a condition on each entry that may refer to
everything before it. In a history of times, a bound on what lies in the window before
each entry is a bound on every interval of that width.
-/
namespace Unpeel
variable {α : Type*}

def Throughout (Q : List α → α → Prop) (log : List α) : Prop :=
  ∀ before a after, log = before ++ a :: after → Q before a

variable {Q : List α → α → Prop} {log : List α}

theorem throughout_nil : Throughout Q [] := by
  intro before a after h
  cases before with
  | nil | cons b before => cases h

theorem Throughout.snoc (h : Throughout Q log) {a : α} (ha : Q log a) : Throughout Q (log ++ [a]) := by
  intro before b after hb
  rcases List.append_eq_append_iff.mp hb with ⟨rest,hbefore,hrest⟩ | ⟨rest,hlog,hrest⟩
  · cases rest with
    | nil =>
      rw [List.append_nil] at hbefore
      obtain ⟨rfl,-⟩ := List.cons.inj hrest
      rw [hbefore]
      exact ha
    | cons c rest =>
      obtain ⟨-,hnil⟩ := List.cons.inj hrest
      exact absurd hnil.symm (by simp)
  · cases rest with
    | nil =>
      rw [List.append_nil] at hlog
      obtain ⟨rfl,-⟩ := List.cons.inj hrest
      rw [← hlog]
      exact ha
    | cons c rest =>
      obtain ⟨rfl,-⟩ := List.cons.inj hrest
      exact h before _ rest hlog

/-- Several entries at once. -/
theorem Throughout.append (h : Throughout Q log) {more : List α}
    (hm : ∀ front a back, more = front ++ a :: back → Q (log ++ front) a) : Throughout Q (log ++ more) := by
  induction more generalizing log with
  | nil => simpa using h
  | cons a more ih =>
    have ha : Q log a := by simpa using hm [] a more rfl
    have hrest := ih (h.snoc ha) fun front b back hb => by
      simpa using hm (a :: front) b back (by rw [hb,List.cons_append])
    simpa using hrest

section Windows

/-- The times that lie less than `width` before `now`. -/
def recentTimes (width now : ℕ) (times : List ℕ) : List ℕ := times.filter fun time => now - time < width

def timesWithin (width first : ℕ) (times : List ℕ) : List ℕ :=
  times.filter fun time => first ≤ time && time < first + width

theorem recentTimes_append (width now : ℕ) (times more : List ℕ) :
    recentTimes width now (times ++ more) = recentTimes width now times ++ recentTimes width now more :=
  List.filter_append ..

/-- What is out of the window stays out of it. -/
theorem recentTimes_recentTimes {width now later : ℕ} (h : now ≤ later) (times : List ℕ) :
    recentTimes width later (recentTimes width now times) = recentTimes width later times := by
  unfold recentTimes
  rw [List.filter_filter]
  apply List.filter_congr
  intro time _
  rw [← Bool.decide_and]
  apply decide_eq_decide.mpr
  omega

/-- Where each entry finds fewer than `bound` in its window, no interval of that width has
more than `bound`. -/
theorem length_timesWithin_le {width bound : ℕ} {times : List ℕ}
    (h : Throughout (fun before time => (recentTimes width time before).length < bound) times) (first : ℕ) :
    (timesWithin width first times).length ≤ bound := by
  induction times using List.reverseRecOn with
  | nil => exact Nat.zero_le _
  | append_singleton times time ih =>
    have hbefore : Throughout (fun before time => (recentTimes width time before).length < bound) times :=
      fun before a after he => h before a (after ++ [time]) (by rw [he, List.append_assoc]; rfl)
    have hwithin : timesWithin width first (times ++ [time]) =
        timesWithin width first times ++ timesWithin width first [time] := List.filter_append ..
    rw [hwithin, List.length_append]
    by_cases htime : first ≤ time ∧ time < first + width
    · -- every earlier entry of the interval is in the window of the last one
      have hsub : (timesWithin width first times).length ≤ (recentTimes width time times).length := by
        apply List.Sublist.length_le
        apply List.monotone_filter_right
        intro earlier hearlier
        obtain ⟨hge,-⟩ := Bool.and_eq_true_iff.mp hearlier
        have hge := of_decide_eq_true hge
        apply decide_eq_true
        omega
      have hlast := h times time [] rfl
      have hone : (timesWithin width first [time]).length ≤ 1 := List.length_filter_le _ [time]
      omega
    · have hnone : timesWithin width first [time] = [] := by
        apply List.filter_eq_nil_iff.mpr
        intro t ht
        rw [List.mem_singleton.mp ht, Bool.and_eq_true, decide_eq_true_eq, decide_eq_true_eq]
        exact htime
      rw [hnone]
      exact ih hbefore

end Windows

end Unpeel
