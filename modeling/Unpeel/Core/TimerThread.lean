import Mathlib.Data.List.Basic

/-! # The timer thread

One thread runs the periodic jobs of all Sessions. Its table is keyed by the
reactor slot, and the messages that change it carry nothing but the slot.
-/
namespace Unpeel.Core

inductive JobKind where
  | heartbeat
  | menu
  | appTitle
  | cancellation
  | runtimeObserver
  deriving DecidableEq, Repr

structure HostTimerJob where
  owner : ℕ
  kind : JobKind
  deriving DecidableEq, Repr

/-- `build_session_timer_jobs`: the observer needs a child whose start time is
known. -/
def buildSessionTimerJobs (owner : ℕ) (escapeCancelsTurn : Bool) (pid pidStartedAt : Option ℕ) :
    List HostTimerJob :=
  [⟨owner,.heartbeat⟩,⟨owner,.menu⟩,⟨owner,.appTitle⟩] ++
    (if escapeCancelsTurn then [⟨owner,.cancellation⟩] else []) ++
    (if pid.isSome && pidStartedAt.isSome then [⟨owner,.runtimeObserver⟩] else [])

inductive TimerMsg where
  | add (slot : ℕ) (jobs : List HostTimerJob)
  | remove (slot : ℕ)
  deriving DecidableEq, Repr

def TimerMsg.slot : TimerMsg → ℕ
  | .add slot _ => slot
  | .remove slot => slot

abbrev JobTable := ℕ → List HostTimerJob

namespace JobTable
variable {k : ℕ} {table other : JobTable}

/-- One message of `run_timer`. -/
def receive (table : JobTable) : TimerMsg → JobTable
  | .add slot jobs => Function.update table slot (table slot ++ jobs)
  | .remove slot => Function.update table slot []

def after (table : JobTable) (queue : List TimerMsg) : JobTable := queue.foldl receive table

def retire (table : JobTable) (slot : ℕ) (job : HostTimerJob) : JobTable :=
  Function.update table slot ((table slot).filter (· ≠ job))

theorem after_append (table : JobTable) (queue more : List TimerMsg) :
    table.after (queue ++ more) = (table.after queue).after more := List.foldl_append

theorem after_add (table : JobTable) (queue : List TimerMsg) (slot k : ℕ) (jobs : List HostTimerJob) :
    table.after (queue ++ [.add slot jobs]) k =
      if k = slot then table.after queue k ++ jobs else table.after queue k := by
  rw [after_append]
  show Function.update (table.after queue) slot (table.after queue slot ++ jobs) k = _
  by_cases h : k = slot
  · subst h
    simp
  · simp [h]

theorem after_remove (table : JobTable) (queue : List TimerMsg) (slot k : ℕ) :
    table.after (queue ++ [.remove slot]) k = if k = slot then [] else table.after queue k := by
  rw [after_append]
  show Function.update (table.after queue) slot [] k = _
  by_cases h : k = slot
  · subst h
    simp
  · simp [h]

theorem receive_of_ne (table : JobTable) {msg : TimerMsg} (h : msg.slot ≠ k) :
    table.receive msg k = table k := by
  cases msg with
  | add slot jobs | remove slot => exact Function.update_of_ne (Ne.symm h) _ _

theorem receive_congr (h : table k = other k) (msg : TimerMsg) :
    table.receive msg k = other.receive msg k := by
  by_cases hm : msg.slot = k
  · subst hm
    cases msg with
    | add slot jobs =>
      simp only [TimerMsg.slot] at h
      simp [receive, TimerMsg.slot, h]
    | remove slot => simp [receive, TimerMsg.slot]
  · rw [receive_of_ne table hm, receive_of_ne other hm, h]

theorem after_congr (h : table k = other k) (queue : List TimerMsg) :
    table.after queue k = other.after queue k := by
  induction queue generalizing table other with
  | nil => exact h
  | cons msg queue ih => exact ih (receive_congr h msg)

theorem after_filter (table : JobTable) (queue : List TimerMsg) (k : ℕ) :
    table.after (queue.filter (·.slot = k)) k = table.after queue k := by
  induction queue generalizing table with
  | nil => rfl
  | cons msg queue ih =>
    by_cases hm : msg.slot = k
    · rw [List.filter_cons_of_pos (by simpa using hm)]
      exact ih (table.receive msg)
    · rw [List.filter_cons_of_neg (by simpa using hm), ih table]
      exact after_congr (receive_of_ne table hm).symm queue

/-- A job stays until it is removed, whatever else the table starts with. -/
theorem mem_after_of_mem {job : HostTimerJob}
    (h : job ∈ table k → job ∈ other k) (queue : List TimerMsg) (hm : job ∈ table.after queue k) :
    job ∈ other.after queue k := by
  induction queue generalizing table other with
  | nil => exact h hm
  | cons msg queue ih =>
    refine ih (fun hr => ?_) hm
    cases msg with
    | add slot jobs =>
      simp only [receive, Function.update_apply] at hr ⊢
      split
      · next hk =>
        subst hk
        rw [if_pos rfl, List.mem_append] at hr
        exact List.mem_append.mpr (hr.imp_left h)
      · next hk =>
        rw [if_neg hk] at hr
        exact h hr
    | remove slot =>
      simp only [receive, Function.update_apply] at hr ⊢
      split
      · next hk =>
        rw [if_pos hk] at hr
        cases hr
      · next hk =>
        rw [if_neg hk] at hr
        exact h hr

theorem mem_after_retire {slot : ℕ} {job other : HostTimerJob}
    {queue : List TimerMsg} (h : other ∈ table.after queue k) (hne : other ≠ job) :
    other ∈ (table.retire slot job).after queue k := by
  refine mem_after_of_mem (fun hm => ?_) queue h
  simp only [retire, Function.update_apply]
  split
  · next hk =>
    subst hk
    exact List.mem_filter.mpr ⟨hm,by simpa using hne⟩
  · exact hm

end JobTable
end Unpeel.Core
