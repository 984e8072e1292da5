import Unpeel.Core.Handoff

/-! # The timer thread during a handoff

A handoff retires the jobs of each Session and, if it fails, builds them again.
The timer handles its messages in its own time, so what a slot ends up with is
stated for the time when it has caught up.
-/
namespace Unpeel.Core
open Session

namespace Timer
variable {t u : Timer} {slot : ℕ}
variable {messages : List TimerMsg}
variable {jobs : List HostTimerJob}

def about (t : Timer) (slot : ℕ) : List TimerMsg := t.sent.filter (·.slot = slot)

/-- Once the timer has caught up, the slot has the jobs it would have had
without the handoff. -/
def SameJobs (t : Timer) (slot : ℕ) : Prop :=
  t.jobs.after (t.earlier ++ t.sent) slot = t.undisturbed.after t.earlier slot

structure Untouched (t : Timer) (slot : ℕ) : Prop where
  jobs : t.jobs slot = t.undisturbed slot
  about : t.about slot = []

structure Dropped (t : Timer) (slot : ℕ) : Prop where
  jobs : t.jobs slot = []
  earlier : t.earlier = []
  about : t.about slot = []

def Dropping (t : Timer) (slot : ℕ) : Prop :=
  (t.jobs slot = t.undisturbed slot ∧ t.about slot = [.remove slot]) ∨ t.Dropped slot

/-- What a failed handoff may leave of a slot: nothing was changed, the same jobs
are on their way back, or there were none. -/
def Kept (t : Timer) (slot : ℕ) : Prop :=
  t.Untouched slot ∨
  (t.jobs slot = [] ∧ t.earlier = [] ∧ t.about slot = [.add slot (t.undisturbed slot)]) ∨
  (t.undisturbed.after t.earlier slot = [] ∧ t.jobs.after (t.earlier ++ t.sent) slot = [])

def Moves (t u : Timer) : Prop := t.receive = some u ∨ ∃ k job, t.retire k job = some u

theorem receive_cases (h : t.receive = some u) :
    (∃ message earlier, t.earlier = message :: earlier ∧
      u = { t with jobs := t.jobs.receive message, undisturbed := t.undisturbed.receive message,
                   earlier := earlier }) ∨
    (∃ message sent, t.earlier = [] ∧ t.sent = message :: sent ∧
      u = { t with jobs := t.jobs.receive message, sent := sent }) := by
  unfold receive at h
  split at h
  · next message earlier he => exact .inl ⟨message,earlier,he,(Option.some.inj h).symm⟩
  · next he =>
    split at h
    · next message sent hs => exact .inr ⟨message,sent,he,hs,(Option.some.inj h).symm⟩
    · cases h

theorem retire_cases {k : ℕ} {job : HostTimerJob} (h : t.retire k job = some u) :
    job ∈ t.jobs k ∧
    u = { t with jobs := t.jobs.retire k job, undisturbed := t.undisturbed.retire k job } := by
  unfold retire at h
  split at h
  · next hj => exact ⟨hj,(Option.some.inj h).symm⟩
  · cases h

/-- A move of the timer as one slot sees it: a message to both tables, a message of
the handoff about another slot or about this one, a job that ends, or nothing. -/
theorem Moves.cases (h : t.Moves u) (slot : ℕ) :
    (∃ message, t.earlier = message :: u.earlier ∧ u.jobs slot = t.jobs.receive message slot ∧
      u.undisturbed = t.undisturbed.receive message ∧ u.about slot = t.about slot) ∨
    (∃ message, t.earlier = [] ∧ u.earlier = [] ∧ u.jobs slot = t.jobs.receive message slot ∧
      u.undisturbed = t.undisturbed ∧ t.about slot = message :: u.about slot) ∨
    (u.earlier = t.earlier ∧ u.about slot = t.about slot ∧
      ((u.jobs slot = t.jobs slot ∧ u.undisturbed slot = t.undisturbed slot) ∨
        ∃ job ∈ t.jobs slot, u.jobs slot = (t.jobs slot).filter (· ≠ job) ∧
          u.undisturbed slot = (t.undisturbed slot).filter (· ≠ job))) := by
  rcases h with h | ⟨k,job,h⟩
  · rcases receive_cases h with ⟨message,earlier,he,rfl⟩ | ⟨message,sent,he,hs,rfl⟩
    · exact .inl ⟨message,he,rfl,rfl,rfl⟩
    · by_cases hm : message.slot = slot
      · exact .inr (.inl ⟨message,he,he,rfl,rfl,by simp [about, hs, hm]⟩)
      · exact .inr (.inr ⟨rfl,by simp [about, hs, hm],.inl ⟨JobTable.receive_of_ne _ hm,rfl⟩⟩)
  · obtain ⟨hj,rfl⟩ := retire_cases h
    refine .inr (.inr ⟨rfl,rfl,?_⟩)
    by_cases hk : slot = k
    · subst hk
      exact .inr ⟨job,hj,by simp [JobTable.retire],by simp [JobTable.retire]⟩
    · exact .inl ⟨by simp [JobTable.retire, hk],by simp [JobTable.retire, hk]⟩

theorem Untouched.moves (h : t.Untouched slot) (hm : t.Moves u) : u.Untouched slot := by
  rcases hm.cases slot with ⟨m,_,hj,hu,ha⟩ | ⟨m,_,_,_,_,ha⟩ | ⟨_,ha,⟨hj,hu⟩ | ⟨job,_,hj,hu⟩⟩
  · exact ⟨by rw [hj, hu, JobTable.receive_congr h.jobs],ha.trans h.about⟩
  · rw [h.about] at ha
    cases ha
  · exact ⟨by rw [hj, hu, h.jobs],ha.trans h.about⟩
  · exact ⟨by rw [hj, hu, h.jobs],ha.trans h.about⟩

theorem Dropped.moves (h : t.Dropped slot) (hm : t.Moves u) : u.Dropped slot := by
  rcases hm.cases slot with ⟨m,he,_⟩ | ⟨m,_,_,_,_,ha⟩ | ⟨he,ha,⟨hj,_⟩ | ⟨job,hjob,_⟩⟩
  · rw [h.earlier] at he
    cases he
  · rw [h.about] at ha
    cases ha
  · exact ⟨hj.trans h.jobs,he.trans h.earlier,ha.trans h.about⟩
  · rw [h.jobs] at hjob
    cases hjob

theorem Dropping.moves (h : t.Dropping slot) (hm : t.Moves u) : u.Dropping slot := by
  rcases h with ⟨h,hr⟩ | h
  · rcases hm.cases slot with ⟨m,_,hj,hu,ha⟩ | ⟨m,_,he,hj,_,ha⟩ | ⟨_,ha,⟨hj,hu⟩ | ⟨job,_,hj,hu⟩⟩
    · exact .inl ⟨by rw [hj, hu, JobTable.receive_congr h],ha.trans hr⟩
    · rw [hr] at ha
      obtain ⟨rfl,hrest⟩ := List.cons.inj ha
      exact .inr ⟨by rw [hj]; exact Function.update_self _ _ _,he,hrest.symm⟩
    · exact .inl ⟨by rw [hj, hu, h],ha.trans hr⟩
    · exact .inl ⟨by rw [hj, hu, h],ha.trans hr⟩
  · exact .inr (h.moves hm)

theorem after_eq_nil_of_retire {table : JobTable} {queue : List TimerMsg} (k : ℕ) (job : HostTimerJob)
    (h : table.after queue slot = []) : (table.retire k job).after queue slot = [] := by
  rw [List.eq_nil_iff_forall_not_mem] at h ⊢
  intro other hm
  refine h other (JobTable.mem_after_of_mem (fun hr => ?_) queue hm)
  simp only [JobTable.retire, Function.update_apply] at hr
  split at hr
  · next hk =>
    subst hk
    exact List.mem_of_mem_filter hr
  · exact hr

theorem Kept.moves (h : t.Kept slot) (hm : t.Moves u) : u.Kept slot := by
  rcases h with h | ⟨hj,he,ha⟩ | ⟨hu,hj⟩
  · exact .inl (h.moves hm)
  · rcases hm.cases slot with ⟨m,he',_⟩ | ⟨m,_,he',hj',hu',ha'⟩ | ⟨he',ha',⟨hj',hu'⟩ | ⟨job,hjob,_⟩⟩
    · rw [he] at he'
      cases he'
    · rw [ha] at ha'
      obtain ⟨rfl,hrest⟩ := List.cons.inj ha'
      refine .inl ⟨?_,hrest.symm⟩
      rw [hj', hu']
      simp [JobTable.receive, hj]
    · exact .inr (.inl ⟨hj'.trans hj,he'.trans he,by rw [ha', ha, hu']⟩)
    · rw [hj] at hjob
      cases hjob
  · refine .inr (.inr ?_)
    rcases hm with h | ⟨k,job,h⟩
    · rcases receive_cases h with ⟨message,earlier,he,rfl⟩ | ⟨message,sent,he,hs,rfl⟩
      · rw [he] at hu hj
        exact ⟨hu,hj⟩
      · rw [he] at hu hj
        rw [hs] at hj
        exact ⟨by rw [he]; exact hu,by rw [he]; exact hj⟩
    · obtain ⟨_,rfl⟩ := retire_cases h
      exact ⟨after_eq_nil_of_retire k job hu,after_eq_nil_of_retire k job hj⟩

theorem after_about (t : Timer) (slot : ℕ) :
    t.jobs.after (t.earlier ++ t.sent) slot = (t.jobs.after t.earlier).after (t.about slot) slot := by
  rw [JobTable.after_append, about, JobTable.after_filter]

theorem Untouched.sameJobs (h : t.Untouched slot) : t.SameJobs slot := by
  rw [SameJobs, after_about, h.about]
  exact JobTable.after_congr h.jobs t.earlier

theorem Kept.sameJobs (h : t.Kept slot) : t.SameJobs slot := by
  rcases h with h | ⟨hj,he,ha⟩ | ⟨hu,hj⟩
  · exact h.sameJobs
  · rw [SameJobs, after_about, he, ha]
    show (Function.update _ _ _ : JobTable) slot = t.undisturbed slot
    rw [Function.update_self]
    show t.jobs slot ++ _ = _
    rw [hj, List.nil_append]
  · exact hj.trans hu.symm

theorem about_send (t : Timer) (messages : List TimerMsg) (slot : ℕ) :
    (t.send messages).about slot = t.about slot ++ messages.filter (·.slot = slot) := by
  simp [about, send]

theorem Untouched.send (h : t.Untouched slot)
    (hm : messages.filter (·.slot = slot) = []) : (t.send messages).Untouched slot :=
  ⟨h.jobs,by rw [about_send, h.about, hm, List.append_nil]⟩

theorem Dropped.send (h : t.Dropped slot) (hm : messages.filter (·.slot = slot) = []) : (t.send messages).Dropped slot :=
  ⟨h.jobs,h.earlier,by rw [about_send, h.about, hm, List.append_nil]⟩

theorem Dropping.send {messages : List TimerMsg} (h : t.Dropping slot)
    (hm : messages.filter (·.slot = slot) = []) : (t.send messages).Dropping slot := by
  rcases h with ⟨hj,ha⟩ | h
  · exact .inl ⟨hj,by rw [about_send, ha, hm, List.append_nil]⟩
  · exact .inr (h.send hm)

end Timer
end Unpeel.Core
