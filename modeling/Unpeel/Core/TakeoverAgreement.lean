import Unpeel.Core.TakeoverStages

/-! # Agreement of the two cores

The commit is a single message that nobody acknowledges, and the new core serves
every Session from its adoption on. The two cores agree as long as the old core
gives up only against a successor that hosts nothing, and the successor stays
once it has committed.
-/
namespace Unpeel.Core
open Session Runs

namespace Takeover
variable {table : List (Option CoreSession)} {s t : Takeover}

theorem AgreementInv.step {a : TakeoverAction} (h : s.AgreementInv table) (hok : InTime s a)
    (hs : takeoverStep s a = some t) : t.AgreementInv table := by
  cases a with
  | flushed =>
    simp only [takeoverStep] at hs
    split at hs
    · next ho => exact Option.some.inj hs ▸ h.flushed ho
    · cases hs
  | retired =>
    simp only [takeoverStep] at hs
    split at hs
    · next ho =>
      split at hs
      · exact Option.some.inj hs ▸ h.retired ho
      · cases hs
    · cases hs
  | exported now sockets =>
    simp only [takeoverStep] at hs
    split at hs
    swap
    · cases hs
    next ho =>
    obtain ⟨c,hc,hs⟩ := Option.bind_eq_some_iff.mp hs
    split at hs
    · next he => exact Option.some.inj hs ▸ h.exported ho hc he
    · cases hs
  | sentHeader =>
    simp only [takeoverStep] at hs
    split at hs
    · next ho => exact Option.some.inj hs ▸ h.sentHeader ho
    · cases hs
  | sentSession =>
    simp only [takeoverStep] at hs
    split at hs
    · next ho => exact Option.some.inj hs ▸ h.sentSession ho
    · cases hs
  | committed =>
    simp only [takeoverStep] at hs
    split at hs
    · next ho hr => exact Option.some.inj hs ▸ h.committed ho hr
    · cases hs
  | fails cause =>
    obtain ⟨⟨u,error⟩,hf,rfl⟩ := Option.map_eq_some_iff.mp hs
    exact h.abandon hf hok
  | oldServes slot event =>
    simp only [takeoverStep] at hs
    split at hs
    · next ho => exact h.serveOld (by rw [ho]; trivial) hs
    · next ho => exact h.serveOld (by rw [ho]; trivial) hs
    · cases hs
  | oldExits =>
    simp only [takeoverStep] at hs
    split at hs <;> cases hs
    next ho =>
    have hl := h.left (by rw [ho]; exact id) (by rw [ho]; exact id)
    exact ⟨h.known,fun hd => absurd hd id,fun hg => absurd hg id,fun _ _ => hl⟩
  | newHeader =>
    simp only [takeoverStep] at hs
    split at hs <;> cases hs
    next hn hw =>
    exact h.newPhase (by simp [hn]) (by simp [hn]) (fun _ hst => hst.header hn hw)
  | newAdopts now =>
    simp only [takeoverStep] at hs
    split at hs <;> cases hs
    next left n slot e rest hn hw =>
    refine h.unseen rfl rfl rfl rfl (fun _ hst => hst.adopt hn hw) (fun hd k hk => ?_)
      (fun hg => absurd hg hok) (fun hsv => absurd (hn.symm.trans hsv) (by simp))
    simp only [Function.update_apply] at hk
    split at hk
    · next he => exact he ▸ (h.undecided hd).stage.adopt_exported hn hw
    · exact (h.undecided hd).adopted k hk
  | newRecords =>
    simp only [takeoverStep] at hs
    split at hs <;> cases hs
    next hn =>
    exact h.newPhase (by simp [hn]) (by simp [hn]) (fun _ hst => hst.record hn)
  | newCommits =>
    simp only [takeoverStep] at hs
    split at hs <;> cases hs
    next hn =>
    exact h.newPhase (by simp [hn]) (by simp [hn]) (fun _ hst => hst.commit hn)
  | newFails error told =>
    simp only [takeoverStep] at hs
    split at hs
    · next hn =>
      cases hs
      exact h.newPhase (by simp [hn]) (by simp [hn]) (fun _ hst => .failed (.inl rfl) (hst.silent (by simp [hn])))
    · next hn =>
      cases hs
      refine h.newPhase (by simp [hn]) (by simp [hn]) (fun _ hst => .failed (.inl rfl) (fun n hm => ?_))
      rcases List.mem_append.mp hm with hm | hm
      · exact hst.silent (by simp [hn]) n hm
      · split at hm <;> simp at hm
    · next hn =>
      cases hs
      exact h.newPhase (by simp [hn]) (by simp [hn]) (fun _ hst => .failed (.inl rfl) (hst.silent (by simp [hn])))
    · cases hs
  | newServes slot event =>
    simp only [takeoverStep] at hs
    split at hs
    · cases hs
    next hx => exact h.serveNew hx hs
  | newExits =>
    simp only [takeoverStep] at hs
    split at hs
    · next hn =>
      cases hs
      refine h.unseen rfl rfl rfl rfl (fun _ hst => .failed (.inr rfl) (hst.silent (by simp [hn])))
        (fun hd => (h.undecided hd).adopted) (fun _ _ => .inl rfl) (fun hsv => absurd (hn.symm.trans hsv) (by simp))
    · next hn => exact absurd hn hok
    · cases hs
  | childWrites slot bytes =>
    cases hs
    exact h.outside
  | timerReceives | jobRetires slot job =>
    obtain ⟨timer,_,rfl⟩ := Option.map_eq_some_iff.mp hs
    exact h.outside

theorem start_agreementInv (table : List (Option CoreSession)) (jobs : JobTable) (queue : List TimerMsg)
    (unread : ℕ → List UInt8) : (start table jobs queue unread).AgreementInv table := by
  have hslots : ∀ slots : List ℕ, ∀ es, quiesce [] slots ≠ .sending es := quiesce_not_sending []
  refine Undecided.inv ⟨?_,?_,?_,?_,?_⟩ (OldPhase.quiesce_deciding _ _) (fun slot hs => ?_)
  · intro slot h0 hh
    simp [start, hh]
  · intro slot h0 hh
    refine .inr ?_
    have hm : slot ∈ (List.range table.length).filter (fun slot => (table[slot]?.join).isSome) := by
      refine List.mem_filter.mpr ⟨List.mem_range.mpr ?_,by simp [hh]⟩
      by_contra hlen
      simp [List.getElem?_eq_none (Nat.le_of_not_lt hlen)] at hh
    simp only [toExport, start]
    generalize (List.range table.length).filter (fun slot => (table[slot]?.join).isSome) = slots at hm
    cases slots with
    | nil | cons k ks => exact hm
  · intro slot hm
    cases hm
  · intro slot ha
    cases ha
  · exact .unsent rfl (fun _ => rfl) rfl rfl (hslots _)
  · exact Option.isSome_iff_exists.mp hs

end Takeover

/-- In every run of a takeover whose steps come in time, no Session ever has two
readers, and none is left without a core. -/
theorem cores_agree (table : List (Option CoreSession)) (jobs : JobTable) (queue : List TimerMsg)
    (unread : ℕ → List UInt8) (as : List TakeoverAction)
    (hg : Guarded takeoverStep InTime (Takeover.start table jobs queue unread) as) :
    Always takeoverStep (Agreement table) (Takeover.start table jobs queue unread) as := by
  apply always_of_guarded (J := Takeover.AgreementInv table)
  · exact fun s a t hs hok hst => hs.step hok hst
  · exact fun s hs => hs.agreement
  · exact Takeover.start_agreementInv table jobs queue unread
  · exact hg

def loneSession : Takeover :=
  .start [some ⟨launched ⟨[]⟩ false 0 0,⟨"",0,false,none,none⟩⟩] (fun _ => []) [] (fun _ => [])

def adoptedSession : List TakeoverAction :=
  [.flushed,.timerReceives,.retired,.exported 0 (fun _ => []),.sentHeader,.sentSession,.newHeader,.newAdopts 0]

theorem cores_agree_on_commit :
    Always takeoverStep (Agreement [some ⟨launched ⟨[]⟩ false 0 0,⟨"",0,false,none,none⟩⟩]) loneSession
      (adoptedSession ++ [.newRecords,.newCommits,.committed,.oldExits]) := by
  refine cores_agree _ _ _ _ _ ?_
  iterate 8 refine fun _ ht => ⟨by first | exact trivial | (cases ht; exact id),?_⟩; cases ht
  iterate 4 refine fun _ ht => ⟨trivial,?_⟩; cases ht
  trivial

/-- The wait for the commit runs out after the Session was adopted, and both cores
read it. In the second run the new core ends after its commit, and the old core
has let go of the Session. -/
theorem commit_wait_splits :
    (¬Always takeoverStep (Agreement [some ⟨launched ⟨[]⟩ false 0 0,⟨"",0,false,none,none⟩⟩]) loneSession
      (adoptedSession ++ [.newRecords,.newCommits,.fails (.noReply "timed out")])) ∧
    ¬Always takeoverStep (Agreement [some ⟨launched ⟨[]⟩ false 0 0,⟨"",0,false,none,none⟩⟩]) loneSession
      (adoptedSession ++ [.newRecords,.newCommits,.newExits,.committed]) := by
  constructor
  · intro h
    have hend := h.last rfl
    refine hend.oneReader 0 ⟨⟨?_,_,rfl,rfl⟩,?_,_,rfl,rfl⟩
    · exact fun he => by cases he
    · exact fun he => by cases he
  · intro h
    have hend := h.last rfl
    rcases hend.hosted 0 _ rfl (.inl (fun he => by cases he)) with ⟨_,hs⟩ | ⟨hn,_⟩
    · cases hs
    · exact hn rfl

end Unpeel.Core
