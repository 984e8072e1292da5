import Mathlib.Algebra.Order.Group.Nat
import Mathlib.Data.List.Nodup
import Unpeel.Foundation.Runs
import Unpeel.Manifest.Record

/-! # Requests for approval

A request is queued and its caller waits for the answer on a channel of its own. An
answer takes the request out of the queue and sends the decision. A request that runs
out of time first settles on that and only then leaves the queue.
-/
namespace Unpeel.Serve
open Runs Manifest List Function

inductive ApprovalOutcome where
  | approved
  | declined
  | timedOut
deriving DecidableEq

/-- `responder` is the call that holds the other end of the channel. -/
structure PendingApproval where
  id : Text
  kind : Text
  title : Text
  body : Text
  callerSessionId : Text
  targetSessionId : Option Text
  requestedAt : ℕ
  responder : ℕ

/-- `generation` counts the changes of the queue, modulo `2 ^ 64`. -/
structure ApprovalHub where
  pending : List PendingApproval
  generation : ℕ

namespace ApprovalHub

def changed (hub : ApprovalHub) (pending : List PendingApproval) : ApprovalHub :=
  ⟨pending,(hub.generation + 1) % 2 ^ 64⟩

def retain (hub : ApprovalHub) (id : Text) : ApprovalHub :=
  let kept := hub.pending.filter (·.id ≠ id)
  if kept.length ≠ hub.pending.length then hub.changed kept else hub

end ApprovalHub

inductive RequestStage where
  | waiting
  | leaving (outcome : ApprovalOutcome)
  | returned (outcome : ApprovalOutcome)
deriving DecidableEq

namespace RequestStage

def outcome : RequestStage → Option ApprovalOutcome
  | .waiting => none
  | .leaving outcome | .returned outcome => some outcome

def listens : RequestStage → Bool
  | .returned _ => false
  | _ => true

end RequestStage

/-- A call of `answer` and what it returned. -/
structure Answered where
  id : Text
  approved : Bool
  accepted : Bool
deriving DecidableEq

/-- The hub with the calls of `request` so far, numbered as they were queued, their
channels, and the calls of `answer`. -/
structure Approvals where
  hub : ApprovalHub
  next : ℕ
  stage : ℕ → Option RequestStage
  channel : ℕ → List Bool
  answers : List Answered

inductive ApprovalEvent where
  | request (kind title body callerSessionId : Text) (targetSessionId : Option Text) (now : ℕ)
  | receive (call : ℕ)
  | timeOut (call : ℕ)
  | leave (call : ℕ)
  | answer (id : Text) (approved : Bool)

def settle (approved : Bool) : ApprovalOutcome := if approved then .approved else .declined

namespace Approvals

def setStage (s : Approvals) (call : ℕ) (stage : RequestStage) : Approvals :=
  { s with stage := Function.update s.stage call (some stage) }

/-- `ApprovalHub::answer`. -/
def answer (s : Approvals) (id : Text) (approved : Bool) : Approvals :=
  match s.hub.pending.find? (·.id = id) with
  | none => { s with answers := s.answers ++ [⟨id,approved,false⟩] }
  | some entry =>
    let listens := (s.stage entry.responder).any RequestStage.listens
    { s with
      hub := s.hub.changed (s.hub.pending.eraseP (·.id = id))
      channel := if listens then
          Function.update s.channel entry.responder (s.channel entry.responder ++ [approved])
        else s.channel
      answers := s.answers ++ [⟨id,approved,listens⟩] }

end Approvals

section Steps
variable (uuid : ℕ → Text)

open Approvals in
/-- The steps of the calls of `request` (queue, wait, leave the queue) and `answer`;
`uuid` are the ids `Uuid::new_v4` gives. -/
def approvalStep (s : Approvals) : ApprovalEvent → Option Approvals
  | .request kind title body callerSessionId targetSessionId now => some { s.setStage s.next .waiting with
      hub := s.hub.changed (s.hub.pending ++
        [⟨uuid s.next,kind,title,body,callerSessionId,targetSessionId,now,s.next⟩])
      next := s.next + 1 }
  | .receive call =>
    match s.stage call,s.channel call with
    | some .waiting,approved :: rest => some { s.setStage call (.leaving (settle approved)) with
        channel := Function.update s.channel call rest }
    | _,_ => none
  -- `recv_timeout` gives up on an empty channel only, at its deadline or without a sender
  | .timeOut call =>
    match s.stage call,s.channel call with
    | some .waiting,[] => some (s.setStage call (.leaving .timedOut))
    | _,_ => none
  | .leave call =>
    match s.stage call with
    | some (.leaving outcome) => some { s.setStage call (.returned outcome) with hub := s.hub.retain (uuid call) }
    | _ => none
  | .answer id approved => some (s.answer id approved)

/-- The decisions of the answers for a call that returned `true`. -/
def Approvals.accepted (s : Approvals) (call : ℕ) : List Bool :=
  (s.answers.filter fun a => a.id = uuid call ∧ a.accepted = true).map Answered.approved

end Steps

def expectedOutcome : List Bool → ApprovalOutcome
  | [] => .timedOut
  | approved :: _ => settle approved

/-- At most one answer for each request was accepted, and the request returns what
that answer said, or times out without one. -/
def AnswersAgree (uuid : ℕ → Text) (s : Approvals) : Prop :=
  ∀ call stage, s.stage call = some stage → (s.accepted uuid call).length ≤ 1 ∧
    ∀ outcome, stage.outcome = some outcome → outcome = expectedOutcome (s.accepted uuid call)

def NoLateAnswer (uuid : ℕ → Text) (s : Approvals) : ApprovalEvent → Prop
  | .answer id _ => ∀ call, id = uuid call → s.stage call ≠ some (.leaving .timedOut)
  | _ => True

def startApprovals : Approvals := ⟨⟨[],0⟩,0,fun _ => none,fun _ => [],[]⟩

def Approvals.Queued (s : Approvals) (call : ℕ) : Prop := ∃ entry ∈ s.hub.pending, entry.responder = call

def CallState (queued : Prop) (channel accepted : List Bool) : Option RequestStage → Prop
  | none => ¬queued ∧ accepted = []
  | some .waiting => (queued ∧ channel = [] ∧ accepted = []) ∨
      (¬queued ∧ ∃ approved, channel = [approved] ∧ accepted = [approved])
  | some (.leaving outcome) => (queued ↔ outcome = .timedOut) ∧ accepted.length ≤ 1 ∧
      outcome = expectedOutcome accepted
  | some (.returned outcome) => ¬queued ∧ accepted.length ≤ 1 ∧ outcome = expectedOutcome accepted

structure ApprovalInv (uuid : ℕ → Text) (s : Approvals) : Prop where
  entries : ∀ entry ∈ s.hub.pending, entry.id = uuid entry.responder
  distinct : (s.hub.pending.map PendingApproval.responder).Nodup
  fresh : ∀ call, s.next ≤ call → s.stage call = none ∧ s.channel call = []
  calls : ∀ call, CallState (s.Queued call) (s.channel call) (s.accepted uuid call) (s.stage call)

theorem settle_ne_timedOut (approved : Bool) : settle approved ≠ .timedOut := by cases approved <;> decide

theorem retain_pending (hub : ApprovalHub) (id : Text) :
    (hub.retain id).pending = hub.pending.filter (·.id ≠ id) := by
  unfold ApprovalHub.retain
  dsimp only
  split
  · rfl
  · next hlen =>
    symm
    exact filter_sublist.eq_of_length (not_not.mp hlen)

theorem accepted_snoc (uuid : ℕ → Text) {s t : Approvals} {a : Answered} (h : t.answers = s.answers ++ [a])
    (call : ℕ) : t.accepted uuid call =
      s.accepted uuid call ++ if a.id = uuid call ∧ a.accepted = true then [a.approved] else [] := by
  simp only [Approvals.accepted, h, List.filter_append, map_append]
  split <;> simp_all

section Invariant
variable {uuid : ℕ → Text} {s t : Approvals}
variable {call : ℕ}

theorem ApprovalInv.start : ApprovalInv uuid startApprovals where
  entries := by simp [startApprovals]
  distinct := nodup_nil
  fresh := fun _ _ => ⟨rfl,rfl⟩
  calls := fun call => ⟨by simp [Approvals.Queued, startApprovals],rfl⟩

theorem ApprovalInv.agree (h : ApprovalInv uuid s) : AnswersAgree uuid s := by
  intro call stage hstage
  have hc := h.calls call
  rw [hstage] at hc
  cases stage with
  | waiting =>
    refine ⟨?_,fun outcome ho => by cases ho⟩
    rcases hc with ⟨-,-,ha⟩ | ⟨-,approved,-,ha⟩ <;> simp [ha]
  | leaving outcome | returned outcome =>
    refine ⟨hc.2.1,fun o ho => ?_⟩
    cases ho
    exact hc.2.2

theorem ApprovalInv.update (h : ApprovalInv uuid s) (call : ℕ) (hpending : t.hub.pending.Sublist s.hub.pending)
    (hqueued : ∀ other, other ≠ call → (t.Queued other ↔ s.Queued other)) (hnext : t.next = s.next)
    (hstage : ∀ other, other ≠ call → t.stage other = s.stage other ∧ t.channel other = s.channel other ∧
      t.accepted uuid other = s.accepted uuid other)
    (hstarted : s.stage call ≠ none)
    (hcall : CallState (t.Queued call) (t.channel call) (t.accepted uuid call) (t.stage call)) :
    ApprovalInv uuid t where
  entries := fun entry hentry => h.entries entry (hpending.subset hentry)
  distinct := h.distinct.sublist (hpending.map _)
  fresh := by
    intro other hother
    rw [hnext] at hother
    have hne : other ≠ call := fun he => hstarted (he ▸ (h.fresh other hother).1)
    rw [(hstage other hne).1, (hstage other hne).2.1]
    exact h.fresh other hother
  calls := by
    intro other
    by_cases hne : other = call
    · exact hne ▸ hcall
    · obtain ⟨hst,hch,hac⟩ := hstage other hne
      rw [hst, hch, hac, propext (hqueued other hne)]
      exact h.calls other

theorem ApprovalInv.request (h : ApprovalInv uuid s) {kind title body caller : Text} {target : Option Text} {now : ℕ}
    (hs : approvalStep uuid s (.request kind title body caller target now) = some t) : ApprovalInv uuid t := by
  rw [approvalStep, Option.some.injEq] at hs
  subst hs
  have hnew := h.calls s.next
  rw [(h.fresh s.next (Nat.le_refl _)).1] at hnew
  constructor
  case entries =>
    intro entry hentry
    rcases mem_append.mp hentry with hentry | hentry
    · exact h.entries entry hentry
    · rw [mem_singleton.mp hentry]
  case distinct =>
    simp only [ApprovalHub.changed, map_append, map_cons, map_nil]
    refine nodup_append.mpr ⟨h.distinct,nodup_singleton _,?_⟩
    rintro n hn m hm rfl
    rw [mem_singleton.mp hm] at hn
    obtain ⟨entry,hentry,he⟩ := mem_map.mp hn
    exact hnew.1 ⟨entry,hentry,he⟩
  case fresh =>
    intro call hcall
    have hlt : s.next < call := hcall
    refine ⟨?_,(h.fresh call (Nat.le_of_lt hlt)).2⟩
    simp only [Approvals.setStage]
    rw [update_of_ne (Nat.ne_of_gt hlt)]
    exact (h.fresh call (Nat.le_of_lt hlt)).1
  case calls =>
    intro call
    simp only [Approvals.setStage]
    by_cases hc : call = s.next
    · subst hc
      rw [update_self]
      exact .inl ⟨⟨_,mem_append_right _ (mem_singleton_self _),rfl⟩,(h.fresh _ (Nat.le_refl _)).2,hnew.2⟩
    · rw [update_of_ne hc]
      have hq : (∃ entry ∈ s.hub.pending ++ [⟨uuid s.next,kind,title,body,caller,target,now,s.next⟩],
          entry.responder = call) ↔ s.Queued call := by
        simp only [mem_append, mem_singleton, or_and_right, exists_or, exists_eq_left, Approvals.Queued]
        simp [Ne.symm hc]
      have := h.calls call
      rw [← propext hq] at this
      exact this

theorem ApprovalInv.receive (h : ApprovalInv uuid s)
    (hs : approvalStep uuid s (.receive call) = some t) : ApprovalInv uuid t := by
  simp only [approvalStep] at hs
  split at hs
  swap
  · cases hs
  next approved rest hstage hchannel =>
  rw [Option.some.injEq] at hs
  subst hs
  have hc := h.calls call
  rw [hstage, hchannel] at hc
  refine h.update call (List.Sublist.refl _) (fun _ _ => Iff.rfl) rfl ?_ (by simp [hstage]) ?_
  · intro other hne
    exact ⟨update_of_ne hne _ _,update_of_ne hne _ _,rfl⟩
  · rcases hc with ⟨-,hno,-⟩ | ⟨hq,d,hd,ha⟩
    · cases hno
    · obtain ⟨rfl,rfl⟩ := List.cons.inj hd
      simp only [Approvals.setStage, update_self]
      refine ⟨⟨fun hq' => absurd hq' hq,fun ho => absurd ho (settle_ne_timedOut _)⟩,?_,?_⟩
      · exact Nat.le_of_eq (congrArg List.length ha)
      · exact (congrArg expectedOutcome ha).symm

theorem ApprovalInv.timeOut (h : ApprovalInv uuid s)
    (hs : approvalStep uuid s (.timeOut call) = some t) : ApprovalInv uuid t := by
  simp only [approvalStep] at hs
  split at hs
  swap
  · cases hs
  next hstage hchannel =>
  rw [Option.some.injEq] at hs
  subst hs
  have hc := h.calls call
  rw [hstage, hchannel] at hc
  refine h.update call (List.Sublist.refl _) (fun _ _ => Iff.rfl) rfl ?_ (by simp [hstage]) ?_
  · intro other hne
    exact ⟨update_of_ne hne _ _,rfl,rfl⟩
  · rcases hc with ⟨hq,-,ha⟩ | ⟨-,d,hd,-⟩
    · simp only [Approvals.setStage, update_self]
      refine ⟨⟨fun _ => rfl,fun _ => hq⟩,?_,?_⟩
      · exact Nat.le_trans (Nat.le_of_eq (congrArg List.length ha)) (Nat.zero_le 1)
      · exact (congrArg expectedOutcome ha).symm
    · cases hd

theorem ApprovalInv.leave (hid : Function.Injective uuid) (h : ApprovalInv uuid s)
    (hs : approvalStep uuid s (.leave call) = some t) : ApprovalInv uuid t := by
  simp only [approvalStep] at hs
  split at hs
  swap
  · cases hs
  next outcome hstage =>
  rw [Option.some.injEq] at hs
  subst hs
  have hc := h.calls call
  rw [hstage] at hc
  refine h.update call ?_ ?_ rfl ?_ (by simp [hstage]) ?_
  · simp only [retain_pending]
    exact filter_sublist
  · intro other hne
    simp only [Approvals.Queued, retain_pending, mem_filter, decide_eq_true_eq]
    constructor
    · rintro ⟨entry,⟨hentry,-⟩,he⟩
      exact ⟨entry,hentry,he⟩
    · rintro ⟨entry,hentry,he⟩
      refine ⟨entry,⟨hentry,fun hsame => hne ?_⟩,he⟩
      rw [h.entries entry hentry, he] at hsame
      exact hid hsame
  · intro other hne
    exact ⟨update_of_ne hne _ _,rfl,rfl⟩
  · simp only [Approvals.setStage, update_self]
    refine ⟨?_,hc.2.1,hc.2.2⟩
    simp only [Approvals.Queued, retain_pending, mem_filter, decide_eq_true_eq]
    rintro ⟨entry,⟨hentry,hno⟩,he⟩
    exact hno (by rw [h.entries entry hentry, he])

/-- Which request an answer takes out of the queue. -/
theorem ApprovalInv.found (hid : Function.Injective uuid) (h : ApprovalInv uuid s) {id : Text}
    {entry : PendingApproval} (hfind : s.hub.pending.find? (·.id = id) = some entry) :
    id = uuid entry.responder ∧ s.Queued entry.responder ∧ ∀ call,
      (∃ e ∈ s.hub.pending.eraseP (·.id = id), e.responder = call) ↔ s.Queued call ∧ call ≠ entry.responder := by
  have hentry := mem_of_find?_eq_some hfind
  have hname : entry.id = id := by simpa using find?_some hfind
  have huuid : id = uuid entry.responder := hname ▸ h.entries entry hentry
  refine ⟨huuid,⟨entry,hentry,rfl⟩,fun call => ?_⟩
  obtain ⟨taken,front,back,-,htaken,hpending,herase⟩ :=
    @List.exists_of_eraseP _ (fun e : PendingApproval => decide (e.id = id)) _ _ hentry (by simpa using hname)
  have hresponder : taken.responder = entry.responder := by
    apply hid
    rw [← h.entries taken (by simp [hpending]), ← huuid]
    simpa using htaken
  have hdistinct := h.distinct
  rw [hpending, map_append, map_cons] at hdistinct
  have hgone := (List.nodup_middle.mp hdistinct).notMem
  rw [← map_append, hresponder] at hgone
  rw [herase, Approvals.Queued, hpending]
  constructor
  · rintro ⟨e,he,rfl⟩
    refine ⟨⟨e,?_,rfl⟩,fun hsame => hgone (hsame ▸ mem_map_of_mem he)⟩
    rcases mem_append.mp he with he | he
    · exact mem_append_left _ he
    · exact mem_append_right _ (mem_cons_of_mem _ he)
  · rintro ⟨⟨e,he,rfl⟩,hne⟩
    rcases mem_append.mp he with he | he
    · exact ⟨e,mem_append_left _ he,rfl⟩
    · rcases mem_cons.mp he with rfl | he
      · exact absurd hresponder hne
      · exact ⟨e,mem_append_right _ he,rfl⟩

theorem ApprovalInv.answer (hid : Function.Injective uuid) (h : ApprovalInv uuid s) {id : Text} {approved : Bool}
    (hok : NoLateAnswer uuid s (.answer id approved)) : ApprovalInv uuid (s.answer id approved) := by
  unfold Approvals.answer
  split
  · refine ⟨h.entries,h.distinct,h.fresh,fun call => ?_⟩
    rw [accepted_snoc uuid rfl, if_neg (by simp), append_nil]
    exact h.calls call
  · next entry hfind =>
    obtain ⟨huuid,hqueued,herase⟩ := h.found hid hfind
    -- A queued request that has not run out of time is waiting.
    have hc := h.calls entry.responder
    have hstage : s.stage entry.responder = some .waiting := by
      cases hst : s.stage entry.responder with
      | none =>
        rw [hst] at hc
        exact absurd hqueued hc.1
      | some stage =>
        rw [hst] at hc
        cases stage with
        | waiting => rfl
        | leaving outcome => exact absurd (hc.1.mp hqueued ▸ hst) (hok _ huuid)
        | returned outcome => exact absurd hqueued hc.1
    rw [hstage] at hc
    simp only [hstage, Option.any_some, RequestStage.listens, if_true]
    obtain ⟨-,hchannel,haccepted⟩ | ⟨hno,-⟩ := hc
    · refine h.update entry.responder eraseP_sublist ?_ rfl ?_ (by simp [hstage]) ?_
      · exact fun other hne => (herase other).trans (and_iff_left hne)
      · intro other hne
        refine ⟨rfl,update_of_ne hne _ _,?_⟩
        rw [accepted_snoc uuid rfl, if_neg, append_nil]
        exact fun hsame => hne (hid (huuid.symm.trans hsame.1)).symm
      · dsimp only
        rw [hstage, update_self, hchannel, accepted_snoc uuid rfl, if_pos ⟨huuid,rfl⟩, haccepted]
        exact .inr ⟨fun hq => ((herase _).mp hq).2 rfl,approved,rfl,rfl⟩
    · exact absurd hqueued hno

theorem ApprovalInv.step (hid : Function.Injective uuid) (h : ApprovalInv uuid s) {a : ApprovalEvent}
    (hok : NoLateAnswer uuid s a) (hs : approvalStep uuid s a = some t) : ApprovalInv uuid t := by
  cases a with
  | request kind title body caller target now => exact h.request hs
  | receive call => exact h.receive hs
  | timeOut call => exact h.timeOut hs
  | leave call => exact h.leave hid hs
  | answer id approved => exact Option.some.inj hs ▸ h.answer hid hok

/-- An answer that finds a request that has run out of time is accepted all the same. -/
theorem noLateAnswer_of_agree (hid : Function.Injective uuid) (h : ApprovalInv uuid s) {a : ApprovalEvent} (hs : approvalStep uuid s a = some t)
    (ht : AnswersAgree uuid t) : NoLateAnswer uuid s a := by
  cases a with
  | answer id approved =>
    rintro call rfl hlate
    rw [approvalStep, Option.some.injEq] at hs
    subst hs
    have hc := h.calls call
    rw [hlate] at hc
    obtain ⟨hq,-,hexpected⟩ := hc
    have hnone : s.accepted uuid call = [] := by
      cases ha : s.accepted uuid call with
      | nil => rfl
      | cons d rest =>
        rw [ha] at hexpected
        exact absurd hexpected.symm (settle_ne_timedOut d)
    obtain ⟨queued,hqueued,hresponder⟩ := hq.mpr rfl
    have hfound : (s.hub.pending.find? (·.id = uuid call)).isSome := by
      rw [find?_isSome]
      exact ⟨queued,hqueued,by simp [h.entries queued hqueued, hresponder]⟩
    obtain ⟨entry,hfind⟩ := Option.isSome_iff_exists.mp hfound
    have hcall : entry.responder = call := (hid (h.found hid hfind).1).symm
    simp only [Approvals.answer, hfind, hcall, hlate, Option.any_some, RequestStage.listens, if_true] at ht
    have hagree := (ht call (.leaving .timedOut) hlate).2 .timedOut rfl
    rw [accepted_snoc uuid rfl, if_pos ⟨rfl,rfl⟩, hnone] at hagree
    exact settle_ne_timedOut approved hagree.symm
  | _ => trivial

end Invariant

/-- In every interleaving of requests and answers, answers and outcomes agree throughout
exactly if no answer names a request between its timeout and its leave. -/
theorem approvals_agree_iff {uuid : ℕ → Text} (hid : Function.Injective uuid) (events : List ApprovalEvent) :
    Always (approvalStep uuid) (AnswersAgree uuid) startApprovals events ↔
      Guarded (approvalStep uuid) (NoLateAnswer uuid) startApprovals events :=
  always_iff_guarded (fun _ _ _ h hok hs => h.step hid hok hs) (fun _ => ApprovalInv.agree)
    (fun _ _ _ h hs ht => noLateAnswer_of_agree hid h hs ht) ApprovalInv.start events

def countingIds (call : ℕ) : Text := List.replicate call 'a'

/-- A request that is answered in time and a later one that nobody answers. -/
theorem answer_in_time_agrees :
    Always (approvalStep countingIds) (AnswersAgree countingIds) startApprovals
      [.request [] [] [] [] none 0,.answer [] true,.receive 0,.leave 0,.request [] [] [] [] none 5,.timeOut 1,
        .leave 1] := by
  refine (approvals_agree_iff (fun m n h => ?_) _).mpr ?_
  · simpa [countingIds] using congrArg List.length h
  · refine fun t ht => ⟨trivial,?_⟩
    cases ht
    refine fun t ht => ⟨?_,?_⟩
    · rintro call - hlate
      by_cases h0 : call = 0 <;> simp [Approvals.setStage, startApprovals, h0] at hlate
    · cases ht
      exact guarded_of_forall (by simp [NoLateAnswer]) _

/-- The request settles on its timeout, a phone approves it, and then it returns: the
phone is told that its answer counted. -/
theorem lateAnswer_is_accepted :
    ¬Always (approvalStep countingIds) (AnswersAgree countingIds) startApprovals
      [.request [] [] [] [] none 0,.timeOut 0,.answer [] true,.leave 0] := by
  intro h
  have hend := h.last rfl
  exact absurd ((hend 0 (.returned .timedOut) rfl).2 .timedOut rfl) (by decide)

end Unpeel.Serve
