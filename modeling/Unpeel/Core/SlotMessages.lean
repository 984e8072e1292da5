import Unpeel.Core.SlotsSettled
import Unpeel.Foundation.Runs

/-! # Messages addressed by slot

A slot is free again as soon as its Session has ended, while messages of the
former owner can still be on their way. They reach whoever has the slot by then.
-/
namespace Unpeel.Core
open Runs

open Slots in
theorem slotStep_settled {s t : Slots} {a : SlotEvent} (h : Settled s) (hok : ReusesVacated s a)
    (hst : slotStep s a = some t) : Settled t := by
  cases a with
  | launch => exact Option.some.inj hst ▸ h.launch
  | register id kinds accepted =>
    simp only [slotStep] at hst
    split at hst <;> cases hst
    next hid =>
    cases accepted with
    | false => exact h.register_refused hid kinds
    | true =>
      refine h.register_accepted hid kinds ?_
      unfold takeSlot
      cases hf : s.freeSlots with
      | nil => exact h.vacated_fresh
      | cons slot rest => exact hok rfl slot rest hf
  | publish slot len =>
    obtain ⟨session,hk,rfl⟩ := Option.map_eq_some_iff.mp hst
    exact h.publish hk
  | endSession slot held spawned => exact Option.some.inj hst ▸ h.endSession slot held spawned
  | control held spawned =>
    simp only [slotStep] at hst
    split at hst
    · cases hst
    next c rest hc => exact Option.some.inj hst ▸ h.controlReceive hc held spawned
  | journal drained written =>
    simp only [slotStep] at hst
    split at hst
    · cases hst
    next msg rest hq => exact Option.some.inj hst ▸ h.receive hq drained written
  | journalDue id written => exact h.journalDue hst
  | teardown index =>
    obtain ⟨d,hd,rfl⟩ := Option.map_eq_some_iff.mp hst
    exact h.teardown hd
  | timer =>
    simp only [slotStep] at hst
    split at hst <;> cases hst
    next msg rest hq =>
    refine { h with jobs := ?_ }
    intro k session hk job hj hr
    have hm := h.jobs k session hk job hj hr
    rw [hq] at hm
    exact hm
  | retire slot job =>
    simp only [slotStep] at hst
    split at hst <;> cases hst
    refine { h with jobs := ?_ }
    intro k session hk other hj hr
    have hne : other ≠ job := fun he => hr (he ▸ List.mem_cons_self)
    exact JobTable.mem_after_retire (h.jobs k session hk other hj (fun hm => hr (List.mem_cons_of_mem _ hm))) hne

open Slots in
theorem settled_start : Settled start where
  jobs := fun _ _ hk => by cases hk
  misdirected := rfl
  free := fun _ hk => by cases hk
  freeNodup := List.nodup_nil
  bound := fun _ _ hk => by cases hk
  own := fun _ _ hk => by cases hk
  waitingNodup := List.nodup_nil
  waitingBound := fun _ hk => by cases hk
  idle := fun _ _ => ⟨fun _ hm => (by cases hm),fun _ hj => by cases hj⟩
  others := fun _ _ hk => by cases hk
  placed := fun _ => .inl ⟨fun _ hm => (by cases hm),fun _ hj => by cases hj⟩
  control := fun _ hc => by cases hc
  teardowns := fun _ hd => by cases hd

/-- In every order of steps in which each slot is vacated before it is used again,
no message acts on another Session, and every Session keeps its jobs. -/
theorem slot_messages_reach_their_session (events : List SlotEvent)
    (h : Guarded slotStep ReusesVacated Slots.start events) :
    Always slotStep Slots.SlotsHold Slots.start events :=
  always_of_guarded (fun _ _ _ => slotStep_settled) (fun _ hs => hs.toSlotsHold) settled_start h

/-- The second Session registers after the first has retired its jobs. -/
theorem slot_messages_reach_after_teardown :
    Always slotStep Slots.SlotsHold Slots.start
      [.launch,.register 1 [.heartbeat] true,.endSession 0 0 true,.teardown 0,.teardown 0,.launch,
        .register 2 [.heartbeat] true] := by
  refine slot_messages_reach_their_session _ ?_
  intro t ht
  cases ht
  refine ⟨trivial,?_⟩
  intro t ht
  cases ht
  refine ⟨fun _ _ _ hf => (by cases hf),?_⟩
  intro t ht
  cases ht
  refine ⟨trivial,?_⟩
  intro t ht
  cases ht
  refine ⟨trivial,?_⟩
  intro t ht
  cases ht
  refine ⟨trivial,?_⟩
  intro t ht
  cases ht
  refine ⟨trivial,?_⟩
  intro t ht
  cases ht
  refine ⟨fun _ slot rest hf => ?_,trivial⟩
  refine ⟨fun d hd => (by cases hd),fun c hc => (by cases hc),fun id _ => ⟨fun len hm => ?_,fun j hj => by cases hj⟩⟩
  have hq : JournalMsg.chunk id len ∈ [.open 1,.close 1,.open 2] := hm
  simp at hq

/-- The second Session registers while the first is being torn down: the late
removal takes the second Session's jobs. -/
theorem late_teardown_takes_jobs :
    ¬Always slotStep Slots.SlotsHold Slots.start
      [.launch,.register 1 [.heartbeat] true,.endSession 0 0 true,.launch,.register 2 [.heartbeat] true,
        .teardown 0,.teardown 0] := by
  intro h
  have hend := ((((((h.2 _ rfl).2 _ rfl).2 _ rfl).2 _ rfl).2 _ rfl).2 _ rfl).2 _ rfl
  have hjob := hend.jobs 0 ⟨2,[⟨2,.heartbeat⟩]⟩ (by decide) ⟨2,.heartbeat⟩ (by decide) (by decide)
  exact absurd hjob (by decide)

end Unpeel.Core
