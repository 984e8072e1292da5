import Mathlib.Data.List.Nodup
import Unpeel.AppKit.Messages

/-! # Events that a bridge remembers

Every event that a renderer sent is kept with its acknowledgement, so that a renderer that
sends it again after a reconnect gets the same answer and the App is not asked twice. Two
indexes hold the records, a map and the order they came in, with one limit for each client
and one for all of them.
-/
namespace Unpeel.AppKit
open List

open Manifest (Text)

/-- `MAX_EVENT_HISTORY`. -/
def maxEventHistory : ℕ := 4096

/-- `MAX_EVENT_HISTORY_PER_CLIENT`. -/
def maxEventHistoryPerClient : ℕ := 256

/-- `EVENT_REPLAY_TTL` in milliseconds. -/
def eventReplayTtl : ℕ := 15 * 60 * 1000

abbrev EventKey := Text × Text

def UiEvent.key (event : UiEvent) : EventKey := (event.clientId,event.eventId)

/-- `actions` counts how often the App was handed the event since the record was made. -/
structure EventRecord where
  event : UiEvent
  ack : Option UiAck
  recordedAt : ℕ
  actions : ℕ
deriving DecidableEq

/-- The map `events`, the queue `event_order`, and every record that was thrown out. -/
structure EventHistory where
  events : List (EventKey × EventRecord)
  eventOrder : List EventKey
  evicted : List EventRecord
deriving DecidableEq

namespace EventHistory
variable {gone : EventKey → Bool}

def empty : EventHistory := ⟨[],[],[]⟩

def get (h : EventHistory) (key : EventKey) : Option EventRecord :=
  (h.events.find? fun entry => entry.1 = key).map Prod.snd

def insert (h : EventHistory) (key : EventKey) (record : EventRecord) : EventHistory :=
  { h with events := h.events ++ [(key,record)], eventOrder := h.eventOrder ++ [key] }

def edit (h : EventHistory) (key : EventKey) (f : EventRecord → EventRecord) : EventHistory :=
  { h with events := h.events.map fun entry => if entry.1 = key then (entry.1,f entry.2) else entry }

def remove (h : EventHistory) (gone : EventKey → Bool) : EventHistory where
  events := h.events.filter fun entry => !gone entry.1
  eventOrder := h.eventOrder.filter fun key => !gone key
  evicted := h.evicted ++ (h.events.filter fun entry => gone entry.1).map Prod.snd

def expired (h : EventHistory) (now : ℕ) (key : EventKey) : Bool :=
  (h.get key).any fun record => record.ack.isSome && eventReplayTtl ≤ now - record.recordedAt

def pruneExpiredEvents (h : EventHistory) (now : ℕ) : EventHistory := h.remove (h.expired now)

def own (h : EventHistory) (clientId : Text) : List (EventKey × EventRecord) :=
  h.events.filter fun entry => entry.1.1 = clientId

def full (h : EventHistory) (clientId : Text) : Bool :=
  maxEventHistory ≤ h.events.length || maxEventHistoryPerClient ≤ (h.own clientId).length

def evictable (h : EventHistory) (clientId : Text) (key : EventKey) : Bool :=
  key.1 = clientId && (h.get key).any fun record => record.ack.isSome

/-- The loop of `make_event_room`. A round takes one key from the queue, so its length is
enough of them. -/
def evictUntilRoom (clientId : Text) : ℕ → EventHistory → EventHistory × Bool
  | 0,h => (h,!h.full clientId)
  | rounds + 1,h =>
    if h.full clientId then
      match h.eventOrder.find? (h.evictable clientId) with
      | none => (h,false)
      | some key => evictUntilRoom clientId rounds (h.remove fun other => other = key)
    else (h,true)

def makeEventRoom (h : EventHistory) (now : ℕ) (clientId : Text) : EventHistory × Bool :=
  let pruned := h.pruneExpiredEvents now
  evictUntilRoom clientId pruned.eventOrder.length pruned

/-- `remember_pending_event` and `remember_final_event`. -/
def remember (h : EventHistory) (now : ℕ) (event : UiEvent) (ack : Option UiAck) : EventHistory × Bool :=
  match h.makeEventRoom now event.clientId with
  | (h,false) => (h,false)
  | (h,true) => (h.insert event.key ⟨event,ack,now,0⟩,true)

def unacknowledged (h : EventHistory) (clientId : Text) : ℕ :=
  ((h.own clientId).filter fun entry => entry.2.ack.isNone).length

def unmovable (h : EventHistory) (clientId : Text) : ℕ :=
  (h.events.filter fun entry => !(entry.1.1 = clientId && entry.2.ack.isSome)).length

structure Sound (h : EventHistory) : Prop where
  order : h.eventOrder = h.events.map Prod.fst
  nodup : h.eventOrder.Nodup
  keys : ∀ entry ∈ h.events, entry.1 = entry.2.event.key
  actions : ∀ entry ∈ h.events, entry.2.actions ≤ 1
  evicted : ∀ record ∈ h.evicted, record.ack.isSome

variable {h : EventHistory} {key : EventKey} {record : EventRecord} {clientId : Text} {now : ℕ}

theorem Sound.empty : empty.Sound := by
  constructor <;> simp [EventHistory.empty]

theorem Sound.keys_nodup (hs : h.Sound) : (h.events.map Prod.fst).Nodup := hs.order ▸ hs.nodup

theorem Sound.get_of_mem (hs : h.Sound) (hm : (key,record) ∈ h.events) : h.get key = some record := by
  cases hfind : h.events.find? (fun entry => entry.1 = key) with
  | none =>
    have hnone := find?_eq_none.mp hfind (key,record) hm
    simp at hnone
  | some entry =>
    have hkey : entry.1 = key := by simpa using find?_some hfind
    have heq := inj_on_of_nodup_map hs.keys_nodup (mem_of_find?_eq_some hfind) hm hkey
    rw [get,hfind,heq]
    rfl

theorem not_mem_of_get (hg : h.get key = none) : key ∉ h.events.map Prod.fst := by
  intro hm
  obtain ⟨entry,hentry,hkey⟩ := mem_map.mp hm
  rw [get,Option.map_eq_none_iff,find?_eq_none] at hg
  exact hg entry hentry (decide_eq_true hkey)

theorem Sound.insert (hs : h.Sound) (hg : h.get key = none) (hkey : key = record.event.key)
    (hactions : record.actions ≤ 1) : (h.insert key record).Sound := by
  constructor
  · simp [EventHistory.insert,hs.order]
  · have hnew : key ∉ h.eventOrder := hs.order ▸ not_mem_of_get hg
    exact nodup_append.mpr ⟨hs.nodup,nodup_singleton key,by
      intro a ha b hb hab
      rw [mem_singleton.mp hb] at hab
      exact hnew (hab ▸ ha)⟩
  · intro entry hentry
    rcases mem_append.mp hentry with hentry | hentry
    · exact hs.keys entry hentry
    · rw [mem_singleton.mp hentry]
      exact hkey
  · intro entry hentry
    rcases mem_append.mp hentry with hentry | hentry
    · exact hs.actions entry hentry
    · rw [mem_singleton.mp hentry]
      exact hactions
  · exact hs.evicted

theorem mem_edit {f : EventRecord → EventRecord} {entry : EventKey × EventRecord}
    (hm : entry ∈ (h.edit key f).events) :
    entry ∈ h.events ∨ ∃ record, (key,record) ∈ h.events ∧ entry = (key,f record) := by
  obtain ⟨⟨other,record⟩,hother,hentry⟩ := mem_map.mp hm
  split at hentry
  · rename_i hkey
    exact .inr ⟨record,hkey ▸ hother,by rw [← hentry,hkey]⟩
  · exact .inl (hentry ▸ hother)

theorem edit_keys (f : EventRecord → EventRecord) : (h.edit key f).events.map Prod.fst = h.events.map Prod.fst := by
  rw [edit,map_map]
  refine map_congr_left fun entry _ => ?_
  dsimp only [Function.comp_apply]
  split <;> rfl

theorem Sound.edit {f : EventRecord → EventRecord} (hs : h.Sound) (hevent : ∀ record, (f record).event = record.event)
    (hactions : ∀ record, (key,record) ∈ h.events → (f record).actions ≤ 1) : (h.edit key f).Sound := by
  constructor
  · rw [edit_keys]
    exact hs.order
  · exact hs.nodup
  · intro entry hentry
    obtain hentry | ⟨record,hrecord,rfl⟩ := mem_edit hentry
    · exact hs.keys entry hentry
    · rw [hevent]
      exact hs.keys _ hrecord
  · intro entry hentry
    obtain hentry | ⟨record,hrecord,rfl⟩ := mem_edit hentry
    · exact hs.actions entry hentry
    · exact hactions record hrecord
  · exact hs.evicted

theorem Sound.remove {gone : EventKey → Bool} (hs : h.Sound)
    (hgone : ∀ entry ∈ h.events, gone entry.1 = true → entry.2.ack.isSome = true) : (h.remove gone).Sound := by
  constructor
  · rw [EventHistory.remove,hs.order,filter_map]
    rfl
  · exact hs.nodup.filter _
  · exact fun entry hentry => hs.keys entry (mem_of_mem_filter hentry)
  · exact fun entry hentry => hs.actions entry (mem_of_mem_filter hentry)
  · intro record hrecord
    rcases mem_append.mp hrecord with hrecord | hrecord
    · exact hs.evicted record hrecord
    · obtain ⟨entry,hentry,rfl⟩ := mem_map.mp hrecord
      obtain ⟨hentry,hg⟩ := mem_filter.mp hentry
      exact hgone entry hentry hg

theorem get_remove_of_none (hg : h.get key = none) : (h.remove gone).get key = none := by
  rw [get,Option.map_eq_none_iff,find?_eq_none]
  intro entry hentry hkey
  exact not_mem_of_get hg (mem_map.mpr ⟨entry,mem_of_mem_filter hentry,of_decide_eq_true hkey⟩)

theorem Sound.acknowledged_of_expired (hs : h.Sound) (now : ℕ) : ∀ entry ∈ h.events,
    h.expired now entry.1 = true → entry.2.ack.isSome = true := by
  intro entry hentry he
  rw [expired,hs.get_of_mem hentry] at he
  exact (Bool.and_eq_true_iff.mp he).1

theorem Sound.acknowledged_of_evictable (hs : h.Sound) : ∀ entry ∈ h.events,
    h.evictable clientId entry.1 = true → entry.2.ack.isSome = true := by
  intro entry hentry he
  rw [evictable,hs.get_of_mem hentry] at he
  exact (Bool.and_eq_true_iff.mp he).2

theorem remove_unacknowledged (clientId : Text)
    (hgone : ∀ entry ∈ h.events, gone entry.1 = true → entry.2.ack.isSome = true) :
    (h.remove gone).unacknowledged clientId = h.unacknowledged clientId := by
  simp only [unacknowledged,own,EventHistory.remove,filter_filter]
  refine congrArg List.length (filter_congr fun entry hentry => ?_)
  cases hg : gone entry.1 with
  | false => simp
  | true => simp [Option.isNone_eq_false_iff.mpr (hgone entry hentry hg)]

theorem remove_counts (gone : EventKey → Bool)
    (hgone : ∀ entry ∈ h.events, gone entry.1 = true → entry.1.1 = clientId ∧ entry.2.ack.isSome = true) :
    (h.remove gone).unacknowledged clientId = h.unacknowledged clientId ∧
      (h.remove gone).unmovable clientId = h.unmovable clientId := by
  constructor
  · exact remove_unacknowledged clientId fun entry hentry hg => (hgone entry hentry hg).2
  · simp only [unmovable,EventHistory.remove,filter_filter]
    refine congrArg List.length (filter_congr fun entry hentry => ?_)
    cases hg : gone entry.1 with
    | false => simp
    | true =>
      obtain ⟨hown,hacked⟩ := hgone entry hentry hg
      simp [hown,hacked]

theorem remove_counts_le (clientId : Text)
    (hgone : ∀ entry ∈ h.events, gone entry.1 = true → entry.2.ack.isSome = true) :
    (h.remove gone).unacknowledged clientId = h.unacknowledged clientId ∧
      (h.remove gone).unmovable clientId ≤ h.unmovable clientId :=
  ⟨remove_unacknowledged clientId hgone,(filter_sublist.filter _).length_le⟩

/-- Where nothing can be pushed out any more, the client's own records all wait for the App. -/
theorem Sound.counts_of_stuck (hs : h.Sound) (hfull : h.full clientId = true)
    (hstuck : h.eventOrder.find? (h.evictable clientId) = none) :
    maxEventHistoryPerClient ≤ h.unacknowledged clientId ∨ maxEventHistory ≤ h.unmovable clientId := by
  have hwaiting : ∀ entry ∈ h.events, entry.1.1 = clientId → entry.2.ack = none := by
    intro entry hentry hown
    have hkey : entry.1 ∈ h.eventOrder := hs.order ▸ mem_map_of_mem hentry
    have hnot := find?_eq_none.mp hstuck entry.1 hkey
    rw [evictable,hs.get_of_mem hentry,decide_eq_true hown] at hnot
    simpa using hnot
  rcases Bool.or_eq_true_iff.mp hfull with hall | hown
  · refine .inr (le_of_le_of_eq (of_decide_eq_true hall) ?_)
    rw [unmovable,filter_eq_self.mpr]
    intro entry hentry
    by_cases hown : entry.1.1 = clientId
    · simp [hwaiting entry hentry hown]
    · simp [hown]
  · refine .inl (le_of_le_of_eq (of_decide_eq_true hown) ?_)
    rw [unacknowledged,filter_eq_self.mpr]
    intro entry hentry
    obtain ⟨hentry,hown⟩ := mem_filter.mp hentry
    rw [hwaiting entry hentry (of_decide_eq_true hown)]
    rfl

theorem length_remove_lt (gone : EventKey → Bool) (hkey : key ∈ h.eventOrder) (hgone : gone key = true) :
    (h.remove gone).eventOrder.length < h.eventOrder.length :=
  List.length_filter_lt_length_iff_exists.mpr ⟨key,hkey,by simp [hgone]⟩

/-- Making room keeps the indexes sound and finds no record under a key that had none; it
fails only with the client's own records all waiting and one of the limits reached. -/
theorem Sound.evictUntilRoom (clientId : Text) (key : EventKey) (rounds : ℕ) (hs : h.Sound) (hrounds : h.eventOrder.length ≤ rounds) :
    (EventHistory.evictUntilRoom clientId rounds h).1.Sound ∧
    (h.get key = none → (EventHistory.evictUntilRoom clientId rounds h).1.get key = none) ∧
    ((EventHistory.evictUntilRoom clientId rounds h).2 = false →
      maxEventHistoryPerClient ≤ h.unacknowledged clientId ∨ maxEventHistory ≤ h.unmovable clientId) := by
  induction rounds generalizing h with
  | zero =>
    have hempty : h.events = [] := by
      have horder := length_eq_zero_iff.mp (Nat.le_zero.mp hrounds)
      rw [hs.order] at horder
      exact map_eq_nil_iff.mp horder
    refine ⟨hs,id,fun hroom => ?_⟩
    simp [EventHistory.evictUntilRoom,full,own,hempty,maxEventHistory,maxEventHistoryPerClient] at hroom
  | succ rounds ih =>
    unfold EventHistory.evictUntilRoom
    split
    · rename_i hfull
      split
      · rename_i hstuck
        exact ⟨hs,id,fun _ => hs.counts_of_stuck hfull hstuck⟩
      · rename_i evicted hfind
        have hevictable := find?_some hfind
        have hown : ∀ entry ∈ h.events, decide (entry.1 = evicted) = true →
            entry.1.1 = clientId ∧ entry.2.ack.isSome = true := by
          intro entry hentry hkey
          rw [← of_decide_eq_true hkey] at hevictable
          exact ⟨of_decide_eq_true (Bool.and_eq_true_iff.mp hevictable).1,
            hs.acknowledged_of_evictable entry hentry hevictable⟩
        have hshorter := length_remove_lt (fun other => decide (other = evicted))
          (mem_of_find?_eq_some hfind) (decide_eq_true rfl)
        have hremoved : (h.remove fun other => decide (other = evicted)).Sound :=
          hs.remove fun entry hentry hkey => (hown entry hentry hkey).2
        obtain ⟨hsound,hget,hcounts⟩ := ih hremoved (by omega)
        obtain ⟨hunacknowledged,hunmovable⟩ := remove_counts (fun other => decide (other = evicted)) hown
        rw [hunacknowledged,hunmovable] at hcounts
        exact ⟨hsound,fun hnone => hget (get_remove_of_none hnone),hcounts⟩
    · exact ⟨hs,id,fun hroom => by cases hroom⟩

/-- A new event is remembered, or the client is over a limit. -/
theorem Sound.remember (now : ℕ) {event : UiEvent} (ack : Option UiAck) (hs : h.Sound) (hnew : h.get event.key = none) :
    (h.remember now event ack).1.Sound ∧
    ((h.remember now event ack).2 = true → (h.remember now event ack).1.get event.key = some ⟨event,ack,now,0⟩) ∧
    ((h.remember now event ack).2 = false → maxEventHistoryPerClient ≤ h.unacknowledged event.clientId ∨
      maxEventHistory ≤ h.unmovable event.clientId) := by
  obtain ⟨hunacknowledged,hunmovable⟩ := remove_counts_le event.clientId (hs.acknowledged_of_expired now)
  obtain ⟨hsound,hget,hcounts⟩ :=
    (hs.remove (hs.acknowledged_of_expired now)).evictUntilRoom event.clientId event.key _ (Nat.le_refl _)
  unfold EventHistory.remember makeEventRoom pruneExpiredEvents
  split
  · rename_i room hroom
    rw [hroom] at hsound hcounts
    refine ⟨hsound,by simp,fun _ => ?_⟩
    have hlimit := hcounts rfl
    omega
  · rename_i room hroom
    rw [hroom] at hsound hget
    have hinsert : (room.insert event.key ⟨event,ack,now,0⟩).Sound :=
      hsound.insert (hget (get_remove_of_none hnew)) rfl (Nat.zero_le 1)
    exact ⟨hinsert,fun _ => hinsert.get_of_mem (by simp [EventHistory.insert]),by simp⟩

end EventHistory
end Unpeel.AppKit
