import Mathlib.Data.List.Infix
import Unpeel.AppKit.BridgeRules
import Unpeel.Foundation.Runs

/-! # Who is attached

The App hears of renderers that come and go, and every renderer is told who else is at its
view. A seat is a client, its renderer and a view. What the App heard last of a seat and the
last list each renderer got are held against the attachments of the connections.
-/
namespace Unpeel.AppKit
open List

open Manifest (Text)
open Fallible Runs

structure Seat where
  clientId : Text
  rendererId : Text
  viewId : Text
deriving DecidableEq

abbrev Place := UiPresenceMember × Text

def Place.seat (p : Place) : Seat := ⟨p.1.clientId,p.1.renderer.id,p.2⟩

def Attachment.place (a : Attachment) : Place := (a.member,a.viewId)

def Attachment.seat (a : Attachment) : Seat := a.place.seat

namespace UiBridgeEvent

def seat : UiBridgeEvent → Option Seat
  | .attached _ clientId renderer viewId _ => some ⟨clientId,renderer.id,viewId⟩
  | .detached _ clientId renderer viewId => some ⟨clientId,renderer.id,viewId⟩
  | .lifecycle _ clientId renderer viewId _ => some ⟨clientId,renderer.id,viewId⟩
  | .action _ _ => none

def isAttached : UiBridgeEvent → Bool
  | .attached .. => true
  | _ => false

def isDetached : UiBridgeEvent → Bool
  | .detached .. => true
  | _ => false

end UiBridgeEvent

/-- The latest event of the seat is another than `Detached`. -/
def taken (seat : Seat) (log : List UiBridgeEvent) : Bool :=
  log.foldl (fun before e => if e.seat = some seat then !e.isDetached else before) false

/-- Every event of a seat comes after its `Attached`. -/
def Orderly (log : List UiBridgeEvent) : Prop :=
  ∀ earlier e, earlier ++ [e] <+: log → e.isAttached = false → ∀ seat, e.seat = some seat →
    ∃ first ∈ earlier, first.isAttached = true ∧ first.seat = some seat

variable {Node Op : Type}

def UiConnection.lastPresence (c : UiConnection Node Op) : Option (Text × List UiPresenceMember) :=
  c.sent.foldl (fun last message => match message.1 with
    | .presence _ viewId members => some (viewId,members)
    | _ => last) none

namespace UiConnection

def place (c : UiConnection Node Op) : Option Place := c.attachment.map Attachment.place

def Shows (c : UiConnection Node Op) (viewId : Text) (members : List UiPresenceMember) : Prop :=
  ∃ shown, c.lastPresence = some (viewId,shown) ∧ shown.Perm members

def Fresh (c : UiConnection Node Op) : Prop :=
  c.attachment = none → c.closeAfterFlush = false → c.disconnected = false → c.outgoing = []

end UiConnection

def membersOf (viewId : Text) (places : List Place) : List UiPresenceMember :=
  (places.filter fun p => p.2 = viewId).map Prod.fst

namespace Bridge

def places (b : Bridge Node Op) : List Place := b.connections.filterMap UiConnection.place

def seats (b : Bridge Node Op) : List Seat := b.places.map Place.seat

def log (b : Bridge Node Op) : List UiBridgeEvent := b.delivered ++ b.pending

end Bridge

structure RenderersExact (b : Bridge Node Op) : Prop where
  seats : ∀ seat, taken seat b.delivered = true ↔ seat ∈ b.seats
  orderly : Orderly b.delivered
  presence : ∀ c ∈ b.connections, c.disconnected = false → ∀ a, c.attachment = some a →
    c.Shows a.viewId (membersOf a.viewId b.places)

section Log
variable {log : List UiBridgeEvent} {e : UiBridgeEvent} {seat : Seat}

theorem taken_concat : taken seat (log ++ [e]) = if e.seat = some seat then !e.isDetached else taken seat log := by
  simp [taken,foldl_append]

/-- What is taken was attached to at some time. -/
theorem Orderly.introduced (h : Orderly log) (ht : taken seat log = true) :
    ∃ first ∈ log, first.isAttached = true ∧ first.seat = some seat := by
  induction log using List.reverseRecOn with
  | nil => cases ht
  | append_singleton log e ih =>
    have hbefore : Orderly log := fun earlier e' hp => h earlier e' (hp.trans (prefix_append _ _))
    rw [taken_concat] at ht
    split at ht
    · rename_i hseat
      cases hattached : e.isAttached with
      | true => exact ⟨e,by simp,hattached,hseat⟩
      | false =>
        obtain ⟨first,hfirst,hrest⟩ := h log e prefix_rfl hattached seat hseat
        exact ⟨first,mem_append_left _ hfirst,hrest⟩
    · obtain ⟨first,hfirst,hrest⟩ := ih hbefore ht
      exact ⟨first,mem_append_left _ hfirst,hrest⟩

theorem Orderly.concat (h : Orderly log)
    (he : e.isAttached = false → ∀ seat, e.seat = some seat → ∃ first ∈ log, first.isAttached = true ∧ first.seat = some seat) :
    Orderly (log ++ [e]) := by
  intro earlier e' hp
  rcases prefix_concat_iff.mp hp with heq | hp
  · obtain ⟨hearlier,hlast⟩ := append_inj' heq rfl
    rw [hearlier,List.singleton_inj.mp hlast]
    exact he
  · exact h earlier e' hp

end Log

structure Unseen (stale : List Text) (c c' : UiConnection Node Op) : Prop where
  id : c'.id = c.id
  place : c'.place = c.place
  told : ∀ a, c.attachment = some a → a.viewId ∉ stale → c'.disconnected = false →
    c.disconnected = false ∧ c'.lastPresence = c.lastPresence
  fresh : c.Fresh → c'.Fresh

variable {message : Outgoing Node Op} {viewId : Text}

section Edits
variable {stale : List Text} {c : UiConnection Node Op}
variable {targeted : Bool} {length : ℕ}

theorem Unseen.refl : Unseen stale c c := ⟨rfl,rfl,fun _ _ _ h => ⟨h,rfl⟩,fun h => h⟩

theorem unseen_disconnect : Unseen stale c c.disconnect where
  id := rfl
  place := rfl
  told := fun _ _ _ h => by cases h
  fresh := fun _ _ _ h => by cases h

theorem unseen_close : Unseen stale c c.close where
  id := rfl
  place := rfl
  told := fun _ _ _ h => ⟨h,rfl⟩
  fresh := fun _ _ h => by cases h

theorem unseen_flush {written : Option ℕ} : Unseen stale c (c.flush written) := by
  cases written with
  | none => exact unseen_disconnect
  | some written =>
    refine ⟨rfl,rfl,fun _ _ _ h => ⟨h,rfl⟩,fun hfresh hnone hopen hlive => ?_⟩
    change drain written c.outgoing = []
    rw [hfresh hnone hopen hlive]
    rfl

theorem unseen_noteSent {revision : ℕ} : Unseen stale c (c.noteSent revision targeted) where
  id := rfl
  place := by
    rw [UiConnection.place,UiConnection.noteSent,Option.map_map]
    rfl
  told := fun _ _ _ h => ⟨h,rfl⟩
  fresh := fun hfresh hnone => hfresh (by simpa [UiConnection.noteSent] using hnone)

def Outgoing.NoNews (stale : List Text) (viewId : Text) : Outgoing Node Op → Prop
  | .presence .. => viewId ∈ stale
  | _ => True

theorem lastPresence_push
    (h : message.NoNews stale viewId) (hstale : viewId ∉ stale) :
    (c.push length message targeted).lastPresence = c.lastPresence := by
  cases message with
  | presence => exact absurd h hstale
  | attached | snapshot | delta | ack | error => simp [UiConnection.lastPresence,UiConnection.push,foldl_append]

theorem unseen_push {a : Attachment}
    (ha : c.attachment = some a) (h : message.NoNews stale a.viewId) : Unseen stale c (c.push length message targeted) where
  id := rfl
  place := rfl
  told := by
    intro other hother hstale hlive
    rw [ha,Option.some.injEq] at hother
    subst hother
    exact ⟨hlive,lastPresence_push h hstale⟩
  fresh := fun _ hnone => by
    rw [UiConnection.push,ha] at hnone
    cases hnone

theorem unseen_push_close {version : ℕ} {code text : Text} :
    Unseen stale c (c.push length (.error version code text) targeted).close where
  id := rfl
  place := rfl
  told := fun _ _ _ h => ⟨h,by simp [UiConnection.lastPresence,UiConnection.push,UiConnection.close,foldl_append]⟩
  fresh := fun _ _ h => by cases h

end Edits

/-- The connections are in order, and the App's and the renderers' idea of who is there is
right but for: seats that are given up and not yet taken back, seats that are taken and not
yet announced, and views whose list is out of date. -/
structure Seated (owed arriving : List Seat) (stale : List Text) (roster : List Place) (b : Bridge Node Op) : Prop
    extends Numbered b where
  fresh : ∀ c ∈ b.connections, c.Fresh
  places : b.places = roster
  seats : (roster.map Place.seat ++ owed).Nodup
  taken : ∀ seat ∉ arriving, (taken seat b.log = true ↔ seat ∈ roster.map Place.seat ++ owed)
  orderly : Orderly b.log
  presence : ∀ c ∈ b.connections, ∀ a, c.attachment = some a → c.disconnected = false → a.viewId ∉ stale →
    c.Shows a.viewId (membersOf a.viewId roster)

variable {α : Type}

section Seats
variable {owed arriving : List Seat} {stale : List Text} {roster : List Place} {b : Bridge Node Op} {id : ℕ}
variable {targeted : Bool}
variable {f : UiConnection Node Op → UiConnection Node Op} {flushes : ℕ → Option ℕ}

theorem Seated.exact (h : Seated [] [] [] roster b) (hdrained : b.pending = []) : RenderersExact b := by
  have hlog : b.log = b.delivered := by rw [Bridge.log,hdrained,append_nil]
  refine ⟨fun seat => ?_,hlog ▸ h.orderly,fun c hc hlive a ha => ?_⟩
  · rw [← hlog,h.taken seat not_mem_nil,append_nil,Bridge.seats,h.places]
  · rw [h.places]
    exact h.presence c hc a ha hlive not_mem_nil

theorem Seated.congr {b' : Bridge Node Op} (h : Seated owed arriving stale roster b)
    (hconnections : b'.connections = b.connections) (hnext : b'.nextConnectionId = b.nextConnectionId)
    (hlog : b'.log = b.log) : Seated owed arriving stale roster b' where
  ids := hconnections ▸ h.ids
  below := by
    rw [hconnections,hnext]
    exact h.below
  fresh := hconnections ▸ h.fresh
  places := by
    rw [Bridge.places,hconnections]
    exact h.places
  seats := h.seats
  taken := hlog ▸ h.taken
  orderly := hlog ▸ h.orderly
  presence := hconnections ▸ h.presence

theorem Seated.edit (h : Seated owed arriving stale roster b) {f : UiConnection Node Op → UiConnection Node Op}
    (hf : ∀ c ∈ b.connections, Unseen stale c (f c)) :
    Seated owed arriving stale roster { b with connections := b.connections.map f } where
  toNumbered := h.toNumbered.edit fun c hc => (hf c hc).id
  fresh := by
    intro c' hc'
    obtain ⟨c,hc,rfl⟩ := mem_map.mp hc'
    exact (hf c hc).fresh (h.fresh c hc)
  places := by
    rw [← h.places,Bridge.places,Bridge.places,filterMap_map]
    exact filterMap_congr fun c hc => (hf c hc).place
  seats := h.seats
  taken := h.taken
  orderly := h.orderly
  presence := by
    intro c' hc' a' ha' hlive hstale
    obtain ⟨c,hc,rfl⟩ := mem_map.mp hc'
    have hplace := (hf c hc).place
    rw [UiConnection.place,ha',UiConnection.place,Option.map_some,eq_comm,Option.map_eq_some_iff] at hplace
    obtain ⟨a,ha,hsame⟩ := hplace
    have hview : a.viewId = a'.viewId := congrArg Prod.snd hsame
    rw [← hview] at hstale ⊢
    obtain ⟨hbefore,hlast⟩ := (hf c hc).told a ha hstale hlive
    rw [UiConnection.Shows,hlast]
    exact h.presence c hc a ha hbefore hstale

def At (there : List (ℕ × Place)) (b : Bridge Node Op) : Prop :=
  ∀ x ∈ there, (b.connection x.1).bind UiConnection.place = some x.2

/-- `Seated`, with connections that are known to be attached. -/
structure SeatedAt (owed arriving : List Seat) (stale : List Text) (roster : List Place) (there : List (ℕ × Place))
    (b : Bridge Node Op) : Prop extends Seated owed arriving stale roster b where
  located : At there b

variable {there : List (ℕ × Place)}

theorem SeatedAt.edit (h : SeatedAt owed arriving stale roster there b)
    {f : UiConnection Node Op → UiConnection Node Op} (hid : ∀ c, (f c).id = c.id)
    (hf : ∀ c ∈ b.connections, Unseen stale c (f c)) :
    SeatedAt owed arriving stale roster there { b with connections := b.connections.map f } := by
  refine ⟨h.toSeated.edit hf,fun x hx => ?_⟩
  obtain ⟨c,hc,hp⟩ := Option.bind_eq_some_iff.mp (h.located x hx)
  rw [Bridge.connection_map b f hid,hc,Option.map_some,Option.bind_some,(hf c (mem_of_find?_eq_some hc)).place]
  exact hp

theorem SeatedAt.onConnection (h : SeatedAt owed arriving stale roster there b) (hid : ∀ c, (f c).id = c.id)
    (hf : ∀ c, b.connection id = some c → Unseen stale c (f c)) :
    SeatedAt owed arriving stale roster there (b.onConnection id f) := by
  refine h.edit (fun c => ?_) fun c hc => ?_
  · split
    · exact hid c
    · rfl
  · split
    · rename_i heq
      exact hf c (heq ▸ h.connection_eq hc)
    · exact .refl

theorem SeatedAt.congr {b' : Bridge Node Op} (h : SeatedAt owed arriving stale roster there b)
    (hconnections : b'.connections = b.connections) (hnext : b'.nextConnectionId = b.nextConnectionId)
    (hlog : b'.log = b.log) : SeatedAt owed arriving stale roster there b' := by
  refine ⟨h.toSeated.congr hconnections hnext hlog,fun x hx => ?_⟩
  rw [Bridge.connection,hconnections]
  exact h.located x hx

theorem SeatedAt.restrict {there' : List (ℕ × Place)} (h : SeatedAt owed arriving stale roster there b)
    (hsub : there' ⊆ there) : SeatedAt owed arriving stale roster there' b :=
  ⟨h.toSeated,fun y hy => h.located y (hsub hy)⟩

variable {a : Attachment}

theorem SeatedAt.learn (h : SeatedAt owed arriving stale roster there b)
    (ha : b.attachment id = some a) : SeatedAt owed arriving stale roster ((id,a.place) :: there) b := by
  refine ⟨h.toSeated,fun y hy => ?_⟩
  rcases mem_cons.mp hy with rfl | hy
  · obtain ⟨c,hc,hattached⟩ := Option.bind_eq_some_iff.mp ha
    rw [hc,Option.bind_some,UiConnection.place,hattached,Option.map_some]
  · exact h.located y hy

theorem SeatedAt.attachment {p : Place} (h : SeatedAt owed arriving stale roster there b) (hp : (id,p) ∈ there)
    {c : UiConnection Node Op} (hc : b.connection id = some c) : ∃ a, c.attachment = some a ∧ a.place = p := by
  have hplace := h.located (id,p) hp
  rw [hc,Option.bind_some] at hplace
  exact Option.map_eq_some_iff.mp hplace

def Refused (b : Bridge Node Op) : Prop := b.refused = true

variable {kit : UiKit Node Op}

theorem queueMessage_seated {p : Place} (hp : (id,p) ∈ there)
    (hmessage : message.NoNews stale p.2) :
    Keeps (SeatedAt owed arriving stale roster there) Refused (queueMessage kit id message targeted) := by
  refine holds_queueMessage (fun _ h _ => h) (fun _ _ => rfl) (fun b c _ h _ _ _ => ?_) fun b c _ h hc => ?_
  · exact h.onConnection (fun _ => rfl) fun _ _ => unseen_disconnect
  · refine h.onConnection (fun _ => rfl) fun c hc => ?_
    obtain ⟨a,ha,rfl⟩ := h.attachment hp hc
    exact unseen_push ha hmessage

theorem keeps_attached {x : BridgeM Node Op α}
    (h : SeatedAt owed arriving stale roster there b) (ha : b.attachment id = some a)
    (hx : Keeps (SeatedAt owed arriving stale roster ((id,a.place) :: there)) Refused x) :
    Holds (fun s => s = b) x (After (SeatedAt owed arriving stale roster there) Refused) := by
  refine (hx.holds (fun _ _ h => h.restrict (subset_cons_self _ _)) fun _ _ h => h).mono ?_ fun _ _ h => h
  rintro _ rfl
  exact h.learn ha

theorem noteSent_seated {revision : ℕ} (h : SeatedAt owed arriving stale roster there b) :
    SeatedAt owed arriving stale roster there (b.onConnection id fun c => c.noteSent revision targeted) :=
  h.onConnection (fun _ => rfl) fun _ _ => unseen_noteSent

theorem queueProjection_seated :
    Keeps (SeatedAt owed arriving stale roster there) Refused (queueProjection kit id) := by
  refine holds_get fun b hb => ?_
  split
  · rintro _ rfl
    exact hb
  · rename_i a ha
    refine keeps_attached hb ha ?_
    split
    · exact keeps_pure
    · refine keeps_bind (queueMessage_seated mem_cons_self trivial) fun _ => ?_
      exact keeps_bind (keeps_whenever (keeps_modify fun _ h => noteSent_seated h)) fun _ => keeps_pure

theorem queueDeltaMessage_seated {baseRevision revision : ℕ} {operations : List Op} :
    Keeps (SeatedAt owed arriving stale roster there) Refused
      (queueDeltaMessage kit id baseRevision revision operations targeted) := by
  refine holds_get fun b hb => ?_
  split
  · rintro _ rfl
    exact hb
  · rename_i a ha
    refine keeps_attached hb ha ?_
    refine keeps_bind (queueMessage_seated mem_cons_self trivial) fun _ => ?_
    exact keeps_bind (keeps_whenever (keeps_modify fun _ h => noteSent_seated h)) fun _ => keeps_pure

theorem flushAvailable_seated :
    Keeps (SeatedAt owed arriving stale roster there) Refused (flushAvailable flushes : BridgeM Node Op PUnit) :=
  keeps_modify fun _ h => h.edit (fun c => by cases flushes c.id <;> rfl) fun _ _ => unseen_flush

/-- The answer and the end of the connection count as one edit. -/
theorem rejectConnection_seated {code message : Text} :
    Keeps (SeatedAt owed arriving stale roster there) Refused (rejectConnection kit id code message) := by
  refine keeps_get fun b _ => ?_
  refine holds_bind (M := fun outcome s => match outcome with
    | .ok true => SeatedAt owed arriving stale roster there (s.onConnection id UiConnection.close)
    | .ok false => SeatedAt owed arriving stale roster there s
    | .error _ => Refused s) ?_ (fun queued => ?_) fun _ _ h => h
  · refine holds_queueMessage (fun _ h _ => h) (fun _ _ => rfl) (fun b c _ h _ _ _ => ?_) fun b c _ h _ => ?_
    · exact h.onConnection (fun _ => rfl) fun _ _ => unseen_disconnect
    · dsimp only
      rw [Bridge.onConnection_onConnection]
      · exact h.onConnection (fun _ => rfl) fun _ _ => unseen_push_close
      · exact fun _ => rfl
  · cases queued with
    | true => exact holds_modify fun _ h => h
    | false => exact holds_pure fun _ h => h

theorem recipients_located {p : Attachment → Bool} (h : Seated owed arriving stale roster b) :
    At ((b.recipients p).map fun x => (x.1,x.2.place)) b := by
  intro y hy
  obtain ⟨x,hx,rfl⟩ := mem_map.mp hy
  obtain ⟨c,hc,hx⟩ := mem_filterMap.mp hx
  obtain ⟨a,ha,rfl⟩ := Option.map_eq_some_iff.mp hx
  rw [h.connection_eq hc,Option.bind_some,UiConnection.place,(Option.filter_eq_some_iff.mp ha).1,Option.map_some]

theorem SeatedAt.recipients (h : SeatedAt owed arriving stale roster there b) (p : Attachment → Bool) :
    SeatedAt owed arriving stale roster ((b.recipients p).map (fun x => (x.1,x.2.place)) ++ there) b := by
  refine ⟨h.toSeated,fun y hy => ?_⟩
  rcases mem_append.mp hy with hy | hy
  · exact recipients_located h.toSeated y hy
  · exact h.located y hy

theorem sendAck_seated {ack : UiAck} :
    Keeps (SeatedAt owed arriving stale roster there) Refused (sendAck kit ack flushes) := by
  refine holds_get fun b hb => ?_
  have hall := hb.recipients fun a =>
    a.clientId = ack.clientId && a.renderer.id = ack.rendererId && a.viewId = ack.viewId
  generalize b.recipients _ = recipients at hall
  have hsend : Keeps (SeatedAt owed arriving stale roster (recipients.map (fun x => (x.1,x.2.place)) ++ there)) Refused
      (do recipients.forM fun x => (do let _ ← queueMessage kit x.1 (.ack ack) false; pure ()); flushAvailable flushes) := by
    refine keeps_bind (keeps_forM fun x hx => keeps_void ?_) fun _ => flushAvailable_seated
    exact queueMessage_seated (mem_append_left _ (mem_map_of_mem hx)) trivial
  refine (hsend.holds (fun _ _ h => h.restrict (subset_append_right _ _)) fun _ _ h => h).mono ?_ fun _ _ h => h
  rintro _ rfl
  exact hall

theorem recipients_members (b : Bridge Node Op) (viewId : Text) :
    (b.recipients fun a => a.viewId = viewId).map (fun x => x.2.member) = membersOf viewId b.places := by
  rw [Bridge.recipients,Bridge.places,membersOf]
  induction b.connections with
  | nil => rfl
  | cons c rest ih =>
    cases ha : c.attachment with
    | none => simpa [filterMap_cons,UiConnection.place,ha] using ih
    | some a =>
      by_cases hview : a.viewId = viewId
      · simpa [filterMap_cons,UiConnection.place,ha,hview,Attachment.place] using ih
      · simpa [filterMap_cons,UiConnection.place,ha,hview,Attachment.place] using ih

def Told (viewId : Text) (roster : List Place) (later : List ℕ) (b : Bridge Node Op) : Prop :=
  ∀ c ∈ b.connections, ∀ a, c.attachment = some a → a.viewId = viewId → c.disconnected = false → c.id ∉ later →
    c.Shows viewId (membersOf viewId roster)

theorem Told.onConnection {later : List ℕ} (h : Told viewId roster (id :: later) b)
 (hf : ∀ c, (f c).disconnected = false → (f c).Shows viewId (membersOf viewId roster)) :
    Told viewId roster later (b.onConnection id f) := by
  intro c' hc' a ha hview hlive hlater
  obtain ⟨c,hc,rfl⟩ := mem_map.mp hc'
  by_cases hid : c.id = id
  · rw [if_pos hid] at hlive ⊢
    exact hf c hlive
  · rw [if_neg hid] at ha hlive hlater ⊢
    exact h c hc a ha hview hlive (by simp [hid,hlater])

structure Telling (owed arriving : List Seat) (stale : List Text) (roster : List Place) (there : List (ℕ × Place))
    (viewId : Text) (rest : List (ℕ × Attachment)) (b : Bridge Node Op) : Prop extends
    SeatedAt owed arriving (viewId :: stale) roster (rest.map (fun x => (x.1,x.2.place)) ++ there) b where
  views : ∀ x ∈ rest, x.2.viewId = viewId
  told : Told viewId roster (rest.map Prod.fst) b

theorem tell_seated {x : ℕ × Attachment} {rest : List (ℕ × Attachment)} {version : ℕ}
    {members : List UiPresenceMember} (hperm : members.Perm (membersOf viewId roster)) :
    Holds (Telling owed arriving stale roster there viewId (x :: rest))
      (queueMessage kit x.1 (.presence version viewId members) false)
      (After (Telling owed arriving stale roster there viewId rest) Refused) := by
  have hlater : ∀ b : Bridge Node Op, Telling owed arriving stale roster there viewId (x :: rest) b →
      ∀ y ∈ rest, y.2.viewId = viewId := fun b h y hy => h.views y (mem_cons_of_mem x hy)
  refine holds_queueMessage (fun b h hnone => ?_) (fun _ _ => rfl) (fun b c _ h _ _ _ => ?_) fun b c _ h _ => ?_
  · have hplace := h.located (x.1,x.2.place) mem_cons_self
    rw [hnone] at hplace
    cases hplace
  · refine ⟨SeatedAt.onConnection ?_ (fun _ => rfl) fun _ _ => unseen_disconnect,hlater b h,?_⟩
    · exact h.restrict (subset_cons_self _ _)
    · exact h.told.onConnection fun _ hlive => by cases hlive
  · refine ⟨SeatedAt.onConnection ?_ (fun _ => rfl) fun c hc => ?_,hlater b h,?_⟩
    · exact h.restrict (subset_cons_self _ _)
    · obtain ⟨a,ha,hplace⟩ := h.attachment mem_cons_self hc
      have hview : a.viewId = x.2.viewId := congrArg Prod.snd hplace
      refine unseen_push ha ?_
      rw [hview,h.views x mem_cons_self]
      exact mem_cons_self
    · refine h.told.onConnection fun c _ => ⟨members,?_,hperm⟩
      simp [UiConnection.lastPresence,UiConnection.push,foldl_append]

/-- A broadcast brings its view up to date. -/
theorem broadcastPresence_seated :
    Holds (SeatedAt owed arriving (viewId :: stale) roster there) (broadcastPresence kit viewId)
      (After (SeatedAt owed arriving stale roster there) Refused) := by
  refine holds_get fun b hb => ?_
  have hperm : (((b.recipients fun a => a.viewId = viewId).map fun x => x.2.member).insertionSort
      fun a b => memberLe a b = true).Perm (membersOf viewId roster) := by
    rw [← hb.places,← recipients_members]
    exact perm_insertionSort _ _
  refine (holds_forM (Telling owed arriving stale roster there viewId) Refused _ fun x rest =>
    holds_bind (tell_seated hperm) (fun _ => holds_pure fun _ h => h) fun _ _ h => h).mono ?_ fun outcome s h => ?_
  · rintro _ rfl
    refine ⟨hb.recipients _,fun x hx => ?_,fun c hc a ha hview _ hlater => absurd ?_ hlater⟩
    · obtain ⟨c,-,hx⟩ := mem_filterMap.mp hx
      obtain ⟨a,ha,rfl⟩ := Option.map_eq_some_iff.mp hx
      exact of_decide_eq_true (Option.filter_eq_some_iff.mp ha).2
    · refine mem_map.mpr ⟨(c.id,a),mem_filterMap.mpr ⟨c,hc,?_⟩,rfl⟩
      simp [ha,hview]
  · cases outcome with
    | error _ => exact h
    | ok _ =>
      refine ⟨⟨h.toNumbered,h.fresh,h.places,h.seats,h.taken,h.orderly,fun c hc a ha hlive hstale => ?_⟩,h.located⟩
      by_cases hview : a.viewId = viewId
      · rw [hview]
        exact h.told c hc a ha hview hlive not_mem_nil
      · exact h.presence c hc a ha hlive (by simp [hview,hstale])

theorem Bridge.log_pushPending (e : UiBridgeEvent) : (b.pushPending e).log = b.log ++ [e] :=
  (append_assoc b.delivered b.pending [e]).symm

theorem SeatedAt.pushPending {owed' arriving' : List Seat} {e : UiBridgeEvent}
    (h : SeatedAt owed arriving stale roster there b)
    (horder : e.isAttached = false → ∀ seat, e.seat = some seat → taken seat b.log = true)
    (hseats : (roster.map Place.seat ++ owed').Nodup)
    (htaken : ∀ seat ∉ arriving', (if e.seat = some seat then !e.isDetached else AppKit.taken seat b.log) = true ↔
      seat ∈ roster.map Place.seat ++ owed') :
    SeatedAt owed' arriving' stale roster there (b.pushPending e) := by
  refine ⟨⟨⟨h.ids,h.below⟩,h.fresh,h.places,hseats,fun seat hseat => ?_,?_,h.presence⟩,h.located⟩
  · rw [Bridge.log_pushPending,taken_concat]
    exact htaken seat hseat
  · rw [Bridge.log_pushPending]
    exact h.orderly.concat fun hattached seat hseat => h.orderly.introduced (horder hattached seat hseat)

theorem SeatedAt.pushAction (h : SeatedAt owed arriving stale roster there b) (participant : UiParticipant)
    (event : UiEvent) : SeatedAt owed arriving stale roster there (b.pushPending (.action participant event)) := by
  refine h.pushPending (fun _ _ hseat => by cases hseat) h.seats fun seat hseat => ?_
  exact h.taken seat hseat

theorem SeatedAt.pushDetached (h : SeatedAt (a.seat :: owed) [] stale roster there b) :
    SeatedAt owed [] stale roster there (b.pushPending (.detached a.participant a.clientId a.renderer a.viewId)) := by
  have hmiddle : (a.seat :: (roster.map Place.seat ++ owed)).Nodup := perm_middle.nodup_iff.mp h.seats
  refine h.pushPending (fun _ seat hseat => ?_) (nodup_cons.mp hmiddle).2 fun seat _ => ?_
  · cases hseat
    exact (h.taken _ not_mem_nil).mpr (mem_append_right _ mem_cons_self)
  · have hits : (UiBridgeEvent.detached a.participant a.clientId a.renderer a.viewId).seat = some a.seat := rfl
    rw [hits]
    by_cases hsame : a.seat = seat
    · rw [if_pos (congrArg some hsame)]
      exact iff_of_false (by simp [UiBridgeEvent.isDetached]) (hsame ▸ (nodup_cons.mp hmiddle).1)
    · rw [if_neg fun heq => hsame (Option.some.inj heq),h.taken seat not_mem_nil]
      simp [Ne.symm hsame]

theorem SeatedAt.pushTaken {e : UiBridgeEvent} (h : SeatedAt [] arriving stale roster there b)
    (hseat : e.seat = some a.seat) (hdetached : e.isDetached = false)
    (hattached : e.isAttached = false → a.seat ∉ arriving) (hheld : a.seat ∈ roster.map Place.seat)
    (harriving : ∀ seat ∈ arriving, seat = a.seat) : SeatedAt [] [] stale roster there (b.pushPending e) := by
  refine h.pushPending (fun hkind seat hs => ?_) h.seats fun seat _ => ?_
  · rw [hseat,Option.some.injEq] at hs
    subst hs
    exact (h.taken _ (hattached hkind)).mpr (mem_append_left _ hheld)
  · by_cases hsame : a.seat = seat
    · subst hsame
      rw [if_pos hseat,hdetached,append_nil]
      exact iff_of_true rfl hheld
    · rw [hseat,if_neg fun hs => hsame (Option.some.inj hs)]
      exact h.taken seat fun hmem => hsame (harriving seat hmem).symm

end Seats

section Reaping
variable {kit : UiKit Node Op}

theorem membersOf_perm {roster roster' : List Place} (h : roster.Perm roster') :
    (membersOf viewId roster).Perm (membersOf viewId roster') :=
  (h.filter _).map _

def Settled (b : Bridge Node Op) : Prop := ∃ roster, SeatedAt [] [] [] roster [] b

/-- The connections that are gone leave their seats to be given up. -/
theorem Seated.sweep {roster : List Place} {b : Bridge Node Op} {kept removed : List (UiConnection Node Op)}
    (h : Seated [] [] [] roster b) (hperm : (kept ++ removed).Perm b.connections) :
    Seated ((removed.filterMap UiConnection.attachment).map Attachment.seat) []
      ((removed.filterMap UiConnection.attachment).map Attachment.viewId) (kept.filterMap UiConnection.place)
      { b with connections := kept } := by
  have hkept : ∀ c ∈ kept, c ∈ b.connections := fun c hc => hperm.subset (mem_append_left _ hc)
  have hremoved : removed.filterMap UiConnection.place =
      (removed.filterMap UiConnection.attachment).map Attachment.place :=
    (map_filterMap ..).symm
  have hroster : (kept.filterMap UiConnection.place ++
      (removed.filterMap UiConnection.attachment).map Attachment.place).Perm roster := by
    rw [← hremoved,← filterMap_append,← h.places]
    exact hperm.filterMap _
  have hseats := hroster.map Place.seat
  rw [map_append,map_map] at hseats
  have hnodup := h.seats
  rw [append_nil] at hnodup
  refine ⟨h.toNumbered.remove hperm,fun c hc => h.fresh c (hkept c hc),rfl,hseats.nodup_iff.mpr hnodup,
    fun seat _ => ?_,h.orderly,fun c hc a ha hlive hstale => ?_⟩
  · rw [show ({ b with connections := kept } : Bridge Node Op).log = b.log from rfl,h.taken seat not_mem_nil]
    rw [append_nil]
    exact hseats.mem_iff.symm
  · obtain ⟨shown,hlast,hshown⟩ := h.presence c (hkept c hc) a ha hlive not_mem_nil
    refine ⟨shown,hlast,hshown.trans ?_⟩
    refine (membersOf_perm hroster.symm).trans ?_
    have hnone : membersOf a.viewId ((removed.filterMap UiConnection.attachment).map Attachment.place) = [] := by
      rw [membersOf,map_eq_nil_iff,filter_eq_nil_iff]
      intro p hp hview
      obtain ⟨other,hother,rfl⟩ := mem_map.mp hp
      exact hstale (of_decide_eq_true hview ▸ mem_map_of_mem hother)
    have happend : membersOf a.viewId (kept.filterMap UiConnection.place ++
        (removed.filterMap UiConnection.attachment).map Attachment.place) =
        membersOf a.viewId (kept.filterMap UiConnection.place) := by
      rw [membersOf,List.filter_append,map_append,← membersOf,← membersOf,hnone,append_nil]
    exact List.Perm.of_eq happend

theorem giveUp_seated {roster : List Place} {removed : List Attachment} :
    Holds (SeatedAt (removed.map Attachment.seat) [] (removed.map Attachment.viewId) roster [])
      (removed.forM fun a => do
        modify fun b => b.pushPending (.detached a.participant a.clientId a.renderer a.viewId)
        broadcastPresence kit a.viewId) (After (SeatedAt [] [] [] roster []) Refused) :=
  holds_forM (fun rest => SeatedAt (rest.map Attachment.seat) [] (rest.map Attachment.viewId) roster []) Refused
    removed fun a rest => holds_bind (M := After (SeatedAt (rest.map Attachment.seat) []
      (a.viewId :: rest.map Attachment.viewId) roster []) Refused) (holds_modify fun _ h => h.pushDetached)
      (fun _ => broadcastPresence_seated) fun _ _ h => h

theorem reapConnections_settled : Keeps Settled Refused (reapConnections kit) := by
  refine holds_get fun b hb => ?_
  obtain ⟨roster,hb⟩ := hb
  have hswept := hb.toSeated.sweep (sweep_perm UiConnection.gone b.connections.length b.connections le_rfl)
  generalize sweep UiConnection.gone b.connections.length b.connections = swept at hswept ⊢
  refine holds_bind (M := After (SeatedAt ((swept.2.filterMap UiConnection.attachment).map Attachment.seat) []
    ((swept.2.filterMap UiConnection.attachment).map Attachment.viewId) (swept.1.filterMap UiConnection.place) []) Refused)
    (holds_modify ?_) (fun _ => ?_) fun _ _ h => h
  · rintro _ rfl
    exact ⟨hswept,fun _ hx => by cases hx⟩
  · refine giveUp_seated.mono (fun _ h => h) fun outcome s h => ?_
    cases outcome with
    | error _ => exact h
    | ok _ => exact ⟨_,h⟩

end Reaping

section Attaching
variable {kit : UiKit Node Op} {arriving : List Seat} {stale : List Text} {roster : List Place} {b : Bridge Node Op}
  {id : ℕ} {c : UiConnection Node Op} {a : Attachment}

def Attachment.sameRenderer (a : Attachment) (p : Place) : Bool :=
  p.1.clientId = a.clientId && p.1.renderer.id = a.renderer.id

theorem duplicates_eq {other : Attachment} (hid : c.id ≠ id) (ha : c.attachment = some other) :
    c.duplicates id a = a.sameRenderer other.place := by
  rw [UiConnection.duplicates,ha,Option.any_some,decide_eq_true hid,Bool.true_and]
  rfl

theorem place_replaced (hnone : c.id = id → c.attachment = none) :
    (if c.duplicates id a then c.release else c).place = c.place.filter fun p => !a.sameRenderer p := by
  cases ha : c.attachment with
  | none => simp [UiConnection.duplicates,UiConnection.place,ha]
  | some other =>
    have hid : c.id ≠ id := fun h => by
      rw [hnone h] at ha
      cases ha
    have hdup : c.duplicates id a = a.sameRenderer other.place := duplicates_eq hid ha
    cases hsame : a.sameRenderer other.place with
    | true => simp [hdup,UiConnection.place,UiConnection.release,ha,hsame,Option.filter]
    | false => simp [hdup,UiConnection.place,ha,hsame,Option.filter]

theorem sameRenderer_of_seat {p : Place} (h : p.seat = a.seat) : a.sameRenderer p = true :=
  Bool.and_eq_true_iff.mpr ⟨decide_eq_true (congrArg Seat.clientId h),decide_eq_true (congrArg Seat.rendererId h)⟩

/-- Letting the duplicates go concerns the new attachment's seat alone, if none of them was
at another view. -/
theorem Seated.replaceDuplicates (h : Seated [] [] [] roster b) (hc : b.connection id = some c)
    (hnone : c.attachment = none) (hmoved : (b.replaceDuplicates id a).moved = false) :
    Seated [] [a.seat] [a.viewId] (roster.filter fun p => !a.sameRenderer p) (b.replaceDuplicates id a) := by
  have hunattached : ∀ c' ∈ b.connections, c'.id = id → c'.attachment = none := by
    intro c' hc' hid
    have hsame := h.connection_eq hc'
    rw [hid,hc] at hsame
    cases hsame
    exact hnone
  have hview : ∀ p ∈ roster, a.sameRenderer p = true → p.2 = a.viewId := by
    intro p hp hsame
    rw [← h.places] at hp
    obtain ⟨c',hc',hplace⟩ := mem_filterMap.mp hp
    obtain ⟨other,hother,rfl⟩ := Option.map_eq_some_iff.mp hplace
    have hid : c'.id ≠ id := fun hid => by
      rw [hunattached c' hc' hid] at hother
      cases hother
    have hdup : c'.duplicates id a = true := (duplicates_eq hid hother).trans hsame
    have hall := (Bool.or_eq_false_iff.mp hmoved).2
    rw [any_eq_false] at hall
    simpa [hdup,hother,Attachment.place] using hall c' hc'
  have hkeep : ∀ p ∈ roster, p.seat ≠ a.seat → a.sameRenderer p = false := by
    intro p hp hseat
    refine Bool.eq_false_iff.mpr fun hsame => hseat ?_
    obtain ⟨hclient,hrenderer⟩ := Bool.and_eq_true_iff.mp hsame
    rw [Place.seat,of_decide_eq_true hclient,of_decide_eq_true hrenderer,hview p hp hsame]
    rfl
  have hnumbered := h.toNumbered.edit (f := fun c => if c.duplicates id a then c.release else c) fun c _ => replaced_id c
  refine ⟨⟨hnumbered.ids,hnumbered.below⟩,?_,?_,?_,fun seat hseat => ?_,h.orderly,?_⟩
  · intro c' hc'
    obtain ⟨c,hc,rfl⟩ := mem_map.mp hc'
    split
    · exact fun _ hopen => by cases hopen
    · exact h.fresh c hc
  · rw [← h.places,Bridge.places,Bridge.places,Bridge.replaceDuplicates,filterMap_map,filter_filterMap]
    exact filterMap_congr fun c hc => place_replaced (hunattached c hc)
  · have hnodup := h.seats
    rw [append_nil] at hnodup ⊢
    exact (filter_sublist.map _).nodup hnodup
  · change AppKit.taken seat b.log = true ↔ _
    rw [h.taken seat not_mem_nil,append_nil,append_nil,mem_map,mem_map]
    refine exists_congr fun p => ⟨fun hp => ⟨mem_filter.mpr ⟨hp.1,?_⟩,hp.2⟩,fun hp => ⟨(mem_filter.mp hp.1).1,hp.2⟩⟩
    have hother : p.seat ≠ a.seat := fun heq => hseat (by rw [← hp.2,heq]; exact mem_singleton_self _)
    simp [hkeep p hp.1 hother]
  · intro c' hc' other hother hlive hstale
    obtain ⟨c,hc,rfl⟩ := mem_map.mp hc'
    split at hother
    · cases hother
    · rename_i hdup
      rw [if_neg hdup] at hlive ⊢
      have hmembers : membersOf other.viewId (roster.filter fun p => !a.sameRenderer p) =
          membersOf other.viewId roster := by
        rw [membersOf,membersOf,filter_filter]
        refine congrArg _ (filter_congr fun p hp => ?_)
        by_cases hviews : p.2 = other.viewId
        · have hne : p.seat ≠ a.seat := fun heq =>
            hstale (by rw [← hviews,show p.2 = a.viewId from congrArg Seat.viewId heq]; exact mem_singleton_self _)
          simp [hkeep p hp hne]
        · simp [hviews]
      rw [hmembers]
      exact h.presence c hc other hother hlive not_mem_nil

theorem Seated.outdate (h : Seated [] arriving [] roster b) (viewId : Text) : Seated [] arriving [viewId] roster b :=
  ⟨h.toNumbered,h.fresh,h.places,h.seats,h.taken,h.orderly,fun c hc a ha hlive _ =>
    h.presence c hc a ha hlive not_mem_nil⟩

theorem Seated.split {owed : List Seat} (h : Seated owed arriving stale roster b) (hc : b.connection id = some c) :
    ∃ before after, b.connections = before ++ c :: after ∧
      ∀ f, (b.onConnection id f).connections = before ++ f c :: after := by
  obtain ⟨before,after,hsplit⟩ := append_of_mem (mem_of_find?_eq_some hc)
  have hid := Bridge.id_of_connection hc
  have hids := h.ids
  rw [hsplit,map_append,map_cons,hid] at hids
  have hothers := (nodup_cons.mp (perm_middle.nodup_iff.mp hids)).1
  rw [mem_append,not_or] at hothers
  refine ⟨before,after,hsplit,fun f => ?_⟩
  have hsame : ∀ l : List (UiConnection Node Op), id ∉ l.map UiConnection.id →
      l.map (fun c => if c.id = id then f c else c) = l := by
    intro l hl
    refine (map_congr_left fun c' hc' => if_neg fun heq => hl ?_).trans (map_id l)
    exact mem_map.mpr ⟨c',hc',heq⟩
  rw [Bridge.onConnection,hsplit,map_append,map_cons,hsame before hothers.1,hsame after hothers.2,if_pos hid]

/-- A new place in a roster, for none or for one of the same seat: only its own view's
members change, and its own seat if it is arriving. -/
theorem roster_replaced {first last : List Place} {old : Option Place} (hnodup : ((first ++ old.toList ++ last).map Place.seat).Nodup)
    (hold : old = none ∧ a.seat ∉ (first ++ old.toList ++ last).map Place.seat ∧ a.seat ∈ arriving ∨
      ∃ p, old = some p ∧ p.seat = a.seat) :
    ((first ++ a.place :: last).map Place.seat).Nodup ∧
    (∀ seat ∉ arriving, seat ∈ (first ++ a.place :: last).map Place.seat ↔
      seat ∈ (first ++ old.toList ++ last).map Place.seat) ∧
    ∀ viewId, viewId ≠ a.viewId → membersOf viewId (first ++ a.place :: last) = membersOf viewId (first ++ old.toList ++ last) := by
  rcases hold with ⟨rfl,hnew,harriving⟩ | ⟨p,rfl,hseat⟩
  · simp only [Option.toList_none,append_nil] at hnodup hnew ⊢
    have hperm : ((first ++ a.place :: last).map Place.seat).Perm (a.seat :: (first ++ last).map Place.seat) :=
      perm_middle.map Place.seat
    refine ⟨hperm.nodup_iff.mpr (nodup_cons.mpr ⟨hnew,hnodup⟩),fun seat hs => ?_,fun viewId hne => ?_⟩
    · rw [hperm.mem_iff,mem_cons]
      exact ⟨fun hmem => hmem.resolve_left fun heq => hs (heq ▸ harriving),Or.inr⟩
    · simp [membersOf,Attachment.place,Ne.symm hne]
  · have hsame : (first ++ a.place :: last).map Place.seat = (first ++ (some p).toList ++ last).map Place.seat := by
      simp [hseat,Attachment.seat]
    have hviews : p.2 = a.viewId := congrArg Seat.viewId hseat
    refine ⟨hsame ▸ hnodup,fun seat _ => by rw [hsame],fun viewId hne => ?_⟩
    simp [membersOf,Attachment.place,Ne.symm hne,hviews]

/-- A new attachment at a view that is to be told. -/
theorem Seated.attach (h : Seated [] arriving stale roster b) (hc : b.connection id = some c) (hview : a.viewId ∈ stale)
    (hplace : c.place = none ∧ a.seat ∉ roster.map Place.seat ∧ a.seat ∈ arriving ∨
      ∃ p, c.place = some p ∧ p.seat = a.seat) :
    ∃ roster', Seated [] arriving stale roster' (b.onConnection id fun c => c.attach a) ∧
      a.seat ∈ roster'.map Place.seat := by
  obtain ⟨before,after,hsplit,hedit⟩ := h.split hc
  have hroster : before.filterMap UiConnection.place ++ c.place.toList ++ after.filterMap UiConnection.place = roster := by
    rw [← h.places,Bridge.places,hsplit,filterMap_append,filterMap_cons]
    cases c.place with
    | none | some p => simp
  obtain ⟨hnodup,htaken,hmembers⟩ := roster_replaced (a := a) (by rw [hroster,← append_nil (roster.map _)]; exact h.seats)
    (hroster.symm ▸ hplace)
  have hothers : ∀ c' ∈ (b.onConnection id fun c => c.attach a).connections, c' = c.attach a ∨ c' ∈ b.connections := by
    intro c' hc'
    rw [hedit,mem_append,mem_cons] at hc'
    rw [hsplit,mem_append,mem_cons]
    tauto
  refine ⟨before.filterMap UiConnection.place ++ a.place :: after.filterMap UiConnection.place,
    ⟨?_,fun c' hc' => ?_,?_,?_,fun seat hs => ?_,h.orderly,fun c' hc' other hother hlive hstale => ?_⟩,
    by simp [Attachment.seat]⟩
  · refine h.toNumbered.edit fun c _ => ?_
    split
    · rfl
    · rfl
  · rcases hothers c' hc' with rfl | hc'
    · exact fun hnone => by cases hnone
    · exact h.fresh c' hc'
  · rw [Bridge.places,hedit,filterMap_append,filterMap_cons]
    rfl
  · rw [append_nil]
    exact hnodup
  · rw [append_nil,htaken seat hs,hroster,← append_nil (roster.map _)]
    exact h.taken seat hs
  · rcases hothers c' hc' with rfl | hc'
    · cases hother
      exact absurd hview hstale
    · rw [hmembers other.viewId fun heq => hstale (heq ▸ hview),hroster]
      exact h.presence c' hc' other hother hlive hstale

theorem not_overflows {length : ℕ} (hlength : kit.encodeUiFrame message = some length)
    (hidle : c.outgoing = []) : c.overflows length = false := by
  have hbound := kit.encoded message length hlength
  simp only [maxUiFrameBytes] at hbound
  simp only [UiConnection.overflows,UiConnection.pendingWriteBytes,hidle,foldr_nil,maxPendingWriteBytes]
  exact decide_eq_false (by omega)

theorem queueAttached_seated (hmessage : message.NoNews stale a.viewId) :
    Holds (fun s => SeatedAt [] arriving stale roster [(id,a.place)] s ∧ ∀ c, s.connection id = some c → c.outgoing = [])
      (queueMessage kit id message false) fun outcome s => match outcome with
        | .ok queued => queued = true ∧ SeatedAt [] arriving stale roster [(id,a.place)] s
        | .error _ => Refused s := by
  refine holds_queueMessage (fun s hs hmissing => ?_) (fun _ _ => rfl) (fun s c _ hs hc hlength hfull => ?_)
    fun s c _ hs _ => ⟨rfl,?_⟩
  · have hplace := hs.1.located (id,a.place) mem_cons_self
    rw [hmissing] at hplace
    cases hplace
  · rw [not_overflows hlength (hs.2 c hc)] at hfull
    cases hfull
  · refine hs.1.onConnection (fun _ => rfl) fun c hc => ?_
    obtain ⟨other,hother,hplace⟩ := hs.1.attachment mem_cons_self hc
    have hview : other.viewId = a.viewId := congrArg Prod.snd hplace
    exact unseen_push hother (hview ▸ hmessage)

theorem introduce_settled {e : UiBridgeEvent} (hseat : e.seat = some a.seat) (hdetached : e.isDetached = false)
    (hattached : e.isAttached = false → a.seat ∉ arriving) (hheld : a.seat ∈ roster.map Place.seat)
    (harriving : ∀ seat ∈ arriving, seat = a.seat) :
    Holds (SeatedAt [] arriving [a.viewId] roster []) (do modify fun b => b.pushPending e; broadcastPresence kit a.viewId)
      (After Settled Refused) := by
  refine holds_bind (M := After (SeatedAt [] [] [a.viewId] roster []) Refused) (holds_modify fun _ hs => ?_) (fun _ => ?_)
    fun _ _ h => h
  · exact hs.pushTaken hseat hdetached hattached hheld harriving
  · refine broadcastPresence_seated.mono (fun _ h => h) fun outcome s hs => ?_
    cases outcome with
    | error _ => exact hs
    | ok _ => exact ⟨roster,hs⟩

theorem completeAttach_settled {resumed : Bool} (h : Seated [] [a.seat] [a.viewId] roster b)
    (hc : b.connection id = some c) (hnone : c.attachment = none) (hidle : c.outgoing = [])
    (hnew : a.seat ∉ roster.map Place.seat) :
    Holds (fun s => s = b) (completeAttach kit id a resumed) (After Settled Refused) := by
  refine holds_get fun s hs => ?_
  subst hs
  rw [hc]
  obtain ⟨roster',hseated,hheld⟩ := h.attach hc mem_cons_self
    (.inl ⟨by rw [UiConnection.place,hnone]; rfl,hnew,mem_cons_self⟩)
  refine holds_bind (M := After (fun s => SeatedAt [] [a.seat] [a.viewId] roster' [(id,a.place)] s ∧
    ∀ c, s.connection id = some c → c.outgoing = []) Refused) (holds_modify ?_) (fun _ => ?_) fun _ _ h => h
  · intro b hb
    subst hb
    have hattached := Bridge.connection_edited (fun c => c.attach a) (fun _ => rfl) hc
    refine ⟨⟨hseated,fun x hx => ?_⟩,fun c' hc' => ?_⟩
    · rw [mem_singleton.mp hx,hattached]
      rfl
    · rw [hattached,Option.some.injEq] at hc'
      rw [← hc']
      exact hidle
  · refine holds_bind (queueAttached_seated trivial) (fun queued => ?_) fun _ _ h => h
    cases queued with
    | false => exact fun _ hs => by cases hs.1
    | true =>
      refine Holds.mono (P := SeatedAt [] [a.seat] [a.viewId] roster' [(id,a.place)]) ?_ (fun _ hs => hs.2) fun _ _ h => h
      refine holds_bind queueProjection_seated (fun _ => ?_) fun _ _ h => h
      refine (introduce_settled rfl rfl (fun hkind => by cases hkind) hheld fun _ => mem_singleton.mp).mono ?_
        fun _ _ h => h
      exact fun _ hs => hs.restrict (nil_subset _)

def Excused (b : Bridge Node Op) : Prop := b.refused = true ∨ b.moved = true

def Accounted (b : Bridge Node Op) : Prop := Excused b ∨ Settled b

theorem excused_of_marked {t : Bridge Node Op} (h : Excused t) (hm : Marked t b) : Excused b :=
  h.imp hm.1 hm.2

/-- An excuse is good for ever. -/
theorem keeps_accounted {x : BridgeM Node Op α} (hx : Holds Settled x (After Accounted Excused))
    (hm : ∀ t, Keeps (Marked t) (Marked t) x) : Keeps Accounted Excused x := by
  rintro t (hexcused | hsettled)
  · have hstill : Holds (fun s => s = t) x fun _ s => Excused s := by
      refine ((hm t).holds (Q := fun _ s => Excused s) (fun _ _ h => excused_of_marked hexcused h) fun _ _ h =>
        excused_of_marked hexcused h).mono ?_ fun _ _ h => h
      rintro _ rfl
      exact ⟨fun h => h,fun h => h⟩
    have hafter := hstill t rfl
    revert hafter
    rcases perform x t with ⟨outcome,s⟩
    intro hafter
    cases outcome with
    | ok _ => exact .inl hafter
    | error _ => exact hafter
  · exact hx t hsettled

theorem accounted_of_settled {x : BridgeM Node Op α} (hx : Keeps Settled Refused x) :
    Holds Settled x (After Accounted Excused) :=
  hx.holds (fun _ _ h => .inr h) fun _ _ h => .inl h

theorem keeps_settled {x : BridgeM Node Op α} (hx : ∀ roster, Keeps (SeatedAt [] [] [] roster []) Refused x) :
    Keeps Settled Refused x := by
  rintro s ⟨roster,hs⟩
  exact (hx roster).holds (Q := After Settled Refused) (fun _ _ h => ⟨roster,h⟩) (fun _ _ h => h) s hs

/-- A renderer takes its seat, in place of a connection it had before. -/
theorem takeSeat_settled {resumed : Bool} (h : SeatedAt [] [] [] roster [] b) (hc : b.connection id = some c)
    (hnone : c.attachment = none) (hopen : c.closeAfterFlush = false) (hlive : c.disconnected = false) :
    Holds (fun s => s = b) (do replaceDuplicates id a; completeAttach kit id a resumed) (After Accounted Excused) := by
  refine holds_bind (M := After (fun s => s = b.replaceDuplicates id a) Excused) (holds_modify ?_) (fun _ => ?_)
    fun _ _ h => h
  · rintro _ rfl
    exact rfl
  · cases hmoved : (b.replaceDuplicates id a).moved with
    | true =>
      refine (completeAttach_marked.holds (Q := After Accounted Excused) (fun _ _ hm => .inl (.inr (hm.2 hmoved)))
        fun _ _ hm => .inr (hm.2 hmoved)).mono ?_ fun _ _ h => h
      rintro _ rfl
      exact ⟨fun h => h,fun h => h⟩
    | false =>
      have hstays := connection_replaced (a := a) hc
      have hnew : a.seat ∉ (roster.filter fun p => !a.sameRenderer p).map Place.seat := by
        intro hmem
        obtain ⟨p,hp,hseat⟩ := mem_map.mp hmem
        have hother := (mem_filter.mp hp).2
        rw [sameRenderer_of_seat hseat] at hother
        cases hother
      refine (completeAttach_settled (h.toSeated.replaceDuplicates hc hnone hmoved) hstays hnone
        (h.fresh c (mem_of_find?_eq_some hc) hnone hopen hlive) hnew).mono (fun _ h => h) fun outcome s hs => ?_
      cases outcome with
      | ok _ => exact .inr hs
      | error _ => exact .inl hs

theorem handleAttach_settled {attach : UiAttach} (h : SeatedAt [] [] [] roster [] b) (hc : b.connection id = some c)
    (hnone : c.attachment = none) (hopen : c.closeAfterFlush = false) (hlive : c.disconnected = false) :
    Holds (fun s => s = b) (handleAttach kit id attach) (After Accounted Excused) := by
  have hreject : ∀ code message, Holds (fun s => s = b) (rejectConnection kit id code message)
      (After Accounted Excused) := by
    intro code message
    refine (accounted_of_settled (keeps_settled fun _ => rejectConnection_seated)).mono ?_ fun _ _ h => h
    rintro _ rfl
    exact ⟨roster,h⟩
  unfold handleAttach
  split
  · exact hreject _ _
  · split
    · exact hreject _ _
    · split
      · exact hreject _ _
      · exact takeSeat_settled h hc hnone hopen hlive

theorem handleLifecycle_settled {route : UiRoute} {state : UiRendererState} (h : SeatedAt [] [] [] roster [] b)
    (hc : b.connection id = some c) (ha : c.attachment = some a) :
    Holds (fun s => s = b) (handleLifecycle kit id a route state) (After Settled Refused) := by
  unfold handleLifecycle
  split
  · refine (keeps_settled fun _ => rejectConnection_seated).mono ?_ fun _ _ h => h
    rintro _ rfl
    exact ⟨roster,h⟩
  · obtain ⟨roster',hseated,hheld⟩ := (h.toSeated.outdate a.viewId).attach (a := { a with state := state }) hc
      mem_cons_self (.inr ⟨a.place,by rw [UiConnection.place,ha]; rfl,rfl⟩)
    refine holds_bind (M := After (SeatedAt [] [] [a.viewId] roster' []) Refused) (holds_modify ?_) (fun _ => ?_)
      fun _ _ h => h
    · rintro _ rfl
      exact ⟨hseated,fun _ hx => by cases hx⟩
    · exact introduce_settled (a := { a with state := state }) rfl rfl (fun _ => not_mem_nil) hheld
        fun _ hmem => by cases hmem

end Attaching

section Calls
variable {kit : UiKit Node Op} {roster : List Place} {there : List (ℕ × Place)} {id : ℕ}
variable {io : PumpIo} {b : Bridge Node Op}

theorem noteMessage_seated {message : Incoming} {verdict : Verdict} :
    Keeps (SeatedAt [] [] [] roster there) Refused (noteMessage kit b id message verdict) :=
  keeps_noteMessage fun _ _ h => h.congr rfl rfl rfl

theorem handleEvent_seated {a : Attachment} {event : UiEvent} (hthere : (id,a.place) ∈ there) :
    Keeps (SeatedAt [] [] [] roster there) Refused (handleEvent kit id a event) :=
  keeps_handleEvent (fun _ _ h => h.congr rfl rfl rfl) (fun _ _ h => h.congr rfl rfl rfl)
    (fun _ _ => rejectConnection_seated) (fun _ => queueMessage_seated hthere trivial) queueProjection_seated
    fun _ h => h.pushAction _ _

theorem handleMessage_accounted {message : Incoming} : Keeps Accounted Excused (handleMessage kit id message) := by
  refine keeps_accounted (holds_get fun b hb => ?_) fun _ => handleMessage_marked
  obtain ⟨roster,hb⟩ := hb
  have hstay : ∀ {x : BridgeM Node Op PUnit}, Keeps (SeatedAt [] [] [] roster []) Refused x →
      Holds (fun s => s = b) x (After Accounted Excused) := by
    intro x hx
    refine (hx.holds (Q := After Accounted Excused) (fun _ _ h => .inr ⟨roster,h⟩) fun _ _ h => .inl h).mono ?_
      fun _ _ h => h
    rintro _ rfl
    exact hb
  split
  · exact hstay noteMessage_seated
  · rename_i c hc
    split
    · exact hstay noteMessage_seated
    · rename_i hactive
      rw [Bool.or_eq_true,not_or,Bool.not_eq_true,Bool.not_eq_true] at hactive
      split
      · rename_i hnone
        split
        · exact handleAttach_settled hb hc hnone hactive.2 hactive.1
        · exact hstay (keeps_bind rejectConnection_seated fun _ => noteMessage_seated)
      · rename_i a ha
        split
        · exact hstay (keeps_bind rejectConnection_seated fun _ => noteMessage_seated)
        · split
          · have hattached : b.attachment id = some a := by rw [Bridge.attachment,hc,Option.bind_some,ha]
            refine (keeps_attached hb hattached (handleEvent_seated mem_cons_self)).mono (fun _ h => h) ?_
            intro outcome s h
            cases outcome with
            | ok _ => exact .inr ⟨roster,h⟩
            | error _ => exact .inl h
          · refine (handleLifecycle_settled hb hc ha).mono (fun _ h => h) fun outcome s h => ?_
            cases outcome with
            | ok _ => exact .inr h
            | error _ => exact .inl h
          · exact hstay (keeps_handleSnapshotRequest (fun _ _ => rejectConnection_seated) queueProjection_seated)
          · exact hstay rejectConnection_seated
          · exact hstay rejectConnection_seated

variable {f : UiConnection Node Op → UiConnection Node Op}

theorem Accounted.edit (h : Accounted b)
    (hid : ∀ c, (f c).id = c.id) (hf : ∀ c, Unseen [] c (f c)) :
    Accounted { b with connections := b.connections.map f } :=
  h.imp (fun h => h) fun ⟨roster,h⟩ => ⟨roster,h.edit hid fun c _ => hf c⟩

theorem Accounted.onConnection (h : Accounted b)
    (hid : ∀ c, (f c).id = c.id) (hf : ∀ c, Unseen [] c (f c)) : Accounted (b.onConnection id f) :=
  h.imp (fun h => h) fun ⟨roster,h⟩ => ⟨roster,h.onConnection hid fun c _ => hf c⟩

theorem rejectInvalidMessage_accounted {message : Text} :
    Keeps Accounted Excused (rejectInvalidMessage kit id message) := by
  refine holds_bind (M := After (fun s => Accounted (s.onConnection id UiConnection.close)) Excused)
    (holds_modify fun b h => ?_) (fun _ => holds_modify fun _ h => h) fun _ _ h => h
  change Accounted (Bridge.onConnection _ id UiConnection.close)
  split
  · exact h.onConnection (fun _ => rfl) fun _ => unseen_close
  · rename_i length _
    have hid : ∀ c : UiConnection Node Op, (if c.overflows length then c.disconnect else
        c.push length (.error uiProtocolMaxVersion "invalidMessage".toList message) false).id = c.id := by
      intro c
      split
      · rfl
      · rfl
    rw [Bridge.onConnection_onConnection _ _ _ _ hid]
    refine h.onConnection hid fun c => ?_
    split
    · exact ⟨rfl,rfl,fun _ _ _ hlive => (by cases hlive),fun _ _ hopen => by cases hopen⟩
    · exact unseen_push_close

theorem pumpConnection_accounted : Keeps Accounted Excused (pumpConnection kit io id) := by
  refine keeps_pumpConnection (fun b written h => ?_) (fun b h => ?_) (fun _ => rejectInvalidMessage_accounted)
    (fun b eof h => ?_) (fun b events h => ?_) fun _ => handleMessage_accounted
  · exact h.onConnection (fun c => by cases written <;> rfl) fun _ => unseen_flush
  · exact h.onConnection (fun _ => rfl) fun _ => unseen_disconnect
  · refine h.onConnection (fun c => by cases eof <;> rfl) fun c => ?_
    cases eof with
    | true => exact unseen_disconnect
    | false => exact .refl
  · exact h.imp (fun h => h) fun ⟨roster,h⟩ => ⟨roster,h.congr rfl rfl rfl⟩

theorem Seated.accept (h : Seated [] [] [] roster b) : Seated [] [] [] roster
    { b with
      connections := b.connections ++ [UiConnection.new b.nextConnectionId b.clock]
      nextConnectionId := b.nextConnectionId + 1 } where
  toNumbered := h.toNumbered.accept
  fresh := by
    intro c hc
    rcases mem_append.mp hc with hc | hc
    · exact h.fresh c hc
    · rw [mem_singleton.mp hc]
      exact fun _ _ _ => rfl
  places := by
    rw [Bridge.places,filterMap_append]
    exact (append_nil _).trans h.places
  seats := h.seats
  taken := h.taken
  orderly := h.orderly
  presence := by
    intro c hc a ha
    rcases mem_append.mp hc with hc | hc
    · exact h.presence c hc a ha
    · rw [mem_singleton.mp hc] at ha
      cases ha

theorem acceptConnection_accounted {allowed : Bool} (h : Accounted b) :
    Accounted (acceptConnection b allowed) := by
  unfold acceptConnection
  split
  · exact h.imp (fun h => h) fun ⟨roster,h⟩ => ⟨roster,h.toSeated.accept,fun _ hx => by cases hx⟩
  · exact h

theorem pump_accounted : Keeps Accounted Accounted (pump kit io) := by
  refine keeps_pump (keeps_modify fun b h => ?_) ?_ (keeps_acceptConnections (fun _ h => h) fun _ _ h =>
    acceptConnection_accounted h) (fun _ => pumpConnection_accounted.weaken fun _ h => .inl h) (keeps_modify fun b h => ?_)
  · refine h.edit (fun c => ?_) fun c => ?_
    · split
      · rfl
      · rfl
    · split
      · exact unseen_disconnect
      · exact .refl
  · refine (keeps_accounted (accounted_of_settled reapConnections_settled) fun _ => reapConnections_marked).weaken ?_
    exact fun _ h => .inl h
  · exact h.edit (fun c => by cases io.lastFlushes c.id <;> rfl) fun _ => unseen_flush

theorem log_pop {event : UiBridgeEvent} {rest : List UiBridgeEvent} (h : b.pending = event :: rest) :
    ({ b with pending := rest, delivered := b.delivered ++ [event] } : Bridge Node Op).log = b.log := by
  rw [Bridge.log,Bridge.log,h,append_assoc]
  rfl

theorem poll_accounted : Keeps Accounted Accounted (poll kit io) := by
  refine keeps_poll pump_accounted (keeps_modify fun b h => ?_)
  split
  · exact h
  · rename_i event rest hpending
    exact h.imp (fun h => h) fun ⟨roster,h⟩ => ⟨roster,h.congr rfl rfl (log_pop hpending)⟩

theorem sends_accounted {x : BridgeM Node Op PUnit} (hx : ∀ roster, Keeps (SeatedAt [] [] [] roster []) Refused x)
    (hm : ∀ t, Keeps (Marked t) (Marked t) x) : Keeps Accounted Accounted x :=
  (keeps_accounted (accounted_of_settled (keeps_settled hx)) hm).weaken fun _ h => .inl h

theorem call_accounted [DecidableEq Node] (c : BridgeCall Node Op) : Keeps Accounted Accounted (call kit c) := by
  refine keeps_call (fun _ h => h) (fun b views clientViews h => ?_) (fun p flushes => ?_)
    (fun p current baseRevision revision operations targeted flushes => ?_) (fun _ => poll_accounted)
    (fun event outcome revision flushes => ?_) c
  · exact h.imp (fun h => h) fun ⟨roster,h⟩ => ⟨roster,h.congr rfl rfl rfl⟩
  · refine sends_accounted (fun roster => ?_) fun t => ?_
    · exact keeps_sendProjections (fun _ => queueProjection_seated) flushAvailable_seated
    · exact keeps_sendProjections (fun _ => queueProjection_marked) (keeps_modify fun _ h => h)
  · refine sends_accounted (fun roster => ?_) fun t => ?_
    · exact keeps_sendDeltas (fun _ => queueProjection_seated) (fun _ => queueDeltaMessage_seated) flushAvailable_seated
    · exact keeps_sendDeltas (fun _ => queueProjection_marked)
        (fun _ => keeps_queueDeltaMessage (fun _ _ _ => queueMessage_marked) fun _ _ _ h => h) (keeps_modify fun _ h => h)
  · refine keeps_acknowledge (fun _ h => h) (fun b history h => ?_) fun ack => ?_
    · exact h.imp (fun h => h) fun ⟨roster,h⟩ => ⟨roster,h.congr rfl rfl rfl⟩
    · refine sends_accounted (fun roster => sendAck_seated) fun t => ?_
      exact keeps_sendAck (fun _ => queueMessage_marked) (keeps_modify fun _ h => h)

theorem seatedAt_start : SeatedAt [] [] [] [] [] (Bridge.start : Bridge Node Op) := by
  refine ⟨⟨⟨nodup_nil,fun _ hc => ?_⟩,fun _ hc => ?_,rfl,nodup_nil,fun seat _ => ?_,fun earlier e hp => ?_,
    fun _ hc => ?_⟩,fun _ hx => ?_⟩
  · cases hc
  · cases hc
  · simp [taken,Bridge.log,Bridge.start]
  · simp [Bridge.log,Bridge.start] at hp
  · cases hc
  · cases hx

/-- As long as no frame was refused and no renderer moved to another view while the bridge
held its attachment, the App and the renderers know exactly who is attached, each time all
events have been delivered. -/
theorem attached_renderers_are_known [DecidableEq Node] (calls : List (ℕ × BridgeCall Node Op)) :
    Always (bridgeStep kit) (fun b => b.refused = false → b.moved = false → b.pending = [] → RenderersExact b)
      Bridge.start calls := by
  refine always_of_invariant (J := Accounted) ?_ ?_ (.inr ⟨[],?_⟩) _
  · rintro b ⟨now,c⟩ _ h ⟨⟩
    have hcall := (@call_accounted Node Op kit _ c).holds (Q := fun _ => Accounted) (fun _ _ h => h) fun _ _ h => h
    exact hcall { b with clock := now } (h.imp (fun h => h) fun ⟨roster,h⟩ => ⟨roster,h.congr rfl rfl rfl⟩)
  · rintro b ((hrefused | hmoved) | ⟨roster,h⟩) hfine hstayed hdrained
    · rw [hfine] at hrefused
      cases hrefused
    · rw [hstayed] at hmoved
      cases hmoved
    · exact h.toSeated.exact hdrained
  · exact seatedAt_start

end Calls

def changedView : List (ℕ × BridgeCall ℕ ℕ) :=
  [polled [true,true] 1 [attachTo ['v']] false,polled [] 2 [attachTo ['w']] false]

def oversizedView : List (ℕ × BridgeCall ℕ ℕ) :=
  [(0,.publish ['v'] 1 maxUiFrameBytes fun _ => some 0),polled [true] 1 [attachTo ['v']] false,
    polled [] 1 [] true]

/-- The App still counts the renderer at the view it left, and it hears of a renderer's end
that it never heard of before. -/
theorem left_view_is_not_given_up :
    ¬ Always (bridgeStep sizedKit) (fun b => b.pending = [] → RenderersExact b) Bridge.start changedView ∧
    ¬ Always (bridgeStep sizedKit) (fun b => b.pending = [] → RenderersExact b) Bridge.start oversizedView := by
  refine ⟨fun h => ?_,fun h => ?_⟩
  · have hrun : (run (bridgeStep sizedKit) Bridge.start changedView).map (fun b =>
        (b.pending,taken ⟨['c'],['r'],['v']⟩ b.delivered,b.seats)) = some ([],true,[⟨['c'],['r'],['w']⟩]) := by
      decide +kernel
    obtain ⟨b,hb,hvalues⟩ := Option.map_eq_some_iff.mp hrun
    obtain ⟨hpending,htaken,hseats⟩ := by simpa only [Prod.mk.injEq] using hvalues
    have hexact := ((h.last hb hpending).seats _).mp htaken
    rw [hseats] at hexact
    exact absurd hexact (by decide)
  · have hrun : (run (bridgeStep sizedKit) Bridge.start oversizedView).map (fun b => (b.pending,b.delivered)) =
        some ([],[.detached ⟨['c'],[UiGrant.all]⟩ ['c'] ⟨['r'],['w'],[uiDeltaCapability]⟩ ['v']]) := by
      decide +kernel
    obtain ⟨b,hb,hvalues⟩ := Option.map_eq_some_iff.mp hrun
    obtain ⟨hpending,hdelivered⟩ := by simpa only [Prod.mk.injEq] using hvalues
    have horder := (h.last hb hpending).orderly
    rw [hdelivered] at horder
    obtain ⟨first,hfirst,-⟩ := horder [] _ prefix_rfl rfl _ rfl
    cases hfirst

end Unpeel.AppKit
