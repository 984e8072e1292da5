import Mathlib.Data.List.Infix
import Unpeel.AppKit.BridgeRules
import Unpeel.Foundation.Runs

/-! # What the renderers show

A renderer replays the snapshots and deltas that were queued to it. What it shows is held
against the projection the bridge resolves for its client and view: the shared one, or the
client's own where that is not behind.
-/
namespace Unpeel.AppKit
open List

open Manifest (Text)
open Fallible Runs

structure Shown (Node : Type) where
  revision : ℕ
  root : Option Node
  targeted : Bool
deriving DecidableEq

variable {Node Op : Type}

/-- A renderer gets a message after what it has shown. It cannot follow a delta whose base
is not what it shows. -/
def follow (kit : UiKit Node Op) (past : List (Shown Node)) (message : Outgoing Node Op × Bool) :
    Option (List (Shown Node)) :=
  match message.1 with
  | .snapshot _ _ _ revision root => some (past ++ [⟨revision,some root,message.2⟩])
  | .delta _ _ _ baseRevision revision operations =>
    match past.getLast? with
    | none => none
    | some current =>
      if current.revision = baseRevision then
        some (past ++ [⟨revision,current.root.bind (kit.applyDeltaOperations operations),message.2⟩])
      else none
  | _ => some past

def replay (kit : UiKit Node Op) (sent : List (Outgoing Node Op × Bool)) : Option (List (Shown Node)) :=
  sent.foldlM (follow kit) []

/-- `y` may be shown after `x`: of a later revision, the same, or the client's own in place
of the shared one. -/
def Follows (x y : Shown Node) : Prop :=
  x.revision < y.revision ∨ x = y ∨ (x.revision = y.revision ∧ x.targeted = false ∧ y.targeted = true)

theorem Follows.trans {x y z : Shown Node} (hxy : Follows x y) (hyz : Follows y z) : Follows x z := by
  rcases hxy with hlt | rfl | ⟨hsame,hx,hy⟩
  · rcases hyz with hlt' | rfl | ⟨hsame',-,-⟩
    · exact .inl (hlt.trans hlt')
    · exact .inl hlt
    · exact .inl (hsame' ▸ hlt)
  · exact hyz
  · rcases hyz with hlt' | rfl | ⟨-,hy',-⟩
    · exact .inl (hsame ▸ hlt')
    · exact .inr (.inr ⟨hsame,hx,hy⟩)
    · rw [hy] at hy'
      cases hy'

theorem Follows.revision_le {x y : Shown Node} (h : Follows x y) : x.revision ≤ y.revision := by
  rcases h with hlt | rfl | ⟨hsame,-,-⟩
  · exact hlt.le
  · exact le_rfl
  · exact hsame.le

def Bridge.resolved (b : Bridge Node Op) (clientId viewId : Text) : Option (Shown Node) :=
  (b.projectionForWithSource clientId viewId).map fun x => ⟨x.1.revision,some x.1.root,x.2⟩

/-- Every live renderer can follow, without its revision going back; and unless a frame was
refused it shows what it should, with no two roots under one revision but the client's own
after the shared one. -/
def Converged (kit : UiKit Node Op) (b : Bridge Node Op) : Prop :=
  ∀ c ∈ b.connections, ∀ a, c.attachment = some a → c.disconnected = false →
    ∃ past, replay kit c.sent = some past ∧ (past.map Shown.revision).Pairwise (· ≤ ·) ∧
      (b.refused = false → past.getLast? = b.resolved a.clientId a.viewId ∧ past.Pairwise Follows)

section Store
variable {b : Bridge Node Op} {viewId : Text} {projection : Projection Node}
variable {clientId : Text}

/-- What `x` was may be followed by what `y` is. -/
def Precedes (x y : Option (Shown Node)) : Prop := ∀ s ∈ x, ∃ t ∈ y, Follows s t

theorem Precedes.refl (x : Option (Shown Node)) : Precedes x x := fun s hs => ⟨s,hs,.inr (.inl rfl)⟩

/-- The checks of `store_projection`. -/
def Storable (previous : Option (Projection Node)) (projection : Projection Node) : Prop :=
  ∀ p ∈ previous, p.revision < projection.revision ∨ p = projection

/-- The client's own projection where it is not behind, else the shared one. -/
theorem resolved_cases {x : Shown Node} (h : x ∈ b.resolved clientId viewId) :
    (∃ targeted, b.clientViews (clientId,viewId) = some targeted ∧
      (∀ shared ∈ b.views viewId, shared.revision ≤ targeted.revision) ∧
      x = ⟨targeted.revision,some targeted.root,true⟩) ∨ (∃ shared, b.views viewId = some shared ∧
      (∀ targeted ∈ b.clientViews (clientId,viewId), targeted.revision < shared.revision) ∧
      x = ⟨shared.revision,some shared.root,false⟩) := by
  obtain ⟨⟨p,own⟩,hp,rfl⟩ := Option.map_eq_some_iff.mp h
  rw [Bridge.projectionForWithSource] at hp
  split at hp
  · rename_i shared targeted hshared htargeted
    split at hp
    · rename_i hle
      cases hp
      exact .inl ⟨_,htargeted,by simpa [hshared] using hle,rfl⟩
    · rename_i hle
      cases hp
      exact .inr ⟨_,hshared,by simpa [htargeted] using hle,rfl⟩
  · rename_i shared hshared htargeted
    cases hp
    exact .inr ⟨_,hshared,by simp [htargeted],rfl⟩
  · rename_i targeted hshared htargeted
    cases hp
    exact .inl ⟨_,htargeted,by simp [hshared],rfl⟩
  · cases hp

theorem resolved_bounds {x : Shown Node} (h : x ∈ b.resolved clientId viewId) :
    (∀ shared ∈ b.views viewId, shared.revision ≤ x.revision) ∧
    ∀ targeted ∈ b.clientViews (clientId,viewId), targeted.revision ≤ x.revision := by
  rcases resolved_cases h with ⟨targeted,htargeted,hshared,rfl⟩ | ⟨shared,hshared,htargeted,rfl⟩
  · refine ⟨hshared,fun other hother => ?_⟩
    rw [htargeted,Option.mem_def,Option.some.injEq] at hother
    rw [← hother]
  · refine ⟨fun other hother => ?_,fun other hother => (htargeted other hother).le⟩
    rw [hshared,Option.mem_def,Option.some.injEq] at hother
    rw [← hother]

theorem storeShared_other {other : Text} (h : other ≠ viewId) :
    (b.storeShared viewId projection).resolved clientId other = b.resolved clientId other := by
  have hkept : (b.storeShared viewId projection).clientViews (clientId,other) = b.clientViews (clientId,other) := by
    cases hc : b.clientViews (clientId,other) with
    | none => simp [Bridge.storeShared,hc]
    | some targeted => simp [Bridge.storeShared,hc,h,Option.filter]
  have hview : (b.storeShared viewId projection).views other = b.views other := Function.update_of_ne h _ _
  simp [Bridge.resolved,Bridge.projectionForWithSource,hkept,hview]

theorem storeShared_resolved (clientId : Text) : (b.storeShared viewId projection).resolved clientId viewId =
    match (b.clientViews (clientId,viewId)).filter fun targeted => projection.revision ≤ targeted.revision with
    | some targeted => some ⟨targeted.revision,some targeted.root,true⟩
    | none => some ⟨projection.revision,some projection.root,false⟩ := by
  have hview : (b.storeShared viewId projection).views viewId = some projection := Function.update_self ..
  have hclient : (b.storeShared viewId projection).clientViews (clientId,viewId) =
      (b.clientViews (clientId,viewId)).filter fun targeted => projection.revision ≤ targeted.revision := by
    simp [Bridge.storeShared]
  rw [Bridge.resolved,Bridge.projectionForWithSource,hview,hclient]
  cases ht : (b.clientViews (clientId,viewId)).filter fun targeted => decide (projection.revision ≤ targeted.revision) with
  | none => rfl
  | some targeted =>
    have hle : projection.revision ≤ targeted.revision := of_decide_eq_true (Option.filter_eq_some_iff.mp ht).2
    simp [hle]

theorem storeShared_reaches (clientId : Text) :
    ∃ n ∈ (b.storeShared viewId projection).resolved clientId viewId, projection.revision ≤ n.revision := by
  rw [storeShared_resolved]
  split
  · rename_i targeted htargeted
    exact ⟨_,rfl,of_decide_eq_true (Option.filter_eq_some_iff.mp htargeted).2⟩
  · exact ⟨_,rfl,le_rfl⟩

theorem storeShared_ahead (h : ∀ targeted ∈ b.clientViews (clientId,viewId), targeted.revision < projection.revision) :
    (b.storeShared viewId projection).resolved clientId viewId =
      some ⟨projection.revision,some projection.root,false⟩ := by
  have hdropped : (b.clientViews (clientId,viewId)).filter (fun t => projection.revision ≤ t.revision) = none := by
    rw [Option.filter_eq_none_iff]
    intro targeted htargeted
    simpa using h targeted htargeted
  rw [storeShared_resolved,hdropped]

/-- A shared projection that passes the checks takes no renderer back. -/
theorem storeShared_precedes (h : Storable (b.views viewId) projection) (clientId other : Text) :
    Precedes (b.resolved clientId other) ((b.storeShared viewId projection).resolved clientId other) := by
  by_cases hother : other = viewId
  · subst hother
    intro x hx
    rcases resolved_cases hx with ⟨targeted,htargeted,-,rfl⟩ | ⟨shared,hshared,hbehind,rfl⟩
    · rw [storeShared_resolved,htargeted]
      by_cases hle : projection.revision ≤ targeted.revision
      · exact ⟨⟨targeted.revision,some targeted.root,true⟩,by simp [Option.filter,hle],.inr (.inl rfl)⟩
      · exact ⟨⟨projection.revision,some projection.root,false⟩,by simp [Option.filter,hle],.inl (Nat.lt_of_not_le hle)⟩
    · have hrises : shared.revision ≤ projection.revision := by
        rcases h shared hshared with hlt | rfl
        · exact hlt.le
        · exact le_rfl
      rw [storeShared_ahead fun targeted ht => (hbehind targeted ht).trans_le hrises]
      refine ⟨_,rfl,?_⟩
      rcases h shared hshared with hlt | rfl
      · exact .inl hlt
      · exact .inr (.inl rfl)
  · rw [storeShared_other hother]
    exact .refl _

theorem storeTargeted_other {client other : Text} (h : (client,other) ≠ (clientId,viewId)) :
    (b.storeTargeted clientId viewId projection).resolved client other = b.resolved client other := by
  have hkept : (b.storeTargeted clientId viewId projection).clientViews (client,other) = b.clientViews (client,other) :=
    Function.update_of_ne h _ _
  have hview : (b.storeTargeted clientId viewId projection).views = b.views := rfl
  rw [Bridge.resolved,Bridge.projectionForWithSource,hkept,hview]
  rfl

theorem storeTargeted_resolved (h : ∀ shared ∈ b.views viewId, shared.revision ≤ projection.revision) :
    (b.storeTargeted clientId viewId projection).resolved clientId viewId =
      some ⟨projection.revision,some projection.root,true⟩ := by
  have hclient : (b.storeTargeted clientId viewId projection).clientViews (clientId,viewId) = some projection :=
    Function.update_self ..
  have hview : (b.storeTargeted clientId viewId projection).views = b.views := rfl
  rw [Bridge.resolved,Bridge.projectionForWithSource,hclient,hview]
  cases hs : b.views viewId with
  | none => rfl
  | some shared => simp [h shared hs]

theorem storeTargeted_precedes (h : Storable (b.clientViews (clientId,viewId)) projection)
    (hshared : ∀ shared ∈ b.views viewId, shared.revision ≤ projection.revision) (client other : Text) :
    Precedes (b.resolved client other) ((b.storeTargeted clientId viewId projection).resolved client other) := by
  by_cases hkey : (client,other) = (clientId,viewId)
  · obtain ⟨rfl,rfl⟩ := Prod.mk.inj hkey
    rw [storeTargeted_resolved hshared]
    intro x hx
    refine ⟨_,rfl,?_⟩
    rcases resolved_cases hx with ⟨targeted,htargeted,-,rfl⟩ | ⟨shared,hs,-,rfl⟩
    · rcases h targeted htargeted with hlt | rfl
      · exact .inl hlt
      · exact .inr (.inl rfl)
    · rcases Nat.lt_or_eq_of_le (hshared shared hs) with hlt | heq
      · exact .inl hlt
      · exact .inr (.inr ⟨heq,rfl,rfl⟩)
  · rw [storeTargeted_other hkey]
    exact .refl _

end Store

section Replay
variable {kit : UiKit Node Op}

theorem replay_concat (sent : List (Outgoing Node Op × Bool)) (message : Outgoing Node Op × Bool) :
    replay kit (sent ++ [message]) = (replay kit sent).bind fun past => follow kit past message := by
  rw [replay,replay,foldlM_append]
  simp

def Outgoing.Silent : Outgoing Node Op → Prop
  | .snapshot .. => False
  | .delta .. => False
  | _ => True

theorem replay_silent {c : UiConnection Node Op} {length : ℕ} {message : Outgoing Node Op} {targeted : Bool}
    (h : message.Silent) : replay kit (c.push length message targeted).sent = replay kit c.sent := by
  rw [UiConnection.push,replay_concat]
  cases message with
  | snapshot | delta => cases h
  | attached | ack | presence | error =>
    cases replay kit c.sent with
    | none | some past => rfl

theorem pairwise_concat {α : Type} {R : α → α → Prop} (htrans : ∀ {x y z}, R x y → R y z → R x z) {l : List α} {y : α}
    (h : l.Pairwise R) (hlast : ∀ x ∈ l.getLast?, R x y) : (l ++ [y]).Pairwise R := by
  rw [pairwise_append]
  refine ⟨h,pairwise_singleton _ _,fun x hx z hz => ?_⟩
  rw [mem_singleton.mp hz]
  induction l using List.reverseRecOn with
  | nil => cases hx
  | append_singleton l last _ =>
    have hy : R last y := hlast last (by simp)
    rcases mem_append.mp hx with hx | hx
    · exact htrans ((pairwise_append.mp h).2.2 x hx last (mem_singleton_self _)) hy
    · rw [mem_singleton.mp hx]
      exact hy

end Replay

structure Tracked where
  clientId : Text
  viewId : Text
  lastSentRevision : Option ℕ
  lastSentWasTargeted : Bool

def Attachment.tracked (a : Attachment) : Tracked := ⟨a.clientId,a.viewId,a.lastSentRevision,a.lastSentWasTargeted⟩

/-- The renderer can follow; its revision does not go back, is noted, and is not ahead of the
App's. -/
structure Tracks (replayed : Option (List (Shown Node))) (t : Tracked) (now : Option (Shown Node))
    (past : List (Shown Node)) : Prop where
  replayed : replayed = some past
  rising : (past.map Shown.revision).Pairwise (· ≤ ·)
  noted : t.lastSentRevision = past.getLast?.map Shown.revision
  behind : ∀ x ∈ past.getLast?, ∃ y ∈ now, x.revision ≤ y.revision

structure Exact (t : Tracked) (expected : Option (Shown Node)) (past : List (Shown Node)) : Prop where
  last : past.getLast? = expected
  source : ∀ x ∈ expected, t.lastSentWasTargeted = x.targeted
  consistent : past.Pairwise Follows

def InStep (fine : Prop) (expected now : Option (Shown Node)) (replayed : Option (List (Shown Node))) (t : Tracked) :
    Prop :=
  ∃ past, Tracks replayed t now past ∧ (fine → Exact t expected past)

section Showing
variable {replayed : Option (List (Shown Node))} {t : Tracked} {expected now : Option (Shown Node)}
  {past : List (Shown Node)} {y : Shown Node}

def Tracked.note (t : Tracked) (revision : ℕ) (targeted : Bool) : Tracked :=
  { t with lastSentRevision := some revision, lastSentWasTargeted := targeted }

theorem Tracks.show (h : Tracks replayed t now past) (hlast : ∀ x ∈ past.getLast?, x.revision ≤ y.revision)
    (hnow : ∃ n ∈ now, y.revision ≤ n.revision) : Tracks (some (past ++ [y])) (t.note y.revision y.targeted) now (past ++ [y]) where
  replayed := rfl
  rising := by
    rw [map_append]
    refine pairwise_concat (fun hxy hyz => hxy.trans hyz) h.rising fun r hr => ?_
    rw [getLast?_map] at hr
    obtain ⟨x,hx,rfl⟩ := Option.map_eq_some_iff.mp hr
    exact hlast x hx
  noted := by
    rw [getLast?_concat]
    rfl
  behind := by
    intro x hx
    rw [getLast?_concat,Option.mem_def,Option.some.injEq] at hx
    rw [← hx]
    exact hnow

theorem Exact.show (h : Exact t expected past) (hlast : ∀ x ∈ past.getLast?, Follows x y) :
    Exact (t.note y.revision y.targeted) (some y) (past ++ [y]) where
  last := getLast?_concat ..
  source := by
    intro x hx
    rw [Option.mem_def,Option.some.injEq] at hx
    rw [← hx]
    rfl
  consistent := pairwise_concat (R := Follows) (fun hxy hyz => hxy.trans hyz) h.consistent hlast

theorem InStep.snapshot {fine : Prop} (h : InStep fine expected (some y) replayed t) (hexpected : Precedes expected (some y)) :
    InStep fine (some y) (some y) (replayed.bind fun past => some (past ++ [y])) (t.note y.revision y.targeted) := by
  obtain ⟨past,htracks,hexact⟩ := h
  refine ⟨past ++ [y],?_,fun hfine => ?_⟩
  · rw [htracks.replayed,Option.bind_some]
    refine htracks.show (fun x hx => ?_) ⟨y,rfl,le_rfl⟩
    obtain ⟨n,hn,hle⟩ := htracks.behind x hx
    cases hn
    exact hle
  · refine (hexact hfine).show fun x hx => ?_
    rw [(hexact hfine).last] at hx
    obtain ⟨n,hn,hfollows⟩ := hexpected x hx
    cases hn
    exact hfollows

/-- Operations are queued to a renderer that is at their base. -/
theorem InStep.delta {kit : UiKit Node Op} {fine : Prop} {version base revision : ℕ} {clientId viewId : Text}
    {operations : List Op} {targeted : Bool} (h : InStep fine expected now replayed t)
    (hbase : t.lastSentRevision = some base) (hrises : base < revision) (hreach : ∃ n ∈ now, revision ≤ n.revision)
    (hfits : ∀ x ∈ expected, x.revision = base → t.lastSentWasTargeted = x.targeted →
      now = some ⟨revision,x.root.bind (kit.applyDeltaOperations operations),targeted⟩) :
    InStep fine now now
      (replayed.bind fun past => follow kit past (.delta version clientId viewId base revision operations,targeted))
      (t.note revision targeted) := by
  obtain ⟨past,htracks,hexact⟩ := h
  have hnoted := htracks.noted
  rw [hbase,eq_comm,Option.map_eq_some_iff] at hnoted
  obtain ⟨x,hx,hrevision⟩ := hnoted
  have hfollow : follow kit past (.delta version clientId viewId base revision operations,targeted) =
      some (past ++ [⟨revision,x.root.bind (kit.applyDeltaOperations operations),targeted⟩]) := by
    simp [follow,hx,hrevision]
  have hbefore : ∀ z ∈ past.getLast?, z.revision < revision := by
    intro z hz
    rw [hx,Option.mem_def,Option.some.injEq] at hz
    rw [← hz,hrevision]
    exact hrises
  refine ⟨past ++ [⟨revision,x.root.bind (kit.applyDeltaOperations operations),targeted⟩],?_,fun hfine => ?_⟩
  · rw [htracks.replayed,Option.bind_some,hfollow]
    exact htracks.show (fun z hz => (hbefore z hz).le) hreach
  · have hx' : x ∈ expected := (hexact hfine).last ▸ hx
    rw [hfits x hx' hrevision ((hexact hfine).source x hx')]
    exact (hexact hfine).show (y := ⟨revision,x.root.bind (kit.applyDeltaOperations operations),targeted⟩) fun z hz =>
      .inl (hbefore z hz)

end Showing

def nothing (_ _ : Text) : Option (Shown Node) := none

/-- The bridge resolves `now`. The renderers that are still to be told show what was before,
`old`; all others show what they should. -/
structure Following (kit : UiKit Node Op) (kind : Text → Text → Prop) (old now : Text → Text → Option (Shown Node))
    (later : List ℕ) (b : Bridge Node Op) : Prop extends Numbered b where
  resolved : ∀ clientId viewId, b.resolved clientId viewId = now clientId viewId
  older : ∀ clientId viewId, Precedes (old clientId viewId) (now clientId viewId)
  once : later.Nodup
  addressed : ∀ c ∈ b.connections, c.id ∈ later → ∀ a, c.attachment = some a → kind a.clientId a.viewId
  blank : ∀ c ∈ b.connections, c.attachment = none → c.closeAfterFlush = false → c.disconnected = false →
    replay kit c.sent = some []
  waiting : ∀ c ∈ b.connections, ∀ a, c.attachment = some a → c.disconnected = false → c.id ∈ later →
    InStep (b.refused = false) (old a.clientId a.viewId) (now a.clientId a.viewId) (replay kit c.sent) a.tracked
  current : ∀ c ∈ b.connections, ∀ a, c.attachment = some a → c.disconnected = false → c.id ∉ later →
    InStep (b.refused = false) (now a.clientId a.viewId) (now a.clientId a.viewId) (replay kit c.sent) a.tracked

abbrev InSync (kit : UiKit Node Op) (now : Text → Text → Option (Shown Node)) : Bridge Node Op → Prop :=
  Following kit (fun _ _ => True) nothing now []

/-- An edit of a connection that changes neither what it shows nor what is noted of it, but
may let it go. -/
structure Quiet (kit : UiKit Node Op) (c c' : UiConnection Node Op) : Prop where
  id : c'.id = c.id
  replayed : replay kit c'.sent = replay kit c.sent
  live : c'.disconnected = false → c.disconnected = false
  closing : c'.closeAfterFlush = false → c.closeAfterFlush = false
  tracked : c'.attachment.map Attachment.tracked = c.attachment.map Attachment.tracked ∨
    (c'.attachment = none ∧ c'.closeAfterFlush = true)

section Edits
variable {kit : UiKit Node Op} {c : UiConnection Node Op}

theorem Quiet.refl : Quiet kit c c := ⟨rfl,rfl,fun h => h,fun h => h,.inl rfl⟩

theorem quiet_disconnect : Quiet kit c c.disconnect := ⟨rfl,rfl,fun h => (by cases h),fun h => h,.inl rfl⟩

theorem quiet_close : Quiet kit c c.close := ⟨rfl,rfl,fun h => h,fun h => (by cases h),.inl rfl⟩

theorem quiet_release : Quiet kit c c.release := ⟨rfl,rfl,fun h => h,fun h => (by cases h),.inr ⟨rfl,rfl⟩⟩

theorem quiet_flush {written : Option ℕ} : Quiet kit c (c.flush written) := by
  cases written with
  | none => exact quiet_disconnect
  | some written => exact ⟨rfl,rfl,fun h => h,fun h => h,.inl rfl⟩

theorem quiet_push {length : ℕ} {message : Outgoing Node Op} {targeted : Bool} (h : message.Silent) :
    Quiet kit c (c.push length message targeted) :=
  ⟨rfl,replay_silent h,fun h => h,fun h => h,.inl rfl⟩

theorem quiet_state {a : Attachment} {state : UiRendererState} (ha : c.attachment = some a) :
    Quiet kit c (c.attach { a with state := state }) :=
  ⟨rfl,rfl,fun h => h,fun h => h,.inl (by rw [ha]; rfl)⟩

end Edits

variable {f : UiConnection Node Op → UiConnection Node Op} {p : Attachment → Bool}

section Following
variable {kit : UiKit Node Op} {kind : Text → Text → Prop} {old now : Text → Text → Option (Shown Node)}
  {later : List ℕ} {b : Bridge Node Op} {id : ℕ}
variable {targeted : Bool}
variable {message : Outgoing Node Op} {flushes : ℕ → Option ℕ}

theorem Following.congr {b' : Bridge Node Op} (h : Following kit kind old now later b)
    (hconnections : b'.connections = b.connections) (hnext : b'.nextConnectionId = b.nextConnectionId)
    (hviews : b'.views = b.views) (hclients : b'.clientViews = b.clientViews) (hrefused : b'.refused = b.refused) :
    Following kit kind old now later b' := by
  cases b
  cases b'
  cases hconnections
  cases hnext
  cases hviews
  cases hclients
  cases hrefused
  exact ⟨⟨h.ids,h.below⟩,h.resolved,h.older,h.once,h.addressed,h.blank,h.waiting,h.current⟩

theorem Following.edit (h : Following kit kind old now later b)
    (hf : ∀ c ∈ b.connections, Quiet kit c (f c)) :
    Following kit kind old now later { b with connections := b.connections.map f } := by
  have hbefore : ∀ c ∈ b.connections, ∀ a', (f c).attachment = some a' →
      ∃ a, c.attachment = some a ∧ a'.tracked = a.tracked := by
    intro c hc a' ha'
    rcases (hf c hc).tracked with hsame | ⟨hnone,-⟩
    · rw [ha',Option.map_some,eq_comm,Option.map_eq_some_iff] at hsame
      obtain ⟨a,ha,hsame⟩ := hsame
      exact ⟨a,ha,hsame.symm⟩
    · rw [hnone] at ha'
      cases ha'
  have hkeys : ∀ a a' : Attachment, a'.tracked = a.tracked → a'.clientId = a.clientId ∧ a'.viewId = a.viewId :=
    fun a a' heq => ⟨congrArg Tracked.clientId heq,congrArg Tracked.viewId heq⟩
  refine ⟨h.toNumbered.edit fun c hc => (hf c hc).id,h.resolved,h.older,h.once,?_,?_,?_,?_⟩
  · intro c' hc' hlater a' ha'
    obtain ⟨c,hc,rfl⟩ := mem_map.mp hc'
    obtain ⟨a,ha,hsame⟩ := hbefore c hc a' ha'
    rw [(hkeys a a' hsame).1,(hkeys a a' hsame).2]
    exact h.addressed c hc ((hf c hc).id ▸ hlater) a ha
  · intro c' hc' hnone hopen hlive
    obtain ⟨c,hc,rfl⟩ := mem_map.mp hc'
    rw [(hf c hc).replayed]
    refine h.blank c hc ?_ ((hf c hc).closing hopen) ((hf c hc).live hlive)
    rcases (hf c hc).tracked with hsame | ⟨-,hclosing⟩
    · rwa [hnone,Option.map_none,eq_comm,Option.map_eq_none_iff] at hsame
    · rw [hopen] at hclosing
      cases hclosing
  · intro c' hc' a' ha' hlive hlater
    obtain ⟨c,hc,rfl⟩ := mem_map.mp hc'
    obtain ⟨a,ha,hsame⟩ := hbefore c hc a' ha'
    rw [(hf c hc).replayed,hsame,(hkeys a a' hsame).1,(hkeys a a' hsame).2]
    exact h.waiting c hc a ha ((hf c hc).live hlive) ((hf c hc).id ▸ hlater)
  · intro c' hc' a' ha' hlive hlater
    obtain ⟨c,hc,rfl⟩ := mem_map.mp hc'
    obtain ⟨a,ha,hsame⟩ := hbefore c hc a' ha'
    rw [(hf c hc).replayed,hsame,(hkeys a a' hsame).1,(hkeys a a' hsame).2]
    exact h.current c hc a ha ((hf c hc).live hlive) ((hf c hc).id ▸ hlater)

theorem Following.onConnection (h : Following kit kind old now later b)
    (hf : ∀ c, b.connection id = some c → Quiet kit c (f c)) :
    Following kit kind old now later (b.onConnection id f) := by
  refine h.edit fun c hc => ?_
  split
  · rename_i heq
    exact hf c (heq ▸ h.toNumbered.connection_eq hc)
  · exact .refl

/-- One connection of those still to be told is brought up to date. -/
theorem Following.settle (h : Following kit kind old now (id :: later) b)
    (hid : ∀ c, (f c).id = c.id)
    (hblank : ∀ c, b.connection id = some c → (f c).attachment = none → (f c).closeAfterFlush = false →
      (f c).disconnected = false → replay kit (f c).sent = some [])
    (hstep : ∀ c, b.connection id = some c → ∀ a, (f c).attachment = some a → (f c).disconnected = false →
      InStep (b.refused = false) (now a.clientId a.viewId) (now a.clientId a.viewId) (replay kit (f c).sent) a.tracked) :
    Following kit kind old now later (b.onConnection id f) := by
  have honce := nodup_cons.mp h.once
  refine ⟨h.toNumbered.edit fun c _ => ?_,h.resolved,h.older,honce.2,?_,?_,?_,?_⟩
  · split
    · exact hid c
    · rfl
  · intro c' hc' hlater a ha
    obtain ⟨c,hc,rfl⟩ := mem_map.mp hc'
    by_cases heq : c.id = id
    · rw [if_pos heq,hid,heq] at hlater
      exact absurd hlater honce.1
    · rw [if_neg heq] at hlater ha
      exact h.addressed c hc (mem_cons_of_mem _ hlater) a ha
  · intro c' hc' hnone hopen hlive
    obtain ⟨c,hc,rfl⟩ := mem_map.mp hc'
    by_cases heq : c.id = id
    · rw [if_pos heq] at hnone hopen hlive ⊢
      exact hblank c (heq ▸ h.toNumbered.connection_eq hc) hnone hopen hlive
    · rw [if_neg heq] at hnone hopen hlive ⊢
      exact h.blank c hc hnone hopen hlive
  · intro c' hc' a ha hlive hlater
    obtain ⟨c,hc,rfl⟩ := mem_map.mp hc'
    by_cases heq : c.id = id
    · rw [if_pos heq,hid,heq] at hlater
      exact absurd hlater honce.1
    · rw [if_neg heq] at hlater ha hlive ⊢
      exact h.waiting c hc a ha hlive (mem_cons_of_mem _ hlater)
  · intro c' hc' a ha hlive hlater
    obtain ⟨c,hc,rfl⟩ := mem_map.mp hc'
    by_cases heq : c.id = id
    · rw [if_pos heq] at ha hlive ⊢
      exact hstep c (heq ▸ h.toNumbered.connection_eq hc) a ha hlive
    · rw [if_neg heq] at hlater ha hlive ⊢
      exact h.current c hc a ha hlive (by simp [heq,hlater])

theorem Following.skip (h : Following kit kind old now (id :: later) b)
    (hsame : ∀ a, b.attachment id = some a → old a.clientId a.viewId = now a.clientId a.viewId) :
    Following kit kind old now later b := by
  have honce := nodup_cons.mp h.once
  refine ⟨h.toNumbered,h.resolved,h.older,honce.2,fun c hc hlater => h.addressed c hc (mem_cons_of_mem _ hlater),
    h.blank,fun c hc a ha hlive hlater => h.waiting c hc a ha hlive (mem_cons_of_mem _ hlater),
    fun c hc a ha hlive hlater => ?_⟩
  by_cases heq : c.id = id
  · have hattached : b.attachment id = some a := by
      rw [Bridge.attachment,← heq,h.toNumbered.connection_eq hc,Option.bind_some,ha]
    have hwaits := h.waiting c hc a ha hlive (heq ▸ mem_cons_self)
    rwa [hsame a hattached] at hwaits
  · exact h.current c hc a ha hlive (by simp [heq,hlater])

theorem Following.inSync (h : Following kit kind old now [] b) : InSync kit now b :=
  ⟨h.toNumbered,h.resolved,fun _ _ _ hx => (by cases hx),nodup_nil,fun _ _ hlater => (by cases hlater),h.blank,
    fun _ _ _ _ _ hlater => (by cases hlater),h.current⟩

theorem Following.refuse (h : Following kit kind old now later b) : InSync kit now { b with refused := true } := by
  refine ⟨⟨h.ids,h.below⟩,h.resolved,fun _ _ _ hx => (by cases hx),nodup_nil,fun _ _ hlater => (by cases hlater),
    h.blank,fun _ _ _ _ _ hlater => (by cases hlater),fun c hc a ha hlive _ => ?_⟩
  have hbroken : ∀ expected, InStep (b.refused = false) expected (now a.clientId a.viewId) (replay kit c.sent) a.tracked →
      InStep (true = false) (now a.clientId a.viewId) (now a.clientId a.viewId) (replay kit c.sent) a.tracked :=
    fun _ ⟨past,htracks,_⟩ => ⟨past,htracks,fun hfine => by cases hfine⟩
  by_cases hlater : c.id ∈ later
  · exact hbroken _ (h.waiting c hc a ha hlive hlater)
  · exact hbroken _ (h.current c hc a ha hlive hlater)

theorem queueMessage_following (hmessage : message.Silent) :
    Keeps (Following kit kind old now later) (InSync kit now) (queueMessage kit id message targeted) :=
  keeps_queueMessage (fun _ h => h.refuse) (fun _ h => h.onConnection fun _ _ => quiet_disconnect)
    fun _ _ h => h.onConnection fun _ _ => quiet_push hmessage

theorem flushAvailable_following {E : Bridge Node Op → Prop} :
    Keeps (Following kit kind old now later) E (flushAvailable flushes : BridgeM Node Op PUnit) :=
  keeps_modify fun _ h => h.edit fun _ _ => quiet_flush

/-- A projection or a delta and the note of it count as one edit. -/
theorem queueShown_following {revision : ℕ} {a : Attachment}
    (h : Following kit kind old now (id :: later) b) (ha : b.attachment id = some a)
    (hshow : InStep (b.refused = false) (old a.clientId a.viewId) (now a.clientId a.viewId)
      ((b.connection id).bind fun c => replay kit c.sent) a.tracked →
      InStep (b.refused = false) (now a.clientId a.viewId) (now a.clientId a.viewId)
        (((b.connection id).bind fun c => replay kit c.sent).bind fun past => follow kit past (message,targeted))
        (a.tracked.note revision targeted)) :
    Holds (fun s => s = b) (do
        let queued ← queueMessage kit id message targeted
        whenever queued (onConnection id fun c => c.noteSent revision targeted)
        pure queued) (After (Following kit kind old now later) (InSync kit now)) := by
  obtain ⟨c,hc,hattached⟩ := Option.bind_eq_some_iff.mp ha
  refine holds_bind (M := fun outcome s => match outcome with
    | .ok true => Following kit kind old now later (s.onConnection id fun c => c.noteSent revision targeted)
    | .ok false => Following kit kind old now later s
    | .error _ => InSync kit now s) ?_ (fun queued => ?_) fun _ _ h => h
  · refine holds_queueMessage ?_ ?_ ?_ ?_
    · rintro s rfl hmissing
      rw [hc] at hmissing
      cases hmissing
    · rintro s rfl
      exact h.refuse
    · rintro s c' _ rfl - - -
      refine h.settle (fun _ => rfl) (fun _ _ _ _ hlive => ?_) fun _ _ _ _ hlive => ?_
      · cases hlive
      · cases hlive
    · rintro s c' length rfl hc'
      rw [Bridge.onConnection_onConnection]
      · refine h.settle (fun _ => rfl) (fun c'' hc'' hnone => ?_) fun c'' hc'' a' ha' hlive => ?_
        · rw [hc,Option.some.injEq] at hc''
          simp [← hc'',UiConnection.noteSent,UiConnection.push,hattached] at hnone
        · rw [hc,Option.some.injEq] at hc''
          subst hc''
          have hwaits := h.waiting c (mem_of_find?_eq_some hc) a hattached hlive
            (Bridge.id_of_connection hc ▸ mem_cons_self)
          rw [hc,Option.bind_some] at hshow
          simp only [UiConnection.noteSent,UiConnection.push,hattached,Option.map_some,Option.some.injEq] at ha' ⊢
          rw [← ha',replay_concat]
          exact hshow hwaits
      · exact fun _ => rfl
  · refine holds_bind (M := After (Following kit kind old now later) (InSync kit now)) ?_ (fun _ => holds_pure fun _ h => h)
      fun _ _ h => h
    cases queued with
    | true => exact holds_modify fun _ h => h
    | false => exact holds_pure fun _ h => h

/-- The whole projection brings a renderer up to date. -/
theorem queueProjection_following :
    Holds (Following kit kind old now (id :: later)) (queueProjection kit id)
      (After (Following kit kind old now later) (InSync kit now)) := by
  refine holds_get fun b hb => ?_
  split
  · rename_i hnone
    rintro _ rfl
    exact hb.skip fun a ha => by rw [hnone] at ha; cases ha
  · rename_i a ha
    have hresolved := hb.resolved a.clientId a.viewId
    split
    · rename_i hprojection
      rw [Bridge.resolved,hprojection,Option.map_none] at hresolved
      rintro _ rfl
      refine hb.skip fun other hother => ?_
      rw [ha,Option.some.injEq] at hother
      rw [← hother,← hresolved]
      refine Option.eq_none_iff_forall_not_mem.mpr fun x hx => ?_
      obtain ⟨y,hy,-⟩ := hb.older a.clientId a.viewId x hx
      rw [← hresolved] at hy
      cases hy
    · rename_i projection targeted hprojection
      rw [Bridge.resolved,hprojection,Option.map_some] at hresolved
      refine queueShown_following hb ha fun hwaits => ?_
      have holder := hb.older a.clientId a.viewId
      rw [← hresolved] at hwaits holder ⊢
      exact hwaits.snapshot holder

theorem queueDeltaMessage_following {base revision : ℕ} {operations : List Op} {a : Attachment}
    (h : Following kit kind old now (id :: later) b) (ha : b.attachment id = some a)
    (hbase : a.lastSentRevision = some base) (hrises : base < revision)
    (hreach : ∃ n ∈ now a.clientId a.viewId, revision ≤ n.revision)
    (hfits : ∀ x ∈ old a.clientId a.viewId, x.revision = base → a.lastSentWasTargeted = x.targeted →
      now a.clientId a.viewId = some ⟨revision,x.root.bind (kit.applyDeltaOperations operations),targeted⟩) :
    Holds (fun s => s = b) (queueDeltaMessage kit id base revision operations targeted)
      (After (Following kit kind old now later) (InSync kit now)) := by
  refine holds_get fun s hs => ?_
  subst hs
  rw [ha]
  exact queueShown_following h ha fun hwaits => hwaits.delta hbase hrises hreach hfits

theorem sendProjections_following :
    Holds (fun s => Following kit kind old now ((s.recipients p).map Prod.fst) s) (sendProjections kit p flushes)
      (After (InSync kit now) (InSync kit now)) := by
  refine holds_get fun b hb => ?_
  refine holds_bind (M := After (InSync kit now) (InSync kit now)) ?_ (fun _ => flushAvailable_following) fun _ _ h => h
  refine (holds_forM (fun rest => Following kit kind old now (rest.map Prod.fst)) (InSync kit now) _ fun x rest =>
    holds_bind queueProjection_following (fun _ => holds_pure fun _ h => h) fun _ _ h => h).mono ?_ fun outcome s h => ?_
  · rintro _ rfl
    exact hb
  · cases outcome with
    | ok _ => exact h.inSync
    | error _ => exact h

section Deltas
variable {current : Attachment → Bool} {base revision : ℕ} {operations : List Op} {targeted : Bool}
  (hrises : base < revision) (hreach : ∀ clientId viewId, kind clientId viewId → ∃ n ∈ now clientId viewId, revision ≤ n.revision)
  (hfits : ∀ clientId viewId, kind clientId viewId → ∀ x ∈ old clientId viewId, x.revision = base →
    ∀ a : Attachment, current a = true → a.lastSentWasTargeted = x.targeted →
      now clientId viewId = some ⟨revision,x.root.bind (kit.applyDeltaOperations operations),targeted⟩)

include hrises hreach hfits in
/-- The operations where they fit, the whole projection elsewhere. -/
theorem queueChange_following : Holds (Following kit kind old now (id :: later))
    (do
      let b ← get
      let canApply := (b.attachment id).any fun a =>
        a.renderer.supports uiDeltaCapability && a.lastSentRevision = some base && current a
      let _ ← queueChange kit id canApply base revision operations targeted
      pure ()) (After (Following kit kind old now later) (InSync kit now)) := by
  refine holds_get fun b hb => holds_bind (M := After (Following kit kind old now later) (InSync kit now)) ?_
    (fun _ => holds_pure fun _ h => h) fun _ _ h => h
  rw [queueChange]
  split
  · rename_i hcan
    obtain ⟨a,ha,hcan⟩ := (Option.any_eq_true _ _).mp hcan
    simp only [Bool.and_eq_true,decide_eq_true_eq] at hcan
    obtain ⟨c,hc,hattached⟩ := Option.bind_eq_some_iff.mp ha
    have hkind := hb.addressed c (mem_of_find?_eq_some hc) (Bridge.id_of_connection hc ▸ mem_cons_self) a hattached
    exact queueDeltaMessage_following hb ha hcan.1.2 hrises (hreach _ _ hkind) fun x hx hrevision hsource =>
      hfits _ _ hkind x hx hrevision a hcan.2 hsource
  · refine queueProjection_following.mono ?_ fun _ _ h => h
    rintro _ rfl
    exact hb

include hrises hreach hfits in
theorem sendDeltas_following {flushes : ℕ → Option ℕ} :
    Holds (fun s => Following kit kind old now ((s.recipients p).map Prod.fst) s)
      (sendDeltas kit p current base revision operations targeted flushes) (After (InSync kit now) (InSync kit now)) := by
  refine holds_get fun b hb => ?_
  refine holds_bind (M := After (InSync kit now) (InSync kit now)) ?_ (fun _ => flushAvailable_following) fun _ _ h => h
  refine (holds_forM (fun rest => Following kit kind old now (rest.map Prod.fst)) (InSync kit now) _ fun x rest =>
    queueChange_following hrises hreach hfits).mono ?_ fun outcome s h => ?_
  · rintro _ rfl
    exact hb
  · cases outcome with
    | ok _ => exact h.inSync
    | error _ => exact h

end Deltas

end Following

section Polls
variable {kit : UiKit Node Op} {now : Text → Text → Option (Shown Node)} {b : Bridge Node Op} {id : ℕ}
variable {c : UiConnection Node Op} {a : Attachment}

theorem Following.again (h : InSync kit now b) : Following kit (fun _ _ => True) now now [id] b where
  toNumbered := h.toNumbered
  resolved := h.resolved
  older := fun _ _ => .refl _
  once := nodup_singleton _
  addressed := fun _ _ _ _ _ => trivial
  blank := h.blank
  waiting := fun c hc a ha hlive _ => h.current c hc a ha hlive not_mem_nil
  current := fun c hc a ha hlive _ => h.current c hc a ha hlive not_mem_nil

theorem queueProjection_inSync : Keeps (InSync kit now) (InSync kit now) (queueProjection kit id) := by
  refine queueProjection_following.mono (fun _ h => Following.again h) fun outcome s h => ?_
  cases outcome with
  | ok _ => exact h.inSync
  | error _ => exact h

theorem broadcastPresence_inSync {viewId : Text} : Keeps (InSync kit now) (InSync kit now) (broadcastPresence kit viewId) :=
  keeps_broadcastPresence fun _ _ _ => queueMessage_following trivial

theorem rejectConnection_inSync {code message : Text} :
    Keeps (InSync kit now) (InSync kit now) (rejectConnection kit id code message) :=
  keeps_rejectConnection (fun _ => queueMessage_following trivial) fun _ h => h.onConnection fun _ _ => quiet_close

theorem Following.remove (h : InSync kit now b) {kept removed : List (UiConnection Node Op)}
    (hperm : (kept ++ removed).Perm b.connections) : InSync kit now { b with connections := kept } := by
  have hkept : ∀ c ∈ kept, c ∈ b.connections := fun c hc => hperm.subset (mem_append_left _ hc)
  exact ⟨h.toNumbered.remove hperm,h.resolved,h.older,h.once,fun _ _ hlater => (by cases hlater),
    fun c hc => h.blank c (hkept c hc),fun _ _ _ _ _ hlater => (by cases hlater),fun c hc => h.current c (hkept c hc)⟩

theorem reapConnections_inSync : Keeps (InSync kit now) (InSync kit now) (reapConnections kit) := by
  refine holds_get fun b hb => ?_
  refine holds_bind (M := After (InSync kit now) (InSync kit now)) (holds_modify ?_) (fun _ => ?_) fun _ _ h => h
  · rintro _ rfl
    exact Following.remove hb (sweep_perm UiConnection.gone _ _ le_rfl)
  · exact keeps_forM fun a _ => keeps_bind (keeps_modify fun _ h => h.congr rfl rfl rfl rfl rfl) fun _ =>
      broadcastPresence_inSync

theorem Following.accept (h : InSync kit now b) : InSync kit now { b with
    connections := b.connections ++ [UiConnection.new b.nextConnectionId b.clock]
    nextConnectionId := b.nextConnectionId + 1 } where
  toNumbered := h.toNumbered.accept
  resolved := h.resolved
  older := h.older
  once := h.once
  addressed := fun _ _ hlater => by cases hlater
  blank := by
    intro c hc
    rcases mem_append.mp hc with hc | hc
    · exact h.blank c hc
    · rw [mem_singleton.mp hc]
      exact fun _ _ _ => rfl
  waiting := fun _ _ _ _ _ hlater => by cases hlater
  current := by
    intro c hc a ha
    rcases mem_append.mp hc with hc | hc
    · exact h.current c hc a ha
    · rw [mem_singleton.mp hc] at ha
      cases ha

/-- A connection that attaches has everything to be told. -/
theorem Following.arrive (h : InSync kit now b)
    (hc : b.connection id = some c) (hnone : c.attachment = none) (hopen : c.closeAfterFlush = false)
    (ha : a.lastSentRevision = none) :
    Following kit (fun _ _ => True) nothing now [id] (b.onConnection id fun c => c.attach a) := by
  refine ⟨h.toNumbered.edit fun c _ => ?_,h.resolved,fun _ _ _ hx => (by cases hx),nodup_singleton _,
    fun _ _ _ _ _ => trivial,?_,?_,?_⟩
  · split
    · rfl
    · rfl
  · intro c' hc' hnone' hopen' hlive
    obtain ⟨c',hmem,rfl⟩ := mem_map.mp hc'
    split at hnone'
    · cases hnone'
    · rename_i heq
      rw [if_neg heq] at hopen' hlive ⊢
      exact h.blank c' hmem hnone' hopen' hlive
  · intro c' hc' a' ha' hlive hlater
    obtain ⟨c',hmem,rfl⟩ := mem_map.mp hc'
    by_cases heq : c'.id = id
    · have hsame := h.toNumbered.connection_eq hmem
      rw [heq,hc,Option.some.injEq] at hsame
      subst hsame
      rw [if_pos heq] at ha' hlive ⊢
      cases ha'
      have hempty : replay kit c.sent = some [] := h.blank c hmem hnone hopen hlive
      refine ⟨[],⟨hempty,List.Pairwise.nil,ha,fun _ hx => (by cases hx)⟩,fun _ => ⟨rfl,fun _ hx => (by cases hx),.nil⟩⟩
    · rw [if_neg heq] at hlater
      exact absurd (mem_singleton.mp hlater) heq
  · intro c' hc' a' ha' hlive hlater
    obtain ⟨c',hmem,rfl⟩ := mem_map.mp hc'
    by_cases heq : c'.id = id
    · rw [if_pos heq] at hlater
      exact absurd (mem_singleton.mpr heq) hlater
    · rw [if_neg heq] at ha' hlive ⊢
      exact h.current c' hmem a' ha' hlive not_mem_nil

theorem completeAttach_inSync {resumed : Bool} (h : InSync kit now b)
    (hc : b.connection id = some c) (hnone : c.attachment = none) (hopen : c.closeAfterFlush = false)
    (ha : a.lastSentRevision = none) :
    Holds (fun s => s = b) (completeAttach kit id a resumed) (After (InSync kit now) (InSync kit now)) := by
  refine holds_get fun s hs => ?_
  subst hs
  rw [hc]
  refine holds_bind (M := After (Following kit (fun _ _ => True) nothing now [id]) (InSync kit now)) (holds_modify ?_)
    (fun _ => ?_) fun _ _ h => h
  · rintro _ rfl
    exact Following.arrive h hc hnone hopen ha
  · refine holds_bind (M := fun outcome s => match outcome with
      | .ok true => Following kit (fun _ _ => True) nothing now [id] s
      | .ok false => InSync kit now s
      | .error _ => InSync kit now s) ?_ (fun queued => ?_) fun _ _ h => h
    · refine holds_queueMessage (fun s h hmissing => ?_) (fun s h => h.refuse) (fun s c _ h _ _ _ => ?_)
        fun s c _ h _ => ?_
      · refine (h.skip fun a ha => ?_).inSync
        rw [Bridge.attachment,hmissing] at ha
        cases ha
      · refine (h.settle (f := UiConnection.disconnect) (fun _ => rfl) (fun _ _ _ _ hlive => ?_) fun _ _ _ _ hlive => ?_).inSync
        · cases hlive
        · cases hlive
      · exact h.onConnection fun _ _ => quiet_push trivial
    · cases queued with
      | false => exact holds_pure fun _ h => h
      | true =>
        refine holds_bind queueProjection_following (fun _ => ?_) fun _ _ h => h
        refine Keeps.holds (J := InSync kit now) (E := InSync kit now) ?_ (fun _ _ h => h) (fun _ _ h => h) |>.mono
          (fun _ h => h.inSync) fun _ _ h => h
        exact keeps_bind (keeps_modify fun _ h => h.congr rfl rfl rfl rfl rfl) fun _ => broadcastPresence_inSync

theorem takeSeat_inSync {resumed : Bool} (h : InSync kit now b)
    (hc : b.connection id = some c) (hnone : c.attachment = none) (hopen : c.closeAfterFlush = false)
    (ha : a.lastSentRevision = none) :
    Holds (fun s => s = b) (do replaceDuplicates id a; completeAttach kit id a resumed)
      (After (InSync kit now) (InSync kit now)) := by
  refine holds_bind (M := After (fun s => s = b.replaceDuplicates id a) (InSync kit now)) (holds_modify ?_)
    (fun _ => completeAttach_inSync ?_ (connection_replaced hc) hnone hopen ha) fun _ _ h => h
  · rintro _ rfl
    exact rfl
  · refine (h.edit fun c _ => ?_).congr rfl rfl rfl rfl rfl
    split
    · exact quiet_release
    · exact .refl

theorem handleAttach_inSync {attach : UiAttach} (h : InSync kit now b)
    (hc : b.connection id = some c) (hnone : c.attachment = none) (hopen : c.closeAfterFlush = false) :
    Holds (fun s => s = b) (handleAttach kit id attach) (After (InSync kit now) (InSync kit now)) := by
  unfold handleAttach
  split
  · exact rejectConnection_inSync.starting h
  · split
    · exact rejectConnection_inSync.starting h
    · split
      · exact rejectConnection_inSync.starting h
      · exact takeSeat_inSync h hc hnone hopen rfl

theorem handleLifecycle_inSync {route : UiRoute} {state : UiRendererState}
    (h : InSync kit now b) (hc : b.connection id = some c) (ha : c.attachment = some a) :
    Holds (fun s => s = b) (handleLifecycle kit id a route state) (After (InSync kit now) (InSync kit now)) := by
  unfold handleLifecycle
  split
  · exact rejectConnection_inSync.starting h
  · refine holds_bind (M := After (InSync kit now) (InSync kit now)) (holds_modify ?_) (fun _ => ?_) fun _ _ h => h
    · rintro _ rfl
      refine h.onConnection fun c' hc' => ?_
      rw [hc,Option.some.injEq] at hc'
      exact hc' ▸ quiet_state ha
    · exact keeps_bind (keeps_modify fun _ h => h.congr rfl rfl rfl rfl rfl) fun _ => broadcastPresence_inSync

theorem handleMessage_inSync {message : Incoming} :
    Keeps (InSync kit now) (InSync kit now) (handleMessage kit id message) := by
  refine holds_get fun b hb => ?_
  have hstay : ∀ {x : BridgeM Node Op PUnit}, Keeps (InSync kit now) (InSync kit now) x →
      Holds (fun s => s = b) x (After (InSync kit now) (InSync kit now)) := fun hx => hx.starting hb
  have hnote : ∀ verdict, Keeps (InSync kit now) (InSync kit now) (noteMessage kit b id message verdict) := fun _ =>
    keeps_noteMessage fun _ _ h => h.congr rfl rfl rfl rfl rfl
  split
  · exact hstay (hnote _)
  · rename_i c hc
    split
    · exact hstay (hnote _)
    · rename_i hactive
      rw [Bool.or_eq_true,not_or,Bool.not_eq_true,Bool.not_eq_true] at hactive
      split
      · rename_i hnone
        split
        · exact handleAttach_inSync hb hc hnone hactive.2
        · exact hstay (keeps_bind rejectConnection_inSync fun _ => hnote _)
      · rename_i a ha
        split
        · exact hstay (keeps_bind rejectConnection_inSync fun _ => hnote _)
        · split
          · exact hstay (keeps_handleEvent (fun _ _ h => h.congr rfl rfl rfl rfl rfl)
              (fun _ _ h => h.congr rfl rfl rfl rfl rfl) (fun _ _ => rejectConnection_inSync)
              (fun _ => queueMessage_following trivial) queueProjection_inSync fun _ h => h.congr rfl rfl rfl rfl rfl)
          · exact handleLifecycle_inSync hb hc ha
          · exact hstay (keeps_handleSnapshotRequest (fun _ _ => rejectConnection_inSync) queueProjection_inSync)
          · exact hstay rejectConnection_inSync
          · exact hstay rejectConnection_inSync

theorem rejectInvalidMessage_inSync {message : Text} :
    Keeps (InSync kit now) (InSync kit now) (rejectInvalidMessage kit id message) := by
  refine keeps_bind (keeps_modify fun b h => ?_) fun _ => keeps_modify fun _ h => h.onConnection fun _ _ => quiet_close
  split
  · exact h
  · refine h.onConnection fun c _ => ?_
    split
    · exact quiet_disconnect
    · exact quiet_push trivial

theorem pumpConnection_inSync {io : PumpIo} : Keeps (InSync kit now) (InSync kit now) (pumpConnection kit io id) := by
  refine keeps_pumpConnection (fun b written h => h.onConnection fun _ _ => quiet_flush)
    (fun b h => h.onConnection fun _ _ => quiet_disconnect) (fun _ => rejectInvalidMessage_inSync)
    (fun b eof h => h.onConnection fun _ _ => ?_) (fun b events h => h.congr rfl rfl rfl rfl rfl)
    fun _ => handleMessage_inSync
  cases eof with
  | true => exact quiet_disconnect
  | false => exact .refl

theorem poll_inSync {io : PumpIo} : Keeps (InSync kit now) (InSync kit now) (poll kit io) := by
  refine keeps_poll (keeps_pump (keeps_modify fun b h => h.edit fun c _ => ?_) reapConnections_inSync
    (keeps_acceptConnections (fun _ h => h) fun b allowed h => ?_) (fun _ => pumpConnection_inSync)
    flushAvailable_following) (keeps_modify fun b h => ?_)
  · split
    · exact quiet_disconnect
    · exact .refl
  · unfold acceptConnection
    split
    · exact Following.accept h
    · exact h
  · split
    · exact h
    · exact h.congr rfl rfl rfl rfl rfl

theorem acknowledge_inSync {event : UiEvent} {outcome : UiEventOutcome} {revision : ℕ} {flushes : ℕ → Option ℕ} :
    Keeps (InSync kit now) (InSync kit now) (acknowledge kit event outcome revision flushes) :=
  keeps_acknowledge (fun _ h => h) (fun _ _ h => h.congr rfl rfl rfl rfl rfl) fun _ =>
    keeps_sendAck (fun _ => queueMessage_following trivial) flushAvailable_following

end Polls

variable {x : BridgeM Node Op PUnit}

section Publishing
variable {kit : UiKit Node Op} {now : Text → Text → Option (Shown Node)} {b b' : Bridge Node Op}
variable {kind : Text → Text → Prop} {previous projection : Projection Node}

theorem recipients_ids (b : Bridge Node Op) (p : Attachment → Bool) :
    (b.recipients p).map Prod.fst = (b.connections.filter fun c => c.attachment.any p).map UiConnection.id := by
  rw [Bridge.recipients]
  induction b.connections with
  | nil => rfl
  | cons c rest ih =>
    cases ha : c.attachment with
    | none => simpa [filterMap_cons,ha] using ih
    | some a =>
      cases hp : p a with
      | true | false => simpa [filterMap_cons,ha,hp] using ih

theorem mem_recipients (h : Numbered b) {c : UiConnection Node Op} (hc : c ∈ b.connections) :
    c.id ∈ (b.recipients p).map Prod.fst ↔ ∃ a, c.attachment = some a ∧ p a = true := by
  rw [recipients_ids,mem_map,← Option.any_eq_true]
  constructor
  · rintro ⟨other,hother,heq⟩
    obtain ⟨hmem,hp⟩ := mem_filter.mp hother
    have hsame := h.connection_eq hmem
    rw [heq,h.connection_eq hc,Option.some.injEq] at hsame
    rw [hsame]
    exact hp
  · exact fun hp => ⟨c,mem_filter.mpr ⟨hc,hp⟩,rfl⟩

/-- After a projection was stored, those it is for are to be told. -/
theorem Following.store (h : InSync kit now b) (p : Attachment → Bool)
    (hconnections : b'.connections = b.connections) (hnext : b'.nextConnectionId = b.nextConnectionId)
    (hrefused : b'.refused = b.refused)
    (hprecedes : ∀ clientId viewId, Precedes (b.resolved clientId viewId) (b'.resolved clientId viewId))
    (hkind : ∀ a, p a = true → kind a.clientId a.viewId)
    (hothers : ∀ a, p a = false → b'.resolved a.clientId a.viewId = b.resolved a.clientId a.viewId) :
    Following kit kind b.resolved b'.resolved ((b'.recipients p).map Prod.fst) b' := by
  have hnumbered : Numbered b' := ⟨hconnections ▸ h.ids,by rw [hconnections,hnext]; exact h.below⟩
  have hbefore : ∀ c ∈ b'.connections, ∀ a, c.attachment = some a → c.disconnected = false →
      InStep (b'.refused = false) (b.resolved a.clientId a.viewId) (b'.resolved a.clientId a.viewId) (replay kit c.sent)
        a.tracked := by
    intro c hc a ha hlive
    obtain ⟨past,htracks,hexact⟩ := h.current c (hconnections ▸ hc) a ha hlive not_mem_nil
    rw [← h.resolved] at hexact htracks
    refine ⟨past,⟨htracks.replayed,htracks.rising,htracks.noted,fun x hx => ?_⟩,hrefused ▸ hexact⟩
    obtain ⟨y,hy,hle⟩ := htracks.behind x hx
    obtain ⟨z,hz,hfollows⟩ := hprecedes a.clientId a.viewId y hy
    exact ⟨z,hz,hle.trans hfollows.revision_le⟩
  refine ⟨hnumbered,fun _ _ => rfl,hprecedes,?_,fun c hc hlater a ha => ?_,hconnections ▸ h.blank,
    fun c hc a ha hlive _ => hbefore c hc a ha hlive,fun c hc a ha hlive hlater => ?_⟩
  · rw [recipients_ids]
    exact (filter_sublist.map _).nodup hnumbered.ids
  · obtain ⟨other,hother,hp⟩ := (mem_recipients hnumbered hc).mp hlater
    rw [ha,Option.some.injEq] at hother
    exact hother ▸ hkind other hp
  · have hnot : p a = false := by
      refine Bool.eq_false_iff.mpr fun hp => hlater ?_
      exact (mem_recipients hnumbered hc).mpr ⟨a,ha,hp⟩
    have hstep := hbefore c hc a ha hlive
    rwa [← hothers a hnot] at hstep

variable {viewId : Text} {revision base : ℕ} {root : Node} {operations : List Op}

theorem checkStored_storable [DecidableEq Node] {previous : Option (Projection Node)} :
    Holds (fun s => s = b) (checkStored viewId previous revision root : BridgeM Node Op PUnit)
      (After (fun s => s = b ∧ Storable previous ⟨revision,root⟩) fun s => s = b) := by
  unfold checkStored
  split
  · exact holds_pure fun _ hs => ⟨hs,fun _ hp => by cases hp⟩
  · rename_i previous
    split
    · exact holds_throw fun _ hs => hs
    · rename_i hrises
      split
      · exact holds_throw fun _ hs => hs
      · rename_i hsame
        refine holds_pure fun _ hs => ⟨hs,fun p hp => ?_⟩
        cases hp
        rcases Nat.lt_or_eq_of_le (Nat.le_of_not_lt hrises) with hlt | heq
        · exact .inl hlt
        · refine .inr ?_
          have hroot : root = previous.root := Classical.byContradiction fun hne => hsame ⟨heq.symm,hne⟩
          rw [hroot,← heq]

theorem validateDeltaBase_fits :
    Holds (fun s => s = b) (validateDeltaBase viewId previous base revision operations : BridgeM Node Op PUnit)
      (After (fun s => s = b ∧ previous.revision = base ∧ base < revision) fun s => s = b) := by
  unfold validateDeltaBase
  split
  · exact holds_throw fun _ hs => hs
  · split
    · exact holds_throw fun _ hs => hs
    · rename_i hbase
      split
      · exact holds_throw fun _ hs => hs
      · rename_i hrises
        split
        · exact holds_throw fun _ hs => hs
        · exact holds_pure fun _ hs => ⟨hs,Classical.not_not.mp hbase,Nat.lt_of_not_le hrises⟩

theorem applyOperations_applied : Holds (fun s => s = b) (applyOperations kit root operations)
    fun outcome s => s = b ∧ ∀ applied, outcome = .ok applied → kit.applyDeltaOperations operations root = some applied := by
  unfold applyOperations
  split
  · exact holds_throw fun _ hs => ⟨hs,fun _ h => by cases h⟩
  · rename_i applied happlied
    refine holds_pure fun _ hs => ⟨hs,fun other h => ?_⟩
    cases h
    exact happlied

def Synced (kit : UiKit Node Op) (b : Bridge Node Op) : Prop := ∃ now, InSync kit now b

theorem store_synced {f : Bridge Node Op → Bridge Node Op}
    (h : Following kit kind b.resolved (f b).resolved (((f b).recipients p).map Prod.fst) (f b))
    (hx : Holds (fun s => Following kit kind b.resolved (f b).resolved ((s.recipients p).map Prod.fst) s) x
      (After (InSync kit (f b).resolved) (InSync kit (f b).resolved))) :
    Holds (fun s => s = b) (do modify f; x) (After (Synced kit) (Synced kit)) := by
  refine holds_bind (M := After (fun s => s = f b) (Synced kit)) (holds_modify ?_) (fun _ => ?_) fun _ _ h => h
  · rintro _ rfl
    exact rfl
  · refine (hx.starting h).mono (fun _ hs => hs) fun outcome s hs => ?_
    cases outcome with
    | ok _ | error _ => exact ⟨_,hs⟩

theorem following_shared (h : InSync kit now b) (hstorable : Storable (b.views viewId) projection) :
    Following kit (fun _ other => other = viewId) b.resolved (b.storeShared viewId projection).resolved
      (((b.storeShared viewId projection).recipients fun a => a.viewId = viewId).map Prod.fst)
      (b.storeShared viewId projection) :=
  h.store _ rfl rfl rfl (storeShared_precedes hstorable) (fun _ hp => of_decide_eq_true hp) fun _ hp =>
    storeShared_other (of_decide_eq_false hp)

variable {clientId : Text}

theorem following_targeted (h : InSync kit now b)
    (hstorable : Storable (b.clientViews (clientId,viewId)) projection)
    (hshared : ∀ shared ∈ b.views viewId, shared.revision ≤ projection.revision) :
    Following kit (fun client other => client = clientId ∧ other = viewId) b.resolved
      (b.storeTargeted clientId viewId projection).resolved
      (((b.storeTargeted clientId viewId projection).recipients fun a => a.clientId = clientId && a.viewId = viewId).map
        Prod.fst) (b.storeTargeted clientId viewId projection) := by
  refine h.store _ rfl rfl rfl (storeTargeted_precedes hstorable hshared) (fun a hp => ?_) fun a hp => ?_
  · obtain ⟨hclient,hview⟩ := Bool.and_eq_true_iff.mp hp
    exact ⟨of_decide_eq_true hclient,of_decide_eq_true hview⟩
  · refine storeTargeted_other fun heq => ?_
    obtain ⟨hclient,hview⟩ := Prod.mk.inj heq
    simp [hclient,hview] at hp

variable {flushes : ℕ → Option ℕ}

theorem checkDelta_fits {x : Node → BridgeM Node Op PUnit} (hb : Synced kit b)
    (hx : ∀ applied, kit.applyDeltaOperations operations previous.root = some applied → previous.revision = base →
      base < revision → Holds (fun s => s = b) (x applied) (After (Synced kit) (Synced kit))) :
    Holds (fun s => s = b) (do
        validateDeltaBase viewId previous base revision operations
        let root ← applyOperations kit previous.root operations
        validateProjection kit revision root
        x root) (After (Synced kit) (Synced kit)) := by
  refine holds_bind validateDeltaBase_fits (fun _ => ?_) fun _ s hs => (show s = b from hs) ▸ hb
  rintro s ⟨rfl,hbase,hrises⟩
  refine holds_bind (P := fun t => t = s) applyOperations_applied (fun applied => ?_) (fun _ t ht => ht.1 ▸ hb) s rfl
  rintro t ⟨rfl,happlied⟩
  refine holds_bind (P := fun s => s = t) (M := After (fun s => s = t) fun s => s = t) ?_ (fun _ => ?_) (fun _ s hs => ?_) t rfl
  · exact keeps_validateProjection fun _ h => h
  · exact hx applied (happlied applied rfl) hbase hrises
  · exact (show s = t from hs) ▸ hb

theorem publishDelta_synced : Keeps (Synced kit) (Synced kit) (publishDelta kit viewId base revision operations flushes) := by
  refine holds_get fun b hb => ?_
  split
  · exact holds_throw fun _ hs => hs ▸ hb
  · rename_i previous hprevious
    refine checkDelta_fits hb fun applied happlied hbase hrises => ?_
    obtain ⟨now,hb⟩ := hb
    have hstorable : Storable (b.views viewId) ⟨revision,applied⟩ := by
      intro p hp
      rw [hprevious,Option.mem_def,Option.some.injEq] at hp
      exact .inl (by rw [← hp,hbase]; exact hrises)
    refine store_synced (following_shared hb hstorable) (sendDeltas_following hrises ?_ ?_)
    · rintro clientId other rfl
      exact storeShared_reaches clientId
    · rintro clientId other rfl x hx hrevision a hcurrent hsource
      rw [hsource,Bool.not_eq_true'] at hcurrent
      rcases resolved_cases hx with ⟨targeted,-,-,rfl⟩ | ⟨shared,hshared,hbehind,rfl⟩
      · cases hcurrent
      · rw [hprevious,Option.some.injEq] at hshared
        subst hshared
        rw [storeShared_ahead fun targeted ht => (hbehind targeted ht).trans (by rw [hbase]; exact hrises)]
        simp [happlied]

theorem publishDeltaTo_synced :
    Keeps (Synced kit) (Synced kit) (publishDeltaTo kit clientId viewId base revision operations flushes) := by
  refine holds_get fun b hb => ?_
  split
  · exact holds_throw fun _ hs => hs ▸ hb
  · rename_i previous hprevious
    refine checkDelta_fits hb fun applied happlied hbase hrises => ?_
    obtain ⟨now,hb⟩ := hb
    obtain ⟨⟨projection,own⟩,hresolved,rfl⟩ := Option.map_eq_some_iff.mp hprevious
    have hshown : b.resolved clientId viewId = some ⟨projection.revision,some projection.root,own⟩ := by
      rw [Bridge.resolved,hresolved,Option.map_some]
    obtain ⟨hshared,htargeted⟩ := resolved_bounds hshown
    have hahead : projection.revision < revision := hbase ▸ hrises
    have hnow : (b.storeTargeted clientId viewId ⟨revision,applied⟩).resolved clientId viewId =
        some ⟨revision,some applied,true⟩ :=
      storeTargeted_resolved fun shared hs => (hshared shared hs).trans hahead.le
    refine store_synced (following_targeted hb (fun p hp => .inl ((htargeted p hp).trans_lt hahead)) fun shared hs =>
      (hshared shared hs).trans hahead.le) (sendDeltas_following hrises ?_ ?_)
    · rintro client other ⟨rfl,rfl⟩
      exact ⟨_,hnow,le_rfl⟩
    · rintro client other ⟨rfl,rfl⟩ x hx hrevision a hcurrent hsource
      rw [hshown,Option.mem_def,Option.some.injEq] at hx
      rw [hnow,← hx]
      simp [happlied]

section Publish
variable [DecidableEq Node]

theorem publish_synced : Keeps (Synced kit) (Synced kit) (publish kit viewId revision root flushes) := by
  refine keeps_bind (keeps_validateProjection fun _ h => h) fun _ => holds_get fun b hb => ?_
  obtain ⟨now,hb⟩ := hb
  refine holds_bind checkStored_storable (fun _ => ?_) fun _ s hs => ⟨now,hs ▸ hb⟩
  rintro s ⟨rfl,hstorable⟩
  exact store_synced (following_shared hb hstorable) sendProjections_following s rfl

theorem publishTo_synced :
    Keeps (Synced kit) (Synced kit) (publishTo kit clientId viewId revision root flushes) := by
  refine keeps_bind (keeps_validateProjection fun _ h => h) fun _ => holds_get fun b hb => ?_
  obtain ⟨now,hb⟩ := hb
  split
  · exact holds_throw fun _ hs => ⟨now,hs ▸ hb⟩
  · rename_i hnone
    have hshared : ∀ shared ∈ b.views viewId, shared.revision ≤ revision := by
      intro shared hs
      have hnot := Option.filter_eq_none_iff.mp hnone shared hs
      simpa using hnot
    refine holds_bind checkStored_storable (fun _ => ?_) fun _ s hs => ⟨now,hs ▸ hb⟩
    rintro s ⟨rfl,hstorable⟩
    exact store_synced (following_targeted hb hstorable hshared) sendProjections_following s rfl

theorem call_synced (c : BridgeCall Node Op) : Keeps (Synced kit) (Synced kit) (call kit c) := by
  have hsame : ∀ {x : BridgeM Node Op PUnit}, (∀ now, Keeps (InSync kit now) (InSync kit now) x) →
      Keeps (Synced kit) (Synced kit) x := by
    rintro x hx s ⟨now,hs⟩
    exact (hx now).holds (Q := After (Synced kit) (Synced kit)) (fun _ _ h => ⟨now,h⟩) (fun _ _ h => ⟨now,h⟩) s hs
  cases c with
  | publish viewId revision root flushes => exact publish_synced
  | publishDelta viewId baseRevision revision operations flushes => exact publishDelta_synced
  | publishTo clientId viewId revision root flushes => exact publishTo_synced
  | publishDeltaTo clientId viewId baseRevision revision operations flushes => exact publishDeltaTo_synced
  | poll io => exact hsame fun _ => poll_inSync
  | acknowledge event outcome revision flushes => exact hsame fun _ => acknowledge_inSync

end Publish

end Publishing

section Errors
variable {kit : UiKit Node Op} {id : ℕ}
variable {targeted : Bool} {b : Bridge Node Op}
variable {flushes : ℕ → Option ℕ}

theorem queueMessage_fails {message : Outgoing Node Op} :
    FailsOnly .protocol (queueMessage kit id message targeted) := by
  refine failsOnly_get fun b => ?_
  split
  · exact failsOnly_pure
  · split
    · exact failsOnly_bind failsOnly_modify fun _ _ _ h => by cases h; rfl
    · split
      · exact failsOnly_bind failsOnly_modify fun _ => failsOnly_pure
      · exact failsOnly_bind failsOnly_modify fun _ => failsOnly_pure

theorem queueProjection_fails : FailsOnly .protocol (queueProjection kit id) := by
  refine failsOnly_get fun b => ?_
  split
  · exact failsOnly_pure
  · split
    · exact failsOnly_pure
    · refine failsOnly_bind queueMessage_fails fun _ => ?_
      exact failsOnly_bind (failsOnly_whenever failsOnly_modify) fun _ => failsOnly_pure

theorem queueDeltaMessage_fails {base revision : ℕ} {operations : List Op} :
    FailsOnly .protocol (queueDeltaMessage kit id base revision operations targeted) := by
  refine failsOnly_get fun b => ?_
  split
  · exact failsOnly_pure
  · refine failsOnly_bind queueMessage_fails fun _ => ?_
    exact failsOnly_bind (failsOnly_whenever failsOnly_modify) fun _ => failsOnly_pure

theorem sendProjections_fails :
    FailsOnly .protocol (sendProjections kit p flushes) :=
  failsOnly_get fun _ => failsOnly_bind (failsOnly_forM fun _ => failsOnly_bind queueProjection_fails fun _ =>
    failsOnly_pure) fun _ => failsOnly_modify

theorem sendDeltas_fails {p current : Attachment → Bool} {base revision : ℕ} {operations : List Op} :
    FailsOnly .protocol (sendDeltas kit p current base revision operations targeted flushes) := by
  refine failsOnly_get fun _ => failsOnly_bind (failsOnly_forM fun _ => failsOnly_get fun _ => ?_) fun _ => failsOnly_modify
  refine failsOnly_bind ?_ fun _ => failsOnly_pure
  rw [queueChange]
  split
  · exact queueDeltaMessage_fails
  · exact queueProjection_fails

def Unstored (b : Bridge Node Op) (outcome : Except UiBridgeError PUnit) (s : Bridge Node Op) : Prop :=
  ∀ e, outcome = .error e → e = .protocol ∨ (s.views = b.views ∧ s.clientViews = b.clientViews)

theorem store_unstored {f : Bridge Node Op → Bridge Node Op}
    (hx : FailsOnly .protocol x) : Holds (fun s => s = b) (do modify f; x) (Unstored b) := by
  refine holds_bind (M := fun outcome _ => ∀ e, outcome ≠ .error e) (holds_modify fun _ _ _ h => by cases h)
    (fun _ s _ e h => .inl (hx s e h)) fun e _ h => absurd rfl (h e)

theorem throw_unstored {e : UiBridgeError} :
    Holds (fun s => s = b) (throw e : BridgeM Node Op PUnit) (Unstored b) :=
  holds_throw fun _ hs _ _ => .inr (by rw [hs]; exact ⟨rfl,rfl⟩)

theorem check_unstored {α : Type} {check : BridgeM Node Op α} {x : α → BridgeM Node Op PUnit}
    (hcheck : Keeps (fun s => s = b) (fun s => s = b) check) (hx : ∀ a, Holds (fun s => s = b) (x a) (Unstored b)) :
    Holds (fun s => s = b) (check >>= x) (Unstored b) :=
  holds_bind hcheck hx fun _ s hs _ _ => .inr (by rw [show s = b from hs]; exact ⟨rfl,rfl⟩)

def BridgeCall.isPublish : BridgeCall Node Op → Bool
  | .publish .. | .publishDelta .. | .publishTo .. | .publishDeltaTo .. => true
  | .poll .. | .acknowledge .. => false

def FailsUnstored [DecidableEq Node] (kit : UiKit Node Op) (b : Bridge Node Op) (c : BridgeCall Node Op) : Prop :=
  c.isPublish = true → Unstored b (perform (call kit c) b).1 (perform (call kit c) b).2

theorem publish_unstored [DecidableEq Node] {c : BridgeCall Node Op} (hc : c.isPublish = true) :
    Holds (fun s => s = b) (call kit c) (Unstored b) := by
  have hvalid : ∀ revision root, Keeps (fun s => s = b) (fun s => s = b)
      (validateProjection kit revision root : BridgeM Node Op PUnit) := fun _ _ => keeps_validateProjection fun _ h => h
  cases c with
  | poll | acknowledge => cases hc
  | publish viewId revision root flushes =>
    refine check_unstored (hvalid _ _) fun _ => holds_get fun s hs => ?_
    subst hs
    exact check_unstored (keeps_checkStored fun _ h => h) fun _ => store_unstored sendProjections_fails
  | publishDelta viewId baseRevision revision operations flushes
  | publishDeltaTo clientId viewId baseRevision revision operations flushes =>
    refine holds_get fun s hs => ?_
    subst hs
    split
    · exact throw_unstored
    · refine check_unstored (keeps_validateDeltaBase fun _ h => h) fun _ => ?_
      refine check_unstored (keeps_applyOperations fun _ h => h) fun _ => check_unstored (hvalid _ _) fun _ => ?_
      exact store_unstored sendDeltas_fails
  | publishTo clientId viewId revision root flushes =>
    refine check_unstored (hvalid _ _) fun _ => holds_get fun s hs => ?_
    subst hs
    split
    · exact throw_unstored
    · exact check_unstored (keeps_checkStored fun _ h => h) fun _ => store_unstored sendProjections_fails

end Errors

theorem Synced.converged {kit : UiKit Node Op} {b : Bridge Node Op} (h : Synced kit b) : Converged kit b := by
  obtain ⟨now,h⟩ := h
  intro c hc a ha hlive
  obtain ⟨past,htracks,hexact⟩ := h.current c hc a ha hlive not_mem_nil
  rw [h.resolved]
  exact ⟨past,htracks.replayed,htracks.rising,fun hfine => ⟨(hexact hfine).last,(hexact hfine).consistent⟩⟩

theorem inSync_start {kit : UiKit Node Op} : InSync kit nothing (Bridge.start : Bridge Node Op) := by
  refine ⟨⟨nodup_nil,fun _ hc => ?_⟩,fun _ _ => rfl,fun _ _ => .refl _,nodup_nil,fun _ hc => ?_,fun _ hc => ?_,
    fun _ hc => ?_,fun _ hc => ?_⟩
  · cases hc
  · cases hc
  · cases hc
  · cases hc
  · cases hc

/-- In every run each live renderer can follow what is queued to it and its revision does not
go back; unless a frame was refused it ends at what the bridge resolves, and the only other
root under one revision is the client's own after the shared one; and a publishing call
that fails otherwise has stored nothing. -/
theorem renderers_converge [DecidableEq Node] (kit : UiKit Node Op) :
    (∀ calls, Always (bridgeStep kit) (Converged kit) Bridge.start calls) ∧
    ∀ b c, FailsUnstored kit b c := by
  refine ⟨fun calls => ?_,fun b c hc => publish_unstored hc b rfl⟩
  refine always_of_invariant (J := Synced kit) ?_ (fun _ h => h.converged) ⟨nothing,inSync_start⟩ _
  rintro b ⟨time,c⟩ _ ⟨now,h⟩ ⟨⟩
  have hcall := (@call_synced Node Op kit _ c).holds (Q := fun _ => Synced kit) (fun _ _ h => h) fun _ _ h => h
  exact hcall { b with clock := time } ⟨now,h.congr rfl rfl rfl rfl rfl⟩

/-- A view is published, a renderer attaches, and its client gets a root of its own under the
same revision. -/
def ownRoot : List (ℕ × BridgeCall ℕ ℕ) :=
  [(0,.publish ['v'] 1 10 fun _ => some 0),polled [true] 1 [attachTo ['v']] false,
    (0,.publishTo ['c'] ['v'] 1 20 fun _ => some 0)]

def OneRoot (kit : UiKit Node Op) (b : Bridge Node Op) : Prop :=
  ∀ c ∈ b.connections, ∀ a, c.attachment = some a → c.disconnected = false → ∃ past, replay kit c.sent = some past ∧
    ∀ x ∈ past, ∀ y ∈ past, x.revision = y.revision → x.root = y.root

/-- The renderer has shown two roots under one revision. -/
theorem own_root_replaces_shared : ¬ Always (bridgeStep sizedKit) (OneRoot sizedKit) Bridge.start ownRoot := by
  intro h
  have hrun : (run (bridgeStep sizedKit) Bridge.start ownRoot).map (fun b => b.connections.map fun c =>
      (c.attachment.isSome && !c.disconnected,replay sizedKit c.sent)) =
      some [(true,some [⟨1,some 10,false⟩,⟨1,some 20,true⟩])] := by
    decide +kernel
  obtain ⟨b,hb,hvalues⟩ := Option.map_eq_some_iff.mp hrun
  obtain ⟨c,hc,hvalues⟩ := mem_map.mp (hvalues ▸ mem_singleton_self _)
  obtain ⟨hactive,hreplay⟩ := Prod.mk.inj hvalues
  obtain ⟨hattached,hlive⟩ := Bool.and_eq_true_iff.mp hactive
  rw [Bool.not_eq_true'] at hlive
  obtain ⟨a,ha⟩ := Option.isSome_iff_exists.mp hattached
  obtain ⟨past,hpast,hsame⟩ := h.last hb c hc a ha hlive
  rw [hreplay,Option.some.injEq] at hpast
  subst hpast
  exact absurd (hsame ⟨1,some 10,false⟩ (by simp) ⟨1,some 20,true⟩ (by simp) rfl) (by decide)

end Unpeel.AppKit
