import Mathlib.Algebra.Order.Group.Nat
import Mathlib.Data.List.Nodup
import Unpeel.Foundation.Runs
import Unpeel.Manifest.PromptTitle

/-! # Platform adapters

A platform client registers the native operations it offers over its connection to the
Host. A call picks the newest registration that offers the operation, sends the callback
to it without holding the lock, and withdraws the registration if the callback failed.
-/
namespace Unpeel.Serve
open Runs Manifest List

def platformAdapterVersion : ℕ := 1
def maxCapabilities : ℕ := 16
def maxInstanceIdBytes : ℕ := 128
def minTokenBytes : ℕ := 32
def maxTokenBytes : ℕ := 256

def adapterHostCapabilities : List Text :=
  ["push.register".toList,"relay.credentials.recover".toList,"session.notify_when_done.set".toList]

def adapterServices : List Text :=
  ["approval.present".toList,"app.open-in-editor".toList,"artifact.thumbnail".toList,"computer.status".toList,
   "controller.transport.host-owned".toList,"link.entitlement.refresh".toList,"mobile.e2e-key.reconcile".toList,
   "notification.deliver".toList,"overlay.snapshot".toList,"overlay.project-color.set".toList]

structure PlatformAdapterRegistration where
  version : ℕ
  instanceId : Text
  callbackPort : ℕ
  callbackToken : Text
  capabilities : List Text
deriving DecidableEq

structure LiveRegistration where
  connectionId : ℕ
  serial : ℕ
  instanceId : Text
  callbackPort : ℕ
  callbackToken : Text
  capabilities : List Text
deriving DecidableEq

def LiveRegistration.offers (capability : Text) (registration : LiveRegistration) : Bool :=
  registration.capabilities.contains capability

section Validation

def utf8Length (text : Text) : ℕ := text.foldr (fun c length => c.utf8Size + length) 0

/-- `u8::is_ascii_graphic`. -/
def isAsciiGraphic (c : Char) : Bool := 0x21 ≤ c.toNat && c.toNat ≤ 0x7E

def validateCapabilities : List Text → List Text → Except Text Unit
  | _, [] => .ok ()
  | seen, capability :: rest =>
    if !adapterHostCapabilities.contains capability && !adapterServices.contains capability then
      .error ("unknown platform adapter capability: ".toList ++ capability)
    else if seen.contains capability then
      .error ("duplicate platform adapter capability: ".toList ++ capability)
    else validateCapabilities (capability :: seen) rest

def validateRegistration (registration : PlatformAdapterRegistration) : Except Text Unit :=
  let instanceId := trim registration.instanceId
  if registration.version ≠ platformAdapterVersion then .error "unsupported platform adapter version".toList
  else if instanceId = [] ∨ maxInstanceIdBytes < utf8Length instanceId ∨
      instanceId.any (fun c => c = '\r' || c = '\n' || c = '\x00') then
    .error "invalid platform adapter instance id".toList
  else if registration.callbackPort = 0 then .error "invalid platform adapter callback port".toList
  else if utf8Length registration.callbackToken < minTokenBytes ∨ maxTokenBytes < utf8Length registration.callbackToken ∨
      !registration.callbackToken.all isAsciiGraphic then
    .error "invalid platform adapter callback token".toList
  else if registration.capabilities = [] ∨ maxCapabilities < registration.capabilities.length then
    .error "invalid platform adapter capability list".toList
  else validateCapabilities [] registration.capabilities

end Validation

/-- The live registrations, at most one for a connection, in the order in which they were
made. -/
structure HubState where
  registrations : List LiveRegistration
  nextSerial : ℕ

namespace HubState

def supports (state : HubState) (capability : Text) : Bool := state.registrations.any (·.offers capability)

def capabilities (state : HubState) : List Text := adapterHostCapabilities.filter state.supports

/-- `wrapping_add(1).max(1)`. -/
def freshSerial (state : HubState) : ℕ := max ((state.nextSerial + 1) % 2 ^ 64) 1

def insert (state : HubState) (connectionId : ℕ) (registration : PlatformAdapterRegistration) : HubState where
  registrations := state.registrations.filter (·.connectionId ≠ connectionId) ++
    [⟨connectionId,state.freshSerial,registration.instanceId,registration.callbackPort,registration.callbackToken,
      registration.capabilities⟩]
  nextSerial := state.freshSerial

def contains (state : HubState) (connectionId : ℕ) : Bool := state.registrations.any (·.connectionId = connectionId)

def remove (state : HubState) (connectionId : ℕ) : HubState :=
  { state with registrations := state.registrations.filter (·.connectionId ≠ connectionId) }

end HubState

/-- `max_by_key` on the serial: the last one of the greatest. -/
def maxBySerial : List LiveRegistration → Option LiveRegistration
  | [] => none
  | registration :: rest =>
    match maxBySerial rest with
    | none => some registration
    | some best => if best.serial < registration.serial then some registration else some best

inductive CallbackResult where
  | response (status : ℕ)
  | transport (message : Text)
  | invalidResponse (message : Text)
deriving DecidableEq

def CallbackResult.failed : CallbackResult → Bool
  | .response _ => false
  | .transport _ | .invalidResponse _ => true

inductive Call where
  | unavailable
  | sent (registration : LiveRegistration)
  | answered (registration : LiveRegistration) (result : CallbackResult)
  | returned (registration : LiveRegistration) (result : CallbackResult)
deriving DecidableEq

/-- The hub with the calls made so far. A change of the registrations is counted in
`generation` only after the lock is dropped: `uncounted` of them are still to be counted. -/
structure PlatformAdapterHub where
  state : HubState
  generation : ℕ
  uncounted : ℕ
  calls : ℕ → Option Call

namespace PlatformAdapterHub

def start : PlatformAdapterHub := ⟨⟨[],0⟩,0,0,fun _ => none⟩

inductive Action where
  | register (connectionId : ℕ) (registration : PlatformAdapterRegistration)
  | unregister (connectionId : ℕ)
  /-- The `fetch_add` that follows a change. -/
  | count
  /-- A call picks its registration. -/
  | select (call : ℕ) (capability : Text)
  | callback (call : ℕ) (result : CallbackResult)
  /-- The call withdraws the registration if the callback failed, and returns. -/
  | finish (call : ℕ)

def register (hub : PlatformAdapterHub) (connectionId : ℕ) (registration : PlatformAdapterRegistration) :
    PlatformAdapterHub :=
  match validateRegistration registration with
  | .error _ => hub
  | .ok () => { hub with state := hub.state.insert connectionId registration, uncounted := hub.uncounted + 1 }

def unregister (hub : PlatformAdapterHub) (connectionId : ℕ) : PlatformAdapterHub :=
  if hub.state.contains connectionId then
    { hub with state := hub.state.remove connectionId, uncounted := hub.uncounted + 1 }
  else hub

def setCall (hub : PlatformAdapterHub) (call : ℕ) (stage : Call) : PlatformAdapterHub :=
  { hub with calls := Function.update hub.calls call (some stage) }

def newest (hub : PlatformAdapterHub) (capability : Text) : Option LiveRegistration :=
  maxBySerial (hub.state.registrations.filter (·.offers capability))

def step (hub : PlatformAdapterHub) : Action → Option PlatformAdapterHub
  | .register connectionId registration => some (hub.register connectionId registration)
  | .unregister connectionId => some (hub.unregister connectionId)
  | .count =>
    if hub.uncounted = 0 then none
    else some { hub with generation := (hub.generation + 1) % 2 ^ 64, uncounted := hub.uncounted - 1 }
  | .select call capability =>
    match hub.calls call with
    | some _ => none
    | none =>
      match hub.newest capability with
      | none => some (hub.setCall call .unavailable)
      | some registration => some (hub.setCall call (.sent registration))
  | .callback call result =>
    match hub.calls call with
    | some (.sent registration) => some (hub.setCall call (.answered registration result))
    | _ => none
  | .finish call =>
    match hub.calls call with
    | some (.answered registration result) =>
      let hub := if result.failed then hub.unregister registration.connectionId else hub
      some (hub.setCall call (.returned registration result))
    | _ => none

section Property

/-- A registration goes because its connection unregisters or registers again, or because
the callback sent to it failed. -/
def Kept (hub : PlatformAdapterHub) (action : Action) : Prop :=
  ∀ registration ∈ hub.state.registrations, ∀ next, step hub action = some next →
    registration ∉ next.state.registrations →
    action = .unregister registration.connectionId ∨
    (∃ newer, action = .register registration.connectionId newer) ∨
    ∃ call result, action = .finish call ∧ hub.calls call = some (.answered registration result) ∧ result.failed = true

/-- The registrations are in the order in which they were made, so the newest that offers
the capability is the last of those that do. -/
def SentToNewest (hub : PlatformAdapterHub) (action : Action) : Prop :=
  ∀ call capability next, action = .select call capability → step hub action = some next →
    next.calls call = some (((hub.state.registrations.filter (·.offers capability)).getLast?).elim .unavailable .sent)

def Quiescent (hub : PlatformAdapterHub) : Prop := hub.uncounted = 0

/-- A call whose callback failed withdraws the registration that it was sent to: the
connection has not registered again since. The two counters do not wrap. -/
def Withdraws (hub : PlatformAdapterHub) : Action → Prop
  | .register _ _ => hub.state.nextSerial + 1 < 2 ^ 64
  | .count => hub.generation + 1 < 2 ^ 64
  | .finish call => ∀ registration result, hub.calls call = some (.answered registration result) →
      result.failed = true → ∀ live ∈ hub.state.registrations,
        live.connectionId = registration.connectionId → live = registration
  | _ => True

instance decidableWithdraws (hub : PlatformAdapterHub) : ∀ action, Decidable (Withdraws hub action)
  | .register _ _ => inferInstanceAs (Decidable (hub.state.nextSerial + 1 < 2 ^ 64))
  | .count => inferInstanceAs (Decidable (hub.generation + 1 < 2 ^ 64))
  | .unregister _ | .select _ _ | .callback _ _ => isTrue trivial
  | .finish call =>
    match h : hub.calls call with
    | some (.answered sent result) =>
      decidable_of_iff (result.failed = true → ∀ live ∈ hub.state.registrations,
          live.connectionId = sent.connectionId → live = sent)
        ⟨fun hall _ _ hcall => by rw [h] at hcall; cases hcall; exact hall,fun hall => hall sent result h⟩
    | none | some .unavailable | some (.sent _) | some (.returned _ _) =>
      isTrue fun _ _ hcall => by rw [h] at hcall; cases hcall

end Property

variable {state : HubState} {connectionId : ℕ}

section Serials

structure Serials (state : HubState) : Prop where
  increasing : state.registrations.Pairwise (·.serial < ·.serial)
  bounded : ∀ registration ∈ state.registrations, registration.serial ≤ state.nextSerial

theorem maxBySerial_eq_getLast {registrations : List LiveRegistration}
    (h : registrations.Pairwise (·.serial < ·.serial)) : maxBySerial registrations = registrations.getLast? := by
  induction registrations with
  | nil => rfl
  | cons registration rest ih =>
    obtain ⟨hfirst,hrest⟩ := pairwise_cons.mp h
    rw [maxBySerial, ih hrest]
    cases rest with
    | nil => rfl
    | cons second rest =>
      have hlt := hfirst _ (getLast_mem (cons_ne_nil second rest))
      exact if_neg (Nat.lt_asymm hlt)

theorem freshSerial_eq (h : state.nextSerial + 1 < 2 ^ 64) :
    state.freshSerial = state.nextSerial + 1 := by
  rw [HubState.freshSerial, Nat.mod_eq_of_lt h]
  exact max_eq_left (Nat.le_add_left 1 _)

theorem Serials.remove (h : Serials state) (connectionId : ℕ) :
    Serials (state.remove connectionId) where
  increasing := h.increasing.filter _
  bounded := fun registration hmem => h.bounded registration (mem_filter.mp hmem).1

theorem Serials.insert (h : Serials state)
    {registration : PlatformAdapterRegistration} (hfits : state.nextSerial + 1 < 2 ^ 64) :
    Serials (state.insert connectionId registration) := by
  have hserial := freshSerial_eq hfits
  constructor
  · refine pairwise_append.mpr ⟨h.increasing.filter _,pairwise_singleton _ _,?_⟩
    intro earlier hearlier latest hlatest
    have hle := h.bounded earlier (mem_filter.mp hearlier).1
    rw [mem_singleton.mp hlatest]
    show earlier.serial < state.freshSerial
    omega
  · intro live hlive
    show live.serial ≤ state.freshSerial
    rcases mem_append.mp hlive with hlive | hlive
    · have hle := h.bounded live (mem_filter.mp hlive).1
      omega
    · rw [mem_singleton.mp hlive]

end Serials

section Steps
variable {hub next : PlatformAdapterHub} {action : Action}
variable {registration : LiveRegistration}

/-- The changes of the registrations so far. -/
def changes (hub : PlatformAdapterHub) : ℕ := hub.generation + hub.uncounted

inductive Changes (hub : PlatformAdapterHub) (action : Action) (next : PlatformAdapterHub) : Prop where
  | unchanged (hstate : next.state = hub.state) (hcount : next.changes = hub.changes)
  | inserted (connectionId : ℕ) (registration : PlatformAdapterRegistration)
      (haction : action = .register connectionId registration)
      (hstate : next.state = hub.state.insert connectionId registration) (hcount : next.changes = hub.changes + 1)
  | removed (connectionId : ℕ)
      (haction : action = .unregister connectionId ∨ ∃ call registration result, action = .finish call ∧
        hub.calls call = some (.answered registration result) ∧ result.failed = true ∧
        registration.connectionId = connectionId)
      (hstate : next.state = hub.state.remove connectionId) (hcount : next.changes = hub.changes + 1)

theorem unregister_changes (connectionId : ℕ) :
    ((hub.unregister connectionId).state = hub.state ∧ (hub.unregister connectionId).changes = hub.changes) ∨
      ((hub.unregister connectionId).state = hub.state.remove connectionId ∧
        (hub.unregister connectionId).changes = hub.changes + 1) := by
  unfold unregister
  split
  · exact .inr ⟨rfl,rfl⟩
  · exact .inl ⟨rfl,rfl⟩

theorem step_changes (hok : Withdraws hub action) (h : step hub action = some next) : Changes hub action next := by
  cases action with
  | register connectionId registration =>
    cases h
    unfold register
    split
    · exact .unchanged rfl rfl
    · exact .inserted connectionId registration rfl rfl rfl
  | unregister connectionId =>
    cases h
    rcases hub.unregister_changes connectionId with ⟨hstate,hcount⟩ | ⟨hstate,hcount⟩
    · exact .unchanged hstate hcount
    · exact .removed connectionId (.inl rfl) hstate hcount
  | count =>
    simp only [step] at h
    split at h <;> cases h
    have hfits : hub.generation + 1 < 2 ^ 64 := hok
    refine .unchanged rfl ?_
    show (hub.generation + 1) % 2 ^ 64 + (hub.uncounted - 1) = hub.generation + hub.uncounted
    omega
  | select call capability =>
    simp only [step] at h
    split at h
    · cases h
    split at h
    all_goals
      cases h
      exact .unchanged rfl rfl
  | callback call result =>
    simp only [step] at h
    split at h <;> cases h
    exact .unchanged rfl rfl
  | finish call =>
    simp only [step] at h
    split at h <;> cases h
    rename_i registration result hcall
    split
    · rename_i hfailed
      rcases hub.unregister_changes registration.connectionId with ⟨hstate,hcount⟩ | ⟨hstate,hcount⟩
      · exact .unchanged hstate hcount
      · exact .removed registration.connectionId (.inr ⟨call,registration,result,rfl,hcall,hfailed,rfl⟩) hstate hcount
    · exact .unchanged rfl rfl

theorem Serials.step (hs : Serials hub.state) (hok : Withdraws hub action) (h : step hub action = some next) :
    Serials next.state := by
  cases step_changes hok h with
  | unchanged hstate hcount => rwa [hstate]
  | inserted connectionId registration haction hstate hcount =>
    subst haction
    rw [hstate]
    exact hs.insert hok
  | removed connectionId haction hstate hcount =>
    rw [hstate]
    exact hs.remove connectionId

theorem mem_remove
    (hmem : registration ∈ state.registrations) (hgone : registration ∉ (state.remove connectionId).registrations) :
    registration.connectionId = connectionId := by
  by_contra hne
  exact hgone (mem_filter.mpr ⟨hmem,decide_eq_true hne⟩)

theorem mem_insert {newer : PlatformAdapterRegistration}
    (hmem : registration ∈ state.registrations)
    (hgone : registration ∉ (state.insert connectionId newer).registrations) :
    registration.connectionId = connectionId := by
  by_contra hne
  exact hgone (mem_append_left _ (mem_filter.mpr ⟨hmem,decide_eq_true hne⟩))

theorem kept_of_withdraws (hok : Withdraws hub action) : Kept hub action := by
  intro registration hmem next h hgone
  cases step_changes hok h with
  | unchanged hstate hcount => exact absurd (hstate ▸ hmem) hgone
  | inserted connectionId newer haction hstate hcount =>
    rw [hstate] at hgone
    obtain rfl := mem_insert hmem hgone
    exact .inr (.inl ⟨newer,haction⟩)
  | removed connectionId haction hstate hcount =>
    rw [hstate] at hgone
    obtain rfl := mem_remove hmem hgone
    rcases haction with haction | ⟨call,sent,result,haction,hcall,hfailed,hconnection⟩
    · exact .inl haction
    · -- the live registration of the connection is the one that the call was sent to
      subst haction
      obtain rfl := hok sent result hcall hfailed registration hmem hconnection.symm
      exact .inr (.inr ⟨call,result,rfl,hcall,hfailed⟩)

theorem sentToNewest_of_serials (hs : Serials hub.state) : SentToNewest hub action := by
  rintro call capability next rfl h
  have hnewest : hub.newest capability = (hub.state.registrations.filter (·.offers capability)).getLast? :=
    maxBySerial_eq_getLast (hs.increasing.filter _)
  simp only [step] at h
  split at h
  · cases h
  rw [hnewest] at h
  split at h
  all_goals
    rename_i hlast
    cases h
    rw [hlast]
    exact Function.update_self ..

end Steps

section Generations
variable {hub later : PlatformAdapterHub}

/-- `later` comes after `hub`, and has the same registrations unless they were changed. -/
def Follows (hub later : PlatformAdapterHub) : Prop :=
  hub.changes ≤ later.changes ∧ (hub.changes = later.changes → hub.state.registrations = later.state.registrations)

theorem Follows.trans {hub middle later : PlatformAdapterHub} (h : Follows hub middle) (h' : Follows middle later) :
    Follows hub later := by
  refine ⟨h.1.trans h'.1,fun heq => ?_⟩
  have hle := h.1
  have hle' := h'.1
  exact (h.2 (by omega)).trans (h'.2 (by omega))

theorem follows_step {next : PlatformAdapterHub} {action : Action} (hok : Withdraws hub action)
    (h : step hub action = some next) : Follows hub next := by
  cases step_changes hok h with
  | unchanged hstate hcount => exact ⟨hcount.ge,fun _ => by rw [hstate]⟩
  | inserted _ _ _ _ hcount | removed _ _ _ hcount => exact ⟨by omega,fun _ => by omega⟩

end Generations

/-- In a run in which each call withdraws only what it was sent to, a registration goes only
for one of its own reasons, every call is sent to the newest registration, and the
generation tells apart any two quiescent moments with different capabilities. -/
theorem registrations_follow_their_connections (actions : List Action) (h : Guarded step Withdraws start actions) :
    Guarded step (fun hub action => Kept hub action ∧ SentToNewest hub action) start actions ∧
      ∀ before between after hub later, actions = before ++ (between ++ after) → run step start before = some hub →
        run step hub between = some later → Quiescent hub → Quiescent later →
        hub.state.capabilities ≠ later.state.capabilities → hub.generation ≠ later.generation := by
  constructor
  · refine Guarded.mono (fun hub action next hs hok hnext => Serials.step hs hok hnext) ?_
      (J := fun hub => Serials hub.state) ⟨List.Pairwise.nil,fun _ hmem => absurd hmem not_mem_nil⟩ h
    exact fun hub action hs hok => ⟨kept_of_withdraws hok,sentToNewest_of_serials hs⟩
  · rintro before between after hub later rfl hbefore hbetween hquiet hquiet' hdiffers hgeneration
    have hfollows : Follows hub later :=
      Guarded.relates (R := Follows) (fun _ => ⟨le_rfl,fun _ => rfl⟩) (fun _ _ _ => Follows.trans)
        (fun _ _ _ => follows_step) (h.rest hbefore).front hbetween
    have hsame : hub.state.registrations = later.state.registrations :=
      hfollows.2 (by rw [changes, changes, hgeneration, hquiet, hquiet'])
    apply hdiffers
    unfold HubState.capabilities HubState.supports
    rw [hsame]

section Reconnecting

def pushAdapter (port : ℕ) : PlatformAdapterRegistration :=
  ⟨1,"mac".toList,port,List.replicate 32 't',["push.register".toList]⟩

/-- The adapter restarts its callback server while a call to the old one is under way, and
registers the new port over the same connection. -/
def restarted : List Action :=
  [.register 7 (pushAdapter 4000),.select 0 "push.register".toList,.register 7 (pushAdapter 4001),
   .callback 0 (.transport "platform adapter mac is unreachable".toList),.finish 0]

/-- The call that failed on the old registration withdraws the new one. -/
theorem restarted_adapter_is_withdrawn :
    ¬∀ actions, Guarded step (fun hub action => Kept hub action ∧ SentToNewest hub action) start actions := by
  intro h
  have hfinal : ∃ hub next, run step start (restarted.take 4) = some hub ∧ step hub (.finish 0) = some next ∧
      (∃ live ∈ hub.state.registrations, live.callbackPort = 4001 ∧ live ∉ next.state.registrations) ∧
      ∃ sent result, hub.calls 0 = some (.answered sent result) ∧ sent.callbackPort = 4000 := by
    refine ⟨_,_,rfl,rfl,⟨_,mem_cons_self,rfl,?_⟩,_,_,rfl,rfl⟩
    decide
  obtain ⟨hub,next,hrun,hstep,⟨live,hlive,hport,hgone⟩,sent,result,hcall,hold⟩ := hfinal
  have hkept := ((h (restarted.take 4 ++ [.finish 0])).rest hrun next hstep).1.1
  rcases hkept live hlive next hstep hgone with hno | ⟨_,hno⟩ | ⟨call,_,hcalls,hanswered,-⟩
  · cases hno
  · cases hno
  · cases hcalls
    rw [hcall] at hanswered
    cases hanswered
    rw [hold] at hport
    cases hport

/-- The first call fails and withdraws its registration. The second is answered after its
connection has registered again, and withdraws nothing. -/
def reconnected : List Action :=
  [.register 7 (pushAdapter 4000),.count,.select 0 "push.register".toList,
   .callback 0 (.transport "platform adapter mac is unreachable".toList),.finish 0,.count,
   .register 8 (pushAdapter 4001),.count,.select 1 "push.register".toList,
   .register 8 (pushAdapter 4002),.count,.callback 1 (.response 200),.finish 1]

theorem reconnected_adapter_is_known :
    Guarded step Withdraws start reconnected ∧
      Guarded step (fun hub action => Kept hub action ∧ SentToNewest hub action) start reconnected := by
  have hguarded : Guarded step Withdraws start reconnected := by decide +kernel
  exact ⟨hguarded,(registrations_follow_their_connections _ hguarded).1⟩

end Reconnecting

end PlatformAdapterHub

end Unpeel.Serve
