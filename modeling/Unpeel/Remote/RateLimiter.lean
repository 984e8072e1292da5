import Mathlib.Algebra.Order.Group.Nat
import Mathlib.Data.List.TakeWhile
import Unpeel.Foundation.History
import Unpeel.Foundation.Runs

/-! # Failed authentications

Each connection reads the clock, asks the limiter, compares the credential and records the
outcome. The limiter is locked for the question and again for the recording, and not in
between.
-/
namespace Unpeel.Remote
open Runs List Function

def authFailWindowMs : ℕ := 60000
def authMaxFailsPerWindow : ℕ := 5
def authConsecutiveBlockThreshold : ℕ := 10
def authBlockDurationMs : ℕ := 15 * 60000

inductive RateDecision where
  | allowed
  | limited
  | blocked
deriving DecidableEq

structure FailState where
  recentMs : List ℕ
  consecutive : ℕ
  blockedUntilMs : ℕ
deriving DecidableEq

/-- `FailState::default()`. -/
def FailState.clear : FailState := ⟨[],0,0⟩

variable {Ip : Type*} [DecidableEq Ip]

structure RateLimiter (Ip : Type*) where
  byIp : Ip → Option FailState

namespace RateLimiter
variable {other : Ip}

def check (limiter : RateLimiter Ip) (ip : Ip) (nowMs : ℕ) : RateDecision × RateLimiter Ip :=
  match limiter.byIp ip with
  | none => (.allowed,limiter)
  | some state =>
    if nowMs < state.blockedUntilMs then (.blocked,limiter)
    else
      let state := { state with recentMs := recentTimes authFailWindowMs nowMs state.recentMs }
      (if authMaxFailsPerWindow ≤ state.recentMs.length then .limited else .allowed,
        ⟨Function.update limiter.byIp ip (some state)⟩)

/-- `consecutive` has 32 bits. -/
def recordFailure (limiter : RateLimiter Ip) (ip : Ip) (nowMs : ℕ) : RateLimiter Ip :=
  let state := (limiter.byIp ip).getD .clear
  let consecutive := (state.consecutive + 1) % 2 ^ 32
  ⟨Function.update limiter.byIp ip (some
    { recentMs := state.recentMs ++ [nowMs]
      consecutive
      blockedUntilMs :=
        if authConsecutiveBlockThreshold ≤ consecutive then nowMs + authBlockDurationMs else state.blockedUntilMs })⟩

def recordSuccess (limiter : RateLimiter Ip) (ip : Ip) : RateLimiter Ip :=
  match limiter.byIp ip with
  | none => limiter
  | some state => ⟨Function.update limiter.byIp ip (some { state with consecutive := 0 })⟩

def failState (limiter : RateLimiter Ip) (ip : Ip) : FailState := (limiter.byIp ip).getD .clear

variable (limiter : RateLimiter Ip) (ip : Ip) (nowMs : ℕ)

theorem check_byIp_of_ne (h : other ≠ ip) : (limiter.check ip nowMs).2.byIp other = limiter.byIp other := by
  unfold check
  split
  · rfl
  · split
    · rfl
    · exact update_of_ne h ..

theorem check_failState :
    (limiter.check ip nowMs).2.failState ip = limiter.failState ip ∨
      (limiter.check ip nowMs).2.failState ip =
        { limiter.failState ip with recentMs := recentTimes authFailWindowMs nowMs (limiter.failState ip).recentMs } := by
  unfold check failState
  split
  · exact .inl rfl
  · rename_i state hstate
    split
    · exact .inl rfl
    · right
      simp only [update_self, Option.getD_some, hstate]

/-- It allows a comparison outside of a block and with few failures in the window. -/
theorem check_allowed (h : (limiter.check ip nowMs).1 = .allowed) :
    ((limiter.check ip nowMs).2.failState ip).blockedUntilMs ≤ nowMs ∧
      (recentTimes authFailWindowMs nowMs ((limiter.check ip nowMs).2.failState ip).recentMs).length <
        authMaxFailsPerWindow := by
  unfold check failState at *
  split at h
  · rename_i hnone
    simp only [hnone, Option.getD_none]
    exact ⟨Nat.zero_le _,Nat.zero_lt_succ 4⟩
  · rename_i state hstate
    split at h
    · cases h
    rename_i hblock
    dsimp only at h
    split at h
    · cases h
    rename_i hfew
    simp only [hblock, if_false, update_self, Option.getD_some]
    refine ⟨Nat.le_of_not_lt hblock,?_⟩
    rw [recentTimes_recentTimes le_rfl]
    exact Nat.lt_of_not_le hfew

theorem recordFailure_byIp_of_ne (h : other ≠ ip) : (limiter.recordFailure ip nowMs).byIp other = limiter.byIp other := update_of_ne h ..

theorem recordSuccess_byIp_of_ne (h : other ≠ ip) : (limiter.recordSuccess ip).byIp other = limiter.byIp other := by
  unfold recordSuccess
  split
  · rfl
  · exact update_of_ne h ..

theorem recordFailure_failState :
    (limiter.recordFailure ip nowMs).failState ip =
      { recentMs := (limiter.failState ip).recentMs ++ [nowMs]
        consecutive := ((limiter.failState ip).consecutive + 1) % 2 ^ 32
        blockedUntilMs :=
          if authConsecutiveBlockThreshold ≤ ((limiter.failState ip).consecutive + 1) % 2 ^ 32 then
            nowMs + authBlockDurationMs
          else (limiter.failState ip).blockedUntilMs } := by
  unfold failState recordFailure
  simp only [update_self, Option.getD_some]

theorem recordSuccess_failState :
    (limiter.recordSuccess ip).failState ip = { limiter.failState ip with consecutive := 0 } := by
  unfold failState recordSuccess
  split
  · rename_i hnone
    rw [hnone]
    rfl
  · rename_i state hstate
    simp only [update_self, Option.getD_some, hstate]

theorem check_congr {other : RateLimiter Ip} (h : other.byIp ip = limiter.byIp ip) :
    (other.check ip nowMs).1 = (limiter.check ip nowMs).1 := by
  unfold check
  rw [h]
  split
  · rfl
  · split <;> rfl

end RateLimiter

inductive AuthStage where
  | arrived
  | refused
  | checked
  | compared (accepted : Bool)
  | recorded (accepted : Bool)
deriving DecidableEq

structure AuthRequest (Ip : Type*) where
  peer : Ip
  nowMs : ℕ
  stage : AuthStage

structure Comparison (Ip : Type*) where
  peer : Ip
  time : ℕ
  accepted : Bool
deriving DecidableEq

structure AuthServer (Ip : Type*) where
  clock : ℕ
  limiter : RateLimiter Ip
  requests : ℕ → Option (AuthRequest Ip)
  compared : List (Comparison Ip)

namespace AuthServer

def start (clock : ℕ) : AuthServer Ip := ⟨clock,⟨fun _ => none⟩,fun _ => none,[]⟩

inductive Action (Ip : Type*) where
  | tick (elapsedMs : ℕ)
  | arrive (request : ℕ) (peer : Ip)
  | check (request : ℕ)
  | compare (request : ℕ) (accepted : Bool)
  | record (request : ℕ)

def setRequest (server : AuthServer Ip) (id : ℕ) (request : AuthRequest Ip) : AuthServer Ip :=
  { server with requests := Function.update server.requests id (some request) }

def setLimiter (server : AuthServer Ip) (limiter : RateLimiter Ip) : AuthServer Ip := { server with limiter }

def step (server : AuthServer Ip) : Action Ip → Option (AuthServer Ip)
  | .tick elapsedMs => some { server with clock := server.clock + elapsedMs }
  | .arrive id peer =>
    match server.requests id with
    | some _ => none
    | none => some (server.setRequest id ⟨peer,server.clock,.arrived⟩)
  | .check id =>
    match server.requests id with
    | some ⟨peer,nowMs,.arrived⟩ =>
      let (decision,limiter) := server.limiter.check peer nowMs
      some ((server.setLimiter limiter).setRequest id ⟨peer,nowMs,if decision = .allowed then .checked else .refused⟩)
    | _ => none
  | .compare id accepted =>
    match server.requests id with
    | some ⟨peer,nowMs,.checked⟩ =>
      let comparison : Comparison Ip := ⟨peer,server.clock,accepted⟩
      let server := { server with compared := server.compared ++ [comparison] }
      some (server.setRequest id ⟨peer,nowMs,.compared accepted⟩)
    | _ => none
  | .record id =>
    match server.requests id with
    | some ⟨peer,nowMs,.compared accepted⟩ =>
      let limiter := if accepted then server.limiter.recordSuccess peer else server.limiter.recordFailure peer nowMs
      some ((server.setLimiter limiter).setRequest id ⟨peer,nowMs,.recorded accepted⟩)
    | _ => none

section Property

def peerLog (server : AuthServer Ip) (ip : Ip) : List (Comparison Ip) := server.compared.filter (·.peer = ip)

def wrongTimes (log : List (Comparison Ip)) : List ℕ := (log.filter (!·.accepted)).map (·.time)

/-- In no interval of a window's width are there more wrong credentials than a window may
have, and after a row of them that is long enough nothing is compared for the length of a
block. -/
def GuessingBounded (server : AuthServer Ip) : Prop :=
  ∀ ip, (∀ first, (timesWithin authFailWindowMs first (wrongTimes (server.peerLog ip))).length ≤ authMaxFailsPerWindow) ∧
    ∀ before row last rest, server.peerLog ip = before ++ (row ++ last :: rest) →
      row.length + 1 = authConsecutiveBlockThreshold → (∀ wrong ∈ row, wrong.accepted = false) → last.accepted = false →
      ∀ later ∈ rest, last.time + authBlockDurationMs ≤ later.time

def Action.request : Action Ip → Option ℕ
  | .tick _ => none
  | .arrive id _ | .check id | .compare id _ | .record id => some id

def Apart (server : AuthServer Ip) (action : Action Ip) : Prop :=
  ∀ next ip, step server action = some next →
    (∀ id request, action.request = some id → server.requests id = some request → request.peer ≠ ip) →
    ∀ nowMs, (next.limiter.check ip nowMs).1 = (server.limiter.check ip nowMs).1

def InFlight (server : AuthServer Ip) (ip : Ip) (id : ℕ) : Prop :=
  ∃ request, server.requests id = some request ∧ request.peer = ip ∧
    (request.stage = .checked ∨ ∃ accepted, request.stage = .compared accepted)

def failState (server : AuthServer Ip) (ip : Ip) : FailState := server.limiter.failState ip

/-- The requests of an address are checked one at a time, each once the outcome of the one
before is recorded, and a request is checked and compared in the millisecond that its thread
read. The counter of failures in a row does not wrap. -/
def OneAtATime (server : AuthServer Ip) : Action Ip → Prop
  | .check id => ∀ request, server.requests id = some request →
      request.nowMs = server.clock ∧ ∀ other, ¬server.InFlight request.peer other
  | .compare id _ => ∀ request, server.requests id = some request → request.nowMs = server.clock
  | .record id => ∀ request, server.requests id = some request →
      (server.failState request.peer).consecutive + 1 < 2 ^ 32
  | _ => True

end Property

section Logs
variable {row log : List (Comparison Ip)}

def wrongStreak (log : List (Comparison Ip)) : ℕ := (log.reverse.takeWhile (!·.accepted)).length

omit [DecidableEq Ip] in
theorem wrongTimes_concat (log : List (Comparison Ip)) (c : Comparison Ip) :
    wrongTimes (log ++ [c]) = if c.accepted then wrongTimes log else wrongTimes log ++ [c.time] := by
  unfold wrongTimes
  cases h : c.accepted with
  | true | false => simp [h]

omit [DecidableEq Ip] in
theorem wrongStreak_concat (log : List (Comparison Ip)) (c : Comparison Ip) :
    wrongStreak (log ++ [c]) = if c.accepted then 0 else wrongStreak log + 1 := by
  unfold wrongStreak
  cases h : c.accepted with
  | true | false => simp [h]

omit [DecidableEq Ip] in
theorem length_le_wrongStreak (before : List (Comparison Ip)) (h : ∀ wrong ∈ row, wrong.accepted = false) :
    row.length ≤ wrongStreak (before ++ row) := by
  unfold wrongStreak
  rw [reverse_append, takeWhile_append_of_pos]
  · rw [length_append, length_reverse]
    exact Nat.le_add_right _ _
  · intro wrong hwrong
    rw [h wrong (List.mem_reverse.mp hwrong)]
    rfl

def Bounded (before : List (Comparison Ip)) (c : Comparison Ip) : Prop :=
  (recentTimes authFailWindowMs c.time (wrongTimes before)).length < authMaxFailsPerWindow ∧
    (authConsecutiveBlockThreshold ≤ wrongStreak before → ∀ last, before.getLast? = some last →
      last.time + authBlockDurationMs ≤ c.time)

omit [DecidableEq Ip] in
theorem wrongTimes_bounded (h : Throughout Bounded log) :
    Throughout (fun before time => (recentTimes authFailWindowMs time before).length < authMaxFailsPerWindow)
      (wrongTimes log) := by
  intro before time after hlog
  obtain ⟨front,back,hfilter,rfl,hback⟩ := List.map_eq_append_iff.mp hlog
  obtain ⟨c,later,rfl,rfl,rfl⟩ := List.map_eq_cons_iff.mp hback
  obtain ⟨log₁,log₂,rfl,rfl,hrest⟩ := List.filter_eq_append_iff.mp hfilter
  obtain ⟨skipped,log₃,rfl,hskipped,-,-⟩ := List.filter_eq_cons_iff.mp hrest
  have hbounded := (h (log₁ ++ skipped) c log₃ (by rw [append_assoc])).1
  have hnone : skipped.filter (!·.accepted) = [] := filter_eq_nil_iff.mpr hskipped
  rw [wrongTimes, List.filter_append, hnone, append_nil] at hbounded
  exact hbounded

omit [DecidableEq Ip] in
/-- Nothing is compared during a block: the next comparison waits for its end, and the
others come after that one. -/
theorem blocked_of_bounded {before rest : List (Comparison Ip)} {last : Comparison Ip}
    (h : Throughout Bounded log) (hsorted : (log.map (·.time)).Pairwise (· ≤ ·))
    (hlog : log = before ++ (row ++ last :: rest)) (hlength : row.length + 1 = authConsecutiveBlockThreshold)
    (hrow : ∀ wrong ∈ row, wrong.accepted = false) (hlast : last.accepted = false) :
    ∀ later ∈ rest, last.time + authBlockDurationMs ≤ later.time := by
  intro later hlater
  cases rest with
  | nil => cases hlater
  | cons next rest =>
    have hwrong : ∀ wrong ∈ row ++ [last], wrong.accepted = false := by
      intro wrong hmem
      rcases mem_append.mp hmem with hmem | hmem
      · exact hrow wrong hmem
      · rw [mem_singleton.mp hmem]
        exact hlast
    have hnext : last.time + authBlockDurationMs ≤ next.time := by
      apply (h (before ++ (row ++ [last])) next rest (by rw [hlog]; simp)).2
      · have hstreak := length_le_wrongStreak before hwrong
        rw [length_append, length_singleton, hlength] at hstreak
        exact hstreak
      · simp
    rcases mem_cons.mp hlater with rfl | hlater
    · exact hnext
    · have hle : next.time ≤ later.time := by
        rw [hlog, pairwise_map] at hsorted
        have hrest := (pairwise_append.mp (pairwise_append.mp hsorted).2.1).2.1
        exact (pairwise_cons.mp (pairwise_cons.mp hrest).2).1 later hlater
      omega

end Logs

section Tracking

structure Tracks (clock : ℕ) (state : FailState) (log : List (Comparison Ip)) : Prop where
  recent : recentTimes authFailWindowMs clock state.recentMs = recentTimes authFailWindowMs clock (wrongTimes log)
  consecutive : state.consecutive = wrongStreak log
  blocked : authConsecutiveBlockThreshold ≤ wrongStreak log → ∀ last, log.getLast? = some last →
    last.time + authBlockDurationMs ≤ state.blockedUntilMs

variable {clock : ℕ} {state : FailState} {log : List (Comparison Ip)}

omit [DecidableEq Ip] in
theorem tracks_nil (clock : ℕ) : Tracks clock .clear ([] : List (Comparison Ip)) :=
  ⟨rfl,rfl,fun _ _ hlast => nomatch hlast⟩

omit [DecidableEq Ip] in
theorem Tracks.later (h : Tracks clock state log) {later : ℕ} (hle : clock ≤ later) : Tracks later state log where
  recent := by
    rw [← recentTimes_recentTimes hle state.recentMs, h.recent, recentTimes_recentTimes hle]
  consecutive := h.consecutive
  blocked := h.blocked

omit [DecidableEq Ip] in
theorem Tracks.retain (h : Tracks clock state log) :
    Tracks clock { state with recentMs := recentTimes authFailWindowMs clock state.recentMs } log where
  recent := by rw [recentTimes_recentTimes le_rfl, h.recent]
  consecutive := h.consecutive
  blocked := h.blocked

omit [DecidableEq Ip] in
theorem Tracks.success (h : Tracks clock state log) {c : Comparison Ip} (hc : c.accepted = true) :
    Tracks clock { state with consecutive := 0 } (log ++ [c]) := by
  have hstreak : wrongStreak (log ++ [c]) = 0 := by rw [wrongStreak_concat, if_pos hc]
  constructor
  · rw [wrongTimes_concat, if_pos hc]
    exact h.recent
  · exact hstreak.symm
  · intro hrow
    rw [hstreak] at hrow
    exact absurd hrow (by decide)

omit [DecidableEq Ip] in
theorem Tracks.failure (h : Tracks clock state log) {c : Comparison Ip} (hc : c.accepted = false)
    (hfits : state.consecutive + 1 < 2 ^ 32) :
    Tracks clock
      { recentMs := state.recentMs ++ [c.time]
        consecutive := (state.consecutive + 1) % 2 ^ 32
        blockedUntilMs :=
          if authConsecutiveBlockThreshold ≤ (state.consecutive + 1) % 2 ^ 32 then c.time + authBlockDurationMs
          else state.blockedUntilMs } (log ++ [c]) := by
  have hwrong : ¬c.accepted = true := by rw [hc]; exact Bool.false_ne_true
  have hstreak : wrongStreak (log ++ [c]) = wrongStreak log + 1 := by rw [wrongStreak_concat, if_neg hwrong]
  constructor
  · rw [wrongTimes_concat, if_neg hwrong, recentTimes_append, recentTimes_append, h.recent]
  · show (state.consecutive + 1) % 2 ^ 32 = wrongStreak (log ++ [c])
    rw [Nat.mod_eq_of_lt hfits, h.consecutive, hstreak]
  · intro hrow last hlast
    rw [getLast?_concat] at hlast
    cases hlast
    rw [hstreak, ← h.consecutive] at hrow
    show c.time + authBlockDurationMs ≤ if _ then _ else _
    rw [Nat.mod_eq_of_lt hfits, if_pos hrow]

end Tracking

section Invariant
variable {server next : AuthServer Ip}
variable {id : ℕ}
variable {request : AuthRequest Ip} {log : List (Comparison Ip)}

def Recorded (server : AuthServer Ip) (ip : Ip) (log : List (Comparison Ip)) : Prop :=
  (server.peerLog ip = log ∧ ∀ id request accepted, server.requests id = some request → request.peer = ip →
    request.stage ≠ .compared accepted) ∨
  ∃ id request accepted, server.requests id = some request ∧ request.peer = ip ∧ request.stage = .compared accepted ∧
    server.peerLog ip = log ++ [⟨ip,request.nowMs,accepted⟩]

structure Sequential (server : AuthServer Ip) : Prop where
  sorted : (server.compared.map (·.time)).Pairwise (· ≤ ·)
  past : ∀ c ∈ server.compared, c.time ≤ server.clock
  single : ∀ ip id other, server.InFlight ip id → server.InFlight ip other → id = other
  allowed : ∀ id request, server.requests id = some request → request.stage = .checked →
    (server.failState request.peer).blockedUntilMs ≤ request.nowMs ∧
    (recentTimes authFailWindowMs request.nowMs (server.failState request.peer).recentMs).length < authMaxFailsPerWindow
  tracked : ∀ ip, ∃ log, Tracks server.clock (server.failState ip) log ∧ server.Recorded ip log
  bounded : ∀ ip, Throughout Bounded (server.peerLog ip)

theorem sequential_start (clock : ℕ) : Sequential (start clock : AuthServer Ip) where
  sorted := List.Pairwise.nil
  past := fun _ hmem => absurd hmem not_mem_nil
  single := by
    rintro ip id other ⟨_,hno,_⟩
    cases hno
  allowed := fun _ _ hno => nomatch hno
  tracked := fun ip => ⟨[],tracks_nil clock,.inl ⟨rfl,fun _ _ _ hno => nomatch hno⟩⟩
  bounded := fun _ => throughout_nil

theorem Sequential.guessingBounded (h : Sequential server) : GuessingBounded server := by
  intro ip
  refine ⟨length_timesWithin_le (wrongTimes_bounded (h.bounded ip)),?_⟩
  intro before row last rest hlog hlength hrow hlast
  have hsorted : ((server.peerLog ip).map (·.time)).Pairwise (· ≤ ·) :=
    h.sorted.sublist (filter_sublist.map _)
  exact blocked_of_bounded (h.bounded ip) hsorted hlog hlength hrow hlast

omit [DecidableEq Ip] in
theorem setRequest_self (server : AuthServer Ip) (id : ℕ) (request : AuthRequest Ip) :
    (server.setRequest id request).requests id = some request := update_self ..

omit [DecidableEq Ip] in
theorem setRequest_of_ne {other : ℕ} (h : other ≠ id) (request : AuthRequest Ip) :
    (server.setRequest id request).requests other = server.requests other := update_of_ne h ..

omit [DecidableEq Ip] in
theorem InFlight.of_setRequest {other : ℕ} {ip : Ip} (h : (server.setRequest id request).InFlight ip other)
    (hid : (request.stage = .checked ∨ ∃ accepted, request.stage = .compared accepted) →
      server.InFlight request.peer id) : server.InFlight ip other := by
  obtain ⟨found,hfound,hpeer,hstage⟩ := h
  by_cases hother : other = id
  · subst hother
    rw [setRequest_self] at hfound
    cases hfound
    exact hpeer ▸ hid hstage
  · rw [setRequest_of_ne hother] at hfound
    exact ⟨found,hfound,hpeer,hstage⟩

theorem Recorded.setRequest {ip : Ip} (h : server.Recorded ip log)
    (hnew : ∀ accepted, request.peer = ip → request.stage ≠ .compared accepted)
    (hold : ∀ old accepted, server.requests id = some old → old.peer = ip → old.stage ≠ .compared accepted) :
    (server.setRequest id request).Recorded ip log := by
  rcases h with ⟨hlog,hnone⟩ | ⟨other,found,accepted,hfound,hpeer,hstage,hlog⟩
  · refine .inl ⟨hlog,?_⟩
    intro other found accepted hfound hpeer
    by_cases hother : other = id
    · subst hother
      rw [setRequest_self] at hfound
      cases hfound
      exact hnew accepted hpeer
    · rw [setRequest_of_ne hother] at hfound
      exact hnone other found accepted hfound hpeer
  · have hother : other ≠ id := by
      rintro rfl
      exact hold found accepted hfound hpeer hstage
    exact .inr ⟨other,found,accepted,(setRequest_of_ne hother request).trans hfound,hpeer,hstage,hlog⟩

theorem Sequential.tick (h : Sequential server) (elapsedMs : ℕ) :
    Sequential { server with clock := server.clock + elapsedMs } where
  sorted := h.sorted
  past := fun c hc => (h.past c hc).trans (Nat.le_add_right _ _)
  single := h.single
  allowed := h.allowed
  tracked := fun ip => by
    obtain ⟨log,htracks,hrecorded⟩ := h.tracked ip
    exact ⟨log,htracks.later (Nat.le_add_right _ _),hrecorded⟩
  bounded := h.bounded

theorem Sequential.arrive (h : Sequential server) (hid : server.requests id = none) (peer : Ip) :
    Sequential (server.setRequest id ⟨peer,server.clock,.arrived⟩) where
  sorted := h.sorted
  past := h.past
  single := by
    intro ip a b ha hb
    have harrived : ((⟨peer,server.clock,.arrived⟩ : AuthRequest Ip).stage = .checked ∨
        ∃ accepted, (⟨peer,server.clock,.arrived⟩ : AuthRequest Ip).stage = .compared accepted) →
        server.InFlight peer id := by
      rintro (hno | ⟨_,hno⟩) <;> cases hno
    exact h.single ip a b (ha.of_setRequest harrived) (hb.of_setRequest harrived)
  allowed := by
    intro other request hrequest hstage
    by_cases hother : other = id
    · subst hother
      rw [setRequest_self] at hrequest
      cases hrequest
      cases hstage
    · rw [setRequest_of_ne hother] at hrequest
      exact h.allowed other request hrequest hstage
  tracked := by
    intro ip
    obtain ⟨log,htracks,hrecorded⟩ := h.tracked ip
    refine ⟨log,htracks,hrecorded.setRequest (fun _ _ hno => nomatch hno) ?_⟩
    intro old accepted hold
    rw [hid] at hold
    cases hold
  bounded := h.bounded

theorem Sequential.tracked_of_ne (h : Sequential server) {limiter : RateLimiter Ip} (request : AuthRequest Ip)
    (hlimiter : ∀ ip, ip ≠ request.peer → limiter.byIp ip = server.limiter.byIp ip)
    (hold : ∀ old, server.requests id = some old → old.peer = request.peer) {ip : Ip} (hne : ip ≠ request.peer) :
    ∃ log, Tracks server.clock (((server.setLimiter limiter).setRequest id request).failState ip) log ∧
      ((server.setLimiter limiter).setRequest id request).Recorded ip log := by
  obtain ⟨log,htracks,hrecorded⟩ := h.tracked ip
  refine ⟨log,?_,?_⟩
  · show Tracks server.clock (limiter.failState ip) log
    rw [RateLimiter.failState, hlimiter ip hne]
    exact htracks
  · have hrecorded : (server.setLimiter limiter).Recorded ip log := hrecorded
    apply hrecorded.setRequest
    · intro accepted hpeer
      exact absurd hpeer.symm hne
    · intro old accepted hrequest hpeer
      exact absurd (hpeer.symm.trans (hold old hrequest)) hne

/-- One request of the address is at its check: the others of it are recorded or have not
come so far. -/
theorem Sequential.check (h : Sequential server) {id : ℕ} {peer : Ip}
    (hid : server.requests id = some ⟨peer,server.clock,.arrived⟩) (halone : ∀ other, ¬server.InFlight peer other)
    {stage : AuthStage} (hstage : stage = .checked → (server.limiter.check peer server.clock).1 = .allowed)
    (hplain : ∀ accepted, stage ≠ .compared accepted) :
    Sequential ((server.setLimiter (server.limiter.check peer server.clock).2).setRequest id ⟨peer,server.clock,stage⟩) where
  sorted := h.sorted
  past := h.past
  single := by
    -- those in flight are the same as before, but for this request
    have hback : ∀ ip other, ((server.setLimiter (server.limiter.check peer server.clock).2).setRequest id
        ⟨peer,server.clock,stage⟩).InFlight ip other → (other = id ∧ ip = peer) ∨ (ip ≠ peer ∧ server.InFlight ip other) := by
      rintro ip other ⟨found,hfound,hpeer,hflight⟩
      by_cases hother : other = id
      · subst hother
        rw [setRequest_self] at hfound
        cases hfound
        exact .inl ⟨rfl,hpeer.symm⟩
      · rw [setRequest_of_ne hother] at hfound
        refine .inr ⟨?_,found,hfound,hpeer,hflight⟩
        rintro rfl
        exact halone other ⟨found,hfound,hpeer,hflight⟩
    intro ip a b ha hb
    rcases hback ip a ha with ⟨rfl,rfl⟩ | ⟨hne,ha⟩
    · rcases hback ip b hb with ⟨rfl,-⟩ | ⟨hne,-⟩
      · rfl
      · exact absurd rfl hne
    · rcases hback ip b hb with ⟨-,rfl⟩ | ⟨-,hb⟩
      · exact absurd rfl hne
      · exact h.single ip a b ha hb
  allowed := by
    intro other request hrequest hchecked
    by_cases hother : other = id
    · subst hother
      rw [setRequest_self] at hrequest
      cases hrequest
      exact server.limiter.check_allowed peer server.clock (hstage hchecked)
    · rw [setRequest_of_ne hother] at hrequest
      have hne : request.peer ≠ peer := by
        rintro hpeer
        exact halone other ⟨request,hrequest,hpeer,.inl hchecked⟩
      have hallowed := h.allowed other request hrequest hchecked
      rw [AuthServer.failState, RateLimiter.failState, ← server.limiter.check_byIp_of_ne peer server.clock hne] at hallowed
      exact hallowed
  tracked := by
    intro ip
    by_cases hip : ip = peer
    · subst hip
      obtain ⟨log,htracks,hrecorded⟩ := h.tracked ip
      refine ⟨log,?_,?_⟩
      · show Tracks server.clock ((server.limiter.check ip server.clock).2.failState ip) log
        rcases server.limiter.check_failState ip server.clock with hsame | hretained
        · rw [hsame]
          exact htracks
        · rw [hretained]
          exact htracks.retain
      · have hrecorded : (server.setLimiter (server.limiter.check ip server.clock).2).Recorded ip log := hrecorded
        apply hrecorded.setRequest
        · exact fun accepted _ => hplain accepted
        · intro old accepted hold _
          rw [show server.requests id = some old from hold] at hid
          cases hid
          exact nofun
    · refine h.tracked_of_ne ⟨peer,server.clock,stage⟩ ?_ ?_ hip
      · exact fun other hne => server.limiter.check_byIp_of_ne peer server.clock hne
      · intro old hold
        rw [hid] at hold
        cases hold
        rfl
  bounded := h.bounded

theorem peerLog_concat (server : AuthServer Ip) (c : Comparison Ip) (ip : Ip) :
    ({ server with compared := server.compared ++ [c] } : AuthServer Ip).peerLog ip =
      if c.peer = ip then server.peerLog ip ++ [c] else server.peerLog ip := by
  unfold peerLog
  by_cases h : c.peer = ip
  · simp [h]
  · simp [h]

/-- While a request of the address is between its check and its comparison, all its
comparisons are recorded. -/
theorem Sequential.recorded_of_checked (h : Sequential server) {peer : Ip} {nowMs : ℕ}
    (hid : server.requests id = some ⟨peer,nowMs,.checked⟩) (hlog : server.Recorded peer log) :
    server.peerLog peer = log := by
  rcases hlog with ⟨hlog,-⟩ | ⟨other,found,accepted,hfound,hpeer,hstage,-⟩
  · exact hlog
  · obtain rfl := h.single peer id other ⟨_,hid,rfl,.inl rfl⟩ ⟨found,hfound,hpeer,.inr ⟨accepted,hstage⟩⟩
    rw [hid] at hfound
    cases hfound
    cases hstage

theorem Sequential.compare (h : Sequential server) {peer : Ip}
    (hid : server.requests id = some ⟨peer,server.clock,.checked⟩) (accepted : Bool) :
    Sequential (({ server with compared := server.compared ++ [⟨peer,server.clock,accepted⟩] } : AuthServer Ip).setRequest id
      ⟨peer,server.clock,.compared accepted⟩) := by
  have hlog : ∀ ip, (({ server with compared := server.compared ++ [⟨peer,server.clock,accepted⟩] } :
      AuthServer Ip).setRequest id ⟨peer,server.clock,.compared accepted⟩).peerLog ip =
      if peer = ip then server.peerLog ip ++ [⟨peer,server.clock,accepted⟩] else server.peerLog ip :=
    server.peerLog_concat ⟨peer,server.clock,accepted⟩
  constructor
  case sorted =>
    show ((server.compared ++ _).map _).Pairwise _
    rw [map_append]
    refine pairwise_append.mpr ⟨h.sorted,pairwise_singleton _ _,?_⟩
    intro earlier hearlier latest hlatest
    obtain ⟨c,hc,rfl⟩ := mem_map.mp hearlier
    rw [mem_singleton.mp hlatest]
    exact h.past c hc
  case past =>
    intro c hc
    rcases mem_append.mp hc with hc | hc
    · exact h.past c hc
    · rw [mem_singleton.mp hc]
      exact le_rfl
  case single =>
    intro ip a b ha hb
    have hflight : server.InFlight peer id := ⟨_,hid,rfl,.inl rfl⟩
    exact h.single ip a b (InFlight.of_setRequest ha fun _ => hflight) (InFlight.of_setRequest hb fun _ => hflight)
  case allowed =>
    intro other request hrequest hchecked
    by_cases hother : other = id
    · subst hother
      rw [setRequest_self] at hrequest
      cases hrequest
      cases hchecked
    · rw [setRequest_of_ne hother] at hrequest
      exact h.allowed other request hrequest hchecked
  case tracked =>
    intro ip
    obtain ⟨log,htracks,hrecorded⟩ := h.tracked ip
    refine ⟨log,htracks,?_⟩
    by_cases hip : peer = ip
    · subst hip
      right
      refine ⟨id,_,accepted,setRequest_self ..,rfl,rfl,?_⟩
      rw [hlog, if_pos rfl, h.recorded_of_checked hid hrecorded]
    · have hsame : ({ server with compared := server.compared ++ [⟨peer,server.clock,accepted⟩] } :
          AuthServer Ip).Recorded ip log := by
        unfold Recorded
        rw [peerLog_concat, if_neg hip]
        exact hrecorded
      apply hsame.setRequest
      · exact fun _ hpeer => absurd hpeer hip
      · intro old _ hold hpeer
        rw [show server.requests id = some old from hold] at hid
        cases hid
        exact absurd hpeer hip
  case bounded =>
    intro ip
    rw [hlog]
    split
    · rename_i hip
      subst hip
      apply (h.bounded peer).snoc
      obtain ⟨log,htracks,hrecorded⟩ := h.tracked peer
      obtain ⟨hblock,hfew⟩ := h.allowed id _ hid rfl
      rw [h.recorded_of_checked hid hrecorded]
      constructor
      · rw [← htracks.recent]
        exact hfew
      · exact fun hrow last hlast => (htracks.blocked hrow last hlast).trans hblock
    · exact h.bounded ip

theorem Sequential.record (h : Sequential server) {id : ℕ} {peer : Ip} {nowMs : ℕ} {accepted : Bool}
    (hid : server.requests id = some ⟨peer,nowMs,.compared accepted⟩)
    (hfits : (server.failState peer).consecutive + 1 < 2 ^ 32) :
    Sequential ((server.setLimiter (if accepted then server.limiter.recordSuccess peer
      else server.limiter.recordFailure peer nowMs)).setRequest id ⟨peer,nowMs,.recorded accepted⟩) := by
  have hother : ∀ ip, ip ≠ peer → (if accepted then server.limiter.recordSuccess peer
      else server.limiter.recordFailure peer nowMs).byIp ip = server.limiter.byIp ip := by
    intro ip hne
    split
    · exact server.limiter.recordSuccess_byIp_of_ne peer hne
    · exact server.limiter.recordFailure_byIp_of_ne peer nowMs hne
  have hflight : server.InFlight peer id := ⟨_,hid,rfl,.inr ⟨accepted,rfl⟩⟩
  constructor
  case sorted => exact h.sorted
  case past => exact h.past
  case single =>
    intro ip a b ha hb
    exact h.single ip a b (InFlight.of_setRequest ha fun _ => hflight) (InFlight.of_setRequest hb fun _ => hflight)
  case allowed =>
    intro other request hrequest hchecked
    by_cases hsame : other = id
    · subst hsame
      rw [setRequest_self] at hrequest
      cases hrequest
      cases hchecked
    · rw [setRequest_of_ne hsame] at hrequest
      have hne : request.peer ≠ peer := by
        rintro hpeer
        exact hsame (h.single peer other id ⟨request,hrequest,hpeer,.inl hchecked⟩ hflight)
      have hallowed := h.allowed other request hrequest hchecked
      rw [AuthServer.failState, RateLimiter.failState, ← hother _ hne] at hallowed
      exact hallowed
  case tracked =>
    intro ip
    by_cases hip : ip = peer
    · subst hip
      obtain ⟨log,htracks,hrecorded⟩ := h.tracked ip
      rcases hrecorded with ⟨-,hnone⟩ | ⟨other,found,outcome,hfound,hpeer,hstage,hlog⟩
      · exact absurd rfl (hnone id _ accepted hid rfl)
      · -- the one in flight is this request, and its comparison is the last of the log
        obtain rfl := h.single ip id other hflight ⟨found,hfound,hpeer,.inr ⟨outcome,hstage⟩⟩
        rw [hid] at hfound
        cases hfound
        cases hstage
        refine ⟨server.peerLog ip,?_,.inl ⟨rfl,?_⟩⟩
        · show Tracks server.clock ((if accepted then server.limiter.recordSuccess ip
            else server.limiter.recordFailure ip nowMs).failState ip) (server.peerLog ip)
          rw [hlog]
          cases accepted with
          | true =>
            rw [if_pos rfl, RateLimiter.recordSuccess_failState]
            exact htracks.success rfl
          | false =>
            rw [if_neg Bool.false_ne_true, RateLimiter.recordFailure_failState]
            exact htracks.failure (c := ⟨ip,nowMs,false⟩) rfl hfits
        · intro other found outcome hfound hpeer hstage
          by_cases hsame : other = id
          · subst hsame
            rw [setRequest_self] at hfound
            cases hfound
            cases hstage
          · rw [setRequest_of_ne hsame] at hfound
            exact hsame (h.single ip other id ⟨found,hfound,hpeer,.inr ⟨outcome,hstage⟩⟩ hflight)
    · refine h.tracked_of_ne ⟨peer,nowMs,.recorded accepted⟩ hother ?_ hip
      intro old hold
      rw [hid] at hold
      cases hold
      rfl
  case bounded => exact h.bounded

theorem Sequential.step {action : Action Ip} (h : Sequential server) (hok : OneAtATime server action)
    (hnext : step server action = some next) : Sequential next := by
  cases action with
  | tick elapsedMs =>
    cases hnext
    exact h.tick elapsedMs
  | arrive id peer =>
    simp only [AuthServer.step] at hnext
    split at hnext <;> cases hnext
    rename_i hid
    exact h.arrive hid peer
  | check id =>
    simp only [AuthServer.step] at hnext
    split at hnext
    swap
    · cases hnext
    rename_i peer nowMs hid
    obtain ⟨rfl,halone⟩ := hok _ hid
    cases hnext
    apply h.check hid halone
    · split
      · exact fun _ => ‹_›
      · exact nofun
    · split <;> exact fun _ => nofun
  | compare id accepted =>
    simp only [AuthServer.step] at hnext
    split at hnext
    · rename_i peer nowMs hid
      obtain rfl := hok _ hid
      cases hnext
      exact h.compare hid accepted
    · cases hnext
  | record id =>
    simp only [AuthServer.step] at hnext
    split at hnext <;> cases hnext
    rename_i peer nowMs accepted hid
    exact h.record hid (hok _ hid)

end Invariant

/-- The limiter keeps one state for each address. -/
theorem apart (server : AuthServer Ip) (action : Action Ip) : Apart server action := by
  intro next ip hnext hpeer nowMs
  apply RateLimiter.check_congr
  cases action with
  | tick elapsedMs =>
    cases hnext
    rfl
  | arrive id peer | compare id accepted =>
    simp only [step] at hnext
    split at hnext <;> cases hnext
    rfl
  | check id =>
    simp only [step] at hnext
    split at hnext <;> cases hnext
    rename_i peer readMs hid
    exact server.limiter.check_byIp_of_ne peer readMs (hpeer id _ rfl hid).symm
  | record id =>
    simp only [step] at hnext
    split at hnext <;> cases hnext
    rename_i peer readMs accepted hid
    have hne := (hpeer id _ rfl hid).symm
    cases accepted with
    | true => exact server.limiter.recordSuccess_byIp_of_ne peer hne
    | false => exact server.limiter.recordFailure_byIp_of_ne peer readMs hne

/-- Where the requests of each address are authenticated one at a time, wrong credentials
are bounded in every window and by the block, and no address is refused for another. -/
theorem guessing_is_bounded (clock : ℕ) (actions : List (Action Ip))
    (h : Guarded step OneAtATime (start clock) actions) :
    Always step GuessingBounded (start clock) actions ∧ Guarded step Apart (start clock) actions :=
  ⟨always_of_guarded (J := Sequential) (fun _ _ _ hs hok hnext => hs.step hok hnext) (fun _ => Sequential.guessingBounded)
      (sequential_start clock) h,
    guarded_of_forall (fun action _ server => apart server action) _⟩

section Parallel

def sixAtOnce : List (Action UInt32) :=
  (List.range 6).map (fun id => .arrive id 0x0A000002) ++ (List.range 6).map .check ++
    (List.range 6).map (.compare · false)

/-- All six guesses are compared: the checks come before the first recording. -/
theorem six_guesses_are_compared :
    ¬∀ actions, Always step GuessingBounded (start 0 : AuthServer UInt32) actions := by
  intro h
  have hrun : ∃ server, run step (start 0 : AuthServer UInt32) sixAtOnce = some server ∧
      (timesWithin authFailWindowMs 0 (wrongTimes (server.peerLog 0x0A000002))).length = 6 :=
    ⟨_,rfl,by decide⟩
  obtain ⟨server,hserver,hsix⟩ := hrun
  have hbound := (((h sixAtOnce).last hserver) 0x0A000002).1 0
  rw [hsix] at hbound
  exact absurd hbound (by decide)

def AuthStage.inFlight : AuthStage → Bool
  | .checked | .compared _ => true
  | _ => false

/-- `OneAtATime`, and every request has a number below `count`. -/
def OneAtATimeBelow (count : ℕ) (server : AuthServer Ip) : Action Ip → Bool
  | .tick _ => true
  | .arrive id _ => id < count
  | .check id => (server.requests id).all fun request => decide (request.nowMs = server.clock) &&
      (List.range count).all fun other => (server.requests other).all fun found =>
        decide (found.peer ≠ request.peer) || !AuthStage.inFlight found.stage
  | .compare id _ => (server.requests id).all fun request => decide (request.nowMs = server.clock)
  | .record id => (server.requests id).all fun request => decide ((server.failState request.peer).consecutive + 1 < 2 ^ 32)

theorem requests_of_step {next : AuthServer Ip} {action : Action Ip} (hnext : step server action = some next) {id : ℕ}
    (hid : ∀ peer, action ≠ .arrive id peer) (hnone : server.requests id = none) : next.requests id = none := by
  have hset {other : ℕ} {request old : AuthRequest Ip} (server' : AuthServer Ip) (hsame : server'.requests = server.requests)
      (hold : server.requests other = some old) : (server'.setRequest other request).requests id = none := by
    rw [setRequest_of_ne, hsame, hnone]
    rintro rfl
    rw [hnone] at hold
    cases hold
  cases action with
  | tick elapsedMs =>
    cases hnext
    exact hnone
  | arrive other peer =>
    simp only [step] at hnext
    split at hnext <;> cases hnext
    rw [setRequest_of_ne, hnone]
    rintro rfl
    exact hid peer rfl
  | check other | compare other _ | record other =>
    simp only [step] at hnext
    split at hnext <;> cases hnext
    next hold => exact hset _ rfl hold

theorem oneAtATime_of_below {count : ℕ} (hnone : ∀ id, count ≤ id → server.requests id = none) {actions : List (Action Ip)}
    (h : Guarded step (fun server action => OneAtATimeBelow count server action = true) server actions) :
    Guarded step OneAtATime server actions := by
  apply Guarded.mono (J := fun server => ∀ id, count ≤ id → server.requests id = none) _ _ hnone h
  · intro server action next hnone hok hnext id hid
    refine requests_of_step hnext ?_ (hnone id hid)
    rintro peer rfl
    exact absurd (of_decide_eq_true hok) (not_lt.mpr hid)
  · intro server action hnone hok
    cases action with
    | tick elapsedMs | arrive id peer => trivial
    | check id =>
      intro request hrequest
      simp only [OneAtATimeBelow, hrequest, Option.all_some, Bool.and_eq_true, decide_eq_true_eq, all_eq_true] at hok
      refine ⟨hok.1,?_⟩
      rintro other ⟨found,hfound,hpeer,hstage⟩
      have hother : other < count := by
        by_contra hlarge
        rw [hnone other (not_lt.mp hlarge)] at hfound
        cases hfound
      have hapart := hok.2 other (mem_range.mpr hother)
      rw [hfound] at hapart
      rcases hstage with hstage | ⟨accepted,hstage⟩ <;> simp [hpeer, hstage, AuthStage.inFlight] at hapart
    | compare id _ | record id =>
      intro request hrequest
      simp only [OneAtATimeBelow, hrequest, Option.all_some, decide_eq_true_eq] at hok
      exact hok

/-- Five wrong guesses, each recorded before the next, and a sixth. -/
def sixInTurn : List (Action UInt32) :=
  (List.range 5).flatMap (fun id => [.arrive id 0x0A000002,.check id,.compare id false,.record id,.tick 7]) ++
    [.arrive 5 0x0A000002,.check 5]

theorem sixth_guess_is_refused :
    ((run step (start 0 : AuthServer UInt32) sixInTurn).bind (·.requests 5)).map (·.stage) = some .refused ∧
      Always step GuessingBounded (start 0 : AuthServer UInt32) sixInTurn := by
  have hbelow : Guarded step (fun server action => OneAtATimeBelow 6 server action = true) (start 0 : AuthServer UInt32) sixInTurn := by
    decide +kernel
  exact ⟨by decide +kernel,(guessing_is_bounded 0 sixInTurn (oneAtATime_of_below (fun _ _ => rfl) hbelow)).1⟩

end Parallel

end AuthServer

end Unpeel.Remote
