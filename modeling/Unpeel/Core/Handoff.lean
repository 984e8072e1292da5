import Unpeel.Core.TimerThread
import Unpeel.Session.OutputHandoff

/-! # A handoff between two cores

`Reactor::handoff` of the leaving core and `run_takeover` of its successor over
one connection, with the children that go on writing, the timer thread of the
leaving core, and the reactor of the new core, which serves a Session from the
moment it is adopted. A timeout can fire at any wait, and any send or receive can
fail: how long a message takes is not modelled.
-/
namespace Unpeel.Core
open Session Session.OutputQueryScanner

/-- What `build_session_timer_jobs` needs to know of a Session. -/
structure SessionJobInputs where
  sessionId : String
  owner : ℕ
  escapeCancelsTurn : Bool
  pid : Option ℕ
  pidStartedAt : Option ℕ
  deriving DecidableEq, Repr

def SessionJobInputs.jobs (seed : SessionJobInputs) : List HostTimerJob :=
  buildSessionTimerJobs seed.owner seed.escapeCancelsTurn seed.pid seed.pidStartedAt

structure CoreSession where
  io : SessionIo
  jobSeed : SessionJobInputs

structure Terminal where
  unread : List UInt8
  /-- What was unread at the start and all the child has written since. -/
  output : List UInt8
  /-- The reads of the old core. -/
  oldReads : List PtyRead
  /-- The bytes that the new core has read. -/
  taken : List UInt8

structure Timer where
  jobs : JobTable
  /-- Messages from before the handoff, which the timer has not reached yet. -/
  earlier : List TimerMsg
  /-- Messages of the handoff. -/
  sent : List TimerMsg
  /-- The table as it would be without the messages of the handoff. -/
  undisturbed : JobTable

inductive OldPhase where
  /-- The journal of the first slot is being flushed. -/
  | quiescing (slots : List ℕ)
  /-- The timer has been asked to drop the jobs of the slot. -/
  | retiring (slot : ℕ) (slots : List ℕ)
  | exporting (slots : List ℕ)
  /-- The header is sent; with nothing left to send, the reply is awaited. -/
  | sending (exports : List (ℕ × HandoffExport))
  | committed (moved : List String)
  | returned (error : String)
  /-- The reactor is back in its loop after a handoff that failed. -/
  | serving
  | exited
  deriving DecidableEq, Repr

inductive ToNew where
  | header (sessions : ℕ)
  | session (slot : ℕ) (handoff : HandoffExport)
  | refusal (error : String)
  deriving DecidableEq, Repr

inductive ToOld where
  | commit (adopted : ℕ)
  | refusal (error : String)
  deriving DecidableEq, Repr

inductive NewPhase where
  | waiting
  | adopting (left adopted : ℕ)
  /-- The record is written, the commit not yet sent. -/
  | recorded (adopted : ℕ)
  | serving
  /-- `run_takeover` has failed and the process is about to end. -/
  | leaving
  | exited
  deriving DecidableEq, Repr

structure Takeover where
  old : OldPhase
  sessions : ℕ → Option CoreSession
  paused : List ℕ
  exports : List (ℕ × HandoffExport)
  timer : Timer
  terminals : ℕ → Terminal
  toNew : List ToNew
  toOld : List ToOld
  new : NewPhase
  /-- The Sessions on the reactor of the new core, by their slot in the old one. -/
  adopted : ℕ → Option SessionIo

inductive SendStep where
  | encode
  | message
  | snapshot
  deriving DecidableEq, Repr

def SendStep.text : SendStep → String
  | .encode => "encode session handoff: "
  | .message => "send session handoff: "
  | .snapshot => "send snapshot: "

inductive HandoffFailure where
  | flushFailed (error : String)
  | flushTimedOut
  | retireTimedOut
  | exportRefused (now : ℕ) (sockets : ℕ → List WriteResult)
  | headerFailed (error : String)
  | sessionFailed (step : SendStep) (error : String)
  | refused (reply : String)
  | noReply (error : String)

inductive TakeoverAction where
  | flushed
  | retired
  | exported (now : ℕ) (sockets : ℕ → List WriteResult)
  | sentHeader
  | sentSession
  | committed
  | fails (cause : HandoffFailure)
  | oldServes (slot : ℕ) (event : SessionEvent)
  | oldExits
  | newHeader
  | newAdopts (now : ℕ)
  | newRecords
  | newCommits
  | newFails (error : String) (told : Bool)
  | newServes (slot : ℕ) (event : SessionEvent)
  | newExits
  | childWrites (slot : ℕ) (bytes : List UInt8)
  | timerReceives
  | jobRetires (slot : ℕ) (job : HostTimerJob)

namespace Timer

def send (t : Timer) (messages : List TimerMsg) : Timer := { t with sent := t.sent ++ messages }

/-- One message of `run_timer`; the messages are in the order they were sent. -/
def receive (t : Timer) : Option Timer :=
  match t.earlier with
  | message :: earlier =>
    some { t with jobs := t.jobs.receive message, undisturbed := t.undisturbed.receive message,
                  earlier := earlier }
  | [] =>
    match t.sent with
    | message :: sent => some { t with jobs := t.jobs.receive message, sent := sent }
    | [] => none

def retire (t : Timer) (slot : ℕ) (job : HostTimerJob) : Option Timer :=
  if job ∈ t.jobs slot then
    some { t with jobs := t.jobs.retire slot job, undisturbed := t.undisturbed.retire slot job }
  else none

end Timer

/-- One event of a Session that stays on its core, and what it reads of its PTY.
Output is read only with read interest. -/
def hostStep (io : SessionIo) (unread : List UInt8) (event : SessionEvent) :
    Option (SessionIo × List PtyRead) :=
  match event with
  | .commitHandoff _ _ => none
  | .ptyReadable now cursor replies bytes backlog =>
    if io.ptyReadInterest ∧ bytes <+: unread then
      (sessionStep io (.ptyReadable now cursor replies bytes backlog)).map
        (fun t => (t,[⟨bytes,io.interceptProbes⟩]))
    else none
  | event => (sessionStep io event).map (fun t => (t,[]))

def readBytes (reads : List PtyRead) : List UInt8 := (reads.map PtyRead.bytes).flatten

namespace Takeover

def quiesce (paused : List ℕ) : List ℕ → OldPhase
  | [] => .exporting paused
  | slots => .quiescing slots

/-- The moment `Reactor::handoff` is called, with the header not yet received by
the new core. -/
def start (table : List (Option CoreSession)) (jobs : JobTable) (queue : List TimerMsg)
    (unread : ℕ → List UInt8) : Takeover where
  old := quiesce [] ((List.range table.length).filter (fun slot => (table[slot]?.join).isSome))
  sessions := fun slot => table[slot]?.join
  paused := []
  exports := []
  timer := ⟨jobs,queue,[],jobs⟩
  terminals := fun slot => ⟨unread slot,unread slot,[],[]⟩
  toNew := []
  toOld := []
  new := .waiting
  adopted := fun _ => none

def sessionId (s : Takeover) (slot : ℕ) : String := ((s.sessions slot).map (·.jobSeed.sessionId)).getD ""

def setIo (s : Takeover) (slot : ℕ) (io : SessionIo) : Takeover :=
  { s with sessions := Function.update s.sessions slot ((s.sessions slot).map (fun h => { h with io := io })) }

def resumedJobs (s : Takeover) : List TimerMsg :=
  s.paused.filterMap (fun slot => (s.sessions slot).map (fun h => .add slot h.jobSeed.jobs))

/-- The end of a handoff that failed: the peer is told and every paused Session
is resumed. -/
def abandon (s : Takeover) (error : String) : Takeover :=
  { s with old := .returned error
           toNew := s.toNew ++ [.refusal error]
           sessions := fun slot =>
             if slot ∈ s.paused then
               (s.sessions slot).map (fun h => { h with io := h.io.resumeAfterHandoff })
             else s.sessions slot
           timer := s.timer.send s.resumedJobs }

def failure (s : Takeover) : HandoffFailure → Option (Takeover × String)
  | .flushFailed error =>
    match s.old with
    | .quiescing (slot :: _) => some (s,"journal flush for " ++ s.sessionId slot ++ ": " ++ error)
    | _ => none
  | .flushTimedOut =>
    match s.old with
    | .quiescing (slot :: _) => some (s,"journal flush for " ++ s.sessionId slot ++ " timed out")
    | _ => none
  | .retireTimedOut =>
    match s.old with
    | .retiring slot _ => some (s,"timer retire for " ++ s.sessionId slot ++ " timed out")
    | _ => none
  | .exportRefused now sockets =>
    match s.old with
    | .exporting (slot :: _) =>
      (s.sessions slot).bind (fun h =>
        match h.io.exportHandoff now sockets with
        | (_,.ok _) => none
        | (io,.error error) => some (s.setIo slot io,error))
    | _ => none
  | .headerFailed error =>
    match s.old with
    | .exporting [] => some (s,"handoff header: " ++ error)
    | _ => none
  | .sessionFailed step error =>
    match s.old with
    | .sending (_ :: _) => some (s,step.text ++ error)
    | _ => none
  | .refused reply =>
    match s.old,s.toOld with
    | .sending [],.refusal _ :: _ => some (s,"new core refused the handoff: " ++ reply)
    | _,_ => none
  | .noReply error =>
    match s.old with
    | .sending [] => some (s,"waiting for commit: " ++ error)
    | _ => none

def serveOld (s : Takeover) (slot : ℕ) (event : SessionEvent) : Option Takeover :=
  match s.sessions slot with
  | none => none
  | some h =>
    (hostStep h.io (s.terminals slot).unread event).map (fun r =>
      { s.setIo slot r.1 with
        old := .serving
        terminals := Function.update s.terminals slot
          { s.terminals slot with unread := (s.terminals slot).unread.drop (readBytes r.2).length
                                  oldReads := (s.terminals slot).oldReads ++ r.2 } })

def serveNew (s : Takeover) (slot : ℕ) (event : SessionEvent) : Option Takeover :=
  match s.adopted slot with
  | none => none
  | some io =>
    (hostStep io (s.terminals slot).unread event).map (fun r =>
      { s with
        adopted := Function.update s.adopted slot (some r.1)
        terminals := Function.update s.terminals slot
          { s.terminals slot with unread := (s.terminals slot).unread.drop (readBytes r.2).length
                                  taken := (s.terminals slot).taken ++ readBytes r.2 } })

def commit (s : Takeover) : Takeover :=
  { s with old := .committed (s.exports.map (fun e => s.sessionId e.1))
           toOld := s.toOld.tail
           sessions := fun slot => if slot ∈ s.exports.map Prod.fst then none else s.sessions slot }

end Takeover

open Takeover in
def takeoverStep (s : Takeover) : TakeoverAction → Option Takeover
  | .flushed =>
    match s.old with
    | .quiescing (slot :: slots) =>
      some { s with old := .retiring slot slots, timer := s.timer.send [.remove slot] }
    | _ => none
  | .retired =>
    -- The timer answers each message in turn, so it has caught up by then.
    match s.old with
    | .retiring slot slots =>
      if s.timer.earlier = [] ∧ s.timer.sent = [] then
        some { s with old := quiesce (s.paused ++ [slot]) slots, paused := s.paused ++ [slot] }
      else none
    | _ => none
  | .exported now sockets =>
    match s.old with
    | .exporting (slot :: slots) =>
      (s.sessions slot).bind (fun h =>
        match h.io.exportHandoff now sockets with
        | (io,.ok e) => some { s.setIo slot io with old := .exporting slots, exports := s.exports ++ [(slot,e)] }
        | (_,.error _) => none)
    | _ => none
  | .sentHeader =>
    match s.old with
    | .exporting [] =>
      some { s with old := .sending s.exports, toNew := s.toNew ++ [.header s.exports.length] }
    | _ => none
  | .sentSession =>
    match s.old with
    | .sending (e :: es) => some { s with old := .sending es, toNew := s.toNew ++ [.session e.1 e.2] }
    | _ => none
  | .committed =>
    match s.old,s.toOld with
    | .sending [],.commit _ :: _ => some s.commit
    | _,_ => none
  | .fails cause => (s.failure cause).map (fun r => r.1.abandon r.2)
  | .oldServes slot event =>
    match s.old with
    | .returned _ => s.serveOld slot event
    | .serving => s.serveOld slot event
    | _ => none
  | .oldExits =>
    match s.old with
    | .committed _ => some { s with old := .exited }
    | _ => none
  | .newHeader =>
    match s.new,s.toNew with
    | .waiting,.header n :: rest => some { s with new := .adopting n 0, toNew := rest }
    | _,_ => none
  | .newAdopts now =>
    match s.new,s.toNew with
    | .adopting (left + 1) n,.session slot e :: rest =>
      some { s with new := .adopting left (n + 1), toNew := rest,
                    adopted := Function.update s.adopted slot
                      (some ((SessionIo.rebuildFromHandoff e
                        ((s.sessions slot).elim [] (fun h => h.io.journal))).register now)) }
    | _,_ => none
  | .newRecords =>
    match s.new with
    | .adopting 0 n => some { s with new := .recorded n }
    | _ => none
  | .newCommits =>
    match s.new with
    | .recorded n => some { s with new := .serving, toOld := s.toOld ++ [.commit n] }
    | _ => none
  | .newFails error told =>
    -- Without a header, and when the commit cannot be sent, nothing is said.
    match s.new with
    | .waiting => some { s with new := .leaving }
    | .adopting _ _ =>
      some { s with new := .leaving, toOld := s.toOld ++ if told then [.refusal error] else [] }
    | .recorded _ => some { s with new := .leaving }
    | _ => none
  | .newServes slot event => if s.new = .exited then none else s.serveNew slot event
  | .newExits =>
    -- `serve_core` gives up when it cannot start its threads.
    match s.new with
    | .leaving => some { s with new := .exited }
    | .serving => some { s with new := .exited }
    | _ => none
  | .childWrites slot bytes =>
    some { s with
      terminals := Function.update s.terminals slot
        { s.terminals slot with unread := (s.terminals slot).unread ++ bytes
                                output := (s.terminals slot).output ++ bytes } }
  | .timerReceives => s.timer.receive.map (fun t => { s with timer := t })
  | .jobRetires slot job => (s.timer.retire slot job).map (fun t => { s with timer := t })

section Cases

/-- An event that stays on one core reads the PTY from where it stands. -/
theorem hostStep_some {io t : SessionIo} {unread : List UInt8} {event : SessionEvent} {reads : List PtyRead}
    (h : hostStep io unread event = some (t,reads)) :
    event.SameCore ∧ sessionStep io event = some t ∧ reads = event.ptyReads io ∧
    readBytes reads <+: unread ∧ (readBytes reads = [] → reads = []) := by
  cases event with
  | commitHandoff now sockets => cases h
  | ptyReadable now cursor replies bytes backlog =>
    simp only [hostStep] at h
    split at h
    swap
    · cases h
    next hb =>
    obtain ⟨v,hv,he⟩ := Option.map_eq_some_iff.mp h
    cases he
    refine ⟨trivial,hv,rfl,by simpa [readBytes] using hb.2,fun hn => ?_⟩
    have hn : bytes = [] := by simpa [readBytes] using hn
    simp [sessionStep, hn] at hv
  | _ =>
    simp only [hostStep] at h
    obtain ⟨v,hv,he⟩ := Option.map_eq_some_iff.mp h
    cases he
    exact ⟨trivial,hv,rfl,List.nil_prefix,fun _ => rfl⟩

namespace OldPhase

def Deciding : OldPhase → Prop
  | .quiescing _ => True
  | .retiring _ _ => True
  | .exporting _ => True
  | .sending _ => True
  | _ => False

def GaveUp : OldPhase → Prop
  | .returned _ => True
  | .serving => True
  | _ => False

def retiringSlot : OldPhase → Option ℕ
  | .retiring slot _ => some slot
  | _ => none

def unpaused : OldPhase → List ℕ
  | .quiescing slots => slots
  | .retiring slot slots => slot :: slots
  | _ => []

theorem Deciding.not_gaveUp {phase : OldPhase} (h : phase.Deciding) : ¬phase.GaveUp := by
  cases phase with
  | returned error | serving => exact absurd h id
  | _ => exact id

theorem quiesce_deciding (paused slots : List ℕ) : (Takeover.quiesce paused slots).Deciding := by
  cases slots <;> trivial

theorem quiesce_retiringSlot (paused slots : List ℕ) : (Takeover.quiesce paused slots).retiringSlot = none := by
  cases slots <;> rfl

theorem quiesce_unpaused (paused slots : List ℕ) : (Takeover.quiesce paused slots).unpaused = slots := by
  cases slots <;> rfl

end OldPhase

open Takeover in
/-- A handoff fails while it is undecided, and nothing but a refused export has
touched a Session by then. -/
theorem Takeover.failure_cases {s s' : Takeover} {cause : HandoffFailure} {error : String}
    (h : s.failure cause = some (s',error)) :
    s.old.Deciding ∧ (s' = s ∨ ∃ slot slots h io now sockets, s.old = .exporting (slot :: slots) ∧
      s.sessions slot = some h ∧ h.io.exportHandoff now sockets = (io,.error error) ∧ s' = s.setIo slot io) := by
  cases cause with
  | exportRefused now sockets =>
    simp only [failure] at h
    split at h
    swap
    · cases h
    next slot slots ho =>
    refine ⟨by rw [ho]; trivial,.inr ?_⟩
    obtain ⟨c,hc,h⟩ := Option.bind_eq_some_iff.mp h
    split at h
    · cases h
    · next io e he =>
      cases h
      exact ⟨slot,slots,c,io,now,sockets,ho,hc,he,rfl⟩
  | refused reply =>
    simp only [failure] at h
    split at h <;> cases h
    next ho _ =>
    exact ⟨by rw [ho]; trivial,.inl rfl⟩
  | _ =>
    simp only [failure] at h
    split at h <;> cases h
    next ho =>
    exact ⟨by rw [ho]; trivial,.inl rfl⟩

end Cases
end Unpeel.Core
