import Mathlib.Order.MinMax
import Unpeel.Core.TimerThread

/-! # Reactor slots and the threads that name them

The reactor, the journal writer, the timer and the teardown threads talk about a
Session by its reactor slot. Every message carries its issuer here, which the
code does not look at.
-/
namespace Unpeel.Core

def journalBatchMaxBytes : ℕ := 128 * 1024

structure Hosted where
  journal : ℕ
  jobs : List HostTimerJob
  deriving DecidableEq, Repr

inductive JournalMsg where
  | open (id : ℕ)
  | chunk (id len : ℕ)
  | close (id : ℕ)
  deriving DecidableEq, Repr

structure JournalSession where
  pending : ℕ
  error : Bool
  deriving DecidableEq, Repr

inductive Control where
  | journalDrained (slot issuer : ℕ)
  | journalFailed (slot issuer : ℕ)
  deriving DecidableEq, Repr

def Control.slot : Control → ℕ
  | .journalDrained slot _ => slot
  | .journalFailed slot _ => slot

def Control.issuer : Control → ℕ
  | .journalDrained _ issuer => issuer
  | .journalFailed _ issuer => issuer

/-- A teardown thread that has not retired the timer jobs yet; it closes the
journal first and waits for at most 30 seconds. -/
structure SessionTeardown where
  slot : ℕ
  journal : ℕ
  closed : Bool
  deriving DecidableEq, Repr

structure Slots where
  sessions : ℕ → Option Hosted
  /-- The length of the session table. -/
  len : ℕ
  /-- The last slot that was freed comes first. -/
  freeSlots : List ℕ
  nextJournal : ℕ
  /-- Journals that are opened and whose Session is not registered yet. -/
  waiting : List ℕ
  /-- The slot a journal's backpressure record names. -/
  pressureSlot : ℕ → ℕ
  journalQueue : List JournalMsg
  journals : ℕ → Option JournalSession
  control : List Control
  teardowns : List SessionTeardown
  timerQueue : List TimerMsg
  jobs : JobTable
  /-- Jobs that ended by themselves. -/
  retired : List HostTimerJob
  /-- Messages that acted on another Session: the issuer and the Session hit. -/
  misdirected : List (ℕ × ℕ)

namespace Slots

def start : Slots :=
  ⟨fun _ => none,0,[],1,[],fun _ => 0,[],fun _ => none,[],[],[],fun _ => [],[],[]⟩

/-- The slot that `register` takes, and the slots it leaves free. -/
def takeSlot (s : Slots) : ℕ × List ℕ :=
  match s.freeSlots with
  | slot :: rest => (slot,rest)
  | [] => (s.len,[])

/-- `register`. When the poller refuses, the slot goes back and the launching
thread closes the journal. -/
def register (s : Slots) (id : ℕ) (kinds : List JobKind) (accepted : Bool) : Slots :=
  let slot := s.takeSlot.1
  let jobs := kinds.map (HostTimerJob.mk id)
  let s := { s with freeSlots := s.takeSlot.2, len := max s.len (slot + 1), waiting := s.waiting.erase id,
                    pressureSlot := Function.update s.pressureSlot id slot }
  if accepted then
    { s with timerQueue := s.timerQueue ++ [.add slot jobs],
             sessions := Function.update s.sessions slot (some ⟨id,jobs⟩) }
  else { s with freeSlots := slot :: s.freeSlots, journalQueue := s.journalQueue ++ [.close id] }

/-- `end_session`: the bytes the scanner held are published, the slot is free, and
a thread is left with the rest. -/
def endSession (s : Slots) (slot held : ℕ) (spawned : Bool) : Slots :=
  match s.sessions slot with
  | none => s
  | some session =>
    { s with sessions := Function.update s.sessions slot none
             freeSlots := slot :: s.freeSlots
             journalQueue := s.journalQueue ++ if held = 0 then [] else [.chunk session.journal held]
             teardowns := s.teardowns ++ if spawned then [⟨slot,session.journal,false⟩] else [] }

/-- `flush` of a batch: what is left of the journal. -/
def flush (j : JournalSession) (written : Bool) : JournalSession :=
  if j.pending = 0 ∨ j.error then ⟨0,j.error⟩ else ⟨0,!written⟩

/-- The writer takes a message from its queue. `drained` tells whether the chunk
left a paused journal below the low mark. -/
def journalReceive (s : Slots) (drained written : Bool) : JournalMsg → Slots
  | .open id => { s with journals := Function.update s.journals id (some ⟨0,false⟩) }
  | .close id => { s with journals := Function.update s.journals id none }
  | .chunk id len =>
    match s.journals id with
    | none => s
    | some j =>
      let slot := s.pressureSlot id
      let s := { s with control := s.control ++ if drained then [.journalDrained slot id] else [] }
      if j.error then s
      else
        let j : JournalSession := ⟨j.pending + len,false⟩
        let j := if journalBatchMaxBytes ≤ j.pending then flush j written else j
        { s with journals := Function.update s.journals id (some j),
                 control := s.control ++ if j.error then [.journalFailed slot id] else [] }

def journalDue (s : Slots) (id : ℕ) (written : Bool) : Option Slots :=
  match s.journals id with
  | some j =>
    if j.pending = 0 ∨ j.error then none
    else
      let j := flush j written
      some { s with journals := Function.update s.journals id (some j),
                    control := s.control ++
                      if j.error then [.journalFailed (s.pressureSlot id) id] else [] }
  | none => none

def notice (s : Slots) (c : Control) : Slots :=
  match s.sessions c.slot with
  | none => s
  | some session =>
    if session.journal = c.issuer then s
    else { s with misdirected := s.misdirected ++ [(c.issuer,session.journal)] }

def controlReceive (s : Slots) (held : ℕ) (spawned : Bool) (c : Control) : Slots :=
  match c with
  | .journalDrained _ _ => s.notice c
  | .journalFailed slot _ => (s.notice c).endSession slot held spawned

end Slots

inductive SlotEvent where
  | launch
  | register (id : ℕ) (kinds : List JobKind) (accepted : Bool)
  | publish (slot len : ℕ)
  | endSession (slot held : ℕ) (spawned : Bool)
  | control (held : ℕ) (spawned : Bool)
  | journal (drained written : Bool)
  | journalDue (id : ℕ) (written : Bool)
  | teardown (index : ℕ)
  | timer
  | retire (slot : ℕ) (job : HostTimerJob)
  deriving DecidableEq, Repr

open Slots in
def slotStep (s : Slots) : SlotEvent → Option Slots
  | .launch =>
    some { s with nextJournal := s.nextJournal + 1, waiting := s.waiting ++ [s.nextJournal],
                  journalQueue := s.journalQueue ++ [.open s.nextJournal] }
  | .register id kinds accepted => if id ∈ s.waiting then some (s.register id kinds accepted) else none
  | .publish slot len =>
    (s.sessions slot).map (fun session => { s with journalQueue := s.journalQueue ++ [.chunk session.journal len] })
  | .endSession slot held spawned => some (s.endSession slot held spawned)
  | .control held spawned =>
    match s.control with
    | [] => none
    | c :: rest => some (controlReceive { s with control := rest } held spawned c)
  | .journal drained written =>
    match s.journalQueue with
    | [] => none
    | msg :: rest => some (journalReceive { s with journalQueue := rest } drained written msg)
  | .journalDue id written => s.journalDue id written
  | .teardown index =>
    (s.teardowns[index]?).map (fun d =>
      if d.closed then
        { s with teardowns := s.teardowns.eraseIdx index, timerQueue := s.timerQueue ++ [.remove d.slot] }
      else
        { s with teardowns := s.teardowns.set index { d with closed := true },
                 journalQueue := s.journalQueue ++ [.close d.journal] })
  | .timer =>
    match s.timerQueue with
    | [] => none
    | msg :: rest => some { s with timerQueue := rest, jobs := s.jobs.receive msg }
  | .retire slot job =>
    if job ∈ s.jobs slot then some { s with jobs := s.jobs.retire slot job, retired := job :: s.retired }
    else none

end Unpeel.Core
