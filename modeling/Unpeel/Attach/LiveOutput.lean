import Unpeel.Journal.JournalReads

/-! # What attach shows

The stream's thread and the live loop write to one terminal. The live loop trusts the
stream until the thread reports a failure, and from then on it follows the journal.
-/
namespace Unpeel.Attach
open Journal Runs

def outputReadBufferBytes : ℕ := 64 * 1024

/-- What goes to the terminal: the Session's bytes, a reset with the replay behind it
and the offset that the replay ends at, or that the Session ended. -/
inductive Output where
  | live (data : List UInt8)
  | reset (replay : List UInt8) (nextOffset : ℕ)
  | banner
deriving DecidableEq

/-- Where `read_replay_tail_with_retries` stands. -/
inductive TailPc where
  | opening
  | statted (fileLen : ℕ)
  | floored (fileLen retainedFrom : ℕ)
  | aligned (fileLen start : ℕ)
  | sampled (fileLen start : ℕ) (data : List UInt8)
  | restatted (fileLen start : ℕ) (data : List UInt8) (newestFileLen : ℕ)
deriving DecidableEq

structure TailRead where
  retries : ℕ
  pc : TailPc
deriving DecidableEq

/-- `read_replay_tail`. -/
def TailRead.start : TailRead := ⟨3,.opening⟩

def TailRead.step (replayBytes : ℕ) (disk : OutputJournal) (t : TailRead) : Option (TailRead ⊕ List UInt8 × ℕ) :=
  match t.pc with
  | .opening => some (.inl { t with pc := .statted disk.file.length })
  | .statted fileLen => some (.inl { t with pc := .floored fileLen (min disk.floor fileLen) })
  | .floored fileLen retainedFrom =>
    (alignReplayTailStart disk.file (max (fileLen - replayBytes) retainedFrom) retainedFrom).map
      fun start => .inl { t with pc := .aligned fileLen start }
  | .aligned fileLen start =>
    (readExact disk.file start (fileLen - start)).map fun data => .inl { t with pc := .sampled fileLen start data }
  | .sampled fileLen start data => some (.inl { t with pc := .restatted fileLen start data disk.file.length })
  | .restatted fileLen start data newestFileLen =>
    if start < min disk.floor newestFileLen then
      if 0 < t.retries then some (.inl ⟨t.retries - 1,.opening⟩)
      -- an empty replay at the newest end is safe
      else some (.inr ([],newestFileLen))
    else some (.inr (data,fileLen))

/-- Where `pump_new_output` stands. Each look at the floor is one at the length of the
file and then one at the marker. -/
inductive DrainPc where
  | stat
  | restat (len : ℕ)
  | floor (len fileLen : ℕ)
  | read (len : ℕ)
  | rereadStat (data : List UInt8)
  | refloor (data : List UInt8) (fileLen : ℕ)
  | tail (read : TailRead)
deriving DecidableEq

inductive Ending where
  | sessionEnded
  | stdinClosed
  | failed
deriving DecidableEq

inductive MainPc where
  | idle
  | top
  | waking
  | fallingBack
  | opening
  | draining (final : Bool) (pc : DrainPc)
  | checking
  | banner
  | ended (how : Ending)
deriving DecidableEq

/-- Where the stream's thread stands: before it reads a frame, after it has written one,
and at its end. -/
inductive StreamPc where
  | off
  | reading (expectedOffset : ℕ)
  | wrote (nextOffset : ℕ) (exited : Bool)
  | ending
  | ended
  | waking
  | finished
deriving DecidableEq

inductive StreamStatus where
  | running
  | exited
  | failed
deriving DecidableEq

/-- The Host: its journal, what it sent to the streams and did not write yet, and how far
it has come with its end. -/
structure AttachedHost where
  journal : JournalUse
  /-- what was on disk since attach began -/
  disks : List OutputJournal
  unwritten : List UInt8
  exited : Bool
  closed : Bool
  running : Bool

/-- The journal goes on while attach runs. -/
def AttachedHost.record (h : AttachedHost) (journal : JournalUse) : AttachedHost :=
  { h with journal := journal, disks := h.disks ++ [journal.disk] }

def AttachedHost.published (h : AttachedHost) : List (Option UInt8) := h.journal.written ++ h.unwritten.map some

structure Attached where
  host : AttachedHost
  stream : StreamPc
  status : StreamStatus
  currentOffset : ℕ
  woken : Bool
  shutdown : Bool
  main : MainPc
  useStream : Bool
  opened : Bool
  offset : ℕ
  /-- the replay offset -/
  attachedAt : ℕ
  stdout : List Output

inductive AttachEvent where
  -- the journal before attach runs
  | journal (event : JournalEvent)
  | publish (bytes : List UInt8)
  | flush (count : ℕ)
  | retain (outcome : Outcome)
  | hostExits
  | hostCloses
  | manifestExits
  | attach (offset : ℕ) (connected found : Bool)
  | frame (data : List UInt8) (nextOffset : ℕ) (exited : Bool)
  | streamCloses
  | streamStops
  | stream
  | main
  | openFile (found : Bool)
  | readFile (count : ℕ)
  | checkManifest (due readable childExists ping : Bool)
  | mainFails
  | stdinCloses
deriving DecidableEq

instance (written : List (Option UInt8)) (offset : ℕ) (data : List UInt8) : Decidable (WrittenAt written offset data) :=
  inferInstanceAs (Decidable (_ = _))

/-- A frame of the Host's stream: what was published just before its offset; the last one
tells that the Session exited. -/
def AttachedHost.Sends (h : AttachedHost) (data : List UInt8) (nextOffset : ℕ) (exited : Bool) : Prop :=
  data.length ≤ nextOffset ∧ nextOffset ≤ h.published.length ∧ WrittenAt h.published (nextOffset - data.length) data ∧
    (exited = true → h.exited = true ∧ nextOffset = h.published.length)

instance (h : AttachedHost) (data : List UInt8) (nextOffset : ℕ) (exited : Bool) : Decidable (h.Sends data nextOffset exited) :=
  inferInstanceAs (Decidable (_ ∧ _))

/-- `host_is_alive`, of a manifest that may not be readable. -/
def hostIsAlive (manifest : Option Bool) (childExists ping : Bool) : Bool :=
  match manifest with
  | some running => running && (childExists || ping)
  | none => ping

/-- `load_manifest`, whether it tells that the Host is running. -/
def AttachedHost.loadManifest (h : AttachedHost) (readable : Bool) : Option Bool := if readable then some h.running else none

section Steps
variable (retainBytes advanceBytes blockSize replayBytes : ℕ)

def AttachedHost.step (h : AttachedHost) : AttachEvent → Option AttachedHost
  | .publish bytes => if h.exited then none else some { h with unwritten := h.unwritten ++ bytes }
  | .flush count =>
    (journalStep retainBytes advanceBytes blockSize h.journal (.write (h.unwritten.take count))).map
      fun journal => { h.record journal with unwritten := h.unwritten.drop count }
  | .retain outcome => (hostStep retainBytes advanceBytes blockSize h.journal outcome).map h.record
  | .hostExits => some { h with exited := true }
  | .hostCloses =>
    match h.journal.host with
    | .ready _ => if h.exited ∧ h.unwritten = [] then some { h with closed := true } else none
    | _ => none
  | .manifestExits => if h.closed then some { h with running := false } else none
  | _ => none

/-- `write_all` and `flush`, nothing for no bytes. -/
def Attached.write (s : Attached) (data : List UInt8) : Attached :=
  if data = [] then s else { s with stdout := s.stdout ++ [.live data] }

/-- `spawn_output_stream_pump`. -/
def Attached.streamStep (s : Attached) : AttachEvent → Option Attached
  | .frame data nextOffset exited =>
    match s.stream with
    | .reading expectedOffset =>
      if s.host.Sends data nextOffset exited then
        -- never render across an inferred gap
        if nextOffset - data.length ≠ expectedOffset then some { s with status := .failed, stream := .waking }
        else some { s.write data with stream := .wrote nextOffset exited }
      else none
    | _ => none
  | .streamCloses =>
    match s.stream with
    | .reading _ => some { s with status := .failed, stream := .waking }
    | _ => none
  | .streamStops =>
    match s.stream with
    | .reading _ => if s.shutdown then some { s with stream := .finished } else none
    | _ => none
  | .stream =>
    match s.stream with
    | .wrote nextOffset exited =>
      some { s with currentOffset := nextOffset, stream := if exited then .ending else .reading nextOffset }
    | .ending => some { s with stdout := s.stdout ++ [.banner], stream := .ended }
    | .ended => some { s with status := .exited, stream := .waking }
    | .waking => some { s with woken := true, stream := .finished }
    | _ => none
  | _ => none

/-- `pump_new_output` returns: what was shown is drained on, else the drain is over. -/
def Attached.drained (s : Attached) (final : Bool) (shown : ℕ) : Attached :=
  { s with main := if 0 < shown then .draining final .stat else if final then .banner else .checking }

/-- `pump_new_output`, all but its read. -/
def Attached.drainStep (s : Attached) (final : Bool) : DrainPc → Option Attached
  | .stat => some { s with main := .draining final (.restat s.host.journal.disk.file.length) }
  | .restat len => some { s with main := .draining final (.floor len s.host.journal.disk.file.length) }
  | .floor len fileLen =>
    if s.offset < min s.host.journal.disk.floor fileLen then some { s with main := .draining final (.tail .start) }
    -- the stream can be ahead of the journal
    else if len ≤ s.offset then some (s.drained final 0)
    else some { s with main := .draining final (.read len) }
  | .read _ => none
  | .rereadStat data => some { s with main := .draining final (.refloor data s.host.journal.disk.file.length) }
  | .refloor data fileLen =>
    if s.offset < min s.host.journal.disk.floor fileLen then some { s with main := .draining final (.tail .start) }
    else some (({ s with stdout := s.stdout ++ [Output.live data], offset := s.offset + data.length }).drained final data.length)
  | .tail read =>
    match read.step replayBytes s.host.journal.disk with
    | none => some { s with main := .ended .failed }
    | some (.inl next) => some { s with main := .draining final (.tail next) }
    | some (.inr (replay,nextOffset)) =>
      some (({ s with stdout := s.stdout ++ [Output.reset replay nextOffset], offset := nextOffset }).drained final replay.length)

def Attached.mainStep (s : Attached) : Option Attached :=
  match s.main with
  | .top => some { s with main := if s.shutdown then .ended .stdinClosed else .waking }
  | .waking =>
    if s.useStream ∧ s.woken then
      match s.status with
      | .exited => some { s with woken := false, main := .ended .sessionEnded }
      | .failed => some { s with woken := false, useStream := false, offset := s.currentOffset, main := .fallingBack }
      | .running => some { s with woken := false, main := .opening }
    else some { s with main := .opening }
  | .draining final pc => s.drainStep replayBytes final pc
  | .banner => some { s with stdout := s.stdout ++ [.banner], main := .ended .sessionEnded }
  | _ => none

/-- `run` from the live loop on, with everything around it. -/
def Attached.step (s : Attached) : AttachEvent → Option Attached
  | .journal event =>
    if s.main = .idle ∧ s.host.unwritten = [] ∧ s.host.exited = false then
      (journalStep retainBytes advanceBytes blockSize s.host.journal event).map
        fun journal => { s with host := { s.host with journal := journal, disks := [journal.disk] } }
    else none
  | .attach offset connected found =>
    if s.main = .idle ∧ s.host.journal.host.writer?.isSome ∧ offset ≤ s.host.published.length then
      some { s with
        stream := if connected then .reading offset else .off
        currentOffset := offset
        main := .top
        useStream := connected
        opened := !connected && found
        offset := offset
        attachedAt := offset }
    else none
  | .main => s.mainStep replayBytes
  | .openFile found =>
    match s.main with
    | .fallingBack => some { s with opened := found, main := .opening }
    | .opening =>
      let opened := if !s.useStream && !s.opened then found else s.opened
      some { s with opened := opened, main := if !s.useStream && opened then .draining false .stat else .checking }
    | _ => none
  | .readFile count =>
    match s.main with
    | .draining final (.read len) =>
      if 0 < count ∧ count ≤ min (len - s.offset) outputReadBufferBytes then
        (readExact s.host.journal.disk.file s.offset count).map
          fun data => { s with main := .draining final (.rereadStat data) }
      else none
    | _ => none
  | .checkManifest due readable childExists ping =>
    match s.main with
    | .checking =>
      if due = true ∧ hostIsAlive (s.host.loadManifest readable) childExists ping = false then
        some { s with main := if !s.useStream && s.opened then .draining true .stat else .banner }
      else some { s with main := .top }
    | _ => none
  | .mainFails =>
    match s.main with
    | .idle | .ended _ => none
    | _ => some { s with main := .ended .failed }
  | .stdinCloses => some { s with shutdown := true }
  | event =>
    match s.host.step retainBytes advanceBytes blockSize event with
    | some host => some { s with host := host }
    | none => s.streamStep event

end Steps

def startAttached : Attached where
  host := ⟨startJournal,[startJournal.disk],[],false,false,true⟩
  stream := .off
  status := .running
  currentOffset := 0
  woken := false
  shutdown := false
  main := .idle
  useStream := false
  opened := false
  offset := 0
  attachedAt := 0
  stdout := []

end Unpeel.Attach
