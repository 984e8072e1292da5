import Unpeel.Session.PtyInput

/-! # The I/O state machine of a hosted Session

`SessionIo` with the operations the reactor drives it by. What the kernel, the
clock and the JSON reader answer is an argument. Descriptors, the PTY master and
the journal file are kernel objects, so a handoff moves them with all they hold,
while the rest of the record is rebuilt from the fields the handoff lists.
-/
namespace Unpeel.Session

def clientHandshakeMaxBytes : ℕ := 64 * 1024
def pendingPtyInputMaxBytes : ℕ := 1024 * 1024
def journalBacklogHighBytes : ℕ := 4 * 1024 * 1024
def journalBacklogLowBytes : ℕ := 1024 * 1024
def sessionOutputReadBufferBytes : ℕ := 64 * 1024
def sessionInputStreamAck : UInt8 := 0
def idleReleaseAfterMs : ℕ := 1000

inductive ClientKind where
  | handshake
  | streamOut
  | streamIn
  deriving DecidableEq, Repr

structure ClientHandoff where
  kind : ClientKind
  answersQueries : Bool
  offset : ℕ
  outbuf : List UInt8
  inbuf : List UInt8
  deriving DecidableEq, Repr

structure SessionHandoff where
  darkMode : Bool
  journalNextOffset : ℕ
  pendingPtyInput : List UInt8
  clients : List ClientHandoff
  deriving DecidableEq, Repr

structure HandoffExport where
  handoff : SessionHandoff
  pty : PtyMaster
  streams : List UnixStream
  deriving DecidableEq, Repr

structure SessionIo where
  running : Bool
  pty : PtyMaster
  recentWriteIds : RecentWriteIds
  /-- The offset of the viewport, which is fed before the broadcaster. -/
  outputOffset : ℕ
  broadcaster : OutputBroadcaster
  channels : Channels
  ptyReadInterest : Bool
  ptyWriteInterest : Bool
  /-- The poller's own entry for the PTY: read and write. -/
  poller : Option (Bool × Bool)
  nextToken : ℕ
  clients : ℕ → Option Client
  queryScanner : OutputQueryScanner
  darkMode : Bool
  /-- The journal file: every chunk handed to the writer, over all cores. -/
  journal : List UInt8
  pendingInput : List UInt8
  adoptedClients : List (UnixStream × ClientHandoff)
  handingOff : Bool
  ended : Bool
  lastOutputAt : ℕ

inductive SessionHostCommand where
  | streamOutput (offset : ℕ) (answersQueries : Bool)
  | streamInput
  | oneShot
  deriving DecidableEq, Repr

/-- The read loop of a handshake: the peer is gone, the line is incomplete, or
it is there. -/
inductive HandshakeRead where
  | closed
  | waiting (buf : List UInt8)
  | line (buf : List UInt8)
  deriving DecidableEq, Repr

def newline : UInt8 := 0x0a

def readHandshake : List ReadResult → List UInt8 → HandshakeRead
  | [], buf => .waiting buf
  | .data bytes :: rest, buf =>
    if bytes = [] then .closed
    else if newline ∈ buf ++ bytes then .line (buf ++ bytes)
    else if clientHandshakeMaxBytes < (buf ++ bytes).length then .closed
    else readHandshake rest (buf ++ bytes)
  | .wouldBlock :: _, buf => .waiting buf
  | .interrupted :: rest, buf => readHandshake rest buf
  | .error :: _, _ => .closed

def afterLine (buf : List UInt8) : List UInt8 := (buf.dropWhile (· != newline)).drop 1

namespace SessionIo

def new (pty : PtyMaster) (darkMode : Bool) (nextOffset : ℕ) (journal : List UInt8) : SessionIo where
  running := true
  pty := pty
  recentWriteIds := .empty
  outputOffset := nextOffset
  broadcaster := .atOffset nextOffset
  channels := fun _ => ⟨[],0,false⟩
  ptyReadInterest := false
  ptyWriteInterest := false
  poller := none
  nextToken := 0
  clients := fun _ => none
  queryScanner := .new
  darkMode := darkMode
  journal := journal
  pendingInput := []
  adoptedClients := []
  handingOff := false
  ended := false
  lastOutputAt := 0

section PtyOutput

def setPtyInterest (s : SessionIo) (read write : Bool) : SessionIo :=
  if s.ptyReadInterest = read ∧ s.ptyWriteInterest = write then s
  else { s with ptyReadInterest := read, ptyWriteInterest := write, poller := some (read,write) }

def publishChunk (s : SessionIo) (now : ℕ) (chunk : List UInt8) : SessionIo :=
  let sent := s.broadcaster.broadcastChunk s.channels chunk
  { s with lastOutputAt := now, outputOffset := s.outputOffset + chunk.length,
           broadcaster := sent.1, channels := sent.2, journal := s.journal ++ chunk }

def interceptProbes (s : SessionIo) : Bool := !s.broadcaster.hasAnsweringSubscriber

/-- `process_pty_bytes`; the replies wait for the PTY, so without enough answers
it has not returned. -/
def processPtyBytes (s : SessionIo) (now : ℕ) (cursor : ℕ × ℕ) (replies : List WriteResult)
    (bytes : List UInt8) : Option SessionIo := do
  let scanned := s.queryScanner.scan bytes s.interceptProbes
  let reply ← writeReplies s.darkMode cursor replies scanned.queries
  let s := { s with queryScanner := scanned.scanner, pty := ⟨s.pty.accepted ++ reply⟩ }
  return if scanned.out = [] then s else s.publishChunk now scanned.out

def applyJournalBackpressure (s : SessionIo) (backlog : ℕ) : SessionIo :=
  if journalBacklogHighBytes < backlog ∧ s.ptyReadInterest = true then
    s.setPtyInterest false s.ptyWriteInterest
  else s

def journalDrained (s : SessionIo) : SessionIo :=
  if s.ptyReadInterest = false ∧ s.ended = false then s.setPtyInterest true s.ptyWriteInterest
  else s

/-- `pty_readable` on a read that returned bytes. -/
def ptyReadable (s : SessionIo) (now : ℕ) (cursor : ℕ × ℕ) (replies : List WriteResult)
    (bytes : List UInt8) (backlog : ℕ) : Option SessionIo :=
  (s.processPtyBytes now cursor replies bytes).map (fun t => t.applyJournalBackpressure backlog)

end PtyOutput

section PtyInput

/-- `drain_pending_input`; the flag is false on an error. -/
def drainPendingInput (s : SessionIo) (results : List WriteResult) : SessionIo × Bool :=
  if s.pendingInput = [] then (s,true)
  else
    let pass := drainLoop results s.pendingInput
    let blocked := pass.2.2 == .blocked
    let s := { s with pty := ⟨s.pty.accepted ++ pass.1⟩, pendingInput := pass.2.1 }
    if pass.2.2 = .error then (s,false)
    else if blocked ∧ pendingPtyInputMaxBytes < s.pendingInput.length then
      ({ s with pendingInput := [] },false)
    else (s.setPtyInterest s.ptyReadInterest blocked,true)

def writePtyInput (s : SessionIo) (results : List WriteResult) (data : List UInt8) :
    SessionIo × Bool :=
  drainPendingInput { s with pendingInput := s.pendingInput ++ data } results

/-- The delivery loop of `client_input`, which stops at the first error. -/
def writeFrames : SessionIo → List (List WriteResult) → List (List UInt8) → SessionIo × Bool
  | s, _, [] => (s,true)
  | s, writes, data :: frames =>
    let written := s.writePtyInput (writes.headD []) data
    if written.2 then writeFrames written.1 writes.tail frames else (written.1,false)

/-- `client_input`: the Session, the client, and whether to keep it. -/
def clientInput (s : SessionIo) (c : Client) (reads : List ReadResult)
    (writes : List (List WriteResult)) : SessionIo × Client × Bool :=
  match c.state with
  | .streamIn buf =>
    let got := readInput reads buf
    let parsed := parseFrames got.1.length got.1
    let c := { c with state := .streamIn parsed.2.1 }
    if parsed.2.2 then (s,c,false)
    else
      let written := s.writeFrames writes parsed.1
      (written.1,c,written.2 && !got.2)
  | _ => (s,c,true)

/-- The `Write` command: refused, already applied, or written; the flag tells
whether the PTY failed before it took everything. -/
def dispatchWrite (s : SessionIo) (writeId : Option WriteId) (data : List UInt8)
    (results : List WriteResult) : Option (SessionIo × Except String Bool) :=
  match validateWriteId writeId with
  | .error message => some (s,.error message)
  | .ok id =>
    if id.any s.recentWriteIds.contains then some (s,.ok false)
    else
      (writeAll results data).map (fun written =>
        let t := { s with pty := ⟨s.pty.accepted ++ written.1⟩ }
        if written.2.1 then
          ({ t with recentWriteIds := id.elim s.recentWriteIds s.recentWriteIds.recordApplied },.ok true)
        else (t,.error (writeFailure results)))

end PtyInput

section Clients

/-- `accept_clients` on one connection. -/
def acceptClient (s : SessionIo) (now fd : ℕ) : SessionIo :=
  if s.running then
    { s with nextToken := s.nextToken + 1,
             clients := Function.update s.clients s.nextToken
               (some ⟨⟨fd,0,[]⟩,s.nextToken,.handshake [],[],0,false,now⟩) }
  else s

def closeClient (s : SessionIo) (c : Client) : SessionIo :=
  let s := { s with clients := Function.update s.clients c.token none }
  match c.state with
  | .streamOut id _ _ =>
    { s with broadcaster := s.broadcaster.removeSubscriber id,
             channels := Function.update s.channels id { s.channels id with receiver := false } }
  | _ => s

def settleClient (s : SessionIo) (c : Client) (keep : Bool) : SessionIo :=
  if keep then { s with clients := Function.update s.clients c.token (some c) } else s.closeClient c

/-- `pump_stream_client` on a client of this Session and its channel. -/
def pumped (s : SessionIo) (now : ℕ) (results : List WriteResult) (id : ℕ) (c : Client) :
    Channel × Client × Bool :=
  pumpStreamClient (s.broadcaster.Connected id) now results (s.channels id) c

def pumpClient (s : SessionIo) (now : ℕ) (results : List WriteResult) (id : ℕ) (c : Client) : SessionIo :=
  let r := s.pumped now results id c
  settleClient { s with channels := Function.update s.channels id r.1 } r.2.1 r.2.2

def flushStreamClient (s : SessionIo) (now : ℕ) (results : List WriteResult) (token : ℕ) : SessionIo :=
  match s.clients token with
  | some c =>
    match c.state with
    | .streamOut id _ _ => s.pumpClient now results id c
    | _ => s
  | none => s

/-- `flush_stream_clients`, each client's socket with its own answers. -/
def flushStreamClients (s : SessionIo) (now : ℕ) (sockets : ℕ → List WriteResult) : SessionIo :=
  (List.range s.nextToken).foldl (fun s token => s.flushStreamClient now (sockets token) token) s

def clientWritable (s : SessionIo) (now : ℕ) (results : List WriteResult) (token : ℕ) : SessionIo :=
  match s.clients token with
  | some c =>
    match c.state with
    | .streamOut id _ _ => s.pumpClient now results id c
    | _ =>
      let flushed := c.flushClientOutbuf now results
      s.settleClient flushed.1 flushed.2.1
  | none => s

/-- The handshake line is there: subscribe, open the input stream, or leave the
socket to the thread of a one-shot command. -/
def startCommand (s : SessionIo) (now : ℕ) (socket : List WriteResult) (reads : List ReadResult)
    (writes : List (List WriteResult)) (c : Client) (buf : List UInt8) :
    Option SessionHostCommand → SessionIo
  | none => s.closeClient c
  | some (.streamOutput offset answers) =>
    match s.broadcaster.subscribe s.channels offset answers with
    | none => s.closeClient c
    | some (b,chs,id) =>
      let c := { c with state := .streamOut id none false, lastProgress := now,
                        stream := { c.stream with since := offset } }
      pumpClient { s with broadcaster := b, channels := chs } now socket id c
  | some .streamInput =>
    let c := { c with outbuf := c.outbuf ++ [sessionInputStreamAck], state := .streamIn (afterLine buf) }
    let flushed := c.flushClientOutbuf now socket
    if flushed.2.1 then
      let input := s.clientInput flushed.1 reads writes
      input.1.settleClient input.2.1 input.2.2
    else s.closeClient flushed.1
  | some .oneShot => s.closeClient c

/-- `client_readable`. `later` are the reads after the handshake line. -/
def clientReadable (s : SessionIo) (now : ℕ) (token : ℕ) (reads later : List ReadResult)
    (command : Option SessionHostCommand) (socket : List WriteResult)
    (writes : List (List WriteResult)) : SessionIo :=
  match s.clients token with
  | none => s
  | some c =>
    match c.state with
    | .handshake buf =>
      match readHandshake reads buf with
      | .closed => s.closeClient c
      | .waiting buf => s.settleClient { c with state := .handshake buf } true
      | .line buf => s.startCommand now socket later writes c buf command
    | .streamIn _ =>
      let input := s.clientInput c reads writes
      input.1.settleClient input.2.1 input.2.2
    | .streamOut _ _ _ =>
      match reads.headD .wouldBlock with
      | .data bytes => s.settleClient c (!bytes.isEmpty)
      | .error => s.settleClient c false
      | _ => s.settleClient c true

def stalled (now : ℕ) (c : Client) : Bool :=
  !c.outbuf.isEmpty && decide (sessionOutputStreamWriteTimeoutMs < now - c.lastProgress)

/-- `sweep_stalled_clients`. -/
def sweepStalledClients (s : SessionIo) (now : ℕ) : SessionIo :=
  (List.range s.nextToken).foldl (fun s token =>
    match s.clients token with
    | some c => if stalled now c then s.closeClient c else s
    | none => s) s

/-- `release_idle_buffers`, as far as it is not about spare capacity. -/
def releaseIdleBuffers (s : SessionIo) (now : ℕ) : SessionIo :=
  if s.ended ∨ now - s.lastOutputAt < idleReleaseAfterMs then s
  else if s.broadcaster.hasSubscribers then s
  else { s with broadcaster := s.broadcaster.releaseRecent }

end Clients

section EndOfLife

/-- `finish`, up to the teardown thread: the held bytes are published, the
broadcaster is closed, and streaming clients get one last flush. -/
def finish (s : SessionIo) (now : ℕ) (sockets : ℕ → List WriteResult) : SessionIo :=
  let s := { s with ended := true }
  let pending := s.queryScanner.takePending
  let s := if pending = [] then s else
    publishChunk { s with queryScanner := .new } now pending
  let marked := s.broadcaster.markExited s.channels
  flushStreamClients { s with broadcaster := marked.1, channels := marked.2 } now sockets

end EndOfLife

section Handoff
variable {sockets : ℕ → List WriteResult}

/-- One client of the export, after the outbox took over the pending batch; a
client that is only waiting for its last frame is left out. -/
def exportClient (s : SessionIo) (c : Client) : Option (Client × ClientHandoff) :=
  match c.state with
  | .handshake buf => some (c,⟨.handshake,false,s.outputOffset,c.unsent,buf⟩)
  | .streamIn buf => some (c,⟨.streamIn,false,s.outputOffset,c.unsent,buf⟩)
  | .streamOut id pending closing =>
    if closing then none
    else
      let c := { c with outbuf := c.outbuf ++ framesBytes pending.toList,
                        state := .streamOut id none closing }
      some (c,⟨.streamOut,s.broadcaster.subscriberAnswersQueries id,s.outputOffset,c.unsent,[]⟩)

def afterExport (s : SessionIo) (c : Client) : Client := ((s.exportClient c).map Prod.fst).getD c

def exportClients (s : SessionIo) : List (Client × ClientHandoff) :=
  (List.range s.nextToken).filterMap (fun token => (s.clients token).bind s.exportClient)

def handoffExport (s : SessionIo) : HandoffExport :=
  ⟨⟨s.darkMode,s.outputOffset,s.pendingInput,s.exportClients.map Prod.snd⟩,s.pty,
    s.exportClients.map (fun m => m.1.stream)⟩

/-- The pause at the head of `export_handoff`: reads off, streams flushed. -/
def pauseForHandoff (s : SessionIo) (now : ℕ) (sockets : ℕ → List WriteResult) : SessionIo :=
  (setPtyInterest { s with handingOff := true } false s.ptyWriteInterest).flushStreamClients now sockets

/-- `export_handoff`: the paused Session and its description, or a refusal. -/
def exportHandoff (s : SessionIo) (now : ℕ) (sockets : ℕ → List WriteResult) :
    SessionIo × Except String HandoffExport :=
  if s.ended ∨ s.running = false then (s,.error "session is stopping")
  else
    let s := s.pauseForHandoff now sockets
    if s.broadcaster.nextOffset ≠ s.outputOffset then
      (setPtyInterest { s with handingOff := false } true s.ptyWriteInterest,
        .error "viewport offset != stream offset")
    else
      ({ s with clients := fun token => (s.clients token).map s.afterExport },.ok s.handoffExport)

def resumeAfterHandoff (s : SessionIo) : SessionIo :=
  let s := { s with handingOff := false }
  if s.ended then s else s.setPtyInterest true s.ptyWriteInterest

/-- `rebuild_from_handoff`: what the record does not list starts afresh. The
journal file is reopened in place. -/
def rebuildFromHandoff (e : HandoffExport) (journal : List UInt8) : SessionIo :=
  { new e.pty e.handoff.darkMode e.handoff.journalNextOffset journal with
    pendingInput := e.handoff.pendingPtyInput
    adoptedClients := e.streams.zip e.handoff.clients }

/-- `adopt_client`. -/
def adoptClient (s : SessionIo) (now : ℕ) (stream : UnixStream) (h : ClientHandoff) : SessionIo :=
  let insert (s : SessionIo) (state : ClientState) : SessionIo :=
    { s with nextToken := s.nextToken + 1,
             clients := Function.update s.clients s.nextToken
               (some ⟨stream,s.nextToken,state,h.outbuf,0,!h.outbuf.isEmpty,now⟩) }
  match h.kind with
  | .streamOut =>
    match s.broadcaster.subscribe s.channels h.offset h.answersQueries with
    | none => s
    | some (b,chs,id) => insert { s with broadcaster := b, channels := chs } (.streamOut id none false)
  | .streamIn => insert s (.streamIn h.inbuf)
  | .handshake => insert s (.handshake h.inbuf)

/-- `register`: the PTY is watched for reads, and the adopted clients attach. -/
def register (s : SessionIo) (now : ℕ) : SessionIo :=
  let s := { s with ptyReadInterest := true, poller := some (true,false) }
  s.adoptedClients.foldl (fun s adopted => s.adoptClient now adopted.1 adopted.2)
    { s with adoptedClients := [] }

def commitHandoff (s : SessionIo) (now : ℕ) (sockets : ℕ → List WriteResult) : Option SessionIo :=
  match s.exportHandoff now sockets with
  | (paused,.ok e) => some ((rebuildFromHandoff e paused.journal).register now)
  | (_,.error _) => none

def abandonHandoff (s : SessionIo) (now : ℕ) (sockets : ℕ → List WriteResult) : SessionIo :=
  match s.exportHandoff now sockets with
  | (paused,.ok _) => paused.resumeAfterHandoff
  | (refused,.error _) => refused

/-- An export is refused for a Session that is stopping, or whose viewport and
broadcaster disagree. -/
theorem exportHandoff_ok {s p : SessionIo} {now : ℕ} {e : HandoffExport} (h : s.exportHandoff now sockets = (p,.ok e)) :
    s.ended = false ∧ s.running = true ∧ (s.pauseForHandoff now sockets).broadcaster.nextOffset =
      (s.pauseForHandoff now sockets).outputOffset ∧
    p = { s.pauseForHandoff now sockets with
      clients := fun token => ((s.pauseForHandoff now sockets).clients token).map
        (s.pauseForHandoff now sockets).afterExport } ∧
    e = (s.pauseForHandoff now sockets).handoffExport := by
  unfold exportHandoff at h
  by_cases hs : s.ended = true ∨ s.running = false
  · rw [if_pos hs] at h
    simp at h
  rw [if_neg hs] at h
  by_cases ho : (s.pauseForHandoff now sockets).broadcaster.nextOffset =
      (s.pauseForHandoff now sockets).outputOffset
  · rw [if_neg (not_not.mpr ho)] at h
    simp only [Prod.mk.injEq, Except.ok.injEq] at h
    exact ⟨by simpa using not_or.mp hs |>.1,by simpa using not_or.mp hs |>.2,ho,h.1.symm,h.2.symm⟩
  · rw [if_pos ho] at h
    simp at h

theorem commitHandoff_some {s t : SessionIo} {now : ℕ} (h : s.commitHandoff now sockets = some t) :
    s.ended = false ∧ s.running = true ∧
    t = (rebuildFromHandoff (s.pauseForHandoff now sockets).handoffExport
      (s.pauseForHandoff now sockets).journal).register now := by
  unfold commitHandoff at h
  split at h
  · next p e he =>
    obtain ⟨h1,h2,_,rfl,rfl⟩ := exportHandoff_ok he
    exact ⟨h1,h2,(Option.some.inj h).symm⟩
  · cases h

end Handoff
end SessionIo

/-- What can happen to a Session, with the answers of the kernel and of the JSON
reader. -/
inductive SessionEvent where
  | accept (now fd : ℕ)
  | clientReadable (now token : ℕ) (reads later : List ReadResult)
      (command : Option SessionHostCommand) (socket : List WriteResult) (writes : List (List WriteResult))
  | clientWritable (now token : ℕ) (socket : List WriteResult)
  | flush (now : ℕ) (sockets : ℕ → List WriteResult)
  | ptyReadable (now : ℕ) (cursor : ℕ × ℕ) (replies : List WriteResult) (bytes : List UInt8) (backlog : ℕ)
  | ptyWritable (results : List WriteResult)
  | write (writeId : Option WriteId) (data : List UInt8) (results : List WriteResult)
  | journalDrained
  | idleTick (now : ℕ)
  | abandonHandoff (now : ℕ) (sockets : ℕ → List WriteResult)
  | commitHandoff (now : ℕ) (sockets : ℕ → List WriteResult)

def sessionStep (s : SessionIo) : SessionEvent → Option SessionIo
  | .accept now fd => some (s.acceptClient now fd)
  | .clientReadable now token reads later command socket writes =>
    some (s.clientReadable now token reads later command socket writes)
  | .clientWritable now token socket => some (s.clientWritable now socket token)
  | .flush now sockets => some (s.flushStreamClients now sockets)
  | .ptyReadable now cursor replies bytes backlog =>
    if bytes = [] ∨ sessionOutputReadBufferBytes < bytes.length then none
    else s.ptyReadable now cursor replies bytes backlog
  | .ptyWritable results => some (s.drainPendingInput results).1
  | .write writeId data results => (s.dispatchWrite writeId data results).map Prod.fst
  | .journalDrained => some s.journalDrained
  | .idleTick now => some ((s.releaseIdleBuffers now).sweepStalledClients now)
  | .abandonHandoff now sockets => some (s.abandonHandoff now sockets)
  | .commitHandoff now sockets => s.commitHandoff now sockets

/-- A freshly launched and registered Session, its output starting at `base`. -/
def launched (pty : PtyMaster) (darkMode : Bool) (base now : ℕ) : SessionIo :=
  (SessionIo.new pty darkMode base []).register now

end Unpeel.Session
