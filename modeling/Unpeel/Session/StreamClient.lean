import Unpeel.Session.Broadcaster

/-! # Attached clients and the output pump

A client's bytes wait in up to four places: its subscriber channel, the batch
being merged, the framed outbox, and the socket. The pump moves them forward and
stops as soon as the socket is full, whatever is still queued behind it.
-/
namespace Unpeel.Session

/-- What the kernel answers to a non-blocking write: `ok n` has room for `n` more
bytes, of which a write takes what it needs. -/
inductive WriteResult where
  | ok (n : ℕ)
  | wouldBlock
  | interrupted
  | error
  deriving DecidableEq, Repr

def room : List WriteResult → ℕ
  | [] => 0
  | .ok n :: rest => if n = 0 then 0 else n + room rest
  | .wouldBlock :: _ => 0
  | .interrupted :: rest => room rest
  | .error :: _ => 0

def brokenPipe : List WriteResult → Bool
  | [] => false
  | .ok n :: rest => n == 0 || brokenPipe rest
  | .wouldBlock :: _ => false
  | .interrupted :: rest => brokenPipe rest
  | .error :: _ => true

/-- A connected socket, with what its peer knows: the offset it asked to stream
from, and the bytes the kernel has taken for it. Both move with the descriptor. -/
structure UnixStream where
  fd : ℕ
  since : ℕ
  sent : List UInt8
  deriving DecidableEq, Repr

inductive ClientState where
  | handshake (buf : List UInt8)
  | streamOut (subscriberId : ℕ) (pending : Option SessionOutputChunk) (closing : Bool)
  | streamIn (buf : List UInt8)
  deriving DecidableEq, Repr

structure Client where
  stream : UnixStream
  token : ℕ
  state : ClientState
  outbuf : List UInt8
  outPos : ℕ
  writeInterest : Bool
  lastProgress : ℕ
  deriving DecidableEq, Repr

def sessionOutputStreamWriteTimeoutMs : ℕ := 60000

namespace Client

def unsent (c : Client) : List UInt8 := c.outbuf.drop c.outPos

def pendingChunks (c : Client) : List SessionOutputChunk :=
  match c.state with
  | .streamOut _ pending _ => pending.toList
  | _ => []

/-- The socket took the next `n` bytes. -/
def wrote (c : Client) (now n : ℕ) : Client :=
  { c with stream := { c.stream with sent := c.stream.sent ++ c.unsent.take n },
           outPos := c.outPos + n, lastProgress := now }

/-- The write loop of `flush_client_outbuf`. The kernel's answers are given in
order, and a socket whose answers have run out is full. The flag is false when
the client is gone. -/
def writeLoop (now : ℕ) : List WriteResult → Client → Client × Bool × List WriteResult
  | [], c => (c,true,[])
  | result :: rest, c =>
    if c.outPos < c.outbuf.length then
      match result with
      | .ok n =>
        if n = 0 then (c,false,rest)
        else if c.unsent.length < n then
          (c.wrote now c.unsent.length,true,.ok (n - c.unsent.length) :: rest)
        else writeLoop now rest (c.wrote now n)
      | .wouldBlock => (c,true,rest)
      | .interrupted => writeLoop now rest c
      | .error => (c,false,rest)
    else (c,true,result :: rest)

def compact (c : Client) : Client :=
  if c.outbuf.length ≤ c.outPos then { c with outbuf := [], outPos := 0 }
  else if 0 < c.outPos ∧ c.outbuf.length / 2 ≤ c.outPos then
    { c with outbuf := c.outbuf.drop c.outPos, outPos := 0 }
  else c

def flushClientOutbuf (now : ℕ) (results : List WriteResult) (c : Client) :
    Client × Bool × List WriteResult :=
  let written := writeLoop now results c
  if written.2.1 then
    let c := written.1.compact
    let wantWrite := !c.outbuf.isEmpty
    if wantWrite ∧ sessionOutputStreamWriteTimeoutMs < now - c.lastProgress then (c,false,written.2.2)
    else ({ c with writeInterest := wantWrite },true,written.2.2)
  else written

end Client

structure Pull where
  buffered : ℕ
  pending : Option SessionOutputChunk
  outbuf : List UInt8
  closing : Bool
  disconnected : Bool
  deriving DecidableEq, Repr

/-- A received chunk joins the batch, or starts the next one after the batch
was framed; a batch that is large enough is framed at once. The flag says to stop
receiving until the socket has absorbed the outbox; merging never asks for it. -/
def Pull.receive (p : Pull) (chunk : SessionOutputChunk) : Pull × Bool :=
  let start (outbuf : List UInt8) : Pull × Bool :=
    let next : Pull := if sessionOutputStreamBatchMaxBytes ≤ chunk.data.length
      then { p with pending := none, outbuf := outbuf ++ sessionOutputFrameBytes chunk }
      else { p with pending := some chunk, outbuf := outbuf }
    (next,decide (sessionOutputStreamBatchMaxBytes * 4 ≤ next.outbuf.length))
  match p.pending with
  | some current =>
    if canMergeOutputStreamChunk current chunk sessionOutputStreamBatchMaxBytes then
      let merged := { current with data := current.data ++ chunk.data, nextOffset := chunk.nextOffset }
      if sessionOutputStreamBatchMaxBytes ≤ merged.data.length then
        ({ p with pending := none, outbuf := p.outbuf ++ sessionOutputFrameBytes merged },false)
      else ({ p with pending := some merged },false)
    else start (p.outbuf ++ sessionOutputFrameBytes current)
  | none => start p.outbuf

def pull (connected : Bool) : List SessionOutputChunk → Pull → List SessionOutputChunk × Pull
  | [], p => ([],{ p with disconnected := !connected })
  | chunk :: queue, p =>
    let p := { p with buffered := p.buffered - min chunk.data.length p.buffered }
    if chunk.exited then
      (queue,{ p with pending := none, closing := true,
                      outbuf := p.outbuf ++ framesBytes (p.pending.toList ++ [chunk]) })
    else
      let received := p.receive chunk
      if received.2 then (queue,received.1) else pull connected queue received.1

/-- `pump_stream_client`, `connected` telling whether the broadcaster still has
the subscriber. A pass of the outer loop that goes round frames the batch or
takes a chunk, so `fuel` past the channel's length plus one changes nothing. The
flag is whether to keep the client. -/
def pumpPasses (connected : Bool) (now : ℕ) :
    ℕ → List WriteResult → Channel → Client → Channel × Client × Bool
  | 0, _, ch, c => (ch,c,true)
  | fuel + 1, results, ch, c =>
    let flushed := c.flushClientOutbuf now results
    let c := flushed.1
    if !flushed.2.1 then (ch,c,false)
    else if c.outPos < c.outbuf.length then (ch,c,true)
    else
      match c.state with
      | .streamOut id pending closing =>
        if closing then (ch,c,false)
        else
          let pulled := pull connected ch.queue ⟨ch.buffered,pending,c.outbuf,closing,false⟩
          let p := pulled.2
          let ch := { ch with queue := pulled.1, buffered := p.buffered }
          let c := { c with outbuf := p.outbuf ++ framesBytes p.pending.toList,
                            state := .streamOut id none p.closing }
          if c.outPos = c.outbuf.length then (ch,c,!(p.disconnected || p.closing))
          else if p.disconnected then (ch,(c.flushClientOutbuf now flushed.2.2).1,false)
          else pumpPasses connected now fuel flushed.2.2 ch c
      | _ => (ch,c,true)

def Pull.framed (p : Pull) : List UInt8 := p.outbuf ++ framesBytes p.pending.toList

def fill (queue : List SessionOutputChunk) : List SessionOutputChunk × Pull :=
  pull false queue ⟨0,none,[],false,false⟩

def framedBefore (stop : List SessionOutputChunk × Pull → Bool) : ℕ → List SessionOutputChunk → ℕ
  | 0, _ => 0
  | fuel + 1, queue =>
    if queue = [] ∨ stop (fill queue) = true then 0
    else (fill queue).2.framed.length + framedBefore stop fuel (fill queue).1

def queuedAhead (queue : List SessionOutputChunk) : ℕ :=
  framedBefore (fun filled => filled.1.isEmpty) queue.length queue

def queuedBeforeEnd (queue : List SessionOutputChunk) : ℕ :=
  framedBefore (fun filled => filled.2.disconnected) queue.length queue

def queuedBytes (queue : List SessionOutputChunk) : ℕ :=
  framedBefore (fun _ => false) queue.length queue

/-- The client's socket fails it before the outbox and the channel are written:
the peer is gone, or it has not taken a byte for longer than the timeout. -/
def LosesSocket (now : ℕ) (results : List WriteResult) (c : Client) (queue : List SessionOutputChunk) :
    Prop :=
  room results < c.unsent.length + queuedBytes queue ∧
    (brokenPipe results = true ∨
      room results = 0 ∧ sessionOutputStreamWriteTimeoutMs < now - c.lastProgress)

def pumpStreamClient (connected : Bool) (now : ℕ) (results : List WriteResult) (ch : Channel)
    (c : Client) : Channel × Client × Bool :=
  pumpPasses connected now (ch.queue.length + 2) results ch c

end Unpeel.Session
