import Mathlib.Data.List.Forall2
import Unpeel.Foundation.Runs
import Unpeel.Session.StreamCarry

/-! # An output stream from its channel to its reader

The reader's socket has a read timeout, and a frame is read by two `read_exact`
calls, for the header and for the payload. Every `read` inside of them is a step
of its own, with as many bytes as the kernel gives, or a timeout.
-/
namespace Unpeel.Session
open BigEndian Runs

/-- Where `read_output_stream_frame` stands; between two calls it has nothing of the
next header. It is not called again after `Err` or `Closed`. -/
inductive ReaderState where
  | header (got : List UInt8)
  | payload (head got : List UInt8)
  | stopped
  deriving DecidableEq, Repr

def frameLen (header : List UInt8) : ℕ := readBe (header.take 4)

def frameChunk (header data : List UInt8) : SessionOutputChunk :=
  let flags := header.getD 12 0
  ⟨data,readBe ((header.drop 4).take 8),flags &&& 1 != 0,flags &&& 2 != 0⟩

namespace ReaderState

/-- The room in the buffer of the `read_exact` under way. -/
def wanted : ReaderState → ℕ
  | .header got => sessionOutputStreamFrameHeaderBytes - got.length
  | .payload head got => frameLen head - got.length
  | .stopped => 0

/-- A `read` that gave bytes, and the chunk that is returned if they were the last. -/
def fill : ReaderState → List UInt8 → ReaderState × Option SessionOutputChunk
  | .header got, bytes =>
    let head := got ++ bytes
    if head.length < sessionOutputStreamFrameHeaderBytes then (.header head,none)
    else if sessionOutputStreamMaxFrameBytes < frameLen head then (.stopped,none)
    else if frameLen head = 0 then (.header [],some (frameChunk head []))
    else (.payload head [],none)
  | .payload head got, bytes =>
    let data := got ++ bytes
    if data.length < frameLen head then (.payload head data,none)
    else (.header [],some (frameChunk head data))
  | .stopped, _ => (.stopped,none)

/-- A `read` that timed out: the header's `read_exact` gives up what it has, and
the call returns `TimedOut`; in the payload it is an error. -/
def timeOut : ReaderState → ReaderState
  | .header _ => .header []
  | _ => .stopped

def midHeader : ReaderState → Bool
  | .header (_ :: _) => true
  | _ => false

end ReaderState

/-- A subscriber's channel, its client with the socket, and the reader at the other
end of it. `queued` is everything that was put into the channel, `consumed` the
number of bytes the reader has taken from the socket. -/
structure StreamLink where
  queued : List SessionOutputChunk
  channel : Channel
  client : Client
  attached : Bool
  consumed : ℕ
  reader : ReaderState
  returned : List SessionOutputChunk

inductive LinkEvent where
  | enqueue (data : List UInt8) (nextOffset : UInt64) (exited «exists» : Bool)
  | pump (connected : Bool) (now : ℕ) (results : List WriteResult)
  | read (n : ℕ)
  | timeout
  | readFails
  deriving Repr

def startLink (id : ℕ) (stream : UnixStream) (token now : ℕ) : StreamLink where
  queued := []
  channel := ⟨[],0,true⟩
  client := ⟨{ stream with sent := [] },token,.streamOut id none false,[],0,false,now⟩
  attached := true
  consumed := 0
  reader := .header []
  returned := []

def linkStep (s : StreamLink) : LinkEvent → Option StreamLink
  | .enqueue data nextOffset exited «exists» =>
    let chunk : SessionOutputChunk := ⟨data,nextOffset.toNat,exited,«exists»⟩
    if s.queued.any SessionOutputChunk.exited then none
    else
      let (channel,sent) := enqueueOutputChunk s.channel chunk
      if sent then some { s with channel := channel, queued := s.queued ++ [chunk] } else some s
  | .pump connected now results =>
    if s.attached then
      let (channel,client,keep) := pumpStreamClient connected now results s.channel s.client
      some { s with channel := channel, client := client, attached := keep }
    else none
  | .read n =>
    let available := s.client.stream.sent.drop s.consumed
    if 0 < n ∧ n ≤ s.reader.wanted ∧ n ≤ available.length then
      let (reader,chunk) := s.reader.fill (available.take n)
      some { s with consumed := s.consumed + n, reader := reader, returned := s.returned ++ chunk.toList }
    else none
  | .timeout => some { s with reader := s.reader.timeOut }
  | .readFails => some { s with reader := .stopped }

def SameStream (xs ys : List SessionOutputChunk) : Prop :=
  chunksData xs = chunksData ys ∧
    xs.getLast?.map (fun c => (c.nextOffset,c.exited)) = ys.getLast?.map (fun c => (c.nextOffset,c.exited))

/-- What the link promises: the reader has returned what was queued, as far as it has
come; all of it, once nothing is under way; and between two calls it has consumed
what it returned and nothing else. -/
structure Faithful (s : StreamLink) : Prop where
  sofar : ∃ front back, s.queued = front ++ back ∧ SameStream front s.returned
  all : s.channel.queue = [] → s.client.unsent = [] → s.consumed = s.client.stream.sent.length →
    s.reader = .header [] → SameStream s.queued s.returned
  between : s.reader = .header [] → s.client.stream.sent.take s.consumed = framesBytes s.returned

def WholeHeaders (s : StreamLink) : LinkEvent → Prop
  | .enqueue data _ _ _ => data.length < 2 ^ 32
  | .timeout => s.reader.midHeader = false
  | _ => True

instance (s : StreamLink) : (event : LinkEvent) → Decidable (WholeHeaders s event)
  | .enqueue data _ _ _ => inferInstanceAs (Decidable (data.length < 2 ^ 32))
  | .pump _ _ _ => inferInstanceAs (Decidable True)
  | .read _ => inferInstanceAs (Decidable True)
  | .timeout => inferInstanceAs (Decidable (s.reader.midHeader = false))
  | .readFails => inferInstanceAs (Decidable True)

end Unpeel.Session
