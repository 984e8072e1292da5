import Unpeel.Session.QueryScanner
import Unpeel.Session.StreamClient

/-! # Bytes on their way to the PTY

Three paths write to one PTY master: the input queue, which takes what fits and
waits for the rest, and the one-shot writes and the query replies, which wait
until everything is taken. This module has their write loops, the framing of the
input stream, and the window of applied write ids.
-/
namespace Unpeel.Session

structure PtyMaster where
  accepted : List UInt8
  deriving DecidableEq, Repr

inductive DrainEnd where
  | drained
  | blocked
  | error
  deriving DecidableEq, Repr

/-- The write loop of `drain_pending_input`: the bytes the PTY took, the bytes
left, and how it ended. A PTY whose answers have run out is full. -/
def drainLoop : List WriteResult → List UInt8 → List UInt8 × List UInt8 × DrainEnd
  | _, [] => ([],[],.drained)
  | [], pending => ([],pending,.blocked)
  | .ok n :: rest, pending =>
    if n = 0 then ([],pending,.blocked)
    else
      let next := drainLoop rest (pending.drop n)
      (pending.take n ++ next.1,next.2)
  | .wouldBlock :: _, pending => ([],pending,.blocked)
  | .interrupted :: rest, pending => drainLoop rest pending
  | .error :: _, pending => ([],pending,.error)

/-- `PtyWriter::write` in a loop until everything is taken: the bytes the PTY
took, whether it was all of them, and the answers left over. It waits while the
PTY is full, so without an answer it has not returned. -/
def writeAll : List WriteResult → List UInt8 → Option (List UInt8 × Bool × List WriteResult)
  | results, [] => some ([],true,results)
  | [], _ => none
  | .ok n :: rest, data =>
    if n = 0 then some ([],false,rest)
    else (writeAll rest (data.drop n)).map (fun next => (data.take n ++ next.1,next.2))
  | .wouldBlock :: rest, data => writeAll rest data
  | .interrupted :: rest, data => writeAll rest data
  | .error :: rest, _ => some ([],false,rest)

/-- What the `Write` command reports when the PTY failed. -/
def writeFailure : List WriteResult → String
  | [] => ""
  | .ok n :: rest => if n = 0 then "PTY input write returned zero" else writeFailure rest
  | .wouldBlock :: rest => writeFailure rest
  | .interrupted :: rest => writeFailure rest
  | .error :: _ => "Write error"

def refusesWithError : List WriteResult → Bool
  | [] => false
  | .ok n :: rest => n != 0 && refusesWithError rest
  | .wouldBlock :: _ => false
  | .interrupted :: rest => refusesWithError rest
  | .error :: _ => true

/-- A pass over the queue takes what there is room for. -/
theorem drainLoop_eq (results : List WriteResult) (pending : List UInt8) :
    drainLoop results pending = (pending.take (room results),pending.drop (room results),
      if pending.length ≤ room results then .drained
      else if refusesWithError results then .error else .blocked) := by
  induction results generalizing pending with
  | nil => cases pending <;> simp [drainLoop, room, refusesWithError]
  | cons result rest ih =>
    cases pending with
    | nil => cases result <;> simp [drainLoop]
    | cons b bs =>
      cases result with
      | ok n =>
        by_cases hn : n = 0
        · simp [drainLoop, room, refusesWithError, hn]
        · have hle : (List.drop n (b :: bs)).length ≤ room rest ↔ (b :: bs).length ≤ n + room rest := by
            rw [List.length_drop]
            omega
          simp only [drainLoop, if_neg hn, ih, room, refusesWithError, hle]
          simp [hn, List.take_add, List.drop_drop]
      | wouldBlock | error => simp [drainLoop, room, refusesWithError]
      | interrupted => exact ih (b :: bs)

/-- A blocking write that returned took a prefix, and all of it on success. -/
theorem writeAll_spec {results rest : List WriteResult} {data taken : List UInt8} {ok : Bool}
    (h : writeAll results data = some (taken,ok,rest)) :
    taken <+: data ∧ (ok = true ↔ taken = data) := by
  induction results generalizing data taken with
  | nil =>
    cases data with
    | nil =>
      obtain ⟨rfl,rfl,_⟩ := h
      simp
    | cons b bs => simp [writeAll] at h
  | cons result results ih =>
    cases data with
    | nil =>
      obtain ⟨rfl,rfl,_⟩ := h
      simp
    | cons b bs =>
      cases result with
      | ok n =>
        simp only [writeAll] at h
        split_ifs at h with hn
        · simp only [Option.some.injEq, Prod.mk.injEq] at h
          obtain ⟨rfl,rfl,_⟩ := h
          simp
        · obtain ⟨⟨taken',ok',rest'⟩,hw,he⟩ := Option.map_eq_some_iff.mp h
          obtain ⟨rfl,rfl,rfl⟩ := he
          obtain ⟨hp,hok⟩ := ih hw
          have hsplit := List.take_append_drop n (b :: bs)
          constructor
          · nth_rewrite 2 [← hsplit]
            exact (List.prefix_append_right_inj _).mpr hp
          · rw [hok]
            constructor
            · rintro rfl
              exact hsplit
            · intro he
              exact List.append_cancel_left (he.trans hsplit.symm)
      | wouldBlock | interrupted => exact ih h
      | error =>
        obtain ⟨rfl,rfl,_⟩ := h
        simp

section InputFrames

def sessionInputStreamFrameHeaderBytes : ℕ := 4
def sessionInputStreamMaxFrameBytes : ℕ := 256 * 1024

/-- `write_input_stream_frame`. -/
def inputStreamFrame (data : List UInt8) : List UInt8 :=
  BigEndian.beBytes 4 data.length ++ data

/-- The parse loop of `client_input`: the non-empty payloads, the bytes after
the last complete frame, and whether it met a refused length. -/
def parseFrames : ℕ → List UInt8 → List (List UInt8) × List UInt8 × Bool
  | 0, buf => ([],buf,false)
  | fuel + 1, buf =>
    if buf.length < sessionInputStreamFrameHeaderBytes then ([],buf,false)
    else
      let len := BigEndian.readBe (buf.take 4)
      if sessionInputStreamMaxFrameBytes < len then ([],buf,true)
      else if buf.length < sessionInputStreamFrameHeaderBytes + len then ([],buf,false)
      else
        let payload := (buf.drop sessionInputStreamFrameHeaderBytes).take len
        let next := parseFrames fuel (buf.drop (sessionInputStreamFrameHeaderBytes + len))
        (if payload = [] then next.1 else payload :: next.1,next.2)

inductive ReadResult where
  | data (bytes : List UInt8)
  | wouldBlock
  | interrupted
  | error
  deriving DecidableEq, Repr

/-- The read loop of `client_input`: the buffer, and whether the peer is gone. -/
def readInput : List ReadResult → List UInt8 → List UInt8 × Bool
  | [], buf => (buf,false)
  | .data bytes :: rest, buf =>
    if bytes = [] then (buf,true)
    else if sessionInputStreamMaxFrameBytes * 2 < (buf ++ bytes).length then (buf ++ bytes,false)
    else readInput rest (buf ++ bytes)
  | .wouldBlock :: _, buf => (buf,false)
  | .interrupted :: rest, buf => readInput rest buf
  | .error :: _, buf => (buf,true)

end InputFrames

section WriteIds

def writeIdHistory : ℕ := 256
def writeIdMaxBytes : ℕ := 128

abbrev WriteId := List UInt8

def validateWriteId : Option WriteId → Except String (Option WriteId)
  | none => .ok none
  | some id =>
    if id = [] then .ok none
    else if writeIdMaxBytes < id.length then .error "write_id exceeds 128 bytes"
    else .ok (some id)

structure RecentWriteIds where
  order : List WriteId
  seen : List WriteId
  deriving DecidableEq, Repr

namespace RecentWriteIds

def empty : RecentWriteIds := ⟨[],[]⟩

def contains (ids : RecentWriteIds) (id : WriteId) : Bool := ids.seen.contains id

def evict : List WriteId → List WriteId → RecentWriteIds
  | [], seen => ⟨[],seen⟩
  | oldest :: order, seen =>
    if writeIdHistory < (oldest :: order).length then evict order (seen.filter (· != oldest))
    else ⟨oldest :: order,seen⟩

def recordApplied (ids : RecentWriteIds) (id : WriteId) : RecentWriteIds :=
  if ids.contains id then ids else evict (ids.order ++ [id]) (id :: ids.seen)

end RecentWriteIds
end WriteIds

section Replies
open OutputQueryScanner

def primaryDeviceAttributesResponse : List UInt8 := esc :: ascii "[?62;22;52c".toList

def featureReply : List UInt8 :=
  esc :: ascii "]7501;?:states=idle,working,done,blocked,error:kinds=permission,question,auth".toList ++
    [esc,0x5c]

def decimal (n : ℕ) : List UInt8 := ascii (Nat.toDigits 10 n)

def hexTwice (n : ℕ) : List UInt8 :=
  let digits := ascii (Nat.toDigits 16 (n / 16) ++ Nat.toDigits 16 (n % 16))
  digits ++ digits

def xtermBase16 : List (ℕ × ℕ × ℕ) :=
  [(0x00,0x00,0x00),(0xCD,0x00,0x00),(0x00,0xCD,0x00),(0xCD,0xCD,0x00),
   (0x00,0x00,0xEE),(0xCD,0x00,0xCD),(0x00,0xCD,0xCD),(0xE5,0xE5,0xE5),
   (0x7F,0x7F,0x7F),(0xFF,0x00,0x00),(0x00,0xFF,0x00),(0xFF,0xFF,0x00),
   (0x5C,0x5C,0xFF),(0xFF,0x00,0xFF),(0x00,0xFF,0xFF),(0xFF,0xFF,0xFF)]

def xtermPaletteRgb (index : ℕ) : ℕ × ℕ × ℕ :=
  if index ≤ 15 then xtermBase16.getD index (0,0,0)
  else if index ≤ 231 then
    let value := index - 16
    let component (v : ℕ) : ℕ := if v = 0 then 0 else v * 40 + 55
    (component (value / 36),component (value / 6 % 6),component (value % 6))
  else
    let gray := min (8 + (index - 232) * 10) 238
    (gray,gray,gray)

/-- The reply to a query, `cursor` being the zero-based row and column. -/
def queryReply (darkMode : Bool) (cursor : ℕ × ℕ) : HostAnsweredQuery → List UInt8
  | .da1 => primaryDeviceAttributesResponse
  | .cursorPosition =>
    esc :: ascii ['['] ++ decimal (cursor.1 + 1) ++ ascii [';'] ++ decimal (cursor.2 + 1) ++ ascii ['R']
  | .kittyFlags => esc :: ascii "[?0u".toList
  | .programStatus => featureReply
  | .oscColor code =>
    let rgb := match decide (code = 10), darkMode with
      | true, true => "f3f3/f5f5/fbfb"
      | true, false => "1111/1212/1717"
      | false, true => "1a1a/1a1a/1f1f"
      | false, false => "ffff/ffff/ffff"
    esc :: ascii [']'] ++ decimal code ++ ascii ";rgb:".toList ++ ascii rgb.toList ++ [0x07]
  | .oscPalette index =>
    let rgb := xtermPaletteRgb index
    esc :: ascii "]4;".toList ++ decimal index ++ ascii ";rgb:".toList ++ hexTwice rgb.1 ++
      ascii ['/'] ++ hexTwice rgb.2.1 ++ ascii ['/'] ++ hexTwice rgb.2.2 ++ [0x07]

def writeReplies (darkMode : Bool) (cursor : ℕ × ℕ) :
    List WriteResult → List HostAnsweredQuery → Option (List UInt8)
  | _, [] => some []
  | results, query :: queries => do
    let written ← writeAll results (queryReply darkMode cursor query)
    let more ← writeReplies darkMode cursor written.2.2 queries
    return written.1 ++ more

end Replies
end Unpeel.Session
