import Unpeel.Foundation.ByteReads
import Unpeel.Stdio.TunnelEnvelope

/-! # The frames of the stdio transport

Twelve bytes of header and then the payload. What was written frame by frame is read frame by
frame, however the bytes are cut into reads.
-/
namespace Unpeel.Stdio
open BigEndian ByteReads Manifest Remote

def frameMagic : Bytes := [0x55,0x50,0x4C,0x31]
def frameKindRequest : UInt8 := 1
def frameKindResponse : UInt8 := 2

structure StdioFrame where
  kind : UInt8
  payload : Bytes
deriving DecidableEq

def text (literal : String) : Text := literal.toList

def headerError (header : Bytes) : Option Text :=
  let len := readBe ((header.drop 8).take 4)
  if header.take 4 ≠ frameMagic then some (text "invalid SSH stdio frame magic or version")
  else if header.getD 5 0 ≠ 0 ∨ header.getD 6 0 ≠ 0 ∨ header.getD 7 0 ≠ 0 then some (text "unsupported SSH stdio frame flags")
  else if len = 0 then some (text "empty SSH stdio frame")
  else if maxPlaintextBytes < len then
    some (text "SSH stdio frame exceeds " ++ Nat.toDigits 10 maxPlaintextBytes ++ text " bytes")
  else none

def readPayload (header : Bytes) (events : List ReadEvent) : Except Text (Option StdioFrame) × List ReadEvent :=
  match headerError header with
  | some error => (.error error,events)
  | none =>
    match readExact (readBe ((header.drop 8).take 4)) events with
    | (.error error,events) => (.error (text "truncated frame payload: " ++ error),events)
    | (.ok payload,events) => (.ok (some ⟨header.getD 4 0,payload⟩),events)

def readFrame (events : List ReadEvent) : Except Text (Option StdioFrame) × List ReadEvent :=
  match readByte events with
  | (.error error,events) => (.error (text "read frame header: " ++ error),events)
  | (.ok none,events) => (.ok none,events)
  | (.ok (some first),events) =>
    match readExact 11 events with
    | (.error error,events) => (.error (text "truncated frame header: " ++ error),events)
    | (.ok rest,events) => readPayload (first :: rest) events

def frameBytes (kind : UInt8) (payload : Bytes) : Bytes :=
  frameMagic ++ [kind,0,0,0] ++ beBytes 4 payload.length ++ payload

inductive WriteResult where
  | written
  | failed (count : ℕ) (error : Text)
deriving DecidableEq

def writeFrame (kind : UInt8) (payload : Bytes) (result : WriteResult) (out : Bytes) : Bytes × Option Text :=
  if payload = [] ∨ maxPlaintextBytes < payload.length then (out,some (text "invalid SSH stdio frame payload size"))
  else
    match result with
    | .written => (out ++ frameBytes kind payload,none)
    | .failed count error => (out ++ (frameBytes kind payload).take count,some (text "write SSH stdio frame: " ++ error))

inductive Decodes : List ReadEvent → List StdioFrame → Prop
  | done {events : List ReadEvent} (h : (readFrame events).1 = .ok none) : Decodes events []
  | frame {events rest : List ReadEvent} {frame : StdioFrame} {frames : List StdioFrame}
      (h : readFrame events = (.ok (some frame),rest)) (hrest : Decodes rest frames) : Decodes events (frame :: frames)

variable {events : List ReadEvent} {kind : UInt8} {payload rest : Bytes}

def FitsFrame (payload : Bytes) : Prop := payload ≠ [] ∧ payload.length ≤ maxPlaintextBytes

theorem readFrame_delivers (hfits : FitsFrame payload) (h : Delivers events (frameBytes kind payload ++ rest)) :
    ∃ events', readFrame events = (.ok (some ⟨kind,payload⟩),events') ∧ Delivers events' rest := by
  obtain ⟨hne,hlength⟩ := hfits
  have hpos : 0 < payload.length := List.length_pos_of_ne_nil hne
  have hmax : maxPlaintextBytes = 524264 := rfl
  have hlen : readBe (beBytes 4 payload.length) = payload.length := readBe_beBytes_of_lt (by omega)
  obtain ⟨a,b,c,d,hbe⟩ : ∃ a b c d, beBytes 4 payload.length = [a,b,c,d] := ⟨_,_,_,_,rfl⟩
  have hbytes : frameBytes kind payload ++ rest = 0x55 :: ([0x50,0x4C,0x31,kind,0,0,0,a,b,c,d] ++ (payload ++ rest)) := by
    unfold frameBytes
    rw [hbe]
    rfl
  rw [hbytes] at h
  obtain ⟨afterByte,hbyte,h⟩ := readByte_delivers h
  obtain ⟨afterHeader,hheader,h⟩ := readExact_delivers h rfl
  obtain ⟨afterPayload,hpayload,h⟩ := readExact_delivers h rfl
  have hfield : readBe ((List.drop 8 [0x55,0x50,0x4C,0x31,kind,0,0,0,a,b,c,d]).take 4) = payload.length := by
    show readBe [a,b,c,d] = _
    rw [← hbe, hlen]
  have hmagic : ¬List.take 4 [0x55,0x50,0x4C,0x31,kind,0,0,0,a,b,c,d] ≠ frameMagic := not_not.mpr rfl
  have hflags : ¬((0 : UInt8) ≠ 0 ∨ (0 : UInt8) ≠ 0 ∨ (0 : UInt8) ≠ 0) := by decide
  have herror : headerError [0x55,0x50,0x4C,0x31,kind,0,0,0,a,b,c,d] = none := by
    unfold headerError
    rw [if_neg hmagic]
    refine (if_neg hflags).trans ?_
    rw [if_neg (by omega), if_neg (by omega)]
  refine ⟨afterPayload,?_,h⟩
  unfold readFrame
  rw [hbyte]
  dsimp only
  rw [show (11 : ℕ) = [0x50,0x4C,0x31,kind,0,0,0,a,b,c,d].length from rfl, hheader]
  dsimp only
  unfold readPayload
  rw [herror, hfield, hpayload]
  rfl

/-- Frames that were written are read back, however they are cut. -/
theorem decodes_frames {frames : List StdioFrame} (hfits : ∀ frame ∈ frames, FitsFrame frame.payload)
    (h : Delivers events (frames.flatMap fun frame => frameBytes frame.kind frame.payload)) : Decodes events frames := by
  induction frames generalizing events with
  | nil =>
    have hend : (readByte events).1 = .ok none := readByte_nil h
    apply Decodes.done
    unfold readFrame
    rcases hread : readByte events with ⟨outcome,events'⟩
    rw [hread] at hend
    obtain rfl : outcome = .ok none := hend
    rfl
  | cons frame frames ih =>
    obtain ⟨events',hread,hrest⟩ := readFrame_delivers (hfits frame List.mem_cons_self) h
    exact .frame hread (ih (fun other hother => hfits other (List.mem_cons_of_mem _ hother)) hrest)

theorem remaining_readPayload (header : Bytes) (events : List ReadEvent) :
    remaining (readPayload header events).2 ≤ remaining events := by
  have hexact := remaining_readExact (readBe ((header.drop 8).take 4)) events
  unfold readPayload
  split
  · exact Nat.le_refl _
  · rcases hread : readExact (readBe ((header.drop 8).take 4)) events with ⟨outcome,rest⟩
    rw [hread] at hexact
    cases outcome with
    | error error | ok payload => exact hexact

/-- Reading a frame takes at least one byte, unless the input ends or an error comes first. -/
theorem remaining_readFrame (events : List ReadEvent) :
    remaining (readFrame events).2 ≤ remaining events ∧
      ∀ frame, (readFrame events).1 = .ok (some frame) → remaining (readFrame events).2 < remaining events := by
  have hbyte := remaining_readByte events
  unfold readFrame
  rcases hread : readByte events with ⟨outcome,afterByte⟩
  rw [hread] at hbyte
  cases outcome with
  | error error => exact ⟨hbyte,nofun⟩
  | ok found =>
    cases found with
    | none => exact ⟨hbyte,nofun⟩
    | some first =>
      have hless : remaining afterByte < remaining events := by
        have hless := remaining_readByte_some (show (readByte events).1 = .ok (some first) by rw [hread])
        rwa [hread] at hless
      have hheader := remaining_readExact 11 afterByte
      dsimp only
      rcases hexact : readExact 11 afterByte with ⟨outcome,afterHeader⟩
      rw [hexact] at hheader
      cases outcome with
      | error error => exact ⟨Nat.le_trans hheader (Nat.le_of_lt hless),nofun⟩
      | ok header =>
        have hpayload := Nat.le_trans (remaining_readPayload (first :: header) afterHeader) hheader
        exact ⟨Nat.le_trans hpayload (Nat.le_of_lt hless),fun _ _ => Nat.lt_of_le_of_lt hpayload hless⟩

end Unpeel.Stdio
