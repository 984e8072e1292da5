import Mathlib.Data.List.Basic
import Unpeel.Foundation.Fallible
import Unpeel.Manifest.Record
import Unpeel.Remote.RelayCrypto

/-! # The WebSocket of the relay

`RelaySocket` reads frames from a stream that comes in pieces. A call may end before a frame is
complete; what has been read stays in the buffer, and the next call starts over with it.
-/
namespace Unpeel.Remote
open BigEndian Fallible Manifest

/-- One turn of the loop of `fill_until`: it stops because of the deadline or because `cancelled`
says so, and then `cancelled` is asked once more; otherwise the transport is read. -/
inductive Turn where
  | stop (cancelled : Bool)
  | blocked
  | failed (error : Text)
  | read (bytes : Bytes)
deriving DecidableEq

def delivered : List Turn → Bytes
  | [] => []
  | .read bytes :: turns => bytes ++ delivered turns
  | _ :: turns => delivered turns

structure RelaySocket where
  buffer : Bytes
  sent : List Bytes
  turns : List Turn
deriving DecidableEq

inductive Interruption where
  | stopped (cancelled : Bool)
  | failed (error : Text)
  | waiting
deriving DecidableEq

inductive ReceiveOutcome where
  | message (payload : Bytes)
  | control
  | idle
  | error (message : Text)
  | waiting
deriving DecidableEq

def ReceiveOutcome.message? : ReceiveOutcome → Option Bytes
  | .message payload => some payload
  | _ => none

def maxWebSocketPayload : ℕ := maxFrameBytes + 1024

/-- `payload` under a mask. -/
def masked (mask : Vector UInt8 4) (payload : Bytes) : Bytes :=
  payload.mapIdx fun i b => b ^^^ mask.toList.getD (i % 4) 0

namespace RelaySocket

/-- What `send_opcode` writes. -/
def sendOpcode (opcode : UInt8) (payload : Bytes) (mask : Vector UInt8 4) : Bytes :=
  let length := payload.length
  let extended :=
    if length < 126 then [0x80 ||| UInt8.ofNat length]
    else if length < 65536 then (0x80 ||| 126) :: beBytes 2 length
    else (0x80 ||| 127) :: beBytes 8 length
  (0x80 ||| opcode) :: extended ++ mask.toList ++ masked mask payload

def fill (needed : ℕ) (buffer : Bytes) (turns : List Turn) : Except Interruption PUnit × Bytes × List Turn :=
  if needed ≤ buffer.length then (.ok ⟨⟩,buffer,turns)
  else
    match turns with
    | [] => (.error .waiting,buffer,[])
    | .stop cancelled :: turns => (.error (.stopped cancelled),buffer,turns)
    | .blocked :: turns => fill needed buffer turns
    | .failed error :: turns => (.error (.failed error),buffer,turns)
    | .read bytes :: turns =>
      if bytes = [] then (.error (.failed "relay socket ended".toList),buffer,turns)
      else fill needed (buffer ++ bytes) turns

def fillUntil (needed : ℕ) : Attempt RelaySocket Interruption PUnit := fun s =>
  let (result,buffer,turns) := fill needed s.buffer s.turns
  (result,{ s with buffer, turns })

/-- `buffer[a..b]`. -/
def slice (a b : ℕ) : Attempt RelaySocket Interruption Bytes := do
  let s ← get
  return (s.buffer.take b).drop a

def readLength (short : UInt8) : Attempt RelaySocket Interruption (ℕ × ℕ) := do
  if short = 126 then
    fillUntil 4
    let bytes ← slice 2 4
    return (4,readBe bytes)
  else if short = 127 then
    fillUntil 10
    let bytes ← slice 2 10
    return (10,readBe bytes)
  else return (2,short.toNat)

def maskAt (bytes : Bytes) : Vector UInt8 4 := Vector.ofFn fun i => bytes.getD i 0

/-- The part of `read_frame_until` behind the header. -/
def readPayload (hasMask : Bool) (offset length : ℕ) : Attempt RelaySocket Interruption Bytes := do
  if maxWebSocketPayload < length then throw (.failed "oversized ws frame".toList)
  let maskLength := if hasMask then 4 else 0
  fillUntil (offset + maskLength + length)
  let payload ← slice (offset + maskLength) (offset + maskLength + length)
  let mask ← slice offset (offset + 4)
  modify fun s => { s with buffer := s.buffer.drop (offset + maskLength + length) }
  return if hasMask then masked (maskAt mask) payload else payload

def readFrameUntil : Attempt RelaySocket Interruption (UInt8 × Bytes) := do
  fillUntil 2
  let header ← slice 0 2
  let (offset,length) ← readLength (header.getD 1 0 &&& 0x7f)
  let payload ← readPayload (header.getD 1 0 &&& 0x80 ≠ 0) offset length
  return (header.getD 0 0 &&& 0x0f,payload)

section Reading
variable {s t u : RelaySocket}

def stream (s : RelaySocket) : Bytes := s.buffer ++ delivered s.turns

@[simp] theorem delivered_append (turns more : List Turn) : delivered (turns ++ more) = delivered turns ++ delivered more := by
  induction turns with
  | nil => rfl
  | cons turn turns ih => cases turn <;> simp [delivered, ih]

/-- From `s` to `t` some turns went by, and of what was read these bytes have left the buffer. -/
def Took (bytes : Bytes) (s t : RelaySocket) : Prop :=
  ∃ used, s.turns = used ++ t.turns ∧ s.buffer ++ delivered used = bytes ++ t.buffer

theorem Took.refl (s : RelaySocket) : Took [] s s := ⟨[],rfl,by simp [delivered]⟩

theorem Took.trans {bytes more : Bytes} (h : Took bytes s t) (h' : Took more t u) : Took (bytes ++ more) s u := by
  obtain ⟨used,hturns,hbytes⟩ := h
  obtain ⟨used',hturns',hbytes'⟩ := h'
  refine ⟨used ++ used',?_,?_⟩
  · rw [hturns, hturns', List.append_assoc]
  · rw [delivered_append, ← List.append_assoc, hbytes, List.append_assoc, hbytes', List.append_assoc]

theorem Took.stream {bytes : Bytes} (h : Took bytes s t) : s.stream = bytes ++ t.stream := by
  obtain ⟨used,hturns,hbytes⟩ := h
  rw [RelaySocket.stream, hturns, delivered_append, ← List.append_assoc, hbytes, List.append_assoc]
  rfl

theorem Took.length_turns {bytes : Bytes} (h : Took bytes s t) : t.turns.length ≤ s.turns.length := by
  obtain ⟨used,hturns,-⟩ := h
  rw [hturns, List.length_append]
  exact Nat.le_add_left _ _

def Ended (turns : List Turn) : Interruption → List Turn → Prop
  | .waiting,left => left = []
  | .stopped _,left => left.length < turns.length
  | .failed _,left => left.length < turns.length

theorem fill_spec (needed : ℕ) (buffer : Bytes) (turns : List Turn) :
    ∃ used, turns = used ++ (fill needed buffer turns).2.2 ∧ buffer ++ delivered used = (fill needed buffer turns).2.1 ∧
      ((fill needed buffer turns).1 = .ok ⟨⟩ ∧ needed ≤ (fill needed buffer turns).2.1.length ∨
        ∃ e, (fill needed buffer turns).1 = .error e ∧ (fill needed buffer turns).2.1.length < needed ∧
          Ended turns e (fill needed buffer turns).2.2) := by
  induction turns generalizing buffer with
  | nil =>
    unfold fill
    split_ifs with h
    · exact ⟨[],rfl,by simp [delivered],.inl ⟨rfl,h⟩⟩
    · exact ⟨[],rfl,by simp [delivered],.inr ⟨_,rfl,Nat.lt_of_not_le h,rfl⟩⟩
  | cons turn turns ih =>
    unfold fill
    split_ifs with h
    · exact ⟨[],rfl,by simp [delivered],.inl ⟨rfl,h⟩⟩
    have hshort : buffer.length < needed := Nat.lt_of_not_le h
    have hnext (buffer' : Bytes) (hbytes : buffer ++ delivered [turn] = buffer') :
        ∃ used, turn :: turns = used ++ (fill needed buffer' turns).2.2 ∧
          buffer ++ delivered used = (fill needed buffer' turns).2.1 ∧
          ((fill needed buffer' turns).1 = .ok ⟨⟩ ∧ needed ≤ (fill needed buffer' turns).2.1.length ∨
            ∃ e, (fill needed buffer' turns).1 = .error e ∧ (fill needed buffer' turns).2.1.length < needed ∧
              Ended (turn :: turns) e (fill needed buffer' turns).2.2) := by
      obtain ⟨used,hturns,hused,hend⟩ := ih buffer'
      refine ⟨turn :: used,?_,?_,?_⟩
      · rw [List.cons_append, ← hturns]
      · rw [← hused, ← hbytes, List.append_assoc, ← delivered_append]
        rfl
      · refine hend.imp id ?_
        rintro ⟨e,he,hlength,hended⟩
        refine ⟨e,he,hlength,?_⟩
        cases e with
        | waiting => exact hended
        | stopped cancelled | failed error => exact Nat.lt_succ_of_lt hended
    cases turn with
    | stop cancelled => exact ⟨[.stop cancelled],rfl,by simp [delivered],.inr ⟨_,rfl,hshort,Nat.lt_succ_self _⟩⟩
    | blocked => exact hnext buffer (by simp [delivered])
    | failed error => exact ⟨[.failed error],rfl,by simp [delivered],.inr ⟨_,rfl,hshort,Nat.lt_succ_self _⟩⟩
    | read bytes =>
      dsimp only
      split_ifs with hempty
      · subst hempty
        exact ⟨[.read []],rfl,by simp [delivered],.inr ⟨_,rfl,hshort,Nat.lt_succ_self _⟩⟩
      · exact hnext (buffer ++ bytes) (by simp [delivered])

/-- Nothing has left the buffer since `s`. -/
def Since (s t : RelaySocket) : Prop := Took [] s t ∧ t.sent = s.sent

/-- So many bytes, or an end. -/
theorem holds_fillUntil (s : RelaySocket) (needed : ℕ) :
    Holds (Since s) (fillUntil needed) fun outcome t => Since s t ∧
      match outcome with
      | .ok _ => needed ≤ t.buffer.length
      | .error e => t.buffer.length < needed ∧ Ended s.turns e t.turns := by
  rintro t ⟨htook,hsent⟩
  obtain ⟨used,hturns,hbytes,hend⟩ := fill_spec needed t.buffer t.turns
  have hthen : Since s (perform (fillUntil needed) t).2 := ⟨htook.trans ⟨used,hturns,hbytes⟩,hsent⟩
  refine ⟨hthen,?_⟩
  have hperform : (perform (fillUntil needed) t).1 = (fill needed t.buffer t.turns).1 := rfl
  rw [hperform]
  rcases hend with ⟨hok,hlength⟩ | ⟨e,he,hlength,hended⟩
  · rw [hok]
    exact hlength
  · rw [he]
    refine ⟨hlength,?_⟩
    have hmore := htook.length_turns
    cases e with
    | waiting => exact hended
    | stopped cancelled | failed error => exact Nat.lt_of_lt_of_le hended hmore

theorem Since.refl (s : RelaySocket) : Since s s := ⟨.refl s,rfl⟩

theorem Since.take (h : Since s t) {n : ℕ} (hn : n ≤ t.buffer.length) : t.buffer.take n = s.stream.take n := by
  rw [h.1.stream, List.nil_append, stream, List.take_append_of_le_length hn]

theorem Since.length (h : Since s t) : t.buffer.length ≤ s.stream.length := by
  rw [h.1.stream, List.nil_append, stream, List.length_append]
  exact Nat.le_add_right _ _

theorem holds_slice (s : RelaySocket) (a : ℕ) {b n : ℕ} (hb : b ≤ n) :
    Holds (fun t => Since s t ∧ n ≤ t.buffer.length) (slice a b) fun outcome t =>
      (Since s t ∧ n ≤ t.buffer.length) ∧ outcome = .ok ((s.stream.take b).drop a) := by
  rintro t ⟨hs,hn⟩
  refine ⟨⟨hs,hn⟩,?_⟩
  rw [← hs.take (Nat.le_trans hb hn)]
  rfl

section Header
variable (bytes : Bytes)

def opcodeOf : UInt8 := bytes.getD 0 0 &&& 0x0f
def isMasked : Bool := bytes.getD 1 0 &&& 0x80 ≠ 0
def shortLength : UInt8 := bytes.getD 1 0 &&& 0x7f

def lengthEnd : ℕ := if shortLength bytes = 126 then 4 else if shortLength bytes = 127 then 10 else 2

def lengthOf : ℕ :=
  if shortLength bytes = 126 then readBe ((bytes.take 4).drop 2)
  else if shortLength bytes = 127 then readBe ((bytes.take 10).drop 2)
  else (shortLength bytes).toNat

def maskLength : ℕ := if isMasked bytes then 4 else 0

def frameEnd : ℕ := lengthEnd bytes + maskLength bytes + lengthOf bytes

def payloadOf : Bytes :=
  let payload := (bytes.take (frameEnd bytes)).drop (lengthEnd bytes + maskLength bytes)
  if isMasked bytes then masked (maskAt ((bytes.take (lengthEnd bytes + 4)).drop (lengthEnd bytes))) payload else payload

end Header

/-- What `read_frame_until` does, as a function of what is there and what will come. -/
def ReadsFrame (s : RelaySocket) : Except Interruption (UInt8 × Bytes) → RelaySocket → Prop
  | .ok (opcode,payload),t => Took (s.stream.take (frameEnd s.stream)) s t ∧ t.sent = s.sent ∧
      frameEnd s.stream ≤ s.stream.length ∧ opcode = opcodeOf s.stream ∧ payload = payloadOf s.stream
  | .error e,t => Since s t ∧
      ((lengthEnd s.stream ≤ s.stream.length ∧ maxWebSocketPayload < lengthOf s.stream) ∨
        Ended s.turns e t.turns ∧ (t.buffer.length < 2 ∨ (2 ≤ s.stream.length ∧ t.buffer.length < lengthEnd s.stream) ∨
          (lengthEnd s.stream ≤ s.stream.length ∧ t.buffer.length < frameEnd s.stream)))

theorem holds_readLength (s : RelaySocket) :
    Holds (fun t => Since s t ∧ 2 ≤ t.buffer.length) (readLength (shortLength s.stream)) fun outcome t => Since s t ∧
      match outcome with
      | .ok (offset,length) => offset = lengthEnd s.stream ∧ length = lengthOf s.stream ∧ offset ≤ t.buffer.length
      | .error e => t.buffer.length < lengthEnd s.stream ∧ Ended s.turns e t.turns := by
  unfold readLength lengthEnd lengthOf
  split_ifs with hsixteen hsixtyFour
  · refine holds_bind ((holds_fillUntil s 4).mono (fun t ht => ht.1) fun _ _ h => h) (fun _ => ?_) fun e t h => h
    refine holds_bind (holds_slice s 2 (Nat.le_refl 4)) (fun bytes => ?_) fun e t h => absurd h.2 (by simp)
    rintro t ⟨⟨hs,hlength⟩,hbytes⟩
    cases hbytes
    exact ⟨hs,rfl,rfl,hlength⟩
  · refine holds_bind ((holds_fillUntil s 10).mono (fun t ht => ht.1) fun _ _ h => h) (fun _ => ?_) fun e t h => h
    refine holds_bind (holds_slice s 2 (Nat.le_refl 10)) (fun bytes => ?_) fun e t h => absurd h.2 (by simp)
    rintro t ⟨⟨hs,hlength⟩,hbytes⟩
    cases hbytes
    exact ⟨hs,rfl,rfl,hlength⟩
  · rintro t ⟨hs,hlength⟩
    exact ⟨hs,rfl,rfl,hlength⟩

theorem perform_take {α : Type} (a b c d e : ℕ) (f : Bytes → Bytes → α) (t : RelaySocket) :
    perform (do
      let payload ← slice a b
      let mask ← slice c d
      modify fun t => { t with buffer := t.buffer.drop e }
      return f payload mask : Attempt RelaySocket Interruption α) t =
        (.ok (f ((t.buffer.take b).drop a) ((t.buffer.take d).drop c)),{ t with buffer := t.buffer.drop e }) := rfl

/-- The frame leaves the buffer when it is there. -/
theorem holds_readPayload (s : RelaySocket) :
    Holds (Since s) (readPayload (isMasked s.stream) (lengthEnd s.stream) (lengthOf s.stream)) fun outcome t =>
      match outcome with
      | .ok payload => Took (s.stream.take (frameEnd s.stream)) s t ∧ t.sent = s.sent ∧
          frameEnd s.stream ≤ s.stream.length ∧ payload = payloadOf s.stream
      | .error e => Since s t ∧ (maxWebSocketPayload < lengthOf s.stream ∨
          Ended s.turns e t.turns ∧ t.buffer.length < frameEnd s.stream) := by
  unfold readPayload
  by_cases hbig : maxWebSocketPayload < lengthOf s.stream
  · simp only [hbig, if_true]
    exact fun t ht => ⟨ht,.inl trivial⟩
  simp only [hbig, if_false]
  refine holds_bind (holds_fillUntil s (frameEnd s.stream)) (fun _ => ?_) fun e t h => ⟨h.1,.inr ⟨h.2.2,h.2.1⟩⟩
  rintro t ⟨hs,hend⟩
  rw [show lengthEnd s.stream + (if isMasked s.stream then 4 else 0) + lengthOf s.stream = frameEnd s.stream from rfl,
    perform_take]
  refine ⟨?_,hs.2,Nat.le_trans hend hs.length,?_⟩
  · obtain ⟨used,hturns,hbytes⟩ := hs.1
    refine ⟨used,hturns,?_⟩
    rw [hbytes, ← hs.take hend]
    exact (List.take_append_drop _ _).symm
  · unfold payloadOf
    rw [hs.take hend]
    cases hmasked : isMasked s.stream with
    | false => simp [maskLength, hmasked]
    | true =>
      have hmask : lengthEnd s.stream + 4 ≤ t.buffer.length := by
        have hparts : frameEnd s.stream = lengthEnd s.stream + 4 + lengthOf s.stream := by
          rw [frameEnd, maskLength, hmasked, if_pos rfl]
        have hroom : frameEnd s.stream ≤ t.buffer.length := hend
        omega
      rw [hs.take hmask]
      simp [maskLength, hmasked]

theorem holds_readFrameUntil (s : RelaySocket) : Holds (Since s) readFrameUntil (ReadsFrame s) := by
  refine holds_bind (holds_fillUntil s 2) (fun _ => ?_) fun e t h => ⟨h.1,.inr ⟨h.2.2,.inl h.2.1⟩⟩
  refine .knowing (fun t ht => Nat.le_trans ht.2 ht.1.length) fun htwo => ?_
  refine holds_bind (holds_slice s 0 (Nat.le_refl 2)) (fun header => .given fun hheader => ?_) fun e t h => absurd h.2 (by simp)
  obtain rfl : header = s.stream.take 2 := by simpa using hheader
  have hfirst : (s.stream.take 2).getD 0 0 = s.stream.getD 0 0 := by simp
  have hsecond : (s.stream.take 2).getD 1 0 = s.stream.getD 1 0 := by simp
  rw [hfirst, hsecond]
  refine holds_bind (holds_readLength s) (fun header => ?_) fun e t h => ⟨h.1,.inr ⟨h.2.2,.inr (.inl ⟨htwo,h.2.1⟩)⟩⟩
  obtain ⟨offset,length⟩ := header
  have hknown (t : RelaySocket) (ht : Since s t ∧ offset = lengthEnd s.stream ∧ length = lengthOf s.stream ∧ offset ≤ t.buffer.length) :
      offset = lengthEnd s.stream ∧ length = lengthOf s.stream ∧ lengthEnd s.stream ≤ s.stream.length :=
    ⟨ht.2.1,ht.2.2.1,ht.2.1 ▸ Nat.le_trans ht.2.2.2 ht.1.length⟩
  refine .knowing hknown ?_
  rintro ⟨rfl,rfl,hlengthEnd⟩
  refine holds_bind ((holds_readPayload s).mono (fun t ht => ht.1) fun _ _ h => h) (fun payload => ?_) fun e t h => ?_
  · exact fun t ht => ⟨ht.1,ht.2.1,ht.2.2.1,rfl,ht.2.2.2⟩
  · exact ⟨h.1,h.2.imp (fun hbig => ⟨hlengthEnd,hbig⟩) fun hend => ⟨hend.1,.inr (.inr ⟨hlengthEnd,hend.2⟩)⟩⟩

end Reading

section Receiving
variable {s t : RelaySocket}

theorem two_le_frameEnd (bytes : Bytes) : 2 ≤ frameEnd bytes := by
  unfold frameEnd lengthEnd
  split_ifs <;> omega

theorem read_ok {opcode : UInt8} {payload : Bytes} (h : perform readFrameUntil s = (.ok (opcode,payload),t)) :
    ReadsFrame s (.ok (opcode,payload)) t := by
  have hreads := holds_readFrameUntil s s (.refl s)
  rwa [h] at hreads

theorem read_error {e : Interruption} (h : perform readFrameUntil s = (.error e,t)) : ReadsFrame s (.error e) t := by
  have hreads := holds_readFrameUntil s s (.refl s)
  rwa [h] at hreads

theorem stream_lt {opcode : UInt8} {payload : Bytes} (h : perform readFrameUntil s = (.ok (opcode,payload),t)) :
    t.stream.length < s.stream.length := by
  obtain ⟨htook,-,hend,-⟩ := read_ok h
  have htwo := two_le_frameEnd s.stream
  have hlength := congrArg List.length htook.stream
  rw [List.length_append, List.length_take, Nat.min_eq_left hend] at hlength
  omega

end Receiving

/-- A frame that is written with the mask and, perhaps, the error of the `k`-th write. -/
def pong (sends : ℕ → Vector UInt8 4 × Option Text) (payload : Bytes) (s : RelaySocket) : ReceiveOutcome × RelaySocket :=
  let (mask,error) := sends s.sent.length
  let s := { s with sent := s.sent ++ [sendOpcode 0xA payload mask] }
  match error with
  | some error => (.error ("ws send: ".toList ++ error),s)
  | none => (.control,s)

def receiveTimeoutCancellable (sends : ℕ → Vector UInt8 4 × Option Text) (s : RelaySocket) : ReceiveOutcome × RelaySocket :=
  match _hread : perform readFrameUntil s with
  | (.error (.stopped cancelled),t) => (if cancelled then .error "relay receive cancelled".toList else .idle,t)
  | (.error (.failed error),t) => (.error error,t)
  | (.error .waiting,t) => (.waiting,t)
  | (.ok (opcode,payload),t) =>
    if opcode = 0x2 ∨ opcode = 0x1 then (.message payload,t)
    else if opcode = 0x9 then pong sends payload t
    else if opcode = 0xA then (.control,t)
    else if opcode = 0x8 then (.error "relay closed the socket".toList,t)
    else receiveTimeoutCancellable sends t
termination_by s.stream.length
decreasing_by exact stream_lt _hread

def receiveCalls (sends : ℕ → Vector UInt8 4 × Option Text) : ℕ → RelaySocket → List ReceiveOutcome × RelaySocket
  | 0, s => ([],s)
  | n + 1, s =>
    let (outcome,t) := receiveTimeoutCancellable sends s
    let (outcomes,u) := receiveCalls sends n t
    (outcome :: outcomes,u)

section Frames

inductive Width where
  | seven
  | sixteen
  | sixtyFour
deriving DecidableEq

def Width.limit : Width → ℕ
  | .seven => 126
  | .sixteen => 65536
  | .sixtyFour => 18446744073709551616

structure Frame where
  first : UInt8
  width : Width
  mask : Option (Vector UInt8 4)
  payload : Bytes
  final : first &&& 0x80 = 0x80
  fits : payload.length < width.limit

def Frame.opcode (f : Frame) : UInt8 := f.first &&& 0x0f

def Frame.isData (f : Frame) : Bool := f.opcode = 0x2 || f.opcode = 0x1

def Frame.lengthField (f : Frame) : UInt8 :=
  match f.width with
  | .seven => UInt8.ofNat f.payload.length
  | .sixteen => 126
  | .sixtyFour => 127

def Frame.extended (f : Frame) : Bytes :=
  match f.width with
  | .seven => []
  | .sixteen => beBytes 2 f.payload.length
  | .sixtyFour => beBytes 8 f.payload.length

def Frame.second (f : Frame) : UInt8 := (if f.mask.isSome then 0x80 else 0) ||| f.lengthField

def Frame.body (f : Frame) : Bytes :=
  match f.mask with
  | none => f.payload
  | some mask => mask.toList ++ masked mask f.payload

def Frame.bytes (f : Frame) : Bytes := f.first :: f.second :: f.extended ++ f.body

def payloads (frames : List Frame) : List Bytes := (frames.filter Frame.isData).map Frame.payload

variable {f : Frame} {bytes unread rest : Bytes}

theorem prefix_of_le (start rest : Bytes) (h : bytes ++ unread = start ++ rest) (hlength : start.length ≤ bytes.length) :
    ∃ more, bytes = start ++ more := by
  obtain ⟨c,hc,-⟩ | ⟨c,hc,-⟩ := List.append_eq_append_iff.mp h
  · rw [hc, List.length_append] at hlength
    have hnil : c = [] := List.eq_nil_of_length_eq_zero (by omega)
    exact ⟨[],by rw [hc, hnil, List.append_nil, List.append_nil]⟩
  · exact ⟨c,hc⟩

theorem masked_masked (mask : Vector UInt8 4) (payload : Bytes) : masked mask (masked mask payload) = payload := by
  unfold masked
  rw [List.mapIdx_mapIdx]
  apply List.ext_getElem
  · simp
  · intro i hi hi'
    simp only [List.getElem_mapIdx, Function.comp_apply, UInt8.xor_assoc, UInt8.xor_self, UInt8.xor_zero]

@[simp] theorem length_masked (mask : Vector UInt8 4) (payload : Bytes) : (masked mask payload).length = payload.length := by
  simp [masked]

theorem maskAt_toList (mask : Vector UInt8 4) : maskAt mask.toList = mask := by
  ext i hi
  simp [maskAt]

theorem second_bits (n : ℕ) (h : n < 128) : (UInt8.ofNat n &&& 0x7f = UInt8.ofNat n ∧ UInt8.ofNat n &&& 0x80 = 0) ∧
    (0x80 ||| UInt8.ofNat n) &&& 0x7f = UInt8.ofNat n ∧ (0x80 ||| UInt8.ofNat n) &&& 0x80 ≠ 0 := by
  revert n
  decide +kernel

theorem Frame.lengthField_lt (f : Frame) : ∃ n < 128, f.lengthField = UInt8.ofNat n := by
  have hfits := f.fits
  unfold lengthField
  cases hwidth : f.width with
  | seven =>
    rw [hwidth] at hfits
    exact ⟨f.payload.length,Nat.lt_trans hfits (by decide),rfl⟩
  | sixteen => exact ⟨126,by decide,rfl⟩
  | sixtyFour => exact ⟨127,by decide,rfl⟩

theorem Frame.lengthField_seven (f : Frame) (h : f.width = .seven) :
    f.lengthField.toNat = f.payload.length ∧ f.lengthField ≠ 126 ∧ f.lengthField ≠ 127 := by
  have hfits := f.fits
  have hfield : f.lengthField = UInt8.ofNat f.payload.length := by simp [lengthField, h]
  rw [h] at hfits
  have hlength : f.lengthField.toNat = f.payload.length := by
    rw [hfield, UInt8.toNat_ofNat']
    exact Nat.mod_eq_of_lt (Nat.lt_trans hfits (by decide))
  have hlt : f.lengthField.toNat < 126 := hlength ▸ hfits
  refine ⟨hlength,fun hno => ?_,fun hno => ?_⟩
  · exact absurd hlt (by simp [hno])
  · exact absurd hlt (by simp [hno])

theorem Frame.second_short (f : Frame) : f.second &&& 0x7f = f.lengthField := by
  obtain ⟨n,hn,hfield⟩ := f.lengthField_lt
  obtain ⟨⟨hplain,-⟩,hmasked,-⟩ := second_bits n hn
  unfold second
  rw [hfield]
  split_ifs
  · exact hmasked
  · rw [UInt8.zero_or, hplain]

theorem Frame.second_masked (f : Frame) : decide (f.second &&& 0x80 ≠ 0) = f.mask.isSome := by
  obtain ⟨n,hn,hfield⟩ := f.lengthField_lt
  obtain ⟨⟨-,hplain⟩,-,hmasked⟩ := second_bits n hn
  unfold second
  rw [hfield]
  split_ifs with hsome
  · rw [hsome]
    exact decide_eq_true hmasked
  · rw [UInt8.zero_or, hplain]
    simpa using hsome

def Frame.header (f : Frame) : Bytes := f.first :: f.second :: f.extended

section Parse
variable (h : bytes ++ unread = f.bytes ++ rest)
include h

theorem frame_first (htwo : 2 ≤ bytes.length) : opcodeOf bytes = f.opcode ∧ isMasked bytes = f.mask.isSome ∧
    shortLength bytes = f.lengthField := by
  obtain ⟨more,rfl⟩ := prefix_of_le [f.first,f.second] (f.extended ++ f.body ++ rest) (by simpa [Frame.bytes] using h) htwo
  exact ⟨rfl,f.second_masked,f.second_short⟩

theorem frame_lengthEnd (htwo : 2 ≤ bytes.length) : lengthEnd bytes = f.header.length := by
  obtain ⟨-,-,hshort⟩ := frame_first h htwo
  unfold lengthEnd Frame.header Frame.extended
  rw [hshort]
  cases hwidth : f.width with
  | seven =>
    obtain ⟨-,hsixteen,hsixtyFour⟩ := f.lengthField_seven hwidth
    rw [if_neg hsixteen, if_neg hsixtyFour]
    rfl
  | sixteen | sixtyFour => simp [Frame.lengthField, hwidth]

theorem frame_lengthOf (hheader : f.header.length ≤ bytes.length) : lengthOf bytes = f.payload.length := by
  have htwo : 2 ≤ bytes.length := Nat.le_trans (by simp [Frame.header]) hheader
  obtain ⟨-,-,hshort⟩ := frame_first h htwo
  obtain ⟨more,rfl⟩ := prefix_of_le f.header (f.body ++ rest) (by simpa [Frame.bytes, Frame.header] using h) hheader
  have hfits := f.fits
  unfold lengthOf
  rw [hshort]
  cases hwidth : f.width with
  | seven =>
    obtain ⟨hlength,hsixteen,hsixtyFour⟩ := f.lengthField_seven hwidth
    rw [if_neg hsixteen, if_neg hsixtyFour, hlength]
  | sixteen =>
    rw [hwidth] at hfits
    have hread := readBe_beBytes_of_lt (w := 2) hfits
    simpa [Frame.lengthField, Frame.header, Frame.extended, hwidth] using hread
  | sixtyFour =>
    rw [hwidth] at hfits
    have hread := readBe_beBytes_of_lt (w := 8) hfits
    simpa [Frame.lengthField, Frame.header, Frame.extended, hwidth] using hread

theorem frame_maskLength (htwo : 2 ≤ bytes.length) : maskLength bytes + f.payload.length = f.body.length := by
  obtain ⟨-,hmasked,-⟩ := frame_first h htwo
  unfold maskLength Frame.body
  rw [hmasked]
  cases f.mask with
  | none | some mask => simp

theorem frame_end (hheader : f.header.length ≤ bytes.length) : frameEnd bytes = f.bytes.length := by
  have htwo : 2 ≤ bytes.length := Nat.le_trans (by simp [Frame.header]) hheader
  have hmask := frame_maskLength h htwo
  have hbytes : f.bytes.length = f.header.length + f.body.length := by
    rw [← List.length_append]
    rfl
  rw [frameEnd, frame_lengthEnd h htwo, frame_lengthOf h hheader, hbytes]
  omega

theorem frame_payload (hall : f.bytes.length ≤ bytes.length) : payloadOf bytes = f.payload := by
  have hbytes : f.bytes = f.header ++ f.body := rfl
  have hheader : f.header.length ≤ bytes.length := Nat.le_trans (by simp [hbytes]) hall
  have htwo : 2 ≤ bytes.length := Nat.le_trans (by simp [Frame.header]) hheader
  obtain ⟨-,hmasked,-⟩ := frame_first h htwo
  have hend := frame_end h hheader
  have hlengthEnd := frame_lengthEnd h htwo
  unfold payloadOf maskLength
  rw [hend, hlengthEnd, hmasked]
  obtain ⟨more,rfl⟩ := prefix_of_le f.bytes rest h hall
  rw [List.take_left, hbytes]
  unfold Frame.body
  cases f.mask with
  | none => simp
  | some mask =>
    have hfour : mask.toList.length = 4 := mask.length_toList
    have hmask : ((f.header ++ (mask.toList ++ masked mask f.payload) ++ more).take (f.header.length + 4)).drop f.header.length =
        mask.toList := by
      rw [List.append_assoc, List.append_assoc, List.take_length_add_append, List.drop_left, List.take_left' hfour]
    have hbody : (f.header ++ (mask.toList ++ masked mask f.payload)).drop (f.header.length + 4) = masked mask f.payload := by
      rw [← List.append_assoc, List.drop_left' (by rw [List.length_append, hfour])]
    simp only [Option.isSome_some, if_true]
    rw [hmask, hbody, maskAt_toList, masked_masked]

end Parse

end Frames

section Calls
variable {s t : RelaySocket} {frames : List Frame} {unread : Bytes} {sends : ℕ → Vector UInt8 4 × Option Text}
variable {outcome : ReceiveOutcome}

def Partial (t : RelaySocket) (frames : List Frame) : Prop := ∀ f ∈ frames.head?, t.buffer.length < f.bytes.length

theorem two_le_lengthEnd (bytes : Bytes) : 2 ≤ lengthEnd bytes := by
  unfold lengthEnd
  split_ifs <;> omega

theorem Frame.header_le (f : Frame) : 2 ≤ f.header.length ∧ f.header.length ≤ f.bytes.length := by
  have hbytes : f.bytes = f.header ++ f.body := rfl
  rw [hbytes]
  simp [header]

section Frame
variable (h : s.stream ++ unread = frames.flatMap Frame.bytes)
include h

/-- A frame that is read is the next one. -/
theorem read_next {opcode : UInt8} {payload : Bytes} (hread : perform readFrameUntil s = (.ok (opcode,payload),t)) :
    ∃ f rest, frames = f :: rest ∧ opcode = f.opcode ∧ payload = f.payload ∧ Took f.bytes s t ∧ t.sent = s.sent := by
  obtain ⟨htook,hsent,hend,hopcode,hpayload⟩ := read_ok hread
  have htwo := Nat.le_trans (two_le_frameEnd s.stream) hend
  cases frames with
  | nil =>
    rw [(List.append_eq_nil_iff.mp h).1] at htwo
    exact absurd htwo (by decide)
  | cons f rest =>
    have hheader : f.header.length ≤ s.stream.length := by
      rw [← frame_lengthEnd h htwo]
      exact Nat.le_trans (Nat.le_trans (Nat.le_add_right _ _) (Nat.le_add_right _ _)) hend
    have hframeEnd := frame_end h hheader
    rw [hframeEnd] at hend htook
    obtain ⟨more,hmore⟩ := prefix_of_le f.bytes _ h hend
    rw [hmore, List.take_left] at htook
    exact ⟨f,rest,rfl,hopcode.trans (frame_first h htwo).1,hpayload.trans (frame_payload h hend),htook,hsent⟩

theorem read_none (hbounded : ∀ f ∈ frames, f.payload.length ≤ maxWebSocketPayload) {e : Interruption}
    (hread : perform readFrameUntil s = (.error e,t)) : Since s t ∧ Ended s.turns e t.turns ∧ Partial t frames := by
  obtain ⟨hsince,hwhy⟩ := read_error hread
  have hlengthEnd := two_le_lengthEnd s.stream
  cases frames with
  | nil =>
    have hempty := (List.append_eq_nil_iff.mp h).1
    rcases hwhy with ⟨hheader,-⟩ | ⟨hended,-⟩
    · rw [hempty] at hheader hlengthEnd
      exact absurd (Nat.le_trans hlengthEnd hheader) (by decide)
    · exact ⟨hsince,hended,fun f hf => absurd hf (by simp)⟩
  | cons f rest =>
    obtain ⟨htwoHeader,hheaderBytes⟩ := f.header_le
    rcases hwhy with ⟨hheader,hbig⟩ | ⟨hended,hshort⟩
    · have htwo := Nat.le_trans hlengthEnd hheader
      rw [frame_lengthEnd h htwo] at hheader
      rw [frame_lengthOf h hheader] at hbig
      exact absurd (hbounded f (List.mem_cons_self ..)) (Nat.not_le.mpr hbig)
    · refine ⟨hsince,hended,?_⟩
      rintro _ ⟨⟩
      rcases hshort with hshort | ⟨htwo,hshort⟩ | ⟨hheader,hshort⟩
      · exact Nat.lt_of_lt_of_le hshort (Nat.le_trans htwoHeader hheaderBytes)
      · rw [frame_lengthEnd h htwo] at hshort
        exact Nat.lt_of_lt_of_le hshort hheaderBytes
      · rw [frame_lengthEnd h (Nat.le_trans hlengthEnd hheader)] at hheader
        rwa [frame_end h hheader] at hshort

end Frame

structure Received (frames : List Frame) (s : RelaySocket) (outcome : ReceiveOutcome) (t : RelaySocket) (done rest : List Frame) :
    Prop where
  split : frames = done ++ rest
  took : Took (done.flatMap Frame.bytes) s t
  payloads : payloads done = outcome.message?.toList
  waits : outcome = .waiting → t.turns = [] ∧ Partial t rest
  idle : outcome = .idle → Partial t rest
  moves : outcome ≠ .waiting → rest.length + t.turns.length < frames.length + s.turns.length

theorem payloads_cons (f : Frame) (frames : List Frame) :
    payloads (f :: frames) = if f.isData then f.payload :: payloads frames else payloads frames := by
  unfold payloads
  cases hdata : f.isData <;> simp [hdata]

theorem payloads_append (frames more : List Frame) : payloads (frames ++ more) = payloads frames ++ payloads more := by
  simp [payloads]

theorem received_one {f : Frame} {rest : List Frame} (htook : Took f.bytes s t)
    (hpayloads : (if f.isData then [f.payload] else []) = outcome.message?.toList) (hwaits : outcome ≠ .waiting)
    (hidle : outcome ≠ .idle) : Received (f :: rest) s outcome t [f] rest where
  split := rfl
  took := by simpa using htook
  payloads := by
    rw [payloads_cons]
    exact hpayloads
  waits := fun hno => absurd hno hwaits
  idle := fun hno => absurd hno hidle
  moves := fun _ => by
    have hturns := htook.length_turns
    rw [List.length_cons]
    omega

theorem received_none {e : Interruption} (hsince : Since s t) (hended : Ended s.turns e t.turns)
    (hcut : Partial t frames) (hnone : outcome.message? = none) (hwaits : outcome = .waiting ↔ e = .waiting) :
    Received frames s outcome t [] frames where
  split := rfl
  took := hsince.1
  payloads := by
    rw [hnone]
    rfl
  waits := fun h => by
    rw [hwaits.mp h] at hended
    exact ⟨hended,hcut⟩
  idle := fun _ => hcut
  moves := fun h => by
    have hlt : t.turns.length < s.turns.length := by
      cases e with
      | waiting => exact absurd (hwaits.mpr rfl) h
      | stopped cancelled | failed error => exact hended
    omega

theorem pong_spec (sends : ℕ → Vector UInt8 4 × Option Text) (payload : Bytes) (t : RelaySocket) :
    ∃ outcome sent, pong sends payload t = (outcome,{ t with sent := sent }) ∧ outcome.message? = none ∧
      outcome ≠ .waiting ∧ outcome ≠ .idle := by
  unfold pong
  rcases sends t.sent.length with ⟨mask,error⟩
  cases error with
  | none | some error => exact ⟨_,_,rfl,rfl,nofun,nofun⟩

/-- Induction on the frames; only those of other opcodes are passed over in a call. -/
theorem receive_spec (sends : ℕ → Vector UInt8 4 × Option Text) (h : s.stream ++ unread = frames.flatMap Frame.bytes)
    (hbounded : ∀ f ∈ frames, f.payload.length ≤ maxWebSocketPayload) :
    ∃ done rest, Received frames s (receiveTimeoutCancellable sends s).1 (receiveTimeoutCancellable sends s).2 done rest := by
  fun_induction receiveTimeoutCancellable sends s generalizing frames with
  | case1 s cancelled t hread =>
    obtain ⟨hsince,hended,hcut⟩ := read_none h hbounded hread
    refine ⟨[],frames,received_none hsince hended hcut ?_ ?_⟩
    · cases cancelled <;> rfl
    · cases cancelled <;> simp
  | case2 s error t hread | case3 s t hread =>
    obtain ⟨hsince,hended,hcut⟩ := read_none h hbounded hread
    exact ⟨[],frames,received_none hsince hended hcut rfl (by simp)⟩
  | case4 s opcode payload t hread hdata =>
    obtain ⟨f,rest,rfl,rfl,rfl,htook,-⟩ := read_next h hread
    refine ⟨[f],rest,received_one htook ?_ nofun nofun⟩
    rw [if_pos (by simpa [Frame.isData] using hdata)]
    rfl
  | case5 s payload t hread hdata =>
    obtain ⟨f,rest,rfl,hopcode,rfl,htook,-⟩ := read_next h hread
    have hplain : f.isData = false := by simp [Frame.isData, ← hopcode]
    obtain ⟨outcome,sent,hpong,hnone,hwaits,hidle⟩ := pong_spec sends f.payload t
    have htook' : Took f.bytes s { t with sent := sent } := htook
    rw [hpong]
    refine ⟨[f],rest,received_one htook' ?_ hwaits hidle⟩
    rw [hplain, hnone]
    rfl
  | case6 s payload t hread hdata | case7 s payload t hread hdata =>
    obtain ⟨f,rest,rfl,hopcode,rfl,htook,-⟩ := read_next h hread
    have hplain : f.isData = false := by simp [Frame.isData, ← hopcode]
    refine ⟨[f],rest,received_one htook ?_ nofun nofun⟩
    rw [hplain]
    rfl
  | case8 s opcode payload t hread hdata hping hpong hclose ih =>
    obtain ⟨f,rest,rfl,rfl,rfl,htook,-⟩ := read_next h hread
    have hplain : f.isData = false := by simpa [Frame.isData] using hdata
    have hnext : t.stream ++ unread = rest.flatMap Frame.bytes := by
      rw [htook.stream, List.flatMap_cons, List.append_assoc] at h
      exact List.append_cancel_left h
    obtain ⟨done,left,hreceived⟩ := ih hnext fun g hg => hbounded g (List.mem_cons_of_mem _ hg)
    refine ⟨f :: done,left,⟨?_,?_,?_,hreceived.waits,hreceived.idle,fun hmoves => ?_⟩⟩
    · rw [hreceived.split]
      rfl
    · rw [List.flatMap_cons]
      exact htook.trans hreceived.took
    · rw [payloads_cons, hplain]
      exact hreceived.payloads
    · have hless := hreceived.moves hmoves
      have hturns := htook.length_turns
      rw [List.length_cons]
      omega

/-- Without more turns nothing more is read. -/
theorem stays_partial {done rest : List Frame} (htook : Took (done.flatMap Frame.bytes) s t) (hturns : s.turns = [])
    (hcut : Partial s (done ++ rest)) : t.turns = [] ∧ Partial t rest := by
  obtain ⟨used,hused,hbytes⟩ := htook
  rw [hturns] at hused
  obtain ⟨rfl,hleft⟩ := List.append_eq_nil_iff.mp hused.symm
  have hbuffer : s.buffer = done.flatMap Frame.bytes ++ t.buffer := by simpa [delivered] using hbytes
  refine ⟨hleft,?_⟩
  cases done with
  | nil =>
    intro f hf
    rw [List.flatMap_nil, List.nil_append] at hbuffer
    exact hbuffer ▸ hcut f hf
  | cons f done =>
    have hshort := hcut f rfl
    rw [hbuffer, List.flatMap_cons] at hshort
    simp only [List.length_append] at hshort
    omega

theorem calls_spec (sends : ℕ → Vector UInt8 4 × Option Text) (n : ℕ) (h : s.stream ++ unread = frames.flatMap Frame.bytes)
    (hbounded : ∀ f ∈ frames, f.payload.length ≤ maxWebSocketPayload) :
    ∃ done rest, frames = done ++ rest ∧ Took (done.flatMap Frame.bytes) s (receiveCalls sends n s).2 ∧
      (receiveCalls sends n s).1.filterMap ReceiveOutcome.message? = payloads done ∧
      (frames.length + s.turns.length < n →
        (receiveCalls sends n s).2.turns = [] ∧ Partial (receiveCalls sends n s).2 rest) := by
  induction n generalizing s frames with
  | zero => exact ⟨[],frames,rfl,.refl s,rfl,fun hno => absurd hno (Nat.not_lt_zero _)⟩
  | succ n ih =>
    obtain ⟨done,rest,hreceived⟩ := receive_spec sends h hbounded
    have hnext : (receiveTimeoutCancellable sends s).2.stream ++ unread = rest.flatMap Frame.bytes := by
      rw [hreceived.took.stream, hreceived.split, List.flatMap_append, List.append_assoc] at h
      exact List.append_cancel_left h
    have hrest : ∀ f ∈ rest, f.payload.length ≤ maxWebSocketPayload := fun f hf =>
      hbounded f (hreceived.split ▸ List.mem_append_right _ hf)
    obtain ⟨done',rest',hsplit,htook,hpayloads,hall⟩ := ih hnext hrest
    refine ⟨done ++ done',rest',?_,?_,?_,fun hn => ?_⟩
    · rw [hreceived.split, hsplit, List.append_assoc]
    · rw [List.flatMap_append]
      exact hreceived.took.trans htook
    · rw [payloads_append, hreceived.payloads, ← hpayloads]
      simp only [receiveCalls, List.filterMap_cons]
      cases (receiveTimeoutCancellable sends s).1.message? <;> rfl
    · by_cases hwaits : (receiveTimeoutCancellable sends s).1 = .waiting
      · obtain ⟨hturns,hcut⟩ := hreceived.waits hwaits
        rw [hsplit] at hcut
        exact stays_partial htook hturns hcut
      · have hmoves := hreceived.moves hwaits
        exact hall (by omega)

theorem first_bits (opcode : UInt8) (h : opcode < 16) : (0x80 ||| opcode) &&& 0x0f = opcode ∧ (0x80 ||| opcode) &&& 0x80 = 0x80 := by
  have hall : ∀ n < 16, (0x80 ||| UInt8.ofNat n) &&& 0x0f = UInt8.ofNat n ∧ (0x80 ||| UInt8.ofNat n) &&& 0x80 = 0x80 := by
    decide +kernel
  have hbits := hall opcode.toNat (UInt8.lt_iff_toNat_lt.mp h)
  rwa [UInt8.ofNat_toNat] at hbits

/-- What `send_opcode` writes is a frame with this payload. -/
theorem sendOpcode_frame {opcode : UInt8} (hopcode : opcode < 16) {payload : Bytes} (hlength : payload.length < 18446744073709551616)
    (mask : Vector UInt8 4) :
    ∃ f : Frame, f.opcode = opcode ∧ f.payload = payload ∧ f.mask = some mask ∧ f.bytes = sendOpcode opcode payload mask := by
  obtain ⟨hlow,hfinal⟩ := first_bits opcode hopcode
  unfold sendOpcode
  dsimp only
  split_ifs with hseven hsixteen
  · refine ⟨⟨0x80 ||| opcode,.seven,some mask,payload,hfinal,hseven⟩,hlow,rfl,rfl,?_⟩
    simp [Frame.bytes, Frame.second, Frame.lengthField, Frame.extended, Frame.body]
  · refine ⟨⟨0x80 ||| opcode,.sixteen,some mask,payload,hfinal,hsixteen⟩,hlow,rfl,rfl,?_⟩
    simp [Frame.bytes, Frame.second, Frame.lengthField, Frame.extended, Frame.body]
  · refine ⟨⟨0x80 ||| opcode,.sixtyFour,some mask,payload,hfinal,hlength⟩,hlow,rfl,rfl,?_⟩
    simp [Frame.bytes, Frame.second, Frame.lengthField, Frame.extended, Frame.body]

/-- A frame that is in the buffer is read. -/
theorem read_whole (f : Frame) (hbounded : f.payload.length ≤ maxWebSocketPayload) (sent : List Bytes) :
    perform readFrameUntil ⟨f.bytes,sent,[]⟩ = (.ok (f.opcode,f.payload),⟨[],sent,[]⟩) := by
  have h : stream ⟨f.bytes,sent,[]⟩ ++ [] = [f].flatMap Frame.bytes := by simp [stream, delivered]
  rcases hread : perform readFrameUntil ⟨f.bytes,sent,[]⟩ with ⟨outcome,t⟩
  cases outcome with
  | ok frame =>
    obtain ⟨opcode,payload⟩ := frame
    obtain ⟨g,rest,hframes,rfl,rfl,⟨used,hturns,hbytes⟩,hsent⟩ := read_next h hread
    obtain ⟨rfl,rfl⟩ := List.cons.inj hframes
    obtain ⟨rfl,hleft⟩ := List.append_eq_nil_iff.mp hturns.symm
    have hbuffer : t.buffer = [] := by simpa [delivered] using hbytes
    obtain ⟨buffer,sent',turns⟩ := t
    subst hbuffer hleft hsent
    rfl
  | error e =>
    obtain ⟨⟨⟨used,hturns,hbytes⟩,-⟩,-,hcut⟩ := read_none h (by simpa using hbounded) hread
    obtain ⟨rfl,hleft⟩ := List.append_eq_nil_iff.mp hturns.symm
    have hbuffer : t.buffer = f.bytes := by simpa [delivered] using hbytes.symm
    exact absurd (hcut f rfl) (by rw [hbuffer]; exact Nat.lt_irrefl _)

/-- However the frames are cut into reads, and wherever a call stops: the calls return the payloads of the data frames
that came, each once and in order, and what was read of the next frame stays. -/
theorem relay_socket_resumes (sends : ℕ → Vector UInt8 4 × Option Text) (frames : List Frame) (s : RelaySocket) (unread : Bytes)
    (hbounded : ∀ f ∈ frames, f.payload.length ≤ maxWebSocketPayload)
    (h : s.buffer ++ delivered s.turns ++ unread = frames.flatMap Frame.bytes) :
    (∀ n, ∃ done rest, frames = done ++ rest ∧ Took (done.flatMap Frame.bytes) s (receiveCalls sends n s).2 ∧
      (receiveCalls sends n s).1.filterMap ReceiveOutcome.message? = payloads done ∧
      (frames.length + s.turns.length < n →
        (receiveCalls sends n s).2.turns = [] ∧ Partial (receiveCalls sends n s).2 rest)) ∧
    (∀ t, receiveTimeoutCancellable sends s = (.idle,t) →
      ∃ done rest, frames = done ++ rest ∧ payloads done = [] ∧ Took (done.flatMap Frame.bytes) s t ∧ Partial t rest) ∧
    (∀ opcode payload mask, opcode < 16 → payload.length < 18446744073709551616 →
      ∃ f : Frame, f.opcode = opcode ∧ f.payload = payload ∧ f.mask = some mask ∧ f.bytes = sendOpcode opcode payload mask ∧
        (payload.length ≤ maxWebSocketPayload → ∀ sent,
          perform readFrameUntil ⟨sendOpcode opcode payload mask,sent,[]⟩ = (.ok (opcode,payload),⟨[],sent,[]⟩))) := by
  refine ⟨fun n => calls_spec sends n h hbounded,fun t hidle => ?_,fun opcode payload mask hopcode hlength => ?_⟩
  · obtain ⟨done,rest,hreceived⟩ := receive_spec sends h hbounded
    rw [hidle] at hreceived
    exact ⟨done,rest,hreceived.split,hreceived.payloads,hreceived.took,hreceived.idle rfl⟩
  · obtain ⟨f,hop,hpayload,hmask,hbytes⟩ := sendOpcode_frame hopcode hlength mask
    refine ⟨f,hop,hpayload,hmask,hbytes,fun hbound sent => ?_⟩
    have hread := read_whole f (hpayload ▸ hbound) sent
    rwa [hbytes, hop, hpayload] at hread

def polledFrame : Frame := ⟨0x82,.sixteen,none,[0x5a,0x5b,0x5c],by decide,by decide⟩

def polledTurns : List Turn :=
  [.read (polledFrame.bytes.take 3),.blocked,.stop false,.read ((polledFrame.bytes.drop 3).take 2),.stop false,
   .read (polledFrame.bytes.drop 5)]

theorem polled_frame_is_received : ∃ done rest, [polledFrame] = done ++ rest ∧
    (receiveCalls (fun _ => (Vector.replicate 4 0,none)) 8 ⟨[],[],polledTurns⟩).1.filterMap ReceiveOutcome.message? =
      payloads done ∧
    Partial (receiveCalls (fun _ => (Vector.replicate 4 0,none)) 8 ⟨[],[],polledTurns⟩).2 rest := by
  obtain ⟨hcalls,-,-⟩ := relay_socket_resumes (fun _ => (Vector.replicate 4 0,none)) [polledFrame] ⟨[],[],polledTurns⟩ []
    (by decide) (by decide +kernel)
  obtain ⟨done,rest,hframes,-,hpayloads,hall⟩ := hcalls 8
  exact ⟨done,rest,hframes,hpayloads,(hall (by decide)).2⟩

end Calls

end RelaySocket
end Unpeel.Remote
