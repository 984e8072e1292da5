import Unpeel.Foundation.BigEndian
import Mathlib.Data.List.Flatten

/-! # Output stream chunks and their frames

A subscriber's chunks travel to an attach client as frames of thirteen header
bytes and the data. Frames are self-delimiting, so a byte string is the wire form
of at most one sequence of frames; this is what makes a lost chunk observable.
-/
namespace Unpeel.Session
open BigEndian List
variable {xs ys : List SessionOutputChunk}

structure SessionOutputChunk where
  data : List UInt8
  nextOffset : ℕ
  exited : Bool
  «exists» : Bool
  deriving DecidableEq, Repr

def sessionOutputStreamFrameHeaderBytes : ℕ := 13
def sessionOutputStreamMaxFrameBytes : ℕ := 8 * 1024 * 1024
def sessionOutputStreamBatchMaxBytes : ℕ := 64 * 1024

def frameFlags (chunk : SessionOutputChunk) : UInt8 :=
  (if chunk.exited then 1 else 0) ||| (if chunk.exists then 2 else 0)

def sessionOutputFrameBytes (chunk : SessionOutputChunk) : List UInt8 :=
  beBytes 4 chunk.data.length ++ beBytes 8 chunk.nextOffset ++ [frameFlags chunk] ++ chunk.data

/-- `read_output_stream_frame` on a stream that does not block: the frame and
the bytes after it, or nothing when the stream ends early or the length is
refused. -/
def readOutputStreamFrame (bytes : List UInt8) : Option (SessionOutputChunk × List UInt8) :=
  let header := bytes.take sessionOutputStreamFrameHeaderBytes
  let rest := bytes.drop sessionOutputStreamFrameHeaderBytes
  let len := readBe (header.take 4)
  if header.length < sessionOutputStreamFrameHeaderBytes then none
  else if sessionOutputStreamMaxFrameBytes < len then none
  else if rest.length < len then none
  else
    let flags := header.getD 12 0
    some (⟨rest.take len,readBe ((header.drop 4).take 8),flags &&& 1 != 0,flags &&& 2 != 0⟩,
      rest.drop len)

def canMergeOutputStreamChunk (pending next : SessionOutputChunk) (maxBatchBytes : ℕ) : Bool :=
  if pending.exited || next.exited || pending.exists != next.exists then false
  else pending.nextOffset == next.nextOffset - next.data.length &&
    decide (pending.data.length + next.data.length ≤ maxBatchBytes)

def framesBytes (chunks : List SessionOutputChunk) : List UInt8 :=
  chunks.flatMap sessionOutputFrameBytes

def chunksData (chunks : List SessionOutputChunk) : List UInt8 :=
  chunks.flatMap SessionOutputChunk.data

/-- The offsets count on from `offset` without a gap or an overlap. -/
def Contiguous : ℕ → List SessionOutputChunk → Prop
  | _, [] => True
  | offset, chunk :: rest =>
    chunk.nextOffset = offset + chunk.data.length ∧ Contiguous chunk.nextOffset rest

def OutputChunk (chunk : SessionOutputChunk) : Prop :=
  chunk.data ≠ [] ∧ chunk.exited = false ∧ chunk.data.length ≤ sessionOutputStreamMaxFrameBytes

@[simp] theorem framesBytes_nil : framesBytes [] = [] := rfl
@[simp] theorem framesBytes_append (xs ys : List SessionOutputChunk) :
    framesBytes (xs ++ ys) = framesBytes xs ++ framesBytes ys := flatMap_append
@[simp] theorem framesBytes_cons (x : SessionOutputChunk) (xs : List SessionOutputChunk) :
    framesBytes (x :: xs) = sessionOutputFrameBytes x ++ framesBytes xs := flatMap_cons
@[simp] theorem chunksData_nil : chunksData [] = [] := rfl
@[simp] theorem chunksData_append (xs ys : List SessionOutputChunk) :
    chunksData (xs ++ ys) = chunksData xs ++ chunksData ys := flatMap_append
@[simp] theorem chunksData_cons (x : SessionOutputChunk) (xs : List SessionOutputChunk) :
    chunksData (x :: xs) = x.data ++ chunksData xs := flatMap_cons

theorem contiguous_append {offset : ℕ} :
    Contiguous offset (xs ++ ys) ↔
      Contiguous offset xs ∧ Contiguous (offset + (chunksData xs).length) ys := by
  induction xs generalizing offset with
  | nil => simp [Contiguous]
  | cons x xs ih =>
    simp only [cons_append, Contiguous, ih, chunksData_cons, length_append]
    constructor
    · rintro ⟨hx,hxs,hys⟩
      rw [hx] at hys
      exact ⟨⟨hx,hxs⟩,by rwa [← Nat.add_assoc]⟩
    · rintro ⟨⟨hx,hxs⟩,hys⟩
      refine ⟨hx,hxs,?_⟩
      rwa [hx, Nat.add_assoc]

theorem Contiguous.merge {offset : ℕ} {x y : SessionOutputChunk} {rest : List SessionOutputChunk}
    (h : Contiguous offset (x :: y :: rest)) :
    Contiguous offset ({ x with data := x.data ++ y.data, nextOffset := y.nextOffset } :: rest) := by
  obtain ⟨hx,hy,hrest⟩ := h
  refine ⟨?_,hrest⟩
  rw [hy, hx, length_append, Nat.add_assoc]

@[simp] theorem frame_length (chunk : SessionOutputChunk) :
    (sessionOutputFrameBytes chunk).length = 13 + chunk.data.length := by
  simp [sessionOutputFrameBytes]
  omega

/-- A frame written is the frame read, up to the width of the offset field. -/
theorem read_frame {chunk : SessionOutputChunk}
    (hl : chunk.data.length ≤ sessionOutputStreamMaxFrameBytes) (rest : List UInt8) :
    readOutputStreamFrame (sessionOutputFrameBytes chunk ++ rest) =
      some ({ chunk with nextOffset := chunk.nextOffset % 256 ^ 8 },rest) := by
  have hlen : chunk.data.length % 256 ^ 4 = chunk.data.length :=
    Nat.mod_eq_of_lt (lt_of_le_of_lt hl (by decide))
  let header := beBytes 4 chunk.data.length ++ beBytes 8 chunk.nextOffset ++ [frameFlags chunk]
  have hh : header.length = 13 := by simp [header]
  have ht : (sessionOutputFrameBytes chunk ++ rest).take 13 = header := by
    rw [sessionOutputFrameBytes, append_assoc, take_append_of_le_length hh.ge,
      take_of_length_le hh.le]
  have hd : (sessionOutputFrameBytes chunk ++ rest).drop 13 = chunk.data ++ rest := by
    exact drop_left' hh
  have hn : readBe (header.take 4) = chunk.data.length := by
    simp only [header, append_assoc]
    rw [take_left' (beBytes_length 4 _), readBe_beBytes, hlen]
  have ho : readBe ((header.drop 4).take 8) = chunk.nextOffset % 256 ^ 8 := by
    simp only [header, append_assoc]
    rw [drop_left' (beBytes_length 4 _), take_left' (beBytes_length 8 _), readBe_beBytes]
  have hf : header.getD 12 0 = frameFlags chunk := by
    simp [header, getD_eq_getElem?_getD]
  simp only [readOutputStreamFrame, sessionOutputStreamFrameHeaderBytes, ht, hd, hh, hn, ho, hf]
  have hflags : (frameFlags chunk &&& 1 != 0) = chunk.exited ∧
      (frameFlags chunk &&& 2 != 0) = chunk.exists := by
    unfold frameFlags
    cases chunk.exited <;> cases chunk.exists <;> decide
  simp [Nat.not_lt.mpr hl, hflags]

/-- A byte string is the wire form of at most one data stream. -/
theorem framesBytes_data_inj (hx : ∀ c ∈ xs, c.data.length ≤ sessionOutputStreamMaxFrameBytes)
    (hy : ∀ c ∈ ys, c.data.length ≤ sessionOutputStreamMaxFrameBytes)
    (h : framesBytes xs = framesBytes ys) : chunksData xs = chunksData ys := by
  induction xs generalizing ys with
  | nil =>
    cases ys with
    | nil => rfl
    | cons y ys =>
      have hl := congrArg List.length h
      simp only [framesBytes_nil, framesBytes_cons, length_append, frame_length, length_nil] at hl
      omega
  | cons x xs ih =>
    cases ys with
    | nil =>
      have hl := congrArg List.length h
      simp at hl
    | cons y ys =>
      simp only [framesBytes_cons] at h
      have hr := read_frame (hx x mem_cons_self) (framesBytes xs)
      rw [h, read_frame (hy y mem_cons_self)] at hr
      simp only [Option.some.injEq, Prod.mk.injEq, SessionOutputChunk.mk.injEq] at hr
      rw [chunksData_cons, chunksData_cons, hr.1.1]
      rw [ih (fun c hc => hx c (mem_cons_of_mem _ hc))
        (fun c hc => hy c (mem_cons_of_mem _ hc)) hr.2.symm]

end Unpeel.Session
