import Unpeel.Foundation.Runs
import Unpeel.Journal.RetainedOutput

/-! # Lock-free readers of the journal

The Host's file operations and those of any number of readers, one step each. A
reader samples the length and the floor, reads, and samples both again; it takes
what it read if the floor has not passed its start meanwhile.
-/
namespace Unpeel.Journal
open Runs

inductive Host where
  | gone
  /-- in `new`: before the floor is published, the file emptied, the file extended -/
  | marking (initialOffset : ℕ)
  | truncating (initialOffset : ℕ)
  | extending (initialOffset : ℕ)
  | ready (writer : RetainedOutputWriter)
  /-- in `maybe_advance_retention`: before the floor is published, the blocks punched -/
  | publishing (writer : RetainedOutputWriter) (nextRetainedFrom : ℕ)
  | punching (writer : RetainedOutputWriter) (nextRetainedFrom : ℕ)
  | restoring (writer : RetainedOutputWriter)
  deriving DecidableEq, Repr

structure ReadRequest where
  offset : Option ℕ
  maxBytes : Option ℕ
  tailBytes : Option ℕ
  deriving DecidableEq, Repr

/-- Where `read_output_chunk_with_retries` stands. `holes` is true if some byte of
the sample was read from a hole. -/
inductive ReaderPc where
  | idle
  | opening
  | statted (fileLen : ℕ)
  | floored (fileLen retainedFrom : ℕ)
  | aligned (fileLen start limit : ℕ)
  | sampled (fileLen start : ℕ) (data : List UInt8) (holes : Bool)
  | restatted (start : ℕ) (data : List UInt8) (holes : Bool) (newestFileLen : ℕ)
  deriving DecidableEq, Repr

/-- A chunk that was returned, with the number of discards when the call began and
when it returned. -/
structure ReadResult where
  offset : Option ℕ
  data : List UInt8
  nextOffset : ℕ
  began : ℕ
  ended : ℕ
  deriving DecidableEq, Repr

structure Reader where
  request : ReadRequest
  retries : ℕ
  pc : ReaderPc
  began : ℕ
  results : List ReadResult
  deriving DecidableEq, Repr

/-- The journal on disk, what was written over the Session's lifetime (`none` in the
gap a replacement leaves), how often a replacement has begun or has emptied the
file, and everybody who uses it. -/
structure JournalUse where
  «exists» : Bool
  disk : OutputJournal
  written : List (Option UInt8)
  discards : ℕ
  host : Host
  readers : ℕ → Reader

/-- How a file operation of the Host ends. A marker may be renamed into its place and
fail to be synced. -/
inductive Outcome where
  | done
  | failed
  | unsynced
  deriving DecidableEq, Repr

inductive JournalEvent where
  | replace
  | hostStep (outcome : Outcome)
  | hostFails
  | write (bytes : List UInt8)
  | call (reader : ℕ) (request : ReadRequest)
  | read (reader : ℕ)
  | restatFails (reader : ℕ)
  | readFails (reader : ℕ)
  deriving DecidableEq, Repr

def defaultOutputReadBytes : ℕ := 128 * 1024
def defaultOutputTailBytes : ℕ := 256 * 1024

/-- `journal_start_offset`: one past everything that was ever a cursor. -/
def journalStartOffset (s : JournalUse) : ℕ :=
  if s.exists ∨ s.disk.marker.isSome then max s.disk.file.length s.disk.floor + 1 else 0

section Host
variable (retainBytes advanceBytes blockSize : ℕ)

def OutputJournal.saveMarker (disk : OutputJournal) (floor : ℕ) (outcome : Outcome) : OutputJournal :=
  if outcome = .failed then disk else { disk with marker := some floor }

/-- The Host's next file operation. Where one fails, `new` is given up, and retention
is disabled. -/
def hostStep (s : JournalUse) (outcome : Outcome) : Option JournalUse :=
  match s.host with
  | .gone => none
  | .marking initialOffset => some { s with
      disk := s.disk.saveMarker initialOffset outcome
      host := if outcome = .done then .truncating initialOffset else .gone }
  | .truncating initialOffset =>
    if outcome = .done then some { s with
      disk := s.disk.setLen 0, discards := s.discards + 1, host := .extending initialOffset }
    else some { s with host := .gone }
  | .extending initialOffset =>
    if outcome = .done then some { s with
      disk := s.disk.setLen initialOffset
      written := s.written ++ List.replicate (initialOffset - s.written.length) none
      host := .ready (.openAt initialOffset initialOffset retainBytes advanceBytes) }
    else some { s with host := .gone }
  | .ready _ => none
  | .publishing writer nextRetainedFrom => some { s with
      disk := s.disk.saveMarker nextRetainedFrom outcome
      host := if outcome = .done then .punching writer nextRetainedFrom
        else .ready { writer with retentionDisabled := true } }
  | .punching writer nextRetainedFrom =>
    if outcome = .done then some { s with
      disk := writer.punchBelow blockSize nextRetainedFrom s.disk
      host := .ready (writer.advanced nextRetainedFrom) }
    else some { s with host := .restoring writer }
  | .restoring writer => some { s with
      disk := s.disk.saveMarker writer.retainedFrom outcome
      host := .ready { writer with retentionDisabled := true } }

end Host

namespace Reader

def finish (r : Reader) (data : List UInt8) (nextOffset discards : ℕ) : Reader :=
  { r with pc := .idle, results := r.results ++ [⟨r.request.offset,data,nextOffset,r.began,discards⟩] }

/-- The start of the read and its limit, from the first samples; the alignment reads
the file. -/
def align (request : ReadRequest) (file : SparseFile) (fileLen retainedFrom : ℕ) : Option (ℕ × ℕ) :=
  let readLimit := request.maxBytes.getD defaultOutputReadBytes
  match request.offset.filter (fun requested => retainedFrom ≤ requested ∧ requested ≤ fileLen) with
  | some requested => some (requested,readLimit)
  | none =>
    let tail := request.tailBytes.getD defaultOutputTailBytes
    let desiredStart := if tail < fileLen then max (fileLen - tail) retainedFrom else retainedFrom
    (alignReplayTailStart file desiredStart retainedFrom).map
      fun start => (start,saturatingAdd readLimit (desiredStart - start))

def step (r : Reader) (s : JournalUse) : Option Reader :=
  match r.pc with
  | .idle => none
  | .opening =>
    if s.exists then some { r with pc := .statted s.disk.file.length }
    else some (r.finish [] (r.request.offset.getD 0) s.discards)
  | .statted fileLen => some { r with pc := .floored fileLen (min s.disk.floor fileLen) }
  | .floored fileLen retainedFrom =>
    match align r.request s.disk.file fileLen retainedFrom with
    | none => some { r with pc := .idle }
    | some (start,limit) => some { r with pc := .aligned fileLen (min start fileLen) limit }
  | .aligned fileLen start limit =>
    let toRead := min limit (fileLen - start)
    if toRead = 0 then some { r with pc := .sampled fileLen start [] false }
    else match readExact s.disk.file start toRead with
      | none => some { r with pc := .idle }
      | some data =>
        some { r with pc := .sampled fileLen start data (((s.disk.file.drop start).take toRead).any Option.isNone) }
  | .sampled _ start data holes => some { r with pc := .restatted start data holes s.disk.file.length }
  | .restatted start data _ newestFileLen =>
    let newestRetainedFrom := min s.disk.floor newestFileLen
    if start < newestRetainedFrom then
      if 0 < r.retries then some { r with retries := r.retries - 1, pc := .opening }
      else some (r.finish [] newestRetainedFrom s.discards)
    else some (r.finish data (start + data.length) s.discards)

end Reader

section Runs
variable (retainBytes advanceBytes blockSize : ℕ)

def journalStep (s : JournalUse) : JournalEvent → Option JournalUse
  | .replace => some { s with
      «exists» := true, discards := s.discards + 1, host := .marking (journalStartOffset s) }
  | .hostStep outcome => hostStep retainBytes advanceBytes blockSize s outcome
  | .hostFails => some { s with host := .gone }
  | .write bytes =>
    match s.host with
    | .ready writer =>
      if bytes = [] then none
      else
        let disk := s.disk.append bytes
        let (writer,next) := writer.planAdvance blockSize disk.file
        some { s with
          disk := disk
          written := s.written ++ bytes.map some
          host := match next with
            | none => .ready writer
            | some nextRetainedFrom => .publishing writer nextRetainedFrom }
    | _ => none
  | .call k request =>
    let r := s.readers k
    if r.pc = .idle then
      let called := { r with request := request, retries := 3, pc := .opening, began := s.discards }
      some { s with readers := Function.update s.readers k called }
    else none
  | .read k => ((s.readers k).step s).map fun r => { s with readers := Function.update s.readers k r }
  | .restatFails k =>
    match (s.readers k).pc with
    | .sampled fileLen start data holes =>
      let restatted := { s.readers k with pc := .restatted start data holes fileLen }
      some { s with readers := Function.update s.readers k restatted }
    | _ => none
  | .readFails k => some { s with readers := Function.update s.readers k { s.readers k with pc := .idle } }

end Runs

def startJournal : JournalUse where
  «exists» := false
  disk := ⟨[],none⟩
  written := []
  discards := 0
  host := .gone
  readers := fun _ => ⟨⟨none,none,none⟩,0,.idle,0,[]⟩

/-- The bytes are those written from `offset` on. -/
def WrittenAt (written : List (Option UInt8)) (offset : ℕ) (data : List UInt8) : Prop :=
  data.map some = (written.drop offset).take data.length

/-- What readers rely on: a chunk holds the bytes written just before its end, and
while the file is not discarded the cursor of a reader that goes on from there only
rises. -/
structure ReadsTrue (s : JournalUse) : Prop where
  data : ∀ k, ∀ r ∈ (s.readers k).results, r.data.length ≤ r.nextOffset ∧
    WrittenAt s.written (r.nextOffset - r.data.length) r.data
  cursor : ∀ k, (s.readers k).results.Pairwise fun earlier later =>
    later.offset = some earlier.nextOffset → later.ended = earlier.began → earlier.nextOffset ≤ later.nextOffset

/-- The second look at the file, if that is the next step, does not find it cut off
before a sample with holes. -/
def ReaderPc.InSight (len : ℕ) : ReaderPc → Prop
  | .sampled _ start _ holes => len ≤ start → holes = false
  | _ => True

instance (len : ℕ) : (pc : ReaderPc) → Decidable (pc.InSight len)
  | .sampled _ start _ holes => inferInstanceAs (Decidable (len ≤ start → holes = false))
  | .idle | .opening | .statted _ | .floored _ _ | .aligned _ _ _ | .restatted _ _ _ _ =>
    inferInstanceAs (Decidable True)

def HolesInSight (s : JournalUse) : JournalEvent → Prop
  | .read k => (s.readers k).pc.InSight s.disk.file.length
  | _ => True

instance (s : JournalUse) : (event : JournalEvent) → Decidable (HolesInSight s event)
  | .read k => inferInstanceAs (Decidable ((s.readers k).pc.InSight s.disk.file.length))
  | .replace | .hostStep _ | .hostFails | .write _ | .call _ _ | .restatFails _ | .readFails _ =>
    inferInstanceAs (Decidable True)

end Unpeel.Journal
