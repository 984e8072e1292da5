import Unpeel.Foundation.Runs
import Unpeel.Stdio.StdioFrames
import Unpeel.Stdio.TunnelCodec

/-! # The stdio server

One thread reads requests and hands them to eight workers over a bounded queue; all of them
answer on one writer. The steps of the threads interleave in any order, a handler answers with
anything or panics, and a write may fail.
-/
namespace Unpeel.Stdio
open ByteReads Manifest Remote List

def dispatchWorkers : ℕ := 8
def dispatchQueueCapacity : ℕ := 32

def invalidEnvelope : Bytes := ascii "\x7b\"error\":\"invalid request envelope\"\x7d".toList
def queueFull : Bytes := ascii "\x7b\"error\":\"Host request queue is full\"\x7d".toList
def handlerFailed : Bytes := ascii "\x7b\"error\":\"request handler failed\"\x7d".toList

inductive ReaderState where
  | reading
  | sending (request : TunnelRequest)
  | answering (response : TunnelResponse)
  | finishing
  | finished
deriving DecidableEq

inductive WorkerState where
  | idle
  | handling (request : TunnelRequest)
  | answering (response : TunnelResponse)
  | stopped
deriving DecidableEq

/-- What became of a request: it found so many others in the queue, or a handler was called with
it and answered or panicked. -/
inductive Settled where
  | refused (queued : ℕ)
  | handled (outcome : Option (UInt16 × Bytes))

/-- `received` is what `read_frame` has returned, `written` what is out. The channel is closed
once the reader has finished. Nothing looks at `settled`. -/
structure Server where
  events : List ReadEvent
  received : List StdioFrame
  reader : ReaderState
  queue : List TunnelRequest
  workers : List WorkerState
  cancelled : Bool
  written : Bytes
  readError : Option Text
  writerError : Option Text
  settled : List (TunnelRequest × Settled)

inductive ServerAction where
  | read
  | send
  | answer (result : WriteResult)
  | finish
  | receive (worker : ℕ)
  -- `none` is a panic
  | handle (worker : ℕ) (outcome : Option (UInt16 × Bytes))
  | respond (worker : ℕ) (result : WriteResult)
  | stop (worker : ℕ)

def startServer (events : List ReadEvent) : Server where
  events := events
  received := []
  reader := .reading
  queue := []
  workers := List.replicate dispatchWorkers .idle
  cancelled := false
  written := []
  readError := none
  writerError := none
  settled := []

namespace Server

def writeResponse (s : Server) (response : TunnelResponse) (result : WriteResult) : Server × Option Text :=
  let payload := encodeBoundedTunnelResponse response.id response.status response.body
  match writeFrame frameKindResponse payload result s.written with
  | (written,none) => ({ s with written := written },none)
  | (written,some error) => ({ s with written := written, cancelled := true },some error)

def endReading (s : Server) (error : Option Text) : Server := { s with reader := .finishing, readError := error }

def accept (fromSlice : Bytes → Option JsonValue) (s : Server) (frame : StdioFrame) : Server :=
  if frame.kind ≠ frameKindRequest then
    s.endReading (some (text "unexpected SSH stdio frame kind " ++ Nat.toDigits 10 frame.kind.toNat))
  else
    match parseTunnelRequestStrict fromSlice frame.payload with
    | .ok request => { s with reader := .sending request }
    | .error _ =>
      match parseableRequestId fromSlice frame.payload with
      | some id => { s with reader := .answering ⟨id,400,invalidEnvelope⟩ }
      | none => s.endReading (some (text "uncorrelatable SSH stdio request"))

def readNext (fromSlice : Bytes → Option JsonValue) (s : Server) : Server :=
  if s.cancelled then s.endReading s.readError
  else
    match readFrame s.events with
    | (.ok none,events) => { s with events := events }.endReading none
    | (.error error,events) => { s with events := events }.endReading (some error)
    | (.ok (some frame),events) => { s with events := events, received := s.received ++ [frame] }.accept fromSlice frame

def trySend (s : Server) (request : TunnelRequest) : Server :=
  if s.queue.length < dispatchQueueCapacity then { s with reader := .reading, queue := s.queue ++ [request] }
  else
    { s with
      reader := .answering ⟨request.id,503,queueFull⟩
      settled := s.settled ++ [(request,.refused s.queue.length)] }

def setWorker (s : Server) (worker : ℕ) (state : WorkerState) : Server := { s with workers := s.workers.set worker state }

/-- Everyone has stopped, and `serve` returns. -/
def returned (s : Server) : Prop := s.reader = .finished ∧ ∀ worker ∈ s.workers, worker = .stopped

end Server

open Server

def serverStep (fromSlice : Bytes → Option JsonValue) (s : Server) : ServerAction → Option Server
  | .read => if s.reader = .reading then some (s.readNext fromSlice) else none
  | .send =>
    match s.reader with
    | .sending request => some (s.trySend request)
    | _ => none
  | .answer result =>
    match s.reader with
    | .answering response =>
      match s.writeResponse response result with
      | (t,none) => some { t with reader := .reading }
      | (t,some error) => some (t.endReading (some error))
    | _ => none
  | .finish => if s.reader = .finishing then some { s with reader := .finished, cancelled := true } else none
  | .receive worker =>
    match s.workers[worker]?, s.queue with
    | some .idle, request :: queue => some ({ s with queue := queue }.setWorker worker (.handling request))
    | _, _ => none
  | .handle worker outcome =>
    match s.workers[worker]? with
    | some (.handling request) =>
      let (status,body) := outcome.getD (500,handlerFailed)
      some { s.setWorker worker (.answering ⟨request.id,status,body⟩) with
        settled := s.settled ++ [(request,.handled outcome)] }
    | _ => none
  | .respond worker result =>
    match s.workers[worker]? with
    | some (.answering response) =>
      match s.writeResponse response result with
      | (t,none) => some (t.setWorker worker .idle)
      | (t,some error) => some { t.setWorker worker .stopped with writerError := some error }
    | _ => none
  | .stop worker =>
    match s.workers[worker]?, s.queue with
    | some .idle, [] => if s.reader = .finished then some (s.setWorker worker .stopped) else none
    | _, _ => none

def ServerAction.writes : ServerAction → Prop
  | .answer result | .respond _ result => result = .written
  | _ => True

def dueId (fromSlice : Bytes → Option JsonValue) (frame : StdioFrame) : Option ℕ :=
  if frame.kind = frameKindRequest then (parseableRequestId fromSlice frame.payload).map UInt64.toNat else none

inductive ReadsTo : List ReadEvent → List StdioFrame → List ReadEvent → Prop
  | start (events : List ReadEvent) : ReadsTo events [] events
  | frame {events middle rest : List ReadEvent} {frames : List StdioFrame} {frame : StdioFrame}
      (h : ReadsTo events frames middle) (hread : readFrame middle = (.ok (some frame),rest)) :
      ReadsTo events (frames ++ [frame]) rest

section Answers
variable (fromSlice : Bytes → Option JsonValue)

def Settled.answer (request : TunnelRequest) : Settled → TunnelResponse
  | .refused _ => ⟨request.id,503,queueFull⟩
  | .handled none => ⟨request.id,500,handlerFailed⟩
  | .handled (some (status,body)) => ⟨request.id,status,body⟩

def parsedRequest (frame : StdioFrame) : Option TunnelRequest :=
  if frame.kind = frameKindRequest then (parseTunnelRequestStrict fromSlice frame.payload).toOption else none

/-- The answer to a request that is no request but has an id. -/
def invalidAnswer (frame : StdioFrame) : Option TunnelResponse :=
  if frame.kind = frameKindRequest ∧ parsedRequest fromSlice frame = none then
    (parseableRequestId fromSlice frame.payload).map (⟨·,400,invalidEnvelope⟩)
  else none

def Server.answers (s : Server) : List TunnelResponse :=
  s.received.filterMap (invalidAnswer fromSlice) ++ s.settled.map fun entry => entry.2.answer entry.1

/-- A response that no frame can hold is replaced. -/
def TunnelResponse.bounded (response : TunnelResponse) : TunnelResponse :=
  if (encodeTunnelResponse response.id response.status response.body).length ≤ maxPlaintextBytes then response
  else ⟨response.id,413,responseTooLarge⟩

def TunnelResponse.payload (response : TunnelResponse) : Bytes :=
  encodeBoundedTunnelResponse response.id response.status response.body

def TunnelResponse.frame (response : TunnelResponse) : StdioFrame := ⟨frameKindResponse,response.payload⟩

def TunnelResponse.bytes (response : TunnelResponse) : Bytes := frameBytes frameKindResponse response.payload

def ReaderState.pending : ReaderState → List TunnelResponse
  | .answering response => [response]
  | _ => []

def ReaderState.opened : ReaderState → List TunnelRequest
  | .sending request => [request]
  | _ => []

def WorkerState.pending : WorkerState → List TunnelResponse
  | .answering response => [response]
  | _ => []

def WorkerState.opened : WorkerState → List TunnelRequest
  | .handling request => [request]
  | _ => []

def Server.pending (s : Server) : List TunnelResponse := s.reader.pending ++ s.workers.flatMap WorkerState.pending

def Server.opened (s : Server) : List TunnelRequest :=
  s.reader.opened ++ (s.queue ++ s.workers.flatMap WorkerState.opened)

def ServerAction.outcome : ServerAction → Option (Option (UInt16 × Bytes))
  | .handle _ outcome => some outcome
  | _ => none

def Settled.outcome : Settled → Option (Option (UInt16 × Bytes))
  | .handled outcome => some outcome
  | .refused _ => none

def Server.outcomes (s : Server) : List (Option (UInt16 × Bytes)) := s.settled.filterMap fun entry => entry.2.outcome

def Ended (input : List ReadEvent) (received : List StdioFrame) : Prop :=
  (∃ events, ReadsTo input received events ∧ ∀ frame, (readFrame events).1 ≠ .ok (some frame)) ∨
    ∃ front frame, received = front ++ [frame] ∧ dueId fromSlice frame = none

def Server.over (s : Server) : Prop := s.reader = .finishing ∨ s.reader = .finished

def Server.wrote (s : Server) (response : TunnelResponse) : Server := { s with written := s.written ++ response.bytes }

variable {fromSlice} {frame : StdioFrame}

theorem parsedRequest_eq (hkind : frame.kind = frameKindRequest) :
    parsedRequest fromSlice frame = (parseTunnelRequestStrict fromSlice frame.payload).toOption := if_pos hkind

theorem invalidAnswer_of_parsed {request : TunnelRequest} (h : parsedRequest fromSlice frame = some request) :
    invalidAnswer fromSlice frame = none := by
  rw [invalidAnswer, h, if_neg (by simp)]

/-- An id is due to a request or to what is none. -/
theorem dueId_eq (frame : StdioFrame) : dueId fromSlice frame =
    ((invalidAnswer fromSlice frame).map (·.id.toNat)).or ((parsedRequest fromSlice frame).map (·.id.toNat)) := by
  by_cases hkind : frame.kind = frameKindRequest
  · rw [dueId, if_pos hkind]
    rcases hparsed : parsedRequest fromSlice frame with _ | request
    · rw [invalidAnswer, if_pos ⟨hkind,hparsed⟩, Option.map_map, Option.map_none, Option.or_none]
      rfl
    · rw [invalidAnswer_of_parsed hparsed]
      rw [parsedRequest_eq hkind] at hparsed
      cases hparse : parseTunnelRequestStrict fromSlice frame.payload with
      | error => simp [hparse, Except.toOption] at hparsed
      | ok found =>
        rw [hparse] at hparsed
        cases hparsed
        rw [parseableRequestId_of_parse hparse]
        rfl
  · rw [dueId, invalidAnswer, parsedRequest, if_neg hkind, if_neg hkind, if_neg fun h => hkind h.1]
    rfl

theorem filterMap_dueId (received : List StdioFrame) : (received.filterMap (dueId fromSlice)).Perm
    ((received.filterMap (invalidAnswer fromSlice)).map (·.id.toNat) ++
      (received.filterMap (parsedRequest fromSlice)).map (·.id.toNat)) := by
  induction received with
  | nil => exact .refl _
  | cons frame received ih =>
    have hdue := @dueId_eq fromSlice frame
    rcases hparsed : parsedRequest fromSlice frame with _ | request
    · rw [filterMap_cons_none (l := received) hparsed]
      rcases hinvalid : invalidAnswer fromSlice frame with _ | response
      · rw [hinvalid, hparsed] at hdue
        rw [filterMap_cons_none hdue, filterMap_cons_none hinvalid]
        exact ih
      · rw [hinvalid] at hdue
        rw [filterMap_cons_some hdue, filterMap_cons_some hinvalid]
        exact ih.cons _
    · have hinvalid := invalidAnswer_of_parsed hparsed
      rw [hinvalid, hparsed] at hdue
      rw [filterMap_cons_some hdue, filterMap_cons_none hinvalid, filterMap_cons_some hparsed]
      exact (ih.cons _).trans perm_middle.symm

end Answers

section Moves
variable {fromSlice : Bytes → Option JsonValue} {s t : Server} {action : ServerAction}

/-- Where a frame leaves the reader. -/
inductive Taken (fromSlice : Bytes → Option JsonValue) (frame : StdioFrame) : ReaderState → Prop
  | request {request : TunnelRequest} (hparsed : parsedRequest fromSlice frame = some request) :
      Taken fromSlice frame (.sending request)
  | invalid {response : TunnelResponse} (hparsed : parsedRequest fromSlice frame = none)
      (hinvalid : invalidAnswer fromSlice frame = some response) : Taken fromSlice frame (.answering response)
  | dropped (hdue : dueId fromSlice frame = none) : Taken fromSlice frame .finishing

/-- The steps of the server, with what each finds and leaves. -/
inductive Moves (fromSlice : Bytes → Option JsonValue) (s : Server) : ServerAction → Server → Prop
  | ended {events : List ReadEvent} {error : Option Text} (hreading : s.reader = .reading)
      (hless : remaining events ≤ remaining s.events)
      (hwhy : s.cancelled = true ∨ ∀ frame, (readFrame s.events).1 ≠ .ok (some frame)) :
      Moves fromSlice s .read (({ s with events := events } : Server).endReading error)
  | took {frame : StdioFrame} {events : List ReadEvent} {reader : ReaderState} {error : Option Text}
      (hreading : s.reader = .reading) (hread : readFrame s.events = (.ok (some frame),events))
      (htaken : Taken fromSlice frame reader) :
      Moves fromSlice s .read { s with
        events := events, received := s.received ++ [frame], reader := reader, readError := error }
  | queued {request : TunnelRequest} (hreader : s.reader = .sending request) :
      Moves fromSlice s .send { s with reader := .reading, queue := s.queue ++ [request] }
  | refused {request : TunnelRequest} (hreader : s.reader = .sending request)
      (hfull : dispatchQueueCapacity ≤ s.queue.length) :
      Moves fromSlice s .send { s with
        reader := .answering ⟨request.id,503,queueFull⟩
        settled := s.settled ++ [(request,.refused s.queue.length)] }
  | answered {response : TunnelResponse} (hreader : s.reader = .answering response) :
      Moves fromSlice s (.answer .written) { s.wrote response with reader := .reading }
  | unanswered {response : TunnelResponse} {count : ℕ} {error e : Text} {written : Bytes}
      (hreader : s.reader = .answering response) : Moves fromSlice s (.answer (.failed count error))
        (({ s with written := written, cancelled := true } : Server).endReading (some e))
  | finished (hreader : s.reader = .finishing) :
      Moves fromSlice s .finish { s with reader := .finished, cancelled := true }
  | received {worker : ℕ} {request : TunnelRequest} {queue : List TunnelRequest}
      (hworker : s.workers[worker]? = some .idle) (hqueue : s.queue = request :: queue) :
      Moves fromSlice s (.receive worker) (({ s with queue := queue } : Server).setWorker worker (.handling request))
  | handled {worker : ℕ} {outcome : Option (UInt16 × Bytes)} {request : TunnelRequest}
      (hworker : s.workers[worker]? = some (.handling request)) :
      Moves fromSlice s (.handle worker outcome)
        { s.setWorker worker (.answering ((Settled.handled outcome).answer request)) with
          settled := s.settled ++ [(request,.handled outcome)] }
  | responded {worker : ℕ} {response : TunnelResponse} (hworker : s.workers[worker]? = some (.answering response)) :
      Moves fromSlice s (.respond worker .written) ((s.wrote response).setWorker worker .idle)
  | unresponded {worker count : ℕ} {response : TunnelResponse} {error e : Text} {written : Bytes}
      (hworker : s.workers[worker]? = some (.answering response)) : Moves fromSlice s (.respond worker (.failed count error))
        { ({ s with written := written, cancelled := true } : Server).setWorker worker .stopped with writerError := some e }
  | stopped {worker : ℕ} (hworker : s.workers[worker]? = some .idle) (hqueue : s.queue = [])
      (hfinished : s.reader = .finished) : Moves fromSlice s (.stop worker) (s.setWorker worker .stopped)

theorem accept_taken (s : Server) (frame : StdioFrame) : ∃ reader error, Taken fromSlice frame reader ∧
    s.accept fromSlice frame = { s with reader := reader, readError := error } := by
  unfold Server.accept
  split
  · rename_i hkind
    exact ⟨_,_,.dropped (if_neg hkind),rfl⟩
  · rename_i hkind
    have hparsed := @parsedRequest_eq fromSlice _ (not_not.mp hkind)
    split
    · rename_i request hparse
      rw [hparse] at hparsed
      exact ⟨_,s.readError,.request hparsed,rfl⟩
    · rename_i hparse
      rw [hparse] at hparsed
      have hinvalid : invalidAnswer fromSlice frame = _ := if_pos ⟨not_not.mp hkind,hparsed⟩
      split
      · rename_i id hid
        rw [hid] at hinvalid
        exact ⟨_,s.readError,.invalid hparsed hinvalid,rfl⟩
      · rename_i hid
        rw [hid] at hinvalid
        refine ⟨_,_,.dropped ?_,rfl⟩
        rw [dueId_eq, hinvalid, hparsed]
        rfl

theorem writeResponse_eq (s : Server) (response : TunnelResponse) : s.writeResponse response .written = (s.wrote response,none) ∧
    ∀ count error, ∃ written e, s.writeResponse response (.failed count error) =
      ({ s with written := written, cancelled := true },some e) := by
  obtain ⟨hne,hlength⟩ := encodeBounded_fits response.id response.status response.body
  have hfits : ¬(encodeBoundedTunnelResponse response.id response.status response.body = [] ∨
      maxPlaintextBytes < (encodeBoundedTunnelResponse response.id response.status response.body).length) := by
    rintro (h | h)
    · exact hne h
    · omega
  constructor
  · unfold Server.writeResponse writeFrame
    dsimp only
    rw [if_neg hfits]
    rfl
  · intro count error
    unfold Server.writeResponse writeFrame
    dsimp only
    rw [if_neg hfits]
    exact ⟨_,_,rfl⟩

theorem readNext_moves (hreading : s.reader = .reading) : Moves fromSlice s .read (s.readNext fromSlice) := by
  obtain ⟨hle,-⟩ := remaining_readFrame s.events
  unfold Server.readNext
  split
  · rename_i hcancelled
    exact .ended hreading (Nat.le_refl _) (.inl hcancelled)
  · rcases hread : readFrame s.events with ⟨outcome,events⟩
    rw [hread] at hle
    cases outcome with
    | error error => exact .ended hreading hle (.inr (by rw [hread]; nofun))
    | ok found =>
      cases found with
      | none => exact .ended hreading hle (.inr (by rw [hread]; nofun))
      | some frame =>
        obtain ⟨reader,error,htaken,haccept⟩ := @accept_taken fromSlice
          { s with events := events, received := s.received ++ [frame] } frame
        dsimp only
        rw [haccept]
        exact .took hreading hread htaken

theorem moves_of_step (h : serverStep fromSlice s action = some t) : Moves fromSlice s action t := by
  cases action with
  | read =>
    obtain ⟨hreading,⟨⟩⟩ := Option.ite_none_right_eq_some.mp h
    exact readNext_moves hreading
  | send =>
    dsimp only [serverStep] at h
    split at h <;> cases h
    rename_i request hreader
    unfold Server.trySend
    split
    · exact .queued hreader
    · rename_i hfull
      exact .refused hreader (not_lt.mp hfull)
  | answer result =>
    dsimp only [serverStep] at h
    split at h
    swap
    · cases h
    rename_i response hreader
    obtain ⟨hwritten,hfailed⟩ := writeResponse_eq s response
    cases result with
    | written =>
      rw [hwritten] at h
      cases h
      exact .answered hreader
    | failed count error =>
      obtain ⟨written,e,hwrite⟩ := hfailed count error
      rw [hwrite] at h
      cases h
      exact .unanswered hreader
  | finish =>
    obtain ⟨hreader,⟨⟩⟩ := Option.ite_none_right_eq_some.mp h
    exact .finished hreader
  | receive worker =>
    dsimp only [serverStep] at h
    split at h <;> cases h
    rename_i request queue hworker hqueue
    exact .received hworker hqueue
  | handle worker outcome =>
    dsimp only [serverStep] at h
    split at h <;> cases h
    rename_i request hworker
    rcases outcome with _ | ⟨status,body⟩
    · exact .handled hworker
    · exact .handled hworker
  | respond worker result =>
    dsimp only [serverStep] at h
    split at h
    swap
    · cases h
    rename_i response hworker
    obtain ⟨hwritten,hfailed⟩ := writeResponse_eq s response
    cases result with
    | written =>
      rw [hwritten] at h
      cases h
      exact .responded hworker
    | failed count error =>
      obtain ⟨written,e,hwrite⟩ := hfailed count error
      rw [hwrite] at h
      cases h
      exact .unresponded hworker
  | stop worker =>
    dsimp only [serverStep] at h
    split at h
    · rename_i hworker hqueue
      obtain ⟨hfinished,⟨⟩⟩ := Option.ite_none_right_eq_some.mp h
      exact .stopped hworker hqueue hfinished
    · cases h

end Moves

section Running
variable {fromSlice : Bytes → Option JsonValue} {input : List ReadEvent} {s t : Server} {action : ServerAction}
variable {worker : ℕ} {state state' : WorkerState} {actions : List ServerAction}

/-- How far the reader is, and who has stopped. -/
structure Serving (fromSlice : Bytes → Option JsonValue) (input : List ReadEvent) (s : Server) : Prop where
  read : ∃ events, ReadsTo input s.received events ∧ (¬s.over → s.events = events)
  live : s.reader ≠ .finished → s.cancelled = false
  stopped : WorkerState.stopped ∈ s.workers → s.reader = .finished ∧ s.queue = []
  ended : s.over → Ended fromSlice input s.received

/-- Every answer that is due is out or under way, and every request is settled or on its way. -/
structure Accounted (fromSlice : Bytes → Option JsonValue) (s : Server) : Prop where
  answers : ∃ responses : List TunnelResponse, s.written = responses.flatMap TunnelResponse.bytes ∧
    (responses ++ s.pending).Perm (s.answers fromSlice)
  requests : (s.settled.map Prod.fst ++ s.opened).Perm (s.received.filterMap (parsedRequest fromSlice))
  full : ∀ request queued, (request,Settled.refused queued) ∈ s.settled → dispatchQueueCapacity ≤ queued

theorem serving_start (input : List ReadEvent) : Serving fromSlice input (startServer input) := by
  refine ⟨⟨input,.start input,fun _ => rfl⟩,fun _ => rfl,fun h => ?_,?_⟩
  · cases eq_of_mem_replicate h
  · rintro (h | h) <;> cases h

theorem accounted_start (input : List ReadEvent) : Accounted fromSlice (startServer input) :=
  ⟨⟨[],rfl,.refl _⟩,.refl _,fun _ _ h => absurd h not_mem_nil⟩

theorem stopped_of_set (h : WorkerState.stopped ∈ s.workers.set worker state') (hne : state' ≠ .stopped) :
    WorkerState.stopped ∈ s.workers := by
  rcases mem_or_eq_of_mem_set h with h | h
  · exact h
  · exact absurd h.symm hne

/-- Nothing is read. -/
theorem Serving.kept (h : Serving fromSlice input s) (hevents : t.events = s.events) (hreceived : t.received = s.received)
    (hover : t.over ↔ s.over) (hlive : t.reader ≠ .finished → t.cancelled = false)
    (hstopped : WorkerState.stopped ∈ t.workers → t.reader = .finished ∧ t.queue = []) : Serving fromSlice input t := by
  obtain ⟨events,hread,hsame⟩ := h.read
  refine ⟨⟨events,?_,?_⟩,hlive,hstopped,?_⟩
  · rwa [hreceived]
  · rwa [hover, hevents]
  · rw [hover, hreceived]
    exact h.ended

/-- With every write a success, one step keeps all of it. -/
theorem Serving.step (h : Serving fromSlice input s) (hwrites : action.writes) (hmoves : Moves fromSlice s action t) :
    Serving fromSlice input t := by
  have hnone : s.reader ≠ .finished → WorkerState.stopped ∉ s.workers := fun hne hstopped => hne (h.stopped hstopped).1
  have hopen : s.reader = .reading → ReadsTo input s.received s.events := by
    intro hreading
    obtain ⟨events,hread,hevents⟩ := h.read
    rwa [hevents (by simp [Server.over, hreading])]
  cases hmoves with
  | ended hreading hless hwhy =>
    have hne : s.reader ≠ .finished := by simp [hreading]
    refine ⟨⟨s.events,hopen hreading,fun hover => absurd (.inl rfl) hover⟩,fun _ => h.live hne,fun hs => absurd hs (hnone hne),?_⟩
    refine fun _ => .inl ⟨s.events,hopen hreading,hwhy.resolve_left ?_⟩
    simp [h.live hne]
  | took hreading hread htaken =>
    have hne : s.reader ≠ .finished := by simp [hreading]
    refine ⟨⟨_,.frame (hopen hreading) hread,fun _ => rfl⟩,fun _ => h.live hne,fun hs => absurd hs (hnone hne),?_⟩
    cases htaken with
    | request | invalid => rintro (hover | hover) <;> cases hover
    | dropped hdue => exact fun _ => .inr ⟨_,_,rfl,hdue⟩
  | queued hreader | refused hreader | answered hreader =>
    have hne : s.reader ≠ .finished := by simp [hreader]
    refine h.kept rfl rfl ?_ (fun _ => h.live hne) fun hs => absurd hs (hnone hne)
    simp [Server.over, hreader]
  | finished hreader =>
    refine h.kept rfl rfl ?_ (fun hne => absurd rfl hne) fun hs => absurd hs (hnone (by simp [hreader]))
    simp [Server.over, hreader]
  | received hworker hqueue =>
    refine h.kept rfl rfl Iff.rfl h.live fun hs => ?_
    have hempty := (h.stopped (stopped_of_set hs (by nofun))).2
    rw [hqueue] at hempty
    cases hempty
  | handled | responded => exact h.kept rfl rfl Iff.rfl h.live fun hs => h.stopped (stopped_of_set hs (by nofun))
  | stopped hworker hqueue hfinished => exact h.kept rfl rfl Iff.rfl h.live fun _ => ⟨hfinished,hqueue⟩
  | unanswered | unresponded => cases hwrites

/-- What a step reads, settles and writes is what the accounts change by. -/
theorem Accounted.changed (h : Accounted fromSlice s) (frames : List StdioFrame) (settled : List (TunnelRequest × Settled))
    (responses : List TunnelResponse) (hreceived : t.received = s.received ++ frames) (hsettled : t.settled = s.settled ++ settled)
    (hwritten : t.written = s.written ++ responses.flatMap TunnelResponse.bytes)
    (hpending : (responses ++ t.pending).Perm
      (s.pending ++ (frames.filterMap (invalidAnswer fromSlice) ++ settled.map fun entry => entry.2.answer entry.1)))
    (hopened : (settled.map Prod.fst ++ t.opened).Perm (s.opened ++ frames.filterMap (parsedRequest fromSlice)))
    (hfull : ∀ request queued, (request,Settled.refused queued) ∈ settled → dispatchQueueCapacity ≤ queued) :
    Accounted fromSlice t := by
  obtain ⟨before,hbefore,hperm⟩ := h.answers
  have hrequests := h.requests
  refine ⟨⟨before ++ responses,by rw [hwritten, hbefore, flatMap_append],?_⟩,?_,fun request queued hmem => ?_⟩
  · unfold Server.answers at hperm ⊢
    rw [hreceived, hsettled, filterMap_append, map_append]
    rw [perm_iff_count] at hpending hperm ⊢
    intro a
    have hcount := hperm a
    have hcount' := hpending a
    simp only [count_append] at hcount hcount' ⊢
    omega
  · rw [hreceived, hsettled, filterMap_append, map_append]
    rw [perm_iff_count] at hopened hrequests ⊢
    intro a
    have hcount := hrequests a
    have hcount' := hopened a
    simp only [count_append] at hcount hcount' ⊢
    omega
  · rw [hsettled] at hmem
    rcases mem_append.mp hmem with hmem | hmem
    · exact h.full request queued hmem
    · exact hfull request queued hmem

theorem worker_middle {workers : List WorkerState} (h : workers[worker]? = some state) :
    ∃ before after, workers = before ++ state :: after ∧ ∀ state', workers.set worker state' = before ++ state' :: after := by
  obtain ⟨hlt,hget⟩ := List.getElem?_eq_some_iff.mp h
  refine ⟨workers.take worker,workers.drop (worker + 1),?_,fun state' => ?_⟩
  · rw [← hget, getElem_cons_drop, take_append_drop]
  · rw [set_eq_take_append_cons_drop, if_pos hlt]

/-- What the crew holds, without and with one worker changed. -/
theorem flatMap_set {β : Type} (hworker : s.workers[worker]? = some state) (f : WorkerState → List β) :
    ∃ rest, (s.workers.flatMap f).Perm (f state ++ rest) ∧
      ∀ state', ((s.workers.set worker state').flatMap f).Perm (f state' ++ rest) := by
  obtain ⟨before,after,hsplit,hset⟩ := worker_middle hworker
  refine ⟨before.flatMap f ++ after.flatMap f,?_,fun state' => ?_⟩
  · rw [hsplit, flatMap_append, flatMap_cons]
    exact perm_append_comm_assoc _ _ _
  · rw [hset, flatMap_append, flatMap_cons]
    exact perm_append_comm_assoc _ _ _

theorem Accounted.crew (h : Accounted fromSlice s) (hworker : s.workers[worker]? = some state)
    (settled : List (TunnelRequest × Settled)) (responses : List TunnelResponse) (hworkers : t.workers = s.workers.set worker state')
    (hreader : t.reader = s.reader) (hreceived : t.received = s.received) (hsettled : t.settled = s.settled ++ settled)
    (hwritten : t.written = s.written ++ responses.flatMap TunnelResponse.bytes)
    (hpending : (responses ++ state'.pending).Perm (state.pending ++ settled.map fun entry => entry.2.answer entry.1))
    (hopened : (settled.map Prod.fst ++ (t.queue ++ state'.opened)).Perm (s.queue ++ state.opened))
    (hfull : ∀ request queued, (request,Settled.refused queued) ∈ settled → dispatchQueueCapacity ≤ queued) :
    Accounted fromSlice t := by
  refine h.changed [] settled responses (by rw [hreceived, append_nil]) hsettled hwritten ?_ ?_ hfull
  · obtain ⟨rest,hbefore,hafter⟩ := flatMap_set hworker WorkerState.pending
    unfold Server.pending
    rw [hworkers, hreader, perm_iff_count]
    intro a
    have hcount := hpending.count_eq a
    have hcount' := hbefore.count_eq a
    have hcount'' := (hafter state').count_eq a
    simp only [count_append, filterMap_nil, count_nil] at hcount hcount' hcount'' ⊢
    omega
  · obtain ⟨rest,hbefore,hafter⟩ := flatMap_set hworker WorkerState.opened
    unfold Server.opened
    rw [hworkers, hreader, perm_iff_count]
    intro a
    have hcount := hopened.count_eq a
    have hcount' := hbefore.count_eq a
    have hcount'' := (hafter state').count_eq a
    simp only [count_append, filterMap_nil, count_nil] at hcount hcount' hcount'' ⊢
    omega

theorem Taken.pending {frame : StdioFrame} {reader : ReaderState} (h : Taken fromSlice frame reader) :
    reader.pending = [frame].filterMap (invalidAnswer fromSlice) ∧ reader.opened = [frame].filterMap (parsedRequest fromSlice) := by
  cases h with
  | request hparsed =>
    rw [filterMap_cons_none (invalidAnswer_of_parsed hparsed), filterMap_cons_some hparsed]
    exact ⟨rfl,rfl⟩
  | invalid hparsed hinvalid =>
    rw [filterMap_cons_some hinvalid, filterMap_cons_none hparsed]
    exact ⟨rfl,rfl⟩
  | dropped hdue =>
    rw [dueId_eq, Option.or_eq_none_iff, Option.map_eq_none_iff, Option.map_eq_none_iff] at hdue
    rw [filterMap_cons_none hdue.1, filterMap_cons_none hdue.2]
    exact ⟨rfl,rfl⟩

theorem Accounted.step (h : Accounted fromSlice s) (hwrites : action.writes) (hmoves : Moves fromSlice s action t) :
    Accounted fromSlice t := by
  have hunrefused : ∀ request queued, (request,Settled.refused queued) ∈ ([] : List (TunnelRequest × Settled)) →
      dispatchQueueCapacity ≤ queued := fun _ _ hmem => absurd hmem not_mem_nil
  cases hmoves with
  | ended hreading =>
    refine h.changed [] [] [] (by simp [Server.endReading]) (by simp [Server.endReading]) (by simp [Server.endReading]) ?_ ?_ hunrefused
    · simp [Server.pending, hreading, Server.endReading, ReaderState.pending]
    · simp [Server.opened, hreading, Server.endReading, ReaderState.opened]
  | @took frame events reader error hreading hread htaken =>
    refine h.changed [frame] [] [] rfl (by simp) (by simp) ?_ ?_ hunrefused
    · rw [← htaken.pending.1]
      simp [Server.pending, hreading, ReaderState.pending, perm_append_comm]
    · rw [← htaken.pending.2, Server.opened, Server.opened, hreading]
      show (reader.opened ++ (s.queue ++ s.workers.flatMap WorkerState.opened)).Perm (_ ++ reader.opened)
      exact perm_append_comm
  | queued hreader =>
    refine h.changed [] [] [] (by simp) (by simp) (by simp) ?_ ?_ hunrefused
    · simp [Server.pending, hreader, ReaderState.pending]
    · simp [Server.opened, hreader, ReaderState.opened, perm_middle]
  | refused hreader hfull =>
    refine h.changed [] [(_,.refused _)] [] (by simp) rfl (by simp) ?_ ?_ ?_
    · simpa [Server.pending, hreader, ReaderState.pending, Settled.answer] using (perm_append_singleton _ _).symm
    · simp [Server.opened, hreader, ReaderState.opened]
    · simp [hfull]
  | answered hreader =>
    refine h.changed [] [] [_] (by simp [Server.wrote]) (by simp [Server.wrote]) (by simp [Server.wrote]; rfl) ?_ ?_ hunrefused
    · simp [Server.pending, hreader, Server.wrote, ReaderState.pending]
    · simp [Server.opened, hreader, Server.wrote, ReaderState.opened]
  | finished hreader =>
    refine h.changed [] [] [] (by simp) (by simp) (by simp) ?_ ?_ hunrefused
    · simp [Server.pending, hreader, ReaderState.pending]
    · simp [Server.opened, hreader, ReaderState.opened]
  | @received worker request queue hworker hqueue =>
    refine h.crew hworker [] [] rfl rfl rfl (by simp [Server.setWorker]) (by simp [Server.setWorker]) (.refl _) ?_ hunrefused
    rw [hqueue]
    exact (perm_append_singleton request queue).trans (.of_eq (append_nil _).symm)
  | @handled worker outcome request hworker =>
    refine h.crew hworker [(request,.handled outcome)] [] rfl rfl rfl rfl (by simp [Server.setWorker]) (.refl _) ?_ (by simp)
    show ([request] ++ (s.queue ++ [])).Perm (s.queue ++ [request])
    rw [append_nil]
    exact perm_append_comm
  | responded hworker =>
    refine h.crew hworker [] [_] rfl rfl rfl (by simp [Server.setWorker, Server.wrote]) (by simp [Server.setWorker, Server.wrote])
      (.refl _) (.refl _) hunrefused
  | stopped hworker =>
    exact h.crew hworker [] [] rfl rfl rfl (by simp [Server.setWorker]) (by simp [Server.setWorker]) (.refl _) (.refl _) hunrefused
  | unanswered | unresponded => cases hwrites

/-- Everyone has stopped, and nothing is under way. -/
theorem Serving.settled_of_returned (h : Serving fromSlice input s) (hcrew : s.workers.length = dispatchWorkers)
    (hreturned : s.returned) : s.pending = [] ∧ s.opened = [] := by
  obtain ⟨hreader,hstopped⟩ := hreturned
  have hqueue : s.queue = [] := by
    have hpos : 0 < s.workers.length := by
      rw [hcrew]
      decide
    obtain ⟨state,hmem⟩ := exists_mem_of_length_pos hpos
    rw [hstopped state hmem] at hmem
    exact (h.stopped hmem).2
  have hworkers : ∀ {β : Type} (f : WorkerState → List β), f .stopped = [] → s.workers.flatMap f = [] := by
    intro β f hf
    apply List.flatMap_eq_nil_iff.mpr
    intro state hmem
    rw [hstopped state hmem, hf]
  unfold Server.pending Server.opened
  rw [hreader, hqueue, hworkers WorkerState.pending rfl, hworkers WorkerState.opened rfl]
  exact ⟨rfl,rfl⟩

/-- The outcomes are those that the handlers gave, in their order. -/
theorem outcomes_step (hmoves : Moves fromSlice s action t) : t.outcomes = s.outcomes ++ action.outcome.toList := by
  unfold Server.outcomes
  cases hmoves with
  | refused | handled => simp [ServerAction.outcome, Settled.outcome]
  | _ => exact (append_nil _).symm

end Running

section Ending
variable {fromSlice : Bytes → Option JsonValue} {s t : Server} {action : ServerAction} {worker : ℕ}
variable {state state' : WorkerState} {actions : List ServerAction} {input : List ReadEvent}

def ReaderState.work : ReaderState → ℕ
  | .reading => 2
  | .sending _ => 7
  | .answering _ => 4
  | .finishing => 1
  | .finished => 0

def WorkerState.work : WorkerState → ℕ
  | .idle => 1
  | .handling _ => 4
  | .answering _ => 3
  | .stopped => 0

def crewWork (workers : List WorkerState) : ℕ := (workers.map WorkerState.work).sum

def Server.work (s : Server) : ℕ := 10 * remaining s.events + s.reader.work + 4 * s.queue.length + crewWork s.workers

theorem crewWork_set {workers : List WorkerState} (hworker : workers[worker]? = some state) (state' : WorkerState) :
    crewWork (workers.set worker state') + state.work = crewWork workers + state'.work := by
  obtain ⟨before,after,hsplit,hset⟩ := worker_middle hworker
  unfold crewWork
  rw [hset, hsplit]
  simp only [map_append, map_cons, sum_append, sum_cons]
  omega

theorem work_step (hmoves : Moves fromSlice s action t) : t.work < s.work ∧ t.workers.length = s.workers.length := by
  cases hmoves with
  | ended hreading hless =>
    refine ⟨?_,rfl⟩
    dsimp only [Server.work, Server.endReading]
    rw [hreading]
    dsimp only [ReaderState.work]
    omega
  | @took frame events reader error hreading hread htaken =>
    refine ⟨?_,rfl⟩
    have hless : remaining events < remaining s.events := by
      have hless := (remaining_readFrame s.events).2 frame (by rw [hread])
      rwa [hread] at hless
    have hwork : reader.work ≤ 7 := by
      cases reader <;> exact of_decide_eq_true rfl
    dsimp only [Server.work]
    omega
  | queued hreader | refused hreader | answered hreader | unanswered hreader | finished hreader =>
    refine ⟨?_,rfl⟩
    simp only [Server.work, Server.wrote, Server.endReading, hreader, ReaderState.work, length_append, length_singleton]
    omega
  | @received worker request queue hworker hqueue =>
    have hset := crewWork_set hworker (.handling request)
    refine ⟨?_,length_set⟩
    dsimp only [Server.work, Server.setWorker, WorkerState.work] at hset ⊢
    rw [hqueue, length_cons]
    omega
  | @handled worker outcome request hworker =>
    have hset := crewWork_set hworker (.answering ((Settled.handled outcome).answer request))
    refine ⟨?_,length_set⟩
    dsimp only [Server.work, Server.setWorker, WorkerState.work] at hset ⊢
    omega
  | responded hworker =>
    have hset := crewWork_set hworker .idle
    refine ⟨?_,length_set⟩
    dsimp only [Server.work, Server.wrote, Server.setWorker, WorkerState.work] at hset ⊢
    omega
  | unresponded hworker | stopped hworker =>
    have hset := crewWork_set hworker .stopped
    refine ⟨?_,length_set⟩
    dsimp only [Server.work, Server.setWorker, WorkerState.work] at hset ⊢
    omega

/-- The server never waits for anything but itself. -/
theorem can_go_on (fromSlice : Bytes → Option JsonValue) (s : Server) :
    s.returned ∨ ∃ action : ServerAction, action.writes ∧ (serverStep fromSlice s action).isSome = true := by
  cases hreader : s.reader with
  | reading => exact .inr ⟨.read,trivial,by rw [serverStep, if_pos hreader]; rfl⟩
  | sending request => exact .inr ⟨.send,trivial,by rw [serverStep, hreader]; rfl⟩
  | answering response =>
    refine .inr ⟨.answer .written,rfl,?_⟩
    rw [serverStep, hreader]
    dsimp only
    rw [(writeResponse_eq s response).1]
    rfl
  | finishing => exact .inr ⟨.finish,trivial,by rw [serverStep, if_pos hreader]; rfl⟩
  | finished =>
    by_cases hstopped : ∀ worker ∈ s.workers, worker = .stopped
    · exact .inl ⟨hreader,hstopped⟩
    · push Not at hstopped
      obtain ⟨state,hmem,hne⟩ := hstopped
      obtain ⟨worker,hworker⟩ := List.mem_iff_getElem?.mp hmem
      right
      cases state with
      | idle =>
        cases hqueue : s.queue with
        | nil =>
          refine ⟨.stop worker,trivial,?_⟩
          rw [serverStep, hworker, hqueue]
          rw [if_pos hreader]
          rfl
        | cons request queue => exact ⟨.receive worker,trivial,by rw [serverStep, hworker, hqueue]; rfl⟩
      | handling request => exact ⟨.handle worker none,trivial,by rw [serverStep, hworker]; rfl⟩
      | answering response =>
        refine ⟨.respond worker .written,rfl,?_⟩
        rw [serverStep, hworker]
        dsimp only
        rw [(writeResponse_eq s response).1]
        rfl
      | stopped => exact absurd rfl hne

theorem run_work (h : Runs.run (serverStep fromSlice) s actions = some t) :
    actions.length + t.work ≤ s.work ∧ t.workers.length = s.workers.length := by
  induction actions generalizing s with
  | nil =>
    cases h
    exact ⟨by rw [length_nil, Nat.zero_add],rfl⟩
  | cons action actions ih =>
    obtain ⟨u,hu,hrest⟩ := Runs.run_cons.mp h
    obtain ⟨hless,hlength⟩ := work_step (moves_of_step hu)
    obtain ⟨hle,hlength'⟩ := ih hrest
    refine ⟨?_,hlength'.trans hlength⟩
    rw [length_cons]
    omega

theorem serving_run (h : Serving fromSlice input s) (haccounts : Accounted fromSlice s)
    (hwrites : ∀ action ∈ actions, action.writes) (hrun : Runs.run (serverStep fromSlice) s actions = some t) :
    Serving fromSlice input t ∧ Accounted fromSlice t ∧ t.outcomes = s.outcomes ++ actions.filterMap ServerAction.outcome := by
  induction actions generalizing s with
  | nil =>
    cases hrun
    exact ⟨h,haccounts,(append_nil _).symm⟩
  | cons action actions ih =>
    obtain ⟨u,hu,hrest⟩ := Runs.run_cons.mp hrun
    have hmoves := moves_of_step hu
    have hwritten := hwrites action mem_cons_self
    obtain ⟨hserving,hkept,houtcomes⟩ := ih (h.step hwritten hmoves) (haccounts.step hwritten hmoves)
      (fun other hother => hwrites other (mem_cons_of_mem _ hother)) hrest
    refine ⟨hserving,hkept,?_⟩
    rw [houtcomes, outcomes_step hmoves, append_assoc]
    cases action <;> rfl

end Ending

/-- What is out is whole responses that can be read back, each the answer to a request that was
received: 400 if it is invalid, 503 if it found the queue full, and else what its handler
answered, or 500. When the server returns, every request has its one answer. -/
structure AnswersOnce (fromSlice : Bytes → Option JsonValue) (input : List ReadEvent) (s : Server) : Prop where
  read : ∃ events, ReadsTo input s.received events
  answered : ∃ (frames : List StdioFrame) (responses : List TunnelResponse),
    (∀ events, Delivers events s.written → Decodes events frames) ∧ (∀ frame ∈ frames, frame.kind = frameKindResponse) ∧
      (∀ reader, Faithful reader → frames.map (fun frame => parseTunnelResponse reader frame.payload) =
        responses.map fun response => .ok response.bounded) ∧
      responses.Subperm (s.answers fromSlice) ∧ (s.returned → responses.Perm (s.answers fromSlice))
  settled : (s.settled.map Prod.fst).Subperm (s.received.filterMap (parsedRequest fromSlice)) ∧
    (s.returned → (s.settled.map Prod.fst).Perm (s.received.filterMap (parsedRequest fromSlice)))
  full : ∀ request queued, (request,Settled.refused queued) ∈ s.settled → dispatchQueueCapacity ≤ queued
  due : ((s.answers fromSlice).map (·.id.toNat)).Subperm (s.received.filterMap (dueId fromSlice)) ∧
    (s.returned → ((s.answers fromSlice).map (·.id.toNat)).Perm (s.received.filterMap (dueId fromSlice)))
  ended : s.returned → Ended fromSlice input s.received

theorem parse_bounded {reader : Bytes → Option JsonValue} (hreader : Faithful reader) (response : TunnelResponse) :
    parseTunnelResponse reader response.payload = .ok response.bounded :=
  parse_encodeBounded hreader response.id response.status response.body

section Answering
variable {fromSlice : Bytes → Option JsonValue} {input : List ReadEvent} {s : Server}

/-- The ids of the answers are those of the frames that are due one, up to the requests that
are still on their way. -/
theorem Accounted.due (h : Accounted fromSlice s) : ((s.answers fromSlice).map (·.id.toNat) ++ s.opened.map (·.id.toNat)).Perm
    (s.received.filterMap (dueId fromSlice)) := by
  have hid : ∀ entry : TunnelRequest × Settled, (entry.2.answer entry.1).id.toNat = entry.1.id.toNat := by
    rintro ⟨request,_ | _ | _⟩ <;> rfl
  have hrequests := h.requests.map fun request : TunnelRequest => request.id.toNat
  rw [map_append, map_map] at hrequests
  refine List.Perm.trans ?_ (filterMap_dueId s.received).symm
  unfold Server.answers
  rw [map_append, map_map, append_assoc]
  refine List.Perm.append_left _ (List.Perm.trans (.of_eq ?_) hrequests)
  exact congrArg (· ++ _) (map_congr_left fun entry _ => hid entry)

theorem Serving.answersOnce (h : Serving fromSlice input s) (haccounts : Accounted fromSlice s)
    (hcrew : s.workers.length = dispatchWorkers) : AnswersOnce fromSlice input s := by
  obtain ⟨events,hread,-⟩ := h.read
  obtain ⟨responses,hwritten,hperm⟩ := haccounts.answers
  have hrequests := haccounts.requests
  have hdue := haccounts.due
  have hreturned := h.settled_of_returned hcrew
  refine ⟨⟨events,hread⟩,⟨responses.map TunnelResponse.frame,responses,?_,?_,?_,?_,fun hend => ?_⟩,⟨?_,fun hend => ?_⟩,haccounts.full,
    ⟨?_,fun hend => ?_⟩,fun hend => h.ended (.inr hend.1)⟩
  · intro events hdelivers
    apply decodes_frames
    · intro frame hframe
      obtain ⟨response,-,rfl⟩ := mem_map.mp hframe
      exact encodeBounded_fits response.id response.status response.body
    · rw [flatMap_map]
      rw [hwritten] at hdelivers
      exact hdelivers
  · intro frame hframe
    obtain ⟨response,-,rfl⟩ := mem_map.mp hframe
    rfl
  · intro reader hreader
    rw [map_map]
    exact map_congr_left fun response _ => parse_bounded hreader response
  · exact (sublist_append_left _ _).subperm.trans hperm.subperm
  · rwa [(hreturned hend).1, append_nil] at hperm
  · exact (sublist_append_left _ _).subperm.trans hrequests.subperm
  · rwa [(hreturned hend).2, append_nil] at hrequests
  · exact (sublist_append_left _ _).subperm.trans hdue.subperm
  · rwa [(hreturned hend).2, map_nil, append_nil] at hdue

end Answering

/-- In every order of the steps and whatever the handlers answer, as long as writing succeeds;
and every order leads to the return of the server. -/
theorem stdio_answers_each_request_once (fromSlice : Bytes → Option JsonValue) (input : List ReadEvent)
    (actions : List ServerAction) (s : Server) (hrun : Runs.run (serverStep fromSlice) (startServer input) actions = some s)
    (hwrites : ∀ action ∈ actions, action.writes) :
    AnswersOnce fromSlice input s ∧ s.outcomes = actions.filterMap ServerAction.outcome ∧
      actions.length ≤ (startServer input).work ∧
      (s.returned ∨ ∃ action : ServerAction, action.writes ∧ (serverStep fromSlice s action).isSome = true) := by
  obtain ⟨hwork,hlength⟩ := run_work hrun
  have hcrew : s.workers.length = dispatchWorkers := hlength.trans length_replicate
  obtain ⟨hserving,haccounts,houtcomes⟩ := serving_run (serving_start input) (accounted_start input) hwrites hrun
  exact ⟨hserving.answersOnce haccounts hcrew,houtcomes,Nat.le_trans (Nat.le_add_right _ _) hwork,can_go_on fromSlice s⟩

section Trying

def pingPayload : Bytes := ascii "\x7b\"id\":7,\"method\":\"GET\",\"path\":\"/\"\x7d".toList

def strayPayload : Bytes := ascii "\x7b\"id\":8\x7d".toList

def pingFromSlice (payload : Bytes) : Option JsonValue :=
  if payload = pingPayload then
    some (.obj [("id".toList,.unsigned 7),("method".toList,.str "GET".toList),("path".toList,.str "/".toList)])
  else if payload = strayPayload then some (.obj [("id".toList,.unsigned 8)])
  else none

def pingInput : List ReadEvent :=
  [.data ((frameBytes frameKindRequest pingPayload).take 5),.interrupted,.data ((frameBytes frameKindRequest pingPayload).drop 5),
    .data (frameBytes frameKindRequest strayPayload)]

def pingActions : List ServerAction :=
  [.read,.send,.read,.receive 0,.answer .written,.read,.finish,.handle 0 none,.respond 0 .written] ++ (List.range 8).map .stop

/-- A request whose handler panics, and one without a method. -/
theorem ping_is_answered :
    ∃ s, Runs.run (serverStep pingFromSlice) (startServer pingInput) pingActions = some s ∧ s.returned ∧
      s.answers pingFromSlice = [⟨8,400,invalidEnvelope⟩,⟨7,500,handlerFailed⟩] ∧ AnswersOnce pingFromSlice pingInput s := by
  have hend : (Runs.run (serverStep pingFromSlice) (startServer pingInput) pingActions).map (fun s =>
      (s.reader,s.workers,s.answers pingFromSlice)) =
        some (.finished,List.replicate 8 .stopped,[⟨8,400,invalidEnvelope⟩,⟨7,500,handlerFailed⟩]) := by
    decide +kernel
  obtain ⟨s,hrun,hs⟩ := Option.map_eq_some_iff.mp hend
  rw [Prod.mk.injEq, Prod.mk.injEq] at hs
  obtain ⟨hreader,hworkers,hanswers⟩ := hs
  have hwrites : ∀ action ∈ pingActions, action.writes := by
    intro action haction
    rcases mem_append.mp haction with haction | haction
    · simp only [mem_cons, not_mem_nil, or_false] at haction
      rcases haction with rfl | rfl | rfl | rfl | rfl | rfl | rfl | rfl | rfl
      all_goals trivial
    · obtain ⟨worker,-,rfl⟩ := mem_map.mp haction
      trivial
  refine ⟨s,hrun,⟨hreader,?_⟩,hanswers,(stdio_answers_each_request_once pingFromSlice pingInput pingActions s hrun hwrites).1⟩
  rw [hworkers]
  exact fun worker hworker => eq_of_mem_replicate hworker

end Trying

end Unpeel.Stdio
