import Unpeel.Session.InputStream
import Unpeel.Session.InputUnits

/-! # The ledger of a Session's input

A Session is run together with a record of the units that came in and of those
that are through. The record is beside the state and never looked at by it.
-/
namespace Unpeel.Session

section Arrivals

/-- What a readable event brings to the input side: nothing, bytes of a stream
whose acknowledgement cannot be sent, or a call of `client_input` with a client,
its buffer and the reads it makes. -/
inductive Arrival where
  | none
  | refused (rest : List UInt8)
  | input (c : Client) (buf : List UInt8) (reads : List ReadResult) (opening : Bool)

def arrival (s : SessionIo) (now token : ℕ) (reads later : List ReadResult)
    (command : Option SessionHostCommand) (socket : List WriteResult) : Arrival :=
  match s.clients token with
  | .none => .none
  | some c =>
    match c.state with
    | .handshake buf =>
      match readHandshake reads buf, command with
      | .line buf, some .streamInput =>
        let flushed := Client.flushClientOutbuf now socket
          { c with outbuf := c.outbuf ++ [sessionInputStreamAck], state := .streamIn (afterLine buf) }
        if flushed.2.1 then .input flushed.1 (afterLine buf) later true else .refused (afterLine buf)
      | _, _ => .none
    | .streamIn buf => .input c buf reads false
    | .streamOut _ _ _ => .none

namespace Arrival

def bytes : Arrival → List UInt8
  | .none => []
  | .refused rest => rest
  | .input _ buf reads opening => (if opening then buf else []) ++ (readInput reads buf).1.drop buf.length

def frames : Arrival → List (List UInt8)
  | .none => []
  | .refused _ => []
  | .input _ buf reads _ =>
    let parsed := parseInput (readInput reads buf).1
    if parsed.2.2 then [] else parsed.1

/-- No complete frame is dropped with the connection: neither together with a
refused length behind it, nor with an acknowledgement that cannot be sent. -/
def DropsNothing : Arrival → Prop
  | .none => True
  | .refused rest => (parseInput rest).1 = []
  | .input _ buf reads _ =>
    (parseInput (readInput reads buf).1).2.2 = true → (parseInput (readInput reads buf).1).1 = []

end Arrival

open SessionIo in
/-- A readable event runs `client_input` on its client, or moves no input. -/
theorem clientReadable_arrival {base : ℕ} {s : SessionIo} (h : Good base s) (now token : ℕ)
    (reads later : List ReadResult) (command : Option SessionHostCommand) (socket : List WriteResult)
    (writes : List (List WriteResult)) :
    match arrival s now token reads later command socket with
    | .input c buf rs opening =>
      c.state = .streamIn buf ∧ c.token = token ∧
      s.phase token = (if opening then .handshake else .streamIn buf) ∧
      s.clientReadable now token reads later command socket writes =
        (s.clientInput c rs writes).1.settleClient (s.clientInput c rs writes).2.1
          (s.clientInput c rs writes).2.2
    | .refused _ => s.phase token = .handshake ∧
      Keeps s (s.clientReadable now token reads later command socket writes) ∧
      (s.clientReadable now token reads later command socket writes).phase token = .other
    | .none => Keeps s (s.clientReadable now token reads later command socket writes) := by
  unfold arrival clientReadable
  cases hc : s.clients token with
  | none => exact .refl s
  | some c =>
    have htok := h.token token c hc
    have hphase : s.phase token = c.phase := by simp [phase, hc]
    simp only
    cases hs : c.state with
    | streamIn buf => exact ⟨hs,htok,by rw [hphase, Client.phase, hs]; rfl,rfl⟩
    | streamOut id p cl =>
      have hself : ∀ keep, Keeps s (s.settleClient c keep) :=
        fun keep => keeps_settleClient s keep (.inl (by rw [htok, hphase]))
      simp only
      split <;> exact hself _
    | handshake buf =>
      have hhand : s.phase token = .handshake := by rw [hphase, Client.phase, hs]
      simp only
      cases hr : readHandshake reads buf with
      | closed => exact keeps_closeClient s c
      | waiting rest =>
        refine keeps_settleClient s true (.inl ?_)
        rw [htok, hhand]
        rfl
      | line line =>
        cases command with
        | none => exact keeps_closeClient s c
        | some command =>
          cases command with
          | oneShot => exact keeps_closeClient s c
          | streamOutput offset answers =>
            simp only [startCommand]
            split
            · exact keeps_closeClient s c
            · next b chs id _ =>
              have hsub : Keeps s { s with broadcaster := b, channels := chs } := .of_clients rfl rfl rfl rfl
              exact hsub.trans (keeps_pumpClient _ _ _ rfl)
          | streamInput =>
            have he := Client.flushClientOutbuf_sameEnds now socket
              { c with outbuf := c.outbuf ++ [sessionInputStreamAck], state := .streamIn (afterLine line) }
            simp only [startCommand]
            by_cases hf : (Client.flushClientOutbuf now socket { c with
                outbuf := c.outbuf ++ [sessionInputStreamAck], state := .streamIn (afterLine line) }).2.1 = true
            · simp only [hf, ↓reduceIte]
              exact ⟨he.state,he.token.trans htok,hhand,trivial⟩
            · simp only [hf, Bool.false_eq_true, ↓reduceIte]
              refine ⟨hhand,keeps_closeClient _ _,?_⟩
              unfold closeClient
              rw [he.state]
              dsimp only
              rw [phase_update, if_pos (he.token.trans htok).symm]
              rfl

end Arrivals

section Ledger
variable {s : SessionIo}
variable {results : List WriteResult}

/-- A Session with the record of its input: what came in on each connection, what
the other sources wrote, the units the PTY has, the units in the queue, and how
much of the first of these the PTY has. -/
structure InputLedger where
  session : SessionIo
  received : ℕ → List UInt8
  writes : List (List UInt8)
  replies : List (List UInt8)
  delivered : List InputUnit
  queue : List InputUnit
  taken : ℕ

namespace InputLedger

def flow (w : InputLedger) (t : SessionIo) (units : List InputUnit) : InputLedger :=
  let moved := advance (w.taken + (t.pty.accepted.length - w.session.pty.accepted.length)) (w.queue ++ units)
  { w with session := t, delivered := w.delivered ++ moved.1, queue := moved.2.1, taken := moved.2.2 }

def direct (w : InputLedger) (t : SessionIo) (units : List InputUnit) : InputLedger :=
  { w with session := t, delivered := w.delivered ++ units }

end InputLedger

def repliesTo (s : SessionIo) (cursor : ℕ × ℕ) (bytes : List UInt8) : List (List UInt8) :=
  (s.queryScanner.scan bytes s.interceptProbes).queries.map (queryReply s.darkMode cursor)

def inputLedgerStep (w : InputLedger) : SessionEvent → Option InputLedger
  | .commitHandoff _ _ => none
  | .ptyWritable results => some (w.flow (w.session.drainPendingInput results).1 [])
  | .clientReadable now token reads later command socket writes =>
    let came := arrival w.session now token reads later command socket
    some { w.flow (w.session.clientReadable now token reads later command socket writes)
        (unitsFrom (.stream token) came.frames) with
      received := Function.update w.received token (w.received token ++ came.bytes) }
  | .write writeId data results =>
    (w.session.dispatchWrite writeId data results).map (fun r =>
      match r.2 with
      | .ok true => { w.direct r.1 [⟨.write,data⟩] with writes := w.writes ++ [data] }
      | _ => { w with session := r.1 })
  | .ptyReadable now cursor replies bytes backlog =>
    (sessionStep w.session (.ptyReadable now cursor replies bytes backlog)).map (fun t =>
      { w.direct t (unitsFrom .reply (repliesTo w.session cursor bytes)) with
        replies := w.replies ++ repliesTo w.session cursor bytes })
  | a => (sessionStep w.session a).map (fun t => { w with session := t })

/-- The bytes for the PTY, taken and queued, are whole units: those of a
connection are the frames received on it, in order and each once, and those of
the other sources are what they wrote. -/
def InputIntact (w : InputLedger) : Prop :=
  ∃ units : List InputUnit,
    w.session.pty.accepted ++ w.session.pendingInput = unitBytes units ∧
    (∀ token, unitsOf (.stream token) units = (parseInput (w.received token)).1) ∧
    unitsOf .write units = w.writes ∧ unitsOf .reply units = w.replies

def PtyTakesInput (w : InputLedger) : SessionEvent → Prop
  | .ptyWritable results => (w.session.drainPendingInput results).2 = true
  | .clientReadable now token reads later command socket writes =>
    (w.session.writeFrames writes
      (arrival w.session now token reads later command socket).frames).2 = true
  | .write _ data results => ∀ taken rest, writeAll results data ≠ some (taken,false,rest)
  | .ptyReadable _ cursor replies bytes _ =>
    ∀ out, writeReplies w.session.darkMode cursor replies
        (w.session.queryScanner.scan bytes w.session.interceptProbes).queries = some out →
      out = (repliesTo w.session cursor bytes).flatten
  | _ => True

/-- The id of a `Write` is accepted and not known, so it is written. -/
def WritesThrough (s : SessionIo) (writeId : Option WriteId) : Prop :=
  ∃ id, validateWriteId writeId = .ok id ∧ id.any s.recentWriteIds.contains = false

/-- Nothing goes to the PTY past a unit it has a part of, and no connection is
closed together with frames it has sent. -/
def KeepsUnits (w : InputLedger) : SessionEvent → Prop
  | .clientReadable now token reads later command socket _ =>
    (arrival w.session now token reads later command socket).DropsNothing
  | .write writeId data _ => WritesThrough w.session writeId → data ≠ [] → w.taken = 0
  | .ptyReadable _ cursor _ bytes _ => repliesTo w.session cursor bytes ≠ [] → w.taken = 0
  | _ => True

structure Accounted (base : ℕ) (w : InputLedger) : Prop where
  good : w.session.Good base
  accepted : w.session.pty.accepted = unitBytes w.delivered ++ (unitBytes w.queue).take w.taken
  pending : w.session.pendingInput = (unitBytes w.queue).drop w.taken
  within : w.taken ≤ (unitBytes w.queue).length
  queued : ∀ u ∈ w.queue, ∃ token, u.source = .stream token
  frames : ∀ token, unitsOf (.stream token) (w.delivered ++ w.queue) = (parseInput (w.received token)).1
  writes : unitsOf .write (w.delivered ++ w.queue) = w.writes
  replies : unitsOf .reply (w.delivered ++ w.queue) = w.replies
  streams : ∀ token buf, w.session.phase token = .streamIn buf →
    (parseInput (w.received token)).2 = (buf,false)
  fresh : ∀ token, w.session.phase token = .handshake ∨ w.session.nextToken ≤ token →
    w.received token = []

theorem drainPendingInput_moves (h : (s.drainPendingInput results).2 = true) :
    ∃ out, (s.drainPendingInput results).1.pty.accepted = s.pty.accepted ++ out ∧
      out ++ (s.drainPendingInput results).1.pendingInput = s.pendingInput := by
  have hset : ∀ (n : ℕ) (write : Bool), ∃ out,
      (SessionIo.setPtyInterest (s.tookInput n) s.ptyReadInterest write).pty.accepted = s.pty.accepted ++ out ∧
      out ++ (SessionIo.setPtyInterest (s.tookInput n) s.ptyReadInterest write).pendingInput = s.pendingInput := by
    intro n write
    have hk := SessionIo.keeps_setPtyInterest (s.tookInput n) s.ptyReadInterest write
    refine ⟨s.pendingInput.take n,by rw [hk.pty]; rfl,?_⟩
    rw [hk.pendingInput]
    exact List.take_append_drop n s.pendingInput
  rw [SessionIo.drainPendingInput_eq] at h ⊢
  split_ifs at h ⊢ with h1 h2 h3 h4
  · exact ⟨[],by simp,by simp⟩
  · exact hset _ false
  · exact hset _ true

theorem writePtyInput_moves {data : List UInt8} (h : (s.writePtyInput results data).2 = true) :
    ∃ out, (s.writePtyInput results data).1.pty.accepted = s.pty.accepted ++ out ∧
      out ++ (s.writePtyInput results data).1.pendingInput = s.pendingInput ++ data :=
  drainPendingInput_moves h

theorem writeFrames_moves {writes : List (List WriteResult)} {frames : List (List UInt8)}
    (h : (s.writeFrames writes frames).2 = true) :
    ∃ out, (s.writeFrames writes frames).1.pty.accepted = s.pty.accepted ++ out ∧
      out ++ (s.writeFrames writes frames).1.pendingInput = s.pendingInput ++ frames.flatten := by
  induction frames generalizing s writes with
  | nil => exact ⟨[],by simp [SessionIo.writeFrames],by simp [SessionIo.writeFrames]⟩
  | cons data frames ih =>
    simp only [SessionIo.writeFrames] at h ⊢
    split at h
    · next hw =>
      obtain ⟨out,ha,hp⟩ := writePtyInput_moves hw
      obtain ⟨more,ha',hp'⟩ := ih h
      rw [if_pos hw]
      refine ⟨out ++ more,?_,?_⟩
      · rw [ha', ha, List.append_assoc]
      · rw [List.append_assoc, hp', ← List.append_assoc, hp]
        simp
    · cases h

/-- A read of the PTY writes its replies and moves no other input. -/
theorem ptyReadable_replies {t : SessionIo} {now : ℕ} {cursor : ℕ × ℕ} {replies : List WriteResult}
    {bytes : List UInt8} {backlog : ℕ} (h : s.ptyReadable now cursor replies bytes backlog = some t) :
    ∃ out, writeReplies s.darkMode cursor replies (s.queryScanner.scan bytes s.interceptProbes).queries = some out ∧
      t.pty.accepted = s.pty.accepted ++ out ∧ t.pendingInput = s.pendingInput ∧
      t.clients = s.clients ∧ t.nextToken = s.nextToken := by
  obtain ⟨u,hu,rfl⟩ := Option.map_eq_some_iff.mp h
  have hsame : (u.applyJournalBackpressure backlog).pty = u.pty ∧
      (u.applyJournalBackpressure backlog).pendingInput = u.pendingInput := by
    unfold SessionIo.applyJournalBackpressure
    split
    · have hk := u.keeps_setPtyInterest false u.ptyWriteInterest
      exact ⟨hk.pty,hk.pendingInput⟩
    · exact ⟨rfl,rfl⟩
  have hone := (u.onlyInput_applyJournalBackpressure backlog).sameOutput
  rw [hsame.1, hsame.2, hone.clients, hone.nextToken]
  unfold SessionIo.processPtyBytes at hu
  simp only [Option.bind_eq_bind, Option.bind_eq_some_iff] at hu
  obtain ⟨out,hout,hu⟩ := hu
  refine ⟨out,hout,?_⟩
  cases Option.some.inj hu
  split <;> exact ⟨rfl,rfl,rfl,rfl⟩

/-- `client_input` delivers the frames of its arrival and keeps the rest. -/
theorem clientInput_frames (s : SessionIo) {c : Client} {buf : List UInt8} (hs : c.state = .streamIn buf)
    (reads : List ReadResult) (writes : List (List WriteResult)) (opening : Bool) :
    (s.clientInput c reads writes).1 =
      (s.writeFrames writes (Arrival.input c buf reads opening).frames).1 ∧
    (s.clientInput c reads writes).2.1 =
      { c with state := .streamIn (parseInput (readInput reads buf).1).2.1 } ∧
    ((s.clientInput c reads writes).2.2 = true → (parseInput (readInput reads buf).1).2.2 = false) := by
  unfold SessionIo.clientInput Arrival.frames
  simp only [hs, ← parseInput.eq_1]
  cases hv : (parseInput (readInput reads buf).1).2.2 with
  | true => exact ⟨rfl,rfl,fun h => by cases h⟩
  | false => exact ⟨rfl,rfl,fun _ => rfl⟩

end Ledger
end Unpeel.Session
