import Unpeel.Session.WriteInterest

/-! # Units of terminal input

The PTY should receive whole units: one frame of an input connection, the data
of one `Write`, one reply to a query. This module has the units, how a queue of
them advances, and the operations that move no input at all.
-/
namespace Unpeel.Session

section Units

inductive InputSource where
  | stream (token : ℕ)
  | write
  | reply
  deriving DecidableEq, Repr

structure InputUnit where
  source : InputSource
  bytes : List UInt8
  deriving DecidableEq, Repr

def unitBytes (units : List InputUnit) : List UInt8 := (units.map InputUnit.bytes).flatten

def unitsOf (source : InputSource) (units : List InputUnit) : List (List UInt8) :=
  (units.filter (fun u => u.source = source)).map InputUnit.bytes

def unitsFrom (source : InputSource) (data : List (List UInt8)) : List InputUnit := data.map (InputUnit.mk source)

@[simp] theorem unitBytes_append (us vs : List InputUnit) :
    unitBytes (us ++ vs) = unitBytes us ++ unitBytes vs := by simp [unitBytes]

@[simp] theorem unitsOf_append (source : InputSource) (us vs : List InputUnit) :
    unitsOf source (us ++ vs) = unitsOf source us ++ unitsOf source vs := by simp [unitsOf]

@[simp] theorem unitBytes_unitsFrom (source : InputSource) (data : List (List UInt8)) :
    unitBytes (unitsFrom source data) = data.flatten := by
  simp [unitBytes, unitsFrom, Function.comp_def]

theorem unitsOf_unitsFrom (source origin : InputSource) (data : List (List UInt8)) :
    unitsOf source (unitsFrom origin data) = if origin = source then data else [] := by
  by_cases h : origin = source
  · simp [unitsOf, unitsFrom, List.filter_map, Function.comp_def, h]
  · simp [unitsOf, unitsFrom, List.filter_map, Function.comp_def, h]

/-- `m` bytes leave a queue of units: the units that are through, the units left,
and how much of the first of these is gone. -/
def advance : ℕ → List InputUnit → List InputUnit × List InputUnit × ℕ
  | _, [] => ([],[],0)
  | m, u :: us =>
    if u.bytes.length ≤ m then
      let next := advance (m - u.bytes.length) us
      (u :: next.1,next.2)
    else ([],u :: us,m)

theorem advance_units (m : ℕ) (us : List InputUnit) : (advance m us).1 ++ (advance m us).2.1 = us := by
  induction us generalizing m with
  | nil => rfl
  | cons u us ih =>
    simp only [advance]
    split
    · simp [ih]
    · rfl

theorem advance_bytes (m : ℕ) (us : List InputUnit) :
    unitBytes (advance m us).1 ++ (unitBytes (advance m us).2.1).take (advance m us).2.2 =
      (unitBytes us).take m ∧
    (unitBytes (advance m us).2.1).drop (advance m us).2.2 = (unitBytes us).drop m ∧
    (advance m us).2.2 ≤ (unitBytes (advance m us).2.1).length := by
  induction us generalizing m with
  | nil => simp [advance, unitBytes]
  | cons u us ih =>
    have hcons : unitBytes (u :: us) = u.bytes ++ unitBytes us := rfl
    simp only [advance, hcons]
    split
    · next h =>
      obtain ⟨h1,h2,h3⟩ := ih (m - u.bytes.length)
      refine ⟨?_,?_,h3⟩
      · rw [List.take_append, List.take_of_length_le h, ← h1]
        simp [unitBytes]
      · rw [List.drop_append, List.drop_eq_nil_of_le h, ← h2]
        rfl
    · next h =>
      refine ⟨by simp [unitBytes],by simp [hcons],?_⟩
      show m ≤ (unitBytes (u :: us)).length
      rw [hcons, List.length_append]
      omega

end Units

section Phases

inductive ConnPhase where
  | handshake
  | streamIn (buf : List UInt8)
  | other
  deriving DecidableEq, Repr

def Client.phase (c : Client) : ConnPhase :=
  match c.state with
  | .handshake _ => .handshake
  | .streamIn buf => .streamIn buf
  | .streamOut _ _ _ => .other

namespace SessionIo
variable {s t u : SessionIo} {base : ℕ}

def phase (s : SessionIo) (token : ℕ) : ConnPhase := (s.clients token).elim .other Client.phase

structure Keeps (s t : SessionIo) : Prop where
  pty : t.pty = s.pty
  pendingInput : t.pendingInput = s.pendingInput
  nextToken : s.nextToken ≤ t.nextToken
  phase : ∀ token, t.phase token = s.phase token ∨ t.phase token = .other ∨
    t.phase token = .handshake ∧ s.nextToken ≤ token

theorem Keeps.refl (s : SessionIo) : Keeps s s := ⟨rfl,rfl,Nat.le_refl _,fun _ => .inl rfl⟩

theorem Keeps.trans (h : Keeps s t) (g : Keeps t u) : Keeps s u := by
  refine ⟨g.pty.trans h.pty,g.pendingInput.trans h.pendingInput,h.nextToken.trans g.nextToken,fun token => ?_⟩
  rcases g.phase token with he | ho | ⟨hh,hn⟩
  · rw [he]
    exact h.phase token
  · exact .inr (.inl ho)
  · exact .inr (.inr ⟨hh,h.nextToken.trans hn⟩)

theorem Keeps.of_clients (hp : t.pty = s.pty) (hq : t.pendingInput = s.pendingInput)
    (hn : t.nextToken = s.nextToken) (hc : t.clients = s.clients) : Keeps s t :=
  ⟨hp,hq,hn.ge,fun token => .inl (by rw [SessionIo.phase, hc]; rfl)⟩

theorem phase_update (s : SessionIo) (k : ℕ) (v : Option Client) (token : ℕ) :
    phase { s with clients := Function.update s.clients k v } token =
      if token = k then v.elim .other Client.phase else s.phase token := by
  unfold phase
  by_cases h : token = k
  · simp [h]
  · simp [h]

theorem keeps_closeClient (s : SessionIo) (c : Client) : Keeps s (s.closeClient c) := by
  have hrem : Keeps s { s with clients := Function.update s.clients c.token none } := by
    refine ⟨rfl,rfl,Nat.le_refl _,fun token => ?_⟩
    rw [phase_update]
    split
    · exact .inr (.inl rfl)
    · exact .inl rfl
  unfold closeClient
  split
  · exact ⟨rfl,rfl,Nat.le_refl _,hrem.phase⟩
  · exact hrem

theorem keeps_settleClient (s : SessionIo) {c : Client} (keep : Bool)
    (h : c.phase = s.phase c.token ∨ c.phase = .other) : Keeps s (s.settleClient c keep) := by
  unfold settleClient
  split
  · refine ⟨rfl,rfl,Nat.le_refl _,fun token => ?_⟩
    rw [phase_update]
    split
    · next ht =>
      subst ht
      exact h.imp_right .inl
    · exact .inl rfl
  · exact keeps_closeClient s c

/-- An input connection that comes back from its handler stays with its buffer
or is closed. -/
theorem settleClient_streamIn (s : SessionIo) {c : Client} {buf : List UInt8} (hs : c.state = .streamIn buf)
    (keep : Bool) :
    (s.settleClient c keep).pty = s.pty ∧ (s.settleClient c keep).pendingInput = s.pendingInput ∧
    (s.settleClient c keep).nextToken = s.nextToken ∧
    ∀ token, (s.settleClient c keep).phase token =
      if token = c.token then (if keep then .streamIn buf else .other) else s.phase token := by
  unfold settleClient closeClient
  cases keep with
  | true =>
    refine ⟨rfl,rfl,rfl,fun token => ?_⟩
    rw [if_pos rfl, phase_update]
    simp [Client.phase, hs]
  | false =>
    simp only [Bool.false_eq_true, ↓reduceIte, hs]
    exact ⟨trivial,trivial,trivial,fun token => phase_update s c.token none token⟩

theorem pumpPasses_phase {connected : Bool} {now : ℕ} (fuel : ℕ) (results : List WriteResult) (ch : Channel)
    (c : Client) : (pumpPasses connected now fuel results ch c).2.1.phase = c.phase := by
  induction fuel generalizing results ch c with
  | zero => rfl
  | succ fuel ih =>
    have hflush : ∀ (rs : List WriteResult) (d : Client), (d.flushClientOutbuf now rs).1.phase = d.phase := by
      intro rs d
      rw [Client.phase, (d.flushClientOutbuf_sameEnds now rs).state, Client.phase]
    simp only [pumpPasses]
    split
    · exact hflush _ _
    split
    · exact hflush _ _
    split
    · next hs =>
      have hother : c.phase = .other := by
        rw [← hflush results c, Client.phase, hs]
      split
      · exact hflush _ _
      split
      · rw [hother]
        rfl
      split
      · rw [hflush, hother]
        rfl
      · rw [ih, hother]
        rfl
    · exact hflush _ _

theorem keeps_pumpClient (s : SessionIo) (now : ℕ) (results : List WriteResult) {id : ℕ} {c : Client}
    (h : c.phase = .other) : Keeps s (s.pumpClient now results id c) := by
  have hset : Keeps s { s with channels := Function.update s.channels id (s.pumped now results id c).1 } :=
    .of_clients rfl rfl rfl rfl
  refine hset.trans (keeps_settleClient _ _ (.inr ?_))
  exact (pumpPasses_phase _ results _ c).trans h

theorem keeps_foldl {α : Type*} {f : SessionIo → α → SessionIo} (hf : ∀ s a, Keeps s (f s a))
    (l : List α) (s : SessionIo) : Keeps s (l.foldl f s) := by
  induction l generalizing s with
  | nil => exact .refl s
  | cons a l ih => exact (hf s a).trans (ih _)

theorem keeps_flushStreamClients (s : SessionIo) (now : ℕ) (sockets : ℕ → List WriteResult) :
    Keeps s (s.flushStreamClients now sockets) := by
  refine keeps_foldl (fun s token => ?_) _ s
  unfold flushStreamClient
  split
  · next c _ =>
    split
    · next hs => exact keeps_pumpClient _ _ _ (by rw [Client.phase, hs])
    · exact .refl s
  · exact .refl s

theorem keeps_acceptClient (s : SessionIo) (now fd : ℕ) : Keeps s (s.acceptClient now fd) := by
  unfold acceptClient
  split
  · refine ⟨rfl,rfl,Nat.le_succ _,fun token => ?_⟩
    have hp := phase_update s s.nextToken (some ⟨⟨fd,0,[]⟩,s.nextToken,.handshake [],[],0,false,now⟩) token
    split at hp
    · next ht => exact .inr (.inr ⟨hp,ht.ge⟩)
    · exact .inl hp
  · exact .refl s

theorem keeps_idleTick (s : SessionIo) (now : ℕ) :
    Keeps s ((s.releaseIdleBuffers now).sweepStalledClients now) := by
  have hr : Keeps s (s.releaseIdleBuffers now) := by
    unfold releaseIdleBuffers
    split_ifs
    · exact .refl s
    · exact .refl s
    · exact .of_clients rfl rfl rfl rfl
  refine hr.trans (keeps_foldl (fun s token => ?_) _ _)
  split
  · split
    · exact keeps_closeClient _ _
    · exact .refl s
  · exact .refl s

theorem keeps_clientWritable (h : Good base s) (now : ℕ) (results : List WriteResult) (token : ℕ) :
    Keeps s (s.clientWritable now results token) := by
  unfold clientWritable
  split
  · next c hc =>
    split
    · next hs => exact keeps_pumpClient _ _ _ (by rw [Client.phase, hs])
    · have he := c.flushClientOutbuf_sameEnds now results
      refine keeps_settleClient _ _ (.inl ?_)
      rw [he.token, h.token token c hc, phase, hc, Option.elim_some, Client.phase, he.state, Client.phase]
  · exact .refl s

theorem keeps_setPtyInterest (s : SessionIo) (read write : Bool) : Keeps s (s.setPtyInterest read write) := by
  unfold setPtyInterest
  split
  · exact .refl s
  · exact .of_clients rfl rfl rfl rfl

theorem keeps_journalDrained (s : SessionIo) : Keeps s s.journalDrained := by
  unfold journalDrained
  split
  · exact keeps_setPtyInterest _ _ _
  · exact .refl s

theorem keeps_exportHandoff (s : SessionIo) (now : ℕ) (sockets : ℕ → List WriteResult) :
    Keeps s (s.exportHandoff now sockets).1 := by
  have hpause : Keeps s (s.pauseForHandoff now sockets) := by
    refine .trans ?_ ((keeps_setPtyInterest _ _ _).trans (keeps_flushStreamClients _ now sockets))
    exact .of_clients rfl rfl rfl rfl
  unfold exportHandoff
  dsimp only
  split
  · exact .refl s
  refine hpause.trans ?_
  generalize s.pauseForHandoff now sockets = p
  split
  · refine .trans ?_ (keeps_setPtyInterest _ _ _)
    exact .of_clients rfl rfl rfl rfl
  · refine ⟨rfl,rfl,Nat.le_refl _,fun token => .inl ?_⟩
    unfold phase
    cases hc : p.clients token with
    | none => simp [hc]
    | some c =>
      have hexp : (p.afterExport c).phase = c.phase := by
        unfold afterExport exportClient
        cases hs : c.state with
        | handshake buf | streamIn buf => rfl
        | streamOut id pending closing =>
          dsimp only
          split
          · rfl
          · simp [Client.phase, hs]
      simp [hc, hexp]

theorem keeps_abandonHandoff (s : SessionIo) (now : ℕ) (sockets : ℕ → List WriteResult) :
    Keeps s (s.abandonHandoff now sockets) := by
  have he := keeps_exportHandoff s now sockets
  unfold abandonHandoff
  split
  · next p e h =>
    rw [h] at he
    refine he.trans ?_
    unfold resumeAfterHandoff
    dsimp only
    split
    · exact .of_clients rfl rfl rfl rfl
    · refine .trans ?_ (keeps_setPtyInterest _ _ _)
      exact .of_clients rfl rfl rfl rfl
  · next r e h =>
    rw [h] at he
    exact he

end SessionIo
end Phases
end Unpeel.Session
