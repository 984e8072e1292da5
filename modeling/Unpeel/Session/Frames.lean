import Unpeel.Session.SessionIo

/-! # What each operation leaves alone

The operations of a Session fall into those that serve clients, those that move
bytes to the PTY, and the reads of a client, which do both. Each kind is stated
once, as the update it amounts to.
-/
namespace Unpeel.Session.SessionIo
variable {s t u : SessionIo}

/-- Only the clients change, with their subscriptions and channels. Nothing is
published. -/
def OnlyClients (s t : SessionIo) : Prop :=
  ∃ b chs n cs, t = { s with broadcaster := b, channels := chs, nextToken := n, clients := cs } ∧
    b.nextOffset = s.broadcaster.nextOffset

/-- Only the way to the PTY changes: its bytes, the queue, the interest and the
pause of a handoff. -/
def OnlyInput (s t : SessionIo) : Prop :=
  ∃ pty pending read write poller off,
    t = { s with pty := pty, pendingInput := pending, ptyReadInterest := read,
                 ptyWriteInterest := write, poller := poller, handingOff := off }

def OnlyClientIo (s t : SessionIo) : Prop :=
  ∃ u, OnlyInput s u ∧ OnlyClients u t

theorem OnlyClients.refl (s : SessionIo) : OnlyClients s s := ⟨_,_,_,_,rfl,rfl⟩

theorem OnlyClients.trans (h : OnlyClients s t) (g : OnlyClients t u) : OnlyClients s u := by
  obtain ⟨_,_,_,_,rfl,hs⟩ := h
  obtain ⟨_,_,_,_,rfl,ht⟩ := g
  exact ⟨_,_,_,_,rfl,ht.trans hs⟩

theorem OnlyInput.refl (s : SessionIo) : OnlyInput s s := ⟨_,_,_,_,_,_,rfl⟩

theorem OnlyInput.trans (h : OnlyInput s t) (g : OnlyInput t u) : OnlyInput s u := by
  obtain ⟨_,_,_,_,_,_,rfl⟩ := h
  obtain ⟨_,_,_,_,_,_,rfl⟩ := g
  exact ⟨_,_,_,_,_,_,rfl⟩

theorem OnlyClients.io (h : OnlyClients s t) : OnlyClientIo s t := ⟨s,.refl s,h⟩

theorem OnlyInput.io (h : OnlyInput s t) : OnlyClientIo s t := ⟨t,h,.refl t⟩

theorem OnlyClientIo.trans (h : OnlyClientIo s t) (g : OnlyClientIo t u) : OnlyClientIo s u := by
  obtain ⟨_,⟨_,_,_,_,_,_,rfl⟩,⟨_,_,_,_,rfl,hs⟩⟩ := h
  obtain ⟨_,⟨_,_,_,_,_,_,rfl⟩,⟨_,_,_,_,rfl,ht⟩⟩ := g
  exact ⟨_,⟨_,_,_,_,_,_,rfl⟩,⟨_,_,_,_,rfl,ht.trans hs⟩⟩

section Clients

theorem onlyClients_acceptClient (s : SessionIo) (now fd : ℕ) : OnlyClients s (s.acceptClient now fd) := by
  unfold acceptClient
  split
  · exact ⟨_,_,_,_,rfl,rfl⟩
  · exact .refl s

theorem onlyClients_closeClient (s : SessionIo) (c : Client) : OnlyClients s (s.closeClient c) := by
  unfold closeClient
  split <;> exact ⟨_,_,_,_,rfl,rfl⟩

theorem onlyClients_settleClient (s : SessionIo) (c : Client) (keep : Bool) :
    OnlyClients s (s.settleClient c keep) := by
  unfold settleClient
  split
  · exact ⟨_,_,_,_,rfl,rfl⟩
  · exact onlyClients_closeClient s c

theorem onlyClients_pumpClient (s : SessionIo) (now : ℕ) (results : List WriteResult) (id : ℕ) (c : Client) :
    OnlyClients s (s.pumpClient now results id c) := by
  refine .trans ?_ (onlyClients_settleClient _ _ _)
  exact ⟨_,_,_,_,rfl,rfl⟩

theorem onlyClients_foldl {α : Type*} {f : SessionIo → α → SessionIo} (hf : ∀ s a, OnlyClients s (f s a))
    (l : List α) (s : SessionIo) : OnlyClients s (l.foldl f s) := by
  induction l generalizing s with
  | nil => exact .refl s
  | cons a l ih => exact (hf s a).trans (ih _)

theorem onlyClients_flushStreamClients (s : SessionIo) (now : ℕ) (sockets : ℕ → List WriteResult) :
    OnlyClients s (s.flushStreamClients now sockets) := by
  refine onlyClients_foldl (fun s token => ?_) _ s
  unfold flushStreamClient
  split
  · split
    · exact onlyClients_pumpClient _ _ _ _ _
    · exact .refl s
  · exact .refl s

theorem onlyClients_clientWritable (s : SessionIo) (now : ℕ) (results : List WriteResult) (token : ℕ) :
    OnlyClients s (s.clientWritable now results token) := by
  unfold clientWritable
  split
  · split
    · exact onlyClients_pumpClient _ _ _ _ _
    · exact onlyClients_settleClient _ _ _
  · exact .refl s

theorem onlyClients_idleTick (s : SessionIo) (now : ℕ) :
    OnlyClients s ((s.releaseIdleBuffers now).sweepStalledClients now) := by
  have hr : OnlyClients s (s.releaseIdleBuffers now) := by
    unfold releaseIdleBuffers
    split_ifs <;> exact ⟨_,_,_,_,rfl,rfl⟩
  refine hr.trans (onlyClients_foldl (fun s token => ?_) _ _)
  split
  · split
    · exact onlyClients_closeClient _ _
    · exact .refl s
  · exact .refl s

theorem onlyClients_adoptClient (s : SessionIo) (now : ℕ) (stream : UnixStream) (h : ClientHandoff) :
    OnlyClients s (s.adoptClient now stream h) := by
  unfold adoptClient
  split
  · split
    · exact .refl s
    · next hb => exact ⟨_,_,_,_,rfl,OutputBroadcaster.subscribe_nextOffset hb⟩
  · exact ⟨_,_,_,_,rfl,rfl⟩
  · exact ⟨_,_,_,_,rfl,rfl⟩

theorem onlyClients_register (s : SessionIo) (now : ℕ) :
    OnlyClients { s with ptyReadInterest := true, poller := some (true,false), adoptedClients := [] }
      (s.register now) :=
  onlyClients_foldl (fun s (a : UnixStream × ClientHandoff) => onlyClients_adoptClient s now a.1 a.2) _ _

end Clients

section Input

theorem onlyInput_setPtyInterest (s : SessionIo) (read write : Bool) :
    OnlyInput s (s.setPtyInterest read write) := by
  unfold setPtyInterest
  split
  · exact .refl s
  · exact ⟨_,_,_,_,_,_,rfl⟩

theorem onlyInput_applyJournalBackpressure (s : SessionIo) (backlog : ℕ) :
    OnlyInput s (s.applyJournalBackpressure backlog) := by
  unfold applyJournalBackpressure
  split
  · exact onlyInput_setPtyInterest _ _ _
  · exact .refl s

theorem onlyInput_journalDrained (s : SessionIo) : OnlyInput s s.journalDrained := by
  unfold journalDrained
  split
  · exact onlyInput_setPtyInterest _ _ _
  · exact .refl s

theorem onlyInput_drainPendingInput (s : SessionIo) (results : List WriteResult) :
    OnlyInput s (s.drainPendingInput results).1 := by
  unfold drainPendingInput
  split
  · exact .refl s
  · dsimp only
    split_ifs
    · exact ⟨_,_,_,_,_,_,rfl⟩
    · exact ⟨_,_,_,_,_,_,rfl⟩
    · refine .trans ?_ (onlyInput_setPtyInterest _ _ _)
      exact ⟨_,_,_,_,_,_,rfl⟩

theorem onlyInput_writeFrames (writes : List (List WriteResult)) (frames : List (List UInt8))
    (s : SessionIo) : OnlyInput s (s.writeFrames writes frames).1 := by
  induction frames generalizing s writes with
  | nil => exact .refl s
  | cons data frames ih =>
    have hw : OnlyInput s (s.writePtyInput (writes.headD []) data).1 := by
      refine .trans ?_ (onlyInput_drainPendingInput _ _)
      exact ⟨_,_,_,_,_,_,rfl⟩
    simp only [writeFrames]
    split
    · exact hw.trans (ih _ _)
    · exact hw

theorem onlyInput_clientInput (s : SessionIo) (c : Client) (reads : List ReadResult)
    (writes : List (List WriteResult)) : OnlyInput s (s.clientInput c reads writes).1 := by
  unfold clientInput
  split
  · dsimp only
    split
    · exact .refl s
    · exact onlyInput_writeFrames _ _ _
  · exact .refl s

end Input

theorem onlyClientIo_clientInput (s : SessionIo) (c : Client) (reads : List ReadResult)
    (writes : List (List WriteResult)) :
    OnlyClientIo s ((s.clientInput c reads writes).1.settleClient (s.clientInput c reads writes).2.1
      (s.clientInput c reads writes).2.2) :=
  ⟨_,onlyInput_clientInput s c reads writes,onlyClients_settleClient _ _ _⟩

theorem onlyClientIo_startCommand (s : SessionIo) (now : ℕ) (socket : List WriteResult)
    (reads : List ReadResult) (writes : List (List WriteResult)) (c : Client) (line : List UInt8)
    (command : Option SessionHostCommand) :
    OnlyClientIo s (s.startCommand now socket reads writes c line command) := by
  match command with
  | none | some .oneShot => exact (onlyClients_closeClient s c).io
  | some (.streamOutput offset answers) =>
    simp only [startCommand]
    split
    · exact (onlyClients_closeClient s c).io
    · next hb =>
      refine OnlyClients.io (.trans ?_ (onlyClients_pumpClient _ _ _ _ _))
      exact ⟨_,_,_,_,rfl,OutputBroadcaster.subscribe_nextOffset hb⟩
  | some .streamInput =>
    simp only [startCommand]
    split
    · exact onlyClientIo_clientInput _ _ _ _
    · exact (onlyClients_closeClient _ _).io

theorem onlyClientIo_clientReadable (s : SessionIo) (now token : ℕ) (reads later : List ReadResult)
    (command : Option SessionHostCommand) (socket : List WriteResult)
    (writes : List (List WriteResult)) :
    OnlyClientIo s (s.clientReadable now token reads later command socket writes) := by
  unfold clientReadable
  split
  · exact (OnlyClients.refl s).io
  split
  · split
    · exact (onlyClients_closeClient _ _).io
    · exact (onlyClients_settleClient _ _ _).io
    · exact onlyClientIo_startCommand _ _ _ _ _ _ _ _
  · exact onlyClientIo_clientInput _ _ _ _
  · split <;> exact (onlyClients_settleClient _ _ _).io

section OneShot

/-- A `Write` that returned: refused, answered without writing, delivered in
full, or given up by the PTY, and then nothing is recorded. -/
inductive WriteOutcome (s : SessionIo) (writeId : Option WriteId) (data : List UInt8)
    (results : List WriteResult) : SessionIo → Except String Bool → Prop
  | refused (message : String) : validateWriteId writeId = .error message →
      WriteOutcome s writeId data results s (.error message)
  | known (id : WriteId) : validateWriteId writeId = .ok (some id) →
      s.recentWriteIds.contains id = true → WriteOutcome s writeId data results s (.ok false)
  | delivered (id : Option WriteId) (rest : List WriteResult) : validateWriteId writeId = .ok id →
      id.any s.recentWriteIds.contains = false → writeAll results data = some (data,true,rest) →
      WriteOutcome s writeId data results
        { s with pty := ⟨s.pty.accepted ++ data⟩,
                 recentWriteIds := id.elim s.recentWriteIds s.recentWriteIds.recordApplied } (.ok true)
  | failed (id : Option WriteId) (taken : List UInt8) (rest : List WriteResult) (message : String) :
      validateWriteId writeId = .ok id → id.any s.recentWriteIds.contains = false →
      writeAll results data = some (taken,false,rest) →
      WriteOutcome s writeId data results { s with pty := ⟨s.pty.accepted ++ taken⟩ } (.error message)

theorem dispatchWrite_outcome {writeId : Option WriteId} {data : List UInt8}
    {results : List WriteResult} {r : Except String Bool}
    (h : s.dispatchWrite writeId data results = some (t,r)) : s.WriteOutcome writeId data results t r := by
  unfold dispatchWrite at h
  cases hv : validateWriteId writeId with
  | error message =>
    simp only [hv, Option.some.injEq, Prod.mk.injEq] at h
    obtain ⟨rfl,rfl⟩ := h
    exact .refused message hv
  | ok id =>
    simp only [hv] at h
    split at h
    · next hc =>
      obtain ⟨rfl,rfl⟩ := h
      cases id with
      | none => simp at hc
      | some id => exact .known id hv (by simpa using hc)
    · next hc =>
      obtain ⟨⟨taken,ok,rest⟩,hw,he⟩ := Option.map_eq_some_iff.mp h
      have hok := (writeAll_spec hw).2
      have hc' : id.any s.recentWriteIds.contains = false := by simpa using hc
      cases ok with
      | true =>
        obtain ⟨rfl,rfl⟩ := he
        cases hok.mp rfl
        exact .delivered id rest hv hc' hw
      | false =>
        obtain ⟨rfl,rfl⟩ := he
        exact .failed id taken rest _ hv hc' hw

end OneShot

section Handoff

theorem onlyClients_pauseForHandoff (s : SessionIo) (now : ℕ) (sockets : ℕ → List WriteResult) :
    OnlyClients (setPtyInterest { s with handingOff := true } false s.ptyWriteInterest)
      (s.pauseForHandoff now sockets) :=
  onlyClients_flushStreamClients _ now sockets

theorem onlyInput_pause (s : SessionIo) :
    OnlyInput s (setPtyInterest { s with handingOff := true } false s.ptyWriteInterest) := by
  refine .trans ?_ (onlyInput_setPtyInterest _ _ _)
  exact ⟨_,_,_,_,_,_,rfl⟩

theorem onlyClientIo_pauseForHandoff (s : SessionIo) (now : ℕ) (sockets : ℕ → List WriteResult) :
    OnlyClientIo s (s.pauseForHandoff now sockets) :=
  ⟨_,onlyInput_pause s,onlyClients_pauseForHandoff s now sockets⟩

theorem onlyInput_resumeAfterHandoff (s : SessionIo) : OnlyInput s s.resumeAfterHandoff := by
  unfold resumeAfterHandoff
  dsimp only
  split
  · exact ⟨_,_,_,_,_,_,rfl⟩
  · refine .trans ?_ (onlyInput_setPtyInterest _ _ _)
    exact ⟨_,_,_,_,_,_,rfl⟩

theorem onlyClientIo_exportHandoff (s : SessionIo) (now : ℕ) (sockets : ℕ → List WriteResult) :
    OnlyClientIo s (s.exportHandoff now sockets).1 := by
  unfold exportHandoff
  dsimp only
  split
  · exact (OnlyClients.refl s).io
  refine (onlyClientIo_pauseForHandoff s now sockets).trans ?_
  split
  · refine OnlyInput.io (.trans ?_ (onlyInput_setPtyInterest _ _ _))
    exact ⟨_,_,_,_,_,_,rfl⟩
  · exact OnlyClients.io ⟨_,_,_,_,rfl,rfl⟩

theorem onlyClientIo_abandonHandoff (s : SessionIo) (now : ℕ) (sockets : ℕ → List WriteResult) :
    OnlyClientIo s (s.abandonHandoff now sockets) := by
  have he := onlyClientIo_exportHandoff s now sockets
  unfold abandonHandoff
  split
  · next p e h =>
    rw [h] at he
    exact he.trans (onlyInput_resumeAfterHandoff p).io
  · next r e h =>
    rw [h] at he
    exact he

end Handoff
end Unpeel.Session.SessionIo
