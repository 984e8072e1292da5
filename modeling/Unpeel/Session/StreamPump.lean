import Unpeel.Session.StreamCarry

/-! # What the pump gets done

How far the pump comes is decided by the room in the socket alone: whether it
keeps the client, and whether it leaves the outbox and the channel empty.
-/
namespace Unpeel.Session
open List

namespace Client

theorem unsent_length (c : Client) : c.unsent.length = c.outbuf.length - c.outPos := length_drop ..

theorem wrote_unsent (c : Client) (now n : ℕ) : (c.wrote now n).unsent = c.unsent.drop n := by
  simp [wrote, unsent, drop_drop]

theorem wrote_wrote (c : Client) (now m n : ℕ) :
    (c.wrote now m).wrote now n = c.wrote now (m + n) := by
  simp only [wrote, unsent, append_assoc, Nat.add_assoc, Client.mk.injEq, UnixStream.mk.injEq,
    true_and, and_true]
  rw [← drop_drop, ← take_add]

def taken (c : Client) (results : List WriteResult) : ℕ := min (room results) c.unsent.length

/-- The write loop: what is written, whether the client is gone, and the room
left over once the outbox is empty. -/
theorem writeLoop_spec (now : ℕ) (results : List WriteResult) (c : Client) :
    (writeLoop now results c).1 = (if c.taken results = 0 then c else c.wrote now (c.taken results)) ∧
    ((writeLoop now results c).2.1 = false ↔
      room results < c.unsent.length ∧ brokenPipe results = true) ∧
    (c.unsent.length ≤ room results →
      room (writeLoop now results c).2.2 = room results - c.unsent.length ∧
      brokenPipe (writeLoop now results c).2.2 = brokenPipe results) := by
  induction results generalizing c with
  | nil => simp [writeLoop, taken, room, brokenPipe]
  | cons result rest ih =>
    by_cases hmore : c.outPos < c.outbuf.length
    swap
    · have h0 : c.unsent.length = 0 := by rw [unsent_length]; omega
      simp [writeLoop, hmore, taken, h0]
    have hpos : 0 < c.unsent.length := by rw [unsent_length]; omega
    have hne : c.unsent ≠ [] := ne_nil_of_length_pos hpos
    cases result with
    | ok n =>
      by_cases h0 : n = 0
      · simp [writeLoop, hmore, taken, room, brokenPipe, h0, hpos, hne]
      have hb : brokenPipe (.ok n :: rest) = brokenPipe rest := by simp [brokenPipe, h0]
      have hr : room (.ok n :: rest) = n + room rest := by simp [room, h0]
      by_cases hn : c.unsent.length < n
      · have ht : c.taken (.ok n :: rest) = c.unsent.length := by
          rw [taken, hr]
          omega
        simp only [writeLoop, hmore, h0, hn, ↓reduceIte, ht, if_neg (Nat.ne_of_gt hpos), hb, hr, true_and]
        refine ⟨by simp; omega,fun _ => ⟨?_,?_⟩⟩
        · rw [room, if_neg (by omega)]
          omega
        · simp [brokenPipe, show n - c.unsent.length ≠ 0 by omega]
      · obtain ⟨h1,h2,h3⟩ := ih (c.wrote now n)
        have hl : (c.wrote now n).unsent.length = c.unsent.length - n := by
          rw [wrote_unsent, length_drop]
        have ht : c.taken (.ok n :: rest) = n + (c.wrote now n).taken rest := by
          rw [taken, taken, hr, hl]
          omega
        simp only [writeLoop, hmore, h0, hn, ↓reduceIte, ht, hb, hr]
        refine ⟨?_,?_,fun h => ?_⟩
        · rw [h1, if_neg (show n + _ ≠ 0 by omega)]
          split_ifs with hz
          · rw [hz, Nat.add_zero]
          · exact wrote_wrote _ _ _ _
        · rw [h2]
          exact and_congr_left' (by omega)
        · obtain ⟨h3,h4⟩ := h3 (by omega)
          exact ⟨by rw [h3]; omega,h4⟩
    | wouldBlock => simp [writeLoop, hmore, taken, room, brokenPipe, hne]
    | interrupted =>
      simp only [writeLoop, hmore, ↓reduceIte]
      exact ih c
    | error => simp [writeLoop, hmore, taken, room, brokenPipe, hpos, hne]

theorem compact_unsent (c : Client) : c.compact.unsent = c.unsent := by
  unfold compact
  split_ifs with h1 h2
  · simp [unsent, drop_of_length_le h1]
  · simp [unsent]
  · rfl

theorem compact_outbuf (c : Client) : c.compact.outbuf = [] ↔ c.unsent = [] := by
  unfold compact unsent
  split_ifs with h1 h2
  · simp [h1]
  · rfl
  · rw [drop_eq_nil_iff]
    simp only [h1, iff_false]
    intro he
    simp [he] at h1

theorem compact_lastProgress (c : Client) : c.compact.lastProgress = c.lastProgress := by
  unfold compact
  split_ifs <;> rfl

/-- A flush: when it gives the client up, when it empties the outbox, and the
room and the clock it leaves. -/
theorem flush_spec (now : ℕ) (results : List WriteResult) (c : Client) :
    ((c.flushClientOutbuf now results).2.1 = true ↔ c.unsent.length ≤ room results ∨
      brokenPipe results = false ∧
        ¬(room results = 0 ∧ sessionOutputStreamWriteTimeoutMs < now - c.lastProgress)) ∧
    ((c.flushClientOutbuf now results).2.1 = true →
      (¬(c.flushClientOutbuf now results).1.outPos < (c.flushClientOutbuf now results).1.outbuf.length ↔
        c.unsent.length ≤ room results)) ∧
    (c.unsent.length ≤ room results →
      room (c.flushClientOutbuf now results).2.2 = room results - c.unsent.length ∧
      brokenPipe (c.flushClientOutbuf now results).2.2 = brokenPipe results ∧
      (c.flushClientOutbuf now results).1.lastProgress =
        if c.unsent = [] then c.lastProgress else now) := by
  obtain ⟨hw,hk,hr⟩ := writeLoop_spec now results c
  have hu : (writeLoop now results c).1.unsent = c.unsent.drop (c.taken results) := by
    rw [hw]
    split_ifs with h0
    · rw [h0, drop_zero]
    · exact wrote_unsent _ _ _
  have hlp : (writeLoop now results c).1.lastProgress =
      if c.taken results = 0 then c.lastProgress else now := by
    rw [hw]
    split_ifs <;> rfl
  by_cases hfit : c.unsent.length ≤ room results
  · have hkept : (writeLoop now results c).2.1 = true := by
      by_contra h
      have := hk.mp (by simpa using h)
      omega
    have ht : c.taken results = c.unsent.length := by rw [taken]; omega
    have hnil : (writeLoop now results c).1.compact.outbuf = [] := by
      rw [compact_outbuf, hu, ht, drop_length]
    have hp : (writeLoop now results c).1.compact.lastProgress =
        if c.unsent = [] then c.lastProgress else now := by
      rw [compact_lastProgress, hlp, ht]
      simp only [length_eq_zero_iff]
    simp [flushClientOutbuf, hkept, hnil, hfit, hr hfit, hp]
  · have hne : (writeLoop now results c).1.unsent ≠ [] := by
      rw [hu, Ne, drop_eq_nil_iff, taken]
      omega
    have hout : (writeLoop now results c).1.compact.outbuf ≠ [] := by rwa [Ne, compact_outbuf]
    have hpos : (writeLoop now results c).1.compact.outPos <
        (writeLoop now results c).1.compact.outbuf.length := by
      rw [← compact_unsent, unsent, Ne, drop_eq_nil_iff, Nat.not_le] at hne
      exact hne
    cases hb : brokenPipe results with
    | true =>
      have : (writeLoop now results c).2.1 = false := hk.mpr ⟨by omega,hb⟩
      simp [flushClientOutbuf, this, hfit]
    | false =>
      have hkept : (writeLoop now results c).2.1 = true := by
        by_contra h
        have := hk.mp (by simpa using h)
        simp [hb] at this
      have h0 : c.taken results = 0 ↔ room results = 0 := by rw [taken]; omega
      simp only [flushClientOutbuf, hkept, ↓reduceIte, hfit, false_or, compact_lastProgress, hlp, h0]
      have hwant : ((writeLoop now results c).1.compact.outbuf.isEmpty) = false := by
        simpa using hout
      simp only [hwant, Bool.not_false, true_and]
      by_cases hz : room results = 0
      · simp only [hz, ↓reduceIte, true_and]
        by_cases hs : sessionOutputStreamWriteTimeoutMs < now - c.lastProgress
        · simp [hs]
        · simp [hs, hpos]
      · simp [hz, hpos]

end Client

theorem framedBefore_nil (stop : List SessionOutputChunk × Pull → Bool) (fuel : ℕ) :
    framedBefore stop fuel [] = 0 := by
  cases fuel <;> simp [framedBefore]

/-- The pump of a streaming client: whether it keeps the client, and whether it
empties the channel. -/
theorem pumpPasses_spec {connected : Bool} {now id : ℕ} {fuel : ℕ} (results : List WriteResult)
    {ch : Channel} {c : Client} (hs : c.state = .streamOut id none false)
    (hx : ∀ x ∈ ch.queue, x.exited = false) (hfuel : ch.queue.length < fuel) (bound : ℕ)
    (hb : ch.queue.length ≤ bound) :
    let r := pumpPasses connected now fuel results ch c
    let upTo := fun stop => c.unsent.length + framedBefore stop bound ch.queue
    (r.2.2 = true ↔
      ¬(room results < upTo (fun _ => false) ∧ (brokenPipe results = true ∨
        room results = 0 ∧ sessionOutputStreamWriteTimeoutMs < now - c.lastProgress)) ∧
      (connected = true ∨ ¬upTo (fun filled => filled.2.disconnected) ≤ room results)) ∧
    (r.2.2 = true →
      (r.1.queue = [] ↔ ch.queue = [] ∨ upTo (fun filled => filled.1.isEmpty) ≤ room results)) := by
  induction fuel generalizing results ch c bound with
  | zero => omega
  | succ fuel ih =>
    obtain ⟨hkeep,hempty,hleft⟩ := c.flush_spec now results
    rw [pumpPasses_succ hs hx]
    by_cases hk : (c.flushClientOutbuf now results).2.1 = true
    swap
    · have hno := mt hkeep.mpr hk
      simp only [hk, Bool.not_false, ↓reduceIte, Bool.false_eq_true, false_iff, false_imp_iff, and_true]
      cases hbp : brokenPipe results <;> simp [hbp] at hno ⊢ <;> omega
    simp only [hk, Bool.not_true, Bool.false_eq_true, ↓reduceIte]
    by_cases hfull : (c.flushClientOutbuf now results).1.outPos <
        (c.flushClientOutbuf now results).1.outbuf.length
    · have hno : ¬c.unsent.length ≤ room results := fun h => (hempty hk).mpr h hfull
      have hok := (hkeep.mp hk).resolve_left hno
      simp only [if_pos hfull, true_iff, forall_const]
      refine ⟨⟨fun h => ?_,.inr (by omega)⟩,⟨.inl,fun h => h.resolve_right (by omega)⟩⟩
      simp [hok.1] at h
      exact hok.2 h.2
    have hfits := (hempty hk).mp hfull
    obtain ⟨hroom,hbroken,hclock⟩ := hleft hfits
    obtain ⟨hout,hpos⟩ := Client.flush_drained hk hfull
    obtain ⟨hq,hframed,hdisc⟩ := pull_congr connected ch.queue
      (p := ⟨ch.buffered,none,(c.flushClientOutbuf now results).1.outbuf,false,false⟩)
      (q := ⟨0,none,[],false,false⟩) hout rfl rfl rfl
    rw [if_neg hfull]
    -- what the pass leaves, in the terms of a fill of an empty outbox
    have hst : (refill connected id ch (c.flushClientOutbuf now results).1).2.1.state =
        .streamOut id none false := refill_state hx
    have hrq : (refill connected id ch (c.flushClientOutbuf now results).1).1.queue =
        (fill ch.queue).1 := hq
    have hrb : (refill connected id ch (c.flushClientOutbuf now results).1).2.1.outbuf =
        (fill ch.queue).2.framed := hframed
    have hrd : (refill connected id ch (c.flushClientOutbuf now results).1).2.2 =
        (!connected && (fill ch.queue).2.disconnected) := hdisc
    have hrp : (refill connected id ch (c.flushClientOutbuf now results).1).2.1.outPos = 0 := hpos
    have hrc : (refill connected id ch (c.flushClientOutbuf now results).1).2.1.lastProgress =
        if c.unsent = [] then c.lastProgress else now := hclock
    have hru : (refill connected id ch (c.flushClientOutbuf now results).1).2.1.unsent =
        (fill ch.queue).2.framed := by rw [Client.unsent, hrp, hrb, drop_zero]
    generalize refill connected id ch (c.flushClientOutbuf now results).1 = filled at *
    rw [hrp, hrb]
    by_cases hnil : ch.queue = []
    · have hf : (fill ch.queue).2.framed = [] := by rw [hnil]; rfl
      have hd : (fill ch.queue).2.disconnected = true := by rw [hnil]; rfl
      have hqe : filled.1.queue = [] := by rw [hrq, hnil]; rfl
      rw [hf, if_pos (show 0 = ([] : List UInt8).length from rfl)]
      rw [hd, Bool.and_true] at hrd
      simp only [hrd, hqe, hnil, framedBefore_nil]
      simp [hfits]
    have hfpos : 0 < (fill ch.queue).2.framed.length := pull_framed_pos (.inl hnil)
    have hshort : (fill ch.queue).1.length < ch.queue.length := pull_progress _ hnil
    obtain ⟨b,rfl⟩ : ∃ b, bound = b + 1 := ⟨bound - 1,by omega⟩
    rw [if_neg (show ¬0 = (fill ch.queue).2.framed.length by omega)]
    by_cases hdis : filled.2.2 = true
    · rw [hrd, Bool.and_eq_true, Bool.not_eq_true'] at hdis
      simp [hrd, hdis, framedBefore, hfits]
    rw [if_neg hdis]
    obtain ⟨ih1,ih2⟩ := ih (c.flushClientOutbuf now results).2.2 hst
      (fun x hm => hx x ((pull_suffix false ch.queue _).subset (hrq ▸ hm)))
      (by rw [hrq]; omega) b (by rw [hrq]; omega)
    rw [hrq, hru, hroom, hbroken, hrc] at ih1
    rw [hrq, hru, hroom] at ih2
    have hstale : (room results - c.unsent.length = 0 ∧
          sessionOutputStreamWriteTimeoutMs < now - if c.unsent = [] then c.lastProgress else now) ↔
        room results = 0 ∧ sessionOutputStreamWriteTimeoutMs < now - c.lastProgress := by
      by_cases hu : c.unsent = []
      · simp [hu]
      · have := length_pos_iff.mpr hu
        simp only [hu, ↓reduceIte, Nat.sub_self, Nat.not_lt_zero, and_false, false_iff]
        omega
    rw [hstale] at ih1
    constructor
    · rw [ih1]
      simp only [framedBefore, hnil, Bool.false_eq_true, or_false, false_or, ↓reduceIte]
      refine and_congr (not_congr (and_congr_left' (by omega))) ?_
      cases hfd : (fill ch.queue).2.disconnected with
      | true =>
        have : connected = true := by simpa [hrd, hfd] using hdis
        simp [this]
      | false =>
        simp only [Bool.false_eq_true, ↓reduceIte]
        exact or_congr_right (not_congr (by omega))
    · intro hkept
      rw [ih2 hkept]
      simp only [framedBefore, hnil, false_or]
      by_cases hend : (fill ch.queue).1 = []
      · simp [hend, hfits]
      · simp only [hend, false_or, List.isEmpty_eq_false_iff.mpr hend, Bool.false_eq_true, ↓reduceIte]
        omega

theorem pumpStreamClient_inFlight {connected : Bool} {now since id : ℕ} {data : List UInt8}
    (results : List WriteResult) {ch : Channel} {c : Client}
    (hs : c.state = .streamOut id none false) (h : InFlight since data c ch) :
    let r := pumpStreamClient connected now results ch c
    InFlight since data r.2.1 r.1 ∧ Pumped id c ch r.2.1 r.1 := pumpPasses_inFlight _ results hs h

theorem pumpStreamClient_keep {connected : Bool} {now id : ℕ} (results : List WriteResult)
    {ch : Channel} {c : Client} (hs : c.state = .streamOut id none false)
    (hx : ∀ x ∈ ch.queue, x.exited = false) :
    (pumpStreamClient connected now results ch c).2.2 = true ↔
      ¬LosesSocket now results c ch.queue ∧
      (connected = true ∨ ¬c.unsent.length + queuedBeforeEnd ch.queue ≤ room results) :=
  (pumpPasses_spec results hs hx (Nat.lt_add_of_pos_right (by decide)) _ (Nat.le_refl _)).1

theorem pumpStreamClient_empties {connected : Bool} {now id : ℕ} (results : List WriteResult)
    {ch : Channel} {c : Client} (hs : c.state = .streamOut id none false)
    (hx : ∀ x ∈ ch.queue, x.exited = false)
    (hk : (pumpStreamClient connected now results ch c).2.2 = true) :
    (pumpStreamClient connected now results ch c).1.queue = [] ↔
      ch.queue = [] ∨ c.unsent.length + queuedAhead ch.queue ≤ room results :=
  (pumpPasses_spec results hs hx (Nat.lt_add_of_pos_right (by decide)) _ (Nat.le_refl _)).2 hk

end Unpeel.Session
