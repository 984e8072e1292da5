import Unpeel.Foundation.Runs
import Unpeel.Journal.RetainedOutput

/-! # The journal stays bounded

Every write checks whether retention is due. A check leaves a window of the bytes to
retain, the slack and a block at most, so all depends on how far away the next check
is set; a handoff sets it anew.
-/
namespace Unpeel.Journal
open Runs

/-- A journal in use, with the floor before the last step and the size of the last
write. -/
structure Retention where
  writer : RetainedOutputWriter
  journal : OutputJournal
  previousFloor : ℕ
  lastWrite : ℕ
  deriving DecidableEq, Repr

inductive RetentionEvent where
  | write (bytes : List UInt8)
  | reopen
  deriving DecidableEq, Repr

section Runs
variable (retainBytes advanceBytes blksize : ℕ)

def startRetention (j : OutputJournal) (initialOffset : ℕ) : Retention :=
  let (writer,journal) := RetainedOutputWriter.new j initialOffset retainBytes advanceBytes
  ⟨writer,journal,initialOffset,0⟩

def retentionStep (s : Retention) : RetentionEvent → Option Retention
  | .write bytes =>
    let (writer,journal) := s.writer.write (max blksize 1) s.journal bytes
    some ⟨writer,journal,s.writer.retainedFrom,if bytes = [] then s.lastWrite else bytes.length⟩
  | .reopen =>
    match RetainedOutputWriter.reopen s.journal s.journal.file.length retainBytes advanceBytes with
    | .error _ => none
    | .ok writer => some { s with writer := writer, previousFloor := s.writer.retainedFrom }

structure PhysicallyBounded (s : Retention) : Prop where
  window : s.journal.file.length - s.writer.retainedFrom ≤ max retainBytes 1 + max advanceBytes 1 +
    sessionOutputJournalControlSlackBytes + max blksize 1 + s.lastWrite
  floor : s.previousFloor ≤ s.writer.retainedFrom

def SmallWindow (s : Retention) : RetentionEvent → Prop
  | .reopen => s.journal.file.length - s.writer.retainedFrom ≤
      sessionOutputJournalControlSlackBytes + max blksize 1 + 2
  | .write _ => True

instance (s : Retention) : (event : RetentionEvent) → Decidable (SmallWindow blksize s event)
  | .reopen => inferInstanceAs (Decidable (_ ≤ _))
  | .write _ => inferInstanceAs (Decidable True)

end Runs

/-- What holds after every step: the next check comes before the window is too
large. -/
structure RetentionInv (retainBytes advanceBytes blksize : ℕ) (s : Retention) : Prop where
  retain : s.writer.retainBytes = max retainBytes 1
  advance : s.writer.advanceBytes = max advanceBytes 1
  enabled : s.writer.retentionDisabled = false
  marker : s.journal.marker = some s.writer.retainedFrom
  inside : s.writer.retainedFrom ≤ s.journal.file.length
  due : s.writer.nextRetentionCheckAt ≤ s.writer.retainedFrom + max retainBytes 1 + max advanceBytes 1 +
    sessionOutputJournalControlSlackBytes + max blksize 1 + 2
  bounded : PhysicallyBounded retainBytes advanceBytes blksize s

namespace RetentionInv
variable {retainBytes advanceBytes blksize : ℕ} {s : Retention}

theorem start (j : OutputJournal) (initialOffset : ℕ) :
    RetentionInv retainBytes advanceBytes blksize (startRetention retainBytes advanceBytes j initialOffset) where
  retain := rfl
  advance := rfl
  enabled := rfl
  marker := rfl
  inside := by simp [startRetention, RetainedOutputWriter.new, RetainedOutputWriter.openAt]
  due := by
    have h1 := saturatingAdd_le initialOffset (max retainBytes 1)
    have h2 := saturatingAdd_le (saturatingAdd initialOffset (max retainBytes 1)) (max advanceBytes 1)
    simp only [startRetention, RetainedOutputWriter.new, RetainedOutputWriter.openAt]
    omega
  bounded := by
    constructor
    · simp [startRetention, RetainedOutputWriter.new, RetainedOutputWriter.openAt]
    · exact le_rfl

theorem write (h : RetentionInv retainBytes advanceBytes blksize s) {bytes : List UInt8} (hbytes : bytes ≠ []) :
    RetentionInv retainBytes advanceBytes blksize
      ⟨(s.writer.maybeAdvanceRetention (max blksize 1) (s.journal.append bytes)).1,
        (s.writer.maybeAdvanceRetention (max blksize 1) (s.journal.append bytes)).2,
        s.writer.retainedFrom,bytes.length⟩ := by
  have hpos : 0 < bytes.length := List.length_pos_iff.mpr hbytes
  have hlen := s.journal.append_length bytes
  have hretain := h.retain
  have hadvance := h.advance
  have hinside := h.inside
  have hdue := h.due
  unfold RetainedOutputWriter.maybeAdvanceRetention
  obtain ⟨hearly,hplan⟩ | ⟨checked,rfl,⟨hplan,hclose⟩ | ⟨next,hplan,hup,hend,hclose⟩⟩ :=
    s.writer.planAdvance_cases (show 0 < max blksize 1 by omega) h.enabled (by omega) (s.journal.append bytes).file
      (by omega)
  · rw [hplan]
    refine ⟨hretain,hadvance,h.enabled,h.marker,by dsimp only; omega,hdue,⟨?_,le_rfl⟩⟩
    dsimp only
    omega
  · have hnext := saturatingAdd_le (s.journal.append bytes).file.length s.writer.advanceBytes
    rw [hplan]
    refine ⟨hretain,hadvance,h.enabled,h.marker,by dsimp only; omega,by dsimp only; omega,⟨?_,le_rfl⟩⟩
    dsimp only
    omega
  · have h1 := saturatingAdd_le next s.writer.retainBytes
    have h2 := saturatingAdd_le (saturatingAdd next s.writer.retainBytes) s.writer.advanceBytes
    rw [hplan]
    simp only [RetainedOutputWriter.advanced, RetainedOutputWriter.punchBelow]
    refine ⟨hretain,hadvance,h.enabled,rfl,?_,by dsimp only; omega,⟨?_,by dsimp only; omega⟩⟩
    · simpa using hlen ▸ hend
    · rw [OutputJournal.punch_length]
      dsimp only
      omega

theorem reopen (h : RetentionInv retainBytes advanceBytes blksize s) (hsmall : SmallWindow blksize s .reopen) :
    RetentionInv retainBytes advanceBytes blksize { s with
      writer := .openAt (min s.journal.floor s.journal.file.length) s.journal.file.length retainBytes advanceBytes
      previousFloor := s.writer.retainedFrom } := by
  have hfloor : min s.journal.floor s.journal.file.length = s.writer.retainedFrom := by
    rw [OutputJournal.floor, h.marker]
    exact min_eq_left h.inside
  have h1 := saturatingAdd_le s.journal.file.length (max retainBytes 1)
  have h2 := saturatingAdd_le (saturatingAdd s.journal.file.length (max retainBytes 1)) (max advanceBytes 1)
  simp only [SmallWindow] at hsmall
  rw [hfloor]
  refine ⟨rfl,rfl,rfl,h.marker,h.inside,?_,⟨h.bounded.window,le_rfl⟩⟩
  simp only [RetainedOutputWriter.openAt]
  omega

theorem step (h : RetentionInv retainBytes advanceBytes blksize s) {event : RetentionEvent}
    (hok : SmallWindow blksize s event) {t : Retention}
    (ht : retentionStep retainBytes advanceBytes blksize s event = some t) :
    RetentionInv retainBytes advanceBytes blksize t := by
  cases event with
  | write bytes =>
    simp only [retentionStep, RetainedOutputWriter.write, Option.some.injEq] at ht
    subst ht
    by_cases hbytes : bytes = []
    · simp only [if_pos hbytes]
      exact ⟨h.retain,h.advance,h.enabled,h.marker,h.inside,h.due,⟨h.bounded.window,le_rfl⟩⟩
    · simp only [if_neg hbytes]
      exact h.write hbytes
  | reopen =>
    simp only [retentionStep, RetainedOutputWriter.reopen, ne_eq, not_true_eq_false, ↓reduceIte,
      Option.some.injEq] at ht
    subst ht
    exact h.reopen hok

end RetentionInv

/-- While every handoff finds a small window, the journal stays bounded. -/
theorem journal_stays_bounded (retainBytes advanceBytes blksize : ℕ) (j : OutputJournal) (initialOffset : ℕ)
    (events : List RetentionEvent)
    (h : Guarded (retentionStep retainBytes advanceBytes blksize) (SmallWindow blksize)
      (startRetention retainBytes advanceBytes j initialOffset) events) :
    Always (retentionStep retainBytes advanceBytes blksize) (PhysicallyBounded retainBytes advanceBytes blksize)
      (startRetention retainBytes advanceBytes j initialOffset) events :=
  always_of_guarded (fun _ _ _ hs hok ht => hs.step hok ht) (fun _ hs => hs.bounded)
    (RetentionInv.start j initialOffset) h

def smallWindows : List RetentionEvent := [.write [65],.reopen,.write [66,10,67],.reopen,.write [68,10,69]]

theorem smallWindows_bounded :
    (run (retentionStep 1 1 1) (startRetention 1 1 ⟨[],none⟩ 0) smallWindows).map
      (fun s => (s.journal.file.length,s.writer.retainedFrom)) = some (7,6) ∧
    Always (retentionStep 1 1 1) (PhysicallyBounded 1 1 1) (startRetention 1 1 ⟨[],none⟩ 0) smallWindows :=
  ⟨by decide +kernel,journal_stays_bounded 1 1 1 ⟨[],none⟩ 0 smallWindows (by decide +kernel)⟩

section Growth
variable (retainBytes advanceBytes blksize : ℕ)

theorem retentionStep_early {s : Retention} {bytes : List UInt8} (hb : bytes ≠ [])
    (h : s.journal.file.length + bytes.length < s.writer.nextRetentionCheckAt) :
    retentionStep retainBytes advanceBytes blksize s (.write bytes) =
      some ⟨s.writer,s.journal.append bytes,s.writer.retainedFrom,bytes.length⟩ := by
  rw [← OutputJournal.append_length] at h
  have hplan : s.writer.planAdvance (max blksize 1) (s.journal.append bytes).file = (s.writer,none) :=
    if_pos (Or.inr h)
  simp only [retentionStep, RetainedOutputWriter.write, if_neg hb, RetainedOutputWriter.maybeAdvanceRetention, hplan]

/-- A write that ends just before the next check, and a handoff: the floor stays, and
the next check is a whole window away again. -/
theorem handoff_before_check {s : Retention} {bytes : List UInt8} (hb : bytes ≠ [])
    (hlen : s.journal.file.length + bytes.length < s.writer.nextRetentionCheckAt) (hmarker : s.journal.marker = some 0) :
    ∃ t, run (retentionStep retainBytes advanceBytes blksize) s [.write bytes,.reopen] = some t ∧
      t.journal.file.length = s.journal.file.length + bytes.length ∧ t.journal.marker = some 0 ∧
      t.writer = .openAt 0 (s.journal.file.length + bytes.length) retainBytes advanceBytes := by
  have hwrite := retentionStep_early retainBytes advanceBytes blksize hb hlen
  have hreopen : retentionStep retainBytes advanceBytes blksize
      ⟨s.writer,s.journal.append bytes,s.writer.retainedFrom,bytes.length⟩ .reopen =
      some ⟨.openAt 0 (s.journal.file.length + bytes.length) retainBytes advanceBytes,s.journal.append bytes,
        s.writer.retainedFrom,bytes.length⟩ := by
    have hfloor : (s.journal.append bytes).floor = 0 := by
      simp [OutputJournal.floor, OutputJournal.append, hmarker]
    simp [retentionStep, RetainedOutputWriter.reopen, hfloor]
  exact ⟨_,run_cons.mpr ⟨_,hwrite,run_cons.mpr ⟨_,hreopen,rfl⟩⟩,s.journal.append_length bytes,hmarker,rfl⟩

end Growth

def lateHandoffs : List RetentionEvent :=
  let batch := List.replicate (72 * 1024 * 1024 - 1) 0
  let round : List RetentionEvent := [.write batch,.reopen]
  round ++ (round ++ ([.write [0]] : List RetentionEvent))

/-- No check has been made after 144 MiB, twice the bound. -/
theorem lateHandoffs_outgrow : ¬ Always
    (retentionStep sessionOutputJournalRetainBytes sessionOutputJournalAdvanceBytes 4096)
    (PhysicallyBounded sessionOutputJournalRetainBytes sessionOutputJournalAdvanceBytes 4096)
    (startRetention sessionOutputJournalRetainBytes sessionOutputJournalAdvanceBytes ⟨[],none⟩ 0) lateHandoffs := by
  intro h
  generalize hbatch : List.replicate (72 * 1024 * 1024 - 1) (0 : UInt8) = batch
  have hsize : batch.length = 75497471 := by
    rw [← hbatch, List.length_replicate]
  have hne : batch ≠ [] := List.ne_nil_of_length_pos (by omega)
  obtain ⟨s,hs,hslen,hsmark,hsw⟩ := handoff_before_check sessionOutputJournalRetainBytes
    sessionOutputJournalAdvanceBytes 4096
    (s := startRetention sessionOutputJournalRetainBytes sessionOutputJournalAdvanceBytes ⟨[],none⟩ 0) hne
    (by rw [hsize]; decide) rfl
  obtain ⟨t,ht,htlen,htmark,htw⟩ := handoff_before_check sessionOutputJournalRetainBytes
    sessionOutputJournalAdvanceBytes 4096 (s := s) hne
    (by rw [hslen, hsize, hsw, hsize]; decide) hsmark
  rw [hslen, hsize] at htlen htw
  have hlast := retentionStep_early sessionOutputJournalRetainBytes sessionOutputJournalAdvanceBytes 4096
    (s := t) (show ([0] : List UInt8) ≠ [] by simp) (by rw [htlen, htw]; decide)
  have hrun : run (retentionStep sessionOutputJournalRetainBytes sessionOutputJournalAdvanceBytes 4096)
      (startRetention sessionOutputJournalRetainBytes sessionOutputJournalAdvanceBytes ⟨[],none⟩ 0) lateHandoffs =
      some ⟨t.writer,t.journal.append [0],t.writer.retainedFrom,1⟩ := by
    unfold lateHandoffs
    rw [hbatch]
    exact run_append.mpr ⟨s,hs,run_append.mpr ⟨t,ht,run_cons.mpr ⟨_,hlast,rfl⟩⟩⟩
  have hwindow := (always_iff.mp h lateHandoffs [] _ (List.append_nil _).symm hrun).window
  rw [OutputJournal.append_length, htlen, htw] at hwindow
  dsimp only at hwindow
  revert hwindow
  decide

end Unpeel.Journal
