import Unpeel.Journal.ReplayScan

/-! # The retained output journal

The writer appends to a sparse file whose offsets count the Session's lifetime. It
keeps a bounded suffix: from time to time it publishes a higher floor and punches
the blocks below it. A core handoff reopens the journal where it stands.
-/
namespace Unpeel.Journal

def saturatingAdd (a b : ℕ) : ℕ := min (a + b) (2 ^ 64 - 1)

theorem saturatingAdd_le (a b : ℕ) : saturatingAdd a b ≤ a + b := min_le_left _ _

structure RetainedOutputWriter where
  retainedFrom : ℕ
  retainBytes : ℕ
  advanceBytes : ℕ
  nextRetentionCheckAt : ℕ
  retentionDisabled : Bool
  deriving DecidableEq, Repr

structure OutputJournal where
  file : SparseFile
  marker : Option ℕ
  deriving DecidableEq, Repr

namespace OutputJournal

/-- `read_output_retention_path`: without a marker everything is retained. -/
def floor (j : OutputJournal) : ℕ := j.marker.getD 0

/-- `punch_output_hole`. -/
def punch (j : OutputJournal) (start stop : ℕ) : OutputJournal :=
  { j with file := j.file.mapIdx (fun i byte => if start ≤ i ∧ i < stop then none else byte) }

/-- `set_len`. -/
def setLen (j : OutputJournal) (len : ℕ) : OutputJournal :=
  { j with file := j.file.take len ++ List.replicate (len - j.file.length) none }

def append (j : OutputJournal) (bytes : List UInt8) : OutputJournal := { j with file := j.file ++ bytes.map some }

end OutputJournal

namespace RetainedOutputWriter

/-- The state of a writer that `new` or `reopen` returns. -/
def openAt (retainedFrom nextOffset retainBytes advanceBytes : ℕ) : RetainedOutputWriter where
  retainedFrom := retainedFrom
  retainBytes := max retainBytes 1
  advanceBytes := max advanceBytes 1
  nextRetentionCheckAt := saturatingAdd (saturatingAdd nextOffset (max retainBytes 1)) (max advanceBytes 1)
  retentionDisabled := false

/-- `new`: publish the floor, discard the file, and start a sparse one. -/
def new (j : OutputJournal) (initialOffset retainBytes advanceBytes : ℕ) : RetainedOutputWriter × OutputJournal :=
  (openAt initialOffset initialOffset retainBytes advanceBytes,
    (({ j with marker := some initialOffset }).setLen 0).setLen initialOffset)

def reopen (j : OutputJournal) (nextOffset retainBytes advanceBytes : ℕ) : Except String RetainedOutputWriter :=
  if j.file.length ≠ nextOffset then
    .error s!"Output journal length {j.file.length} does not match the handed-over offset {nextOffset}"
  else .ok (openAt (min j.floor nextOffset) nextOffset retainBytes advanceBytes)

/-- The first half of `maybe_advance_retention`: when the next check is due, and the
floor to advance to, if there is one. A failed scan disables retention. -/
def planAdvance (w : RetainedOutputWriter) (blockSize : ℕ) (file : SparseFile) : RetainedOutputWriter × Option ℕ :=
  let logicalEnd := file.length
  if w.retentionDisabled ∨ logicalEnd < w.nextRetentionCheckAt then (w,none)
  else
    let checked := { w with nextRetentionCheckAt := saturatingAdd logicalEnd w.advanceBytes }
    match safeOutputRetentionBoundary file w.retainedFrom (logicalEnd - w.retainBytes) with
    | none => ({ checked with retentionDisabled := true },none)
    | some nextRetainedFrom =>
      if nextRetainedFrom ≤ w.retainedFrom ∨
          nextRetainedFrom - nextRetainedFrom % blockSize ≤ w.retainedFrom - w.retainedFrom % blockSize then
        (checked,none)
      else (checked,some nextRetainedFrom)

def punchBelow (w : RetainedOutputWriter) (blockSize nextRetainedFrom : ℕ) (j : OutputJournal) : OutputJournal :=
  j.punch (w.retainedFrom - w.retainedFrom % blockSize) (nextRetainedFrom - nextRetainedFrom % blockSize)

def advanced (w : RetainedOutputWriter) (nextRetainedFrom : ℕ) : RetainedOutputWriter :=
  { w with
    retainedFrom := nextRetainedFrom
    nextRetentionCheckAt := saturatingAdd (saturatingAdd nextRetainedFrom w.retainBytes) w.advanceBytes }

/-- `maybe_advance_retention` where the marker is saved and the hole is punched. -/
def maybeAdvanceRetention (w : RetainedOutputWriter) (blockSize : ℕ) (j : OutputJournal) : RetainedOutputWriter × OutputJournal :=
  match w.planAdvance blockSize j.file with
  | (w,none) => (w,j)
  | (w,some nextRetainedFrom) =>
    (w.advanced nextRetainedFrom,w.punchBelow blockSize nextRetainedFrom { j with marker := some nextRetainedFrom })

/-- `write`, for the bytes the file took. -/
def write (w : RetainedOutputWriter) (blockSize : ℕ) (j : OutputJournal) (bytes : List UInt8) : RetainedOutputWriter × OutputJournal :=
  if bytes = [] then (w,j) else w.maybeAdvanceRetention blockSize (j.append bytes)

end RetainedOutputWriter

def sessionOutputJournalRetainBytes : ℕ := 64 * 1024 * 1024
def sessionOutputJournalAdvanceBytes : ℕ := 8 * 1024 * 1024

@[simp] theorem OutputJournal.punch_length (j : OutputJournal) (start stop : ℕ) :
    (j.punch start stop).file.length = j.file.length := by
  simp [OutputJournal.punch]

@[simp] theorem OutputJournal.setLen_length (j : OutputJournal) (len : ℕ) : (j.setLen len).file.length = len := by
  simp only [OutputJournal.setLen, List.length_append, List.length_take, List.length_replicate]
  omega

@[simp] theorem OutputJournal.append_length (j : OutputJournal) (bytes : List UInt8) :
    (j.append bytes).file.length = j.file.length + bytes.length := by
  simp [OutputJournal.append]

/-- Every outcome of the first half: not due, due in vain, or a higher floor. In vain
only if the floor stays close behind. -/
theorem RetainedOutputWriter.planAdvance_cases (w : RetainedOutputWriter) {blockSize : ℕ} (hb : 0 < blockSize)
    (he : w.retentionDisabled = false) (hr : 0 < w.retainBytes) (file : SparseFile) (hf : 0 < file.length) :
    (file.length < w.nextRetentionCheckAt ∧ w.planAdvance blockSize file = (w,none)) ∨
    ∃ checked, checked = { w with nextRetentionCheckAt := saturatingAdd file.length w.advanceBytes } ∧
      ((w.planAdvance blockSize file = (checked,none) ∧
          file.length ≤ w.retainedFrom + w.retainBytes + sessionOutputJournalControlSlackBytes + blockSize) ∨
        ∃ next, w.planAdvance blockSize file = (checked,some next) ∧ w.retainedFrom < next ∧
          next ≤ file.length ∧ file.length ≤ next + w.retainBytes + sessionOutputJournalControlSlackBytes) := by
  unfold planAdvance
  simp only [he, Bool.false_eq_true, false_or]
  by_cases hdue : file.length < w.nextRetentionCheckAt
  · exact Or.inl ⟨hdue,if_pos hdue⟩
  refine Or.inr ⟨_,rfl,?_⟩
  rw [if_neg hdue]
  have hinside : file.length - w.retainBytes < file.length := by omega
  obtain ⟨next,hnext⟩ := safeOutputRetentionBoundary_isSome hinside
  obtain ⟨hlow,hhigh,hslack⟩ := safeOutputRetentionBoundary_bounds hnext
  rw [hnext]
  dsimp only
  split
  · next hstay =>
    refine Or.inl ⟨rfl,?_⟩
    have hmod := Nat.mod_lt next hb
    omega
  · next hmove =>
    refine Or.inr ⟨next,rfl,?_,?_,?_⟩ <;> omega

end Unpeel.Journal
