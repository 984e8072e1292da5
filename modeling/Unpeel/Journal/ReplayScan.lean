import Mathlib.Data.List.Basic
import Mathlib.Algebra.Order.Group.Nat

/-! # Replay boundaries of a terminal journal

The journal is a sparse file: a byte that was never written, or whose block has
been punched out, is a hole and reads as zero. Replay and retention both start at
a boundary that a scan over the bytes before it has found.
-/
namespace Unpeel.Journal
variable {file : SparseFile} {desiredStart : ℕ}

/-- The bytes of a sparse file; `none` is a hole. -/
abbrev SparseFile := List (Option UInt8)

/-- `seek` and `read_exact`, refused past the end of the file. -/
def readExact (file : SparseFile) (start len : ℕ) : Option (List UInt8) :=
  if start + len ≤ file.length then some (((file.drop start).take len).map (·.getD 0)) else none

def isUtf8ContinuationByte (byte : UInt8) : Bool := byte &&& 0b11000000 == 0b10000000

inductive ReplayScanState where
  | ground
  | escape
  | escapeIntermediate
  | csi
  | osc
  | oscEscape
  | dcs
  | dcsEscape
  | sosPmApc
  | sosPmApcEscape
  deriving DecidableEq, Repr

/-- One byte of the scan: the state after it and the last boundary. Both scans of
the source run this automaton; they differ in which bytes of ordinary text are
boundaries by themselves. -/
def scanByte (textBoundary : UInt8 → Bool) (absolute : ℕ) (state : ReplayScanState) (lastBoundary : ℕ)
    (byte : UInt8) : ReplayScanState × ℕ :=
  if byte = 0x18 ∨ byte = 0x1a then (.ground,absolute + 1)
  else if byte = 0x1b ∧ (state = .escape ∨ state = .escapeIntermediate ∨ state = .csi) then (.escape,absolute)
  else match state with
    | .ground =>
      let lastBoundary := if textBoundary byte then absolute else lastBoundary
      if byte = 0x1b then (.escape,lastBoundary)
      else if byte = 0x0a ∨ byte = 0x0d then (.ground,absolute + 1)
      else (.ground,lastBoundary)
    | .escape =>
      if byte = 0x5b then (.csi,lastBoundary)
      else if byte = 0x5d then (.osc,lastBoundary)
      else if byte = 0x50 then (.dcs,lastBoundary)
      else if byte = 0x58 ∨ byte = 0x5e ∨ byte = 0x5f then (.sosPmApc,lastBoundary)
      else if 0x20 ≤ byte ∧ byte ≤ 0x2f then (.escapeIntermediate,lastBoundary)
      else (.ground,absolute + 1)
    | .escapeIntermediate =>
      if 0x30 ≤ byte ∧ byte ≤ 0x7e then (.ground,absolute + 1) else (.escapeIntermediate,lastBoundary)
    | .csi => if 0x40 ≤ byte ∧ byte ≤ 0x7e then (.ground,absolute + 1) else (.csi,lastBoundary)
    | .osc =>
      if byte = 0x07 then (.ground,absolute + 1)
      else if byte = 0x1b then (.oscEscape,lastBoundary)
      else (.osc,lastBoundary)
    | .oscEscape => if byte = 0x5c then (.ground,absolute + 1) else (.osc,lastBoundary)
    | .dcs => if byte = 0x1b then (.dcsEscape,lastBoundary) else (.dcs,lastBoundary)
    | .dcsEscape => if byte = 0x5c then (.ground,absolute + 1) else (.dcs,lastBoundary)
    | .sosPmApc => if byte = 0x1b then (.sosPmApcEscape,lastBoundary) else (.sosPmApc,lastBoundary)
    | .sosPmApcEscape => if byte = 0x5c then (.ground,absolute + 1) else (.sosPmApc,lastBoundary)

def scanReplay (textBoundary : UInt8 → Bool) : List UInt8 → ℕ → ReplayScanState → ℕ → ℕ
  | [], _, _, lastBoundary => lastBoundary
  | byte :: bytes, absolute, state, lastBoundary =>
    let (state,lastBoundary) := scanByte textBoundary absolute state lastBoundary byte
    scanReplay textBoundary bytes (absolute + 1) state lastBoundary

def replayTailAlignmentLookbackBytes : ℕ := 16 * 1024

/-- `align_replay_tail_start`: the last boundary before `desiredStart`, looked for
from the lookback on; `none` where the file is shorter than that. -/
def alignReplayTailStart (file : SparseFile) (desiredStart retainedFrom : ℕ) : Option ℕ :=
  if desiredStart ≤ retainedFrom then some retainedFrom
  else
    let scanStart := max (desiredStart - replayTailAlignmentLookbackBytes) retainedFrom
    let scanLen := desiredStart - scanStart
    if scanLen = 0 then some desiredStart
    else (readExact file scanStart scanLen).map fun window =>
      let initialIndex := (window.takeWhile isUtf8ContinuationByte).length
      min (scanReplay (· == 0x1b) (window.drop initialIndex) (scanStart + initialIndex) .ground
        (scanStart + initialIndex)) desiredStart

def sessionOutputJournalControlSlackBytes : ℕ := 64 * 1024

/-- The forced boundary: the last byte at or before the desired start that begins a
code point, of four; four continuation bytes are no text anyway. -/
def forcedBoundary (boundaryBytes : List UInt8) (scanStart desiredStart : ℕ) : ℕ :=
  let relative := boundaryBytes.length - 1 -
    (boundaryBytes.reverse.dropLast.takeWhile isUtf8ContinuationByte).length
  if isUtf8ContinuationByte (boundaryBytes.getD relative 0) then desiredStart else scanStart + relative

/-- `safe_output_retention_boundary`, scanning from a boundary that is known. -/
def safeOutputRetentionBoundary (file : SparseFile) (safeStart desiredStart : ℕ) : Option ℕ :=
  if desiredStart ≤ safeStart then some safeStart
  else do
    let bytes ← readExact file safeStart (desiredStart - safeStart)
    let lastBoundary := min (scanReplay (fun byte => !isUtf8ContinuationByte byte) bytes safeStart .ground safeStart)
      desiredStart
    if desiredStart - lastBoundary ≤ sessionOutputJournalControlSlackBytes then some lastBoundary
    else do
      -- an unterminated control string must not pin the floor
      let scanStart := max (desiredStart - 3) safeStart
      let boundaryBytes ← readExact file scanStart (desiredStart - scanStart + 1)
      some (forcedBoundary boundaryBytes scanStart desiredStart)

theorem scanByte_bounds (textBoundary : UInt8 → Bool) {absolute lastBoundary : ℕ} (state : ReplayScanState)
    (byte : UInt8) (h : lastBoundary ≤ absolute) :
    lastBoundary ≤ (scanByte textBoundary absolute state lastBoundary byte).2 ∧
      (scanByte textBoundary absolute state lastBoundary byte).2 ≤ absolute + 1 := by
  unfold scanByte
  split
  · exact ⟨h.trans (Nat.le_succ _),le_rfl⟩
  split
  · exact ⟨h,Nat.le_succ _⟩
  · cases state <;> dsimp only <;> split_ifs <;> dsimp only <;> omega

theorem scanReplay_bounds (textBoundary : UInt8 → Bool) (bytes : List UInt8) {absolute lastBoundary : ℕ}
    (state : ReplayScanState) (h : lastBoundary ≤ absolute) :
    lastBoundary ≤ scanReplay textBoundary bytes absolute state lastBoundary ∧
      scanReplay textBoundary bytes absolute state lastBoundary ≤ absolute + bytes.length := by
  induction bytes generalizing absolute state lastBoundary with
  | nil => exact ⟨le_rfl,h⟩
  | cons byte bytes ih =>
    obtain ⟨h1,h2⟩ := scanByte_bounds textBoundary state byte h
    obtain ⟨h3,h4⟩ := ih (scanByte textBoundary absolute state lastBoundary byte).1 h2
    rw [List.length_cons]
    exact ⟨h1.trans h3,h4.trans (by omega)⟩

theorem readExact_length {start len : ℕ} {bytes : List UInt8}
    (h : readExact file start len = some bytes) : bytes.length = len := by
  unfold readExact at h
  split at h
  · cases h
    simp only [List.length_map, List.length_take, List.length_drop]
    omega
  · cases h

theorem alignReplayTailStart_bounds {retainedFrom start : ℕ}
    (h : alignReplayTailStart file desiredStart retainedFrom = some start) :
    retainedFrom ≤ start ∧ start ≤ max desiredStart retainedFrom := by
  unfold alignReplayTailStart at h
  split at h
  · cases h
    exact ⟨le_rfl,le_max_right _ _⟩
  next hlt =>
  dsimp only at h
  split at h
  · cases h
    exact ⟨by omega,le_max_left _ _⟩
  · obtain ⟨window,hw,rfl⟩ := Option.map_eq_some_iff.mp h
    obtain ⟨hlow,-⟩ := scanReplay_bounds (· == 0x1b)
      (window.drop (window.takeWhile isUtf8ContinuationByte).length) .ground
      (le_refl (max (desiredStart - replayTailAlignmentLookbackBytes) retainedFrom +
        (window.takeWhile isUtf8ContinuationByte).length))
    exact ⟨by omega,by omega⟩

theorem forcedBoundary_bounds {boundaryBytes : List UInt8} {scanStart : ℕ}
    (hlen : boundaryBytes.length = desiredStart - scanStart + 1) (hle : scanStart ≤ desiredStart) :
    scanStart ≤ forcedBoundary boundaryBytes scanStart desiredStart ∧
      forcedBoundary boundaryBytes scanStart desiredStart ≤ desiredStart := by
  unfold forcedBoundary
  dsimp only
  split
  · exact ⟨hle,le_rfl⟩
  · omega

/-- The boundary is never before the known one nor behind the desired one, and at
most the slack before it. -/
theorem safeOutputRetentionBoundary_bounds {safeStart boundary : ℕ}
    (h : safeOutputRetentionBoundary file safeStart desiredStart = some boundary) :
    safeStart ≤ boundary ∧ boundary ≤ max safeStart desiredStart ∧
      desiredStart ≤ boundary + sessionOutputJournalControlSlackBytes := by
  unfold safeOutputRetentionBoundary at h
  split at h
  · cases h
    exact ⟨le_rfl,le_max_left _ _,by omega⟩
  next hlt =>
  simp only [Option.bind_eq_bind, Option.bind_eq_some_iff] at h
  obtain ⟨bytes,hbytes,h⟩ := h
  obtain ⟨hlow,-⟩ := scanReplay_bounds (fun byte => !isUtf8ContinuationByte byte) bytes .ground (le_refl safeStart)
  split at h
  · cases h
    exact ⟨by omega,by omega,by omega⟩
  · obtain ⟨boundaryBytes,hread,h⟩ := Option.bind_eq_some_iff.mp h
    cases h
    obtain ⟨h1,h2⟩ := forcedBoundary_bounds (readExact_length hread) (by omega)
    have hslack : 3 ≤ sessionOutputJournalControlSlackBytes := by decide
    exact ⟨by omega,by omega,by omega⟩

theorem safeOutputRetentionBoundary_isSome {safeStart : ℕ}
    (h : desiredStart < file.length) : ∃ boundary, safeOutputRetentionBoundary file safeStart desiredStart = some boundary := by
  unfold safeOutputRetentionBoundary
  split
  · exact ⟨_,rfl⟩
  next hlt =>
  have hfirst : safeStart + (desiredStart - safeStart) ≤ file.length := by omega
  have hsecond : max (desiredStart - 3) safeStart + (desiredStart - max (desiredStart - 3) safeStart + 1) ≤ file.length := by
    omega
  simp only [readExact, if_pos hfirst, if_pos hsecond, Option.bind_eq_bind, Option.bind_some]
  split
  · exact ⟨_,rfl⟩
  · exact ⟨_,rfl⟩

end Unpeel.Journal
