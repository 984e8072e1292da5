import Mathlib.Data.List.TakeWhile
import Mathlib.Tactic.IntervalCases
import Unpeel.Foundation.Utf8Stream
import Unpeel.Journal.ReplayScan

/-! # Where retention may cut the journal

A terminal that starts to read at the cut should be in the middle of no sequence and of no
character. The scan and the terminal part ways where an Escape breaks off a string.
-/
namespace Unpeel.Journal
open List

variable {byte : UInt8} {bytes front rest : List UInt8} {file : SparseFile} {desiredStart : ℕ}

inductive TerminalState where
  | ground
  | escape
  | escapeIntermediate
  | csi
  | osc
  -- a device control string, or one that starts with `X`, `^` or `_`
  | string
deriving DecidableEq

def terminalByte (state : TerminalState) (byte : UInt8) : TerminalState :=
  if byte = 0x18 ∨ byte = 0x1a then .ground
  else if byte = 0x1b then .escape
  else match state with
    | .ground => .ground
    | .escape =>
      if byte = 0x5b then .csi
      else if byte = 0x5d then .osc
      else if byte = 0x50 then .string
      else if byte = 0x58 ∨ byte = 0x5e ∨ byte = 0x5f then .string
      else if 0x20 ≤ byte ∧ byte ≤ 0x2f then .escapeIntermediate
      else .ground
    | .escapeIntermediate => if 0x30 ≤ byte ∧ byte ≤ 0x7e then .ground else .escapeIntermediate
    | .csi => if 0x40 ≤ byte ∧ byte ≤ 0x7e then .ground else .csi
    | .osc => if byte = 0x07 then .ground else .osc
    | .string => .string

def terminalState (bytes : List UInt8) : TerminalState := bytes.foldl terminalByte .ground

def content (file : SparseFile) : List UInt8 := file.map (·.getD 0)

/-- A terminal that reads the bytes is in no sequence after so many of them, or one starts
there. -/
def Clear (bytes : List UInt8) (n : ℕ) : Prop := terminalState (bytes.take n) = .ground ∨ (bytes.drop n).head? = some 0x1b

def InsideChar (bytes : List UInt8) (n : ℕ) : Prop := ∃ before c after, bytes = before ++ String.utf8EncodeChar c ++ after ∧
  before.length < n ∧ n < before.length + (String.utf8EncodeChar c).length

/-- The terminal comes to a boundary within the slack. -/
def BoundaryNear (bytes : List UInt8) (n : ℕ) : Prop :=
  ∃ place ≤ n, n ≤ place + sessionOutputJournalControlSlackBytes ∧ Clear bytes place

/-- The cut is between the two places and in no character, and if there is a boundary near, in no
sequence. -/
def CutsSafely (file : SparseFile) (safeStart desiredStart : ℕ) : Prop :=
  ∃ boundary, safeOutputRetentionBoundary file safeStart desiredStart = some boundary ∧ safeStart ≤ boundary ∧ boundary ≤ desiredStart ∧
    (BoundaryNear ((content file).drop safeStart) (desiredStart - safeStart) →
      Clear ((content file).drop safeStart) (boundary - safeStart)) ∧
    ¬InsideChar (content file) boundary

/-! ### The states of the scan -/

def nextState (state : ReplayScanState) (byte : UInt8) : ReplayScanState := (scanByte (fun _ => false) 0 state 0 byte).1

def scanState (bytes : List UInt8) : ReplayScanState := bytes.foldl nextState .ground

def ReplayScanState.inSequence : ReplayScanState → Bool
  | .csi | .escapeIntermediate => true
  | _ => false

def ReplayScanState.inString : ReplayScanState → Bool
  | .osc | .oscEscape | .dcs | .dcsEscape | .sosPmApc | .sosPmApcEscape => true
  | _ => false

/-- What can come next without a boundary. -/
def ReplayScanState.stays : ReplayScanState → ReplayScanState → Bool
  | .ground, next => next == .ground
  | .escape, next => next.inSequence || next.inString
  | .escapeIntermediate, next | .csi, next => next.inSequence
  | _, next => next.inString

section Scan
variable (textBoundary : UInt8 → Bool)

theorem scanByte_fst (absolute : ℕ) (state : ReplayScanState) (lastBoundary : ℕ) (byte : UInt8) :
    (scanByte textBoundary absolute state lastBoundary byte).1 = nextState state byte := by
  cases state <;> simp only [nextState, scanByte, reduceCtorEq, or_self, or_false, or_true, and_false, and_true, if_false]
  case ground => split_ifs <;> rfl
  case escape => split_ifs <;> rfl
  case escapeIntermediate => split_ifs <;> rfl
  case csi => split_ifs <;> rfl
  case osc => split_ifs <;> rfl
  case oscEscape => split_ifs <;> rfl
  case dcs => split_ifs <;> rfl
  case dcsEscape => split_ifs <;> rfl
  case sosPmApc => split_ifs <;> rfl
  case sosPmApcEscape => split_ifs <;> rfl

/-- A new boundary is before an Escape or before a byte of text, or behind the end of a sequence
or of a line. -/
theorem scanByte_snd (absolute : ℕ) (state : ReplayScanState) (lastBoundary : ℕ) (byte : UInt8) :
    (scanByte textBoundary absolute state lastBoundary byte).2 = lastBoundary ∧
        (textBoundary 0x1b = true → state.stays (nextState state byte) = true) ∨
      (scanByte textBoundary absolute state lastBoundary byte).2 = absolute ∧
        (byte = 0x1b ∧ nextState state byte = .escape ∨ state = .ground ∧ textBoundary byte = true) ∨
      (scanByte textBoundary absolute state lastBoundary byte).2 = absolute + 1 ∧ nextState state byte = .ground ∧
        (byte < 0x80 ∨ state = .escape) := by
  have hcan : byte = 0x18 ∨ byte = 0x1a → byte < 0x80 := by
    rintro (rfl | rfl) <;> decide
  have hline : byte = 0x0a ∨ byte = 0x0d → byte < 0x80 := by
    rintro (rfl | rfl) <;> decide
  have hfinal : byte ≤ 0x7e → byte < 0x80 := fun h => UInt8.lt_of_le_of_lt h (by decide)
  have hbell : byte = 0x07 → byte < 0x80 := by
    rintro rfl
    decide
  have hst : byte = 0x5c → byte < 0x80 := by
    rintro rfl
    decide
  cases state <;> simp only [nextState, scanByte, reduceCtorEq, or_self, or_false, or_true, and_false, and_true, if_false,
    true_and, false_and]
  case ground =>
    split_ifs <;> first
      | exact .inr (.inr ⟨rfl,rfl,hcan ‹_›⟩)
      | exact .inr (.inr ⟨rfl,rfl,hline ‹_›⟩)
      | exact .inr (.inl ⟨rfl,.inr ‹_›⟩)
      | exact .inl ⟨rfl,fun _ => rfl⟩
      | exact .inl ⟨rfl,fun htext => absurd (‹byte = 0x1b› ▸ htext) ‹_›⟩
  case escape =>
    split_ifs with h h1 h2
    · exact .inr (.inr ⟨rfl,rfl⟩)
    · exact .inr (.inl ⟨rfl,h1,rfl⟩)
    all_goals first
      | exact .inl ⟨rfl,fun _ => rfl⟩
      | exact .inr (.inr ⟨rfl,rfl⟩)
  case escapeIntermediate | csi =>
    split_ifs with h h1 h2
    · exact .inr (.inr ⟨rfl,rfl,hcan h⟩)
    · exact .inr (.inl ⟨rfl,h1,rfl⟩)
    · exact .inr (.inr ⟨rfl,rfl,hfinal h2.2⟩)
    · exact .inl ⟨rfl,fun _ => rfl⟩
  case osc =>
    split_ifs with h h1 h2
    · exact .inr (.inr ⟨rfl,rfl,hcan h⟩)
    · exact .inr (.inr ⟨rfl,rfl,hbell h1⟩)
    · exact .inl ⟨rfl,fun _ => rfl⟩
    · exact .inl ⟨rfl,fun _ => rfl⟩
  case dcs | sosPmApc =>
    split_ifs with h h1
    · exact .inr (.inr ⟨rfl,rfl,hcan h⟩)
    · exact .inl ⟨rfl,fun _ => rfl⟩
    · exact .inl ⟨rfl,fun _ => rfl⟩
  case oscEscape | dcsEscape | sosPmApcEscape =>
    split_ifs with h h1
    · exact .inr (.inr ⟨rfl,rfl,hcan h⟩)
    · exact .inr (.inr ⟨rfl,rfl,hst h1⟩)
    · exact .inl ⟨rfl,fun _ => rfl⟩

theorem scanReplay_append (bytes more : List UInt8) (absolute lastBoundary : ℕ) (state : ReplayScanState) :
    scanReplay textBoundary (bytes ++ more) absolute state lastBoundary =
      scanReplay textBoundary more (absolute + bytes.length) (bytes.foldl nextState state)
        (scanReplay textBoundary bytes absolute state lastBoundary) := by
  induction bytes generalizing absolute lastBoundary state with
  | nil => rfl
  | cons b bytes ih =>
    rw [cons_append, scanReplay]
    dsimp only
    rw [ih, scanByte_fst, length_cons, foldl_cons, scanReplay, Nat.add_right_comm, Nat.add_assoc]
    dsimp only
    rw [scanByte_fst]

theorem scanReplay_concat (bytes : List UInt8) (byte : UInt8) (absolute lastBoundary : ℕ) (state : ReplayScanState) :
    scanReplay textBoundary (bytes ++ [byte]) absolute state lastBoundary =
      (scanByte textBoundary (absolute + bytes.length) (bytes.foldl nextState state)
        (scanReplay textBoundary bytes absolute state lastBoundary) byte).2 := by
  rw [scanReplay_append]
  rfl

end Scan

/-! ### The scan and the terminal -/

/-- What the terminal is in the middle of when the scan is in a state. In a string it can be in
anything, but right after an Escape it is not. -/
def Agrees : ReplayScanState → TerminalState → Prop
  | .ground, state => state = .ground
  | .escape, state => state = .escape
  | .escapeIntermediate, state => state = .escapeIntermediate
  | .csi, state => state = .csi
  | .oscEscape, state => state = .escape
  | .dcsEscape, state => state = .escape
  | .sosPmApcEscape, state => state = .escape
  | _, _ => True

/-- They part ways only where a bell ends a command for the scan. -/
theorem Agrees.step {scanned : ReplayScanState} {state : TerminalState} (h : Agrees scanned state)
    (hbell : ¬(scanned = .osc ∧ byte = 0x07)) : Agrees (nextState scanned byte) (terminalByte state byte) := by
  cases scanned with
  | ground =>
    obtain rfl : state = .ground := h
    simp only [nextState, scanByte, terminalByte, reduceCtorEq, or_self, and_false, if_false]
    split_ifs <;> rfl
  | escape =>
    obtain rfl : state = .escape := h
    simp only [nextState, scanByte, terminalByte, reduceCtorEq, or_false, and_true]
    split_ifs <;> first | rfl | trivial
  | escapeIntermediate =>
    obtain rfl : state = .escapeIntermediate := h
    simp only [nextState, scanByte, terminalByte, reduceCtorEq, or_false, or_true, and_true]
    split_ifs <;> rfl
  | csi =>
    obtain rfl : state = .csi := h
    simp only [nextState, scanByte, terminalByte, reduceCtorEq, or_true, and_true]
    split_ifs <;> rfl
  | osc =>
    rw [not_and] at hbell
    simp only [nextState, scanByte, terminalByte, reduceCtorEq, or_self, and_false, if_false, if_neg (hbell rfl)]
    split_ifs <;> first | rfl | trivial
  | dcs | sosPmApc =>
    simp only [nextState, scanByte, terminalByte, reduceCtorEq, or_self, and_false, if_false]
    split_ifs <;> first | rfl | trivial
  | oscEscape | dcsEscape | sosPmApcEscape =>
    obtain rfl : state = .escape := h
    by_cases hst : byte = 0x5c
    · rw [hst]
      rfl
    · simp only [nextState, scanByte, reduceCtorEq, or_self, and_false, if_false, if_neg hst]
      by_cases hcan : byte = 0x18 ∨ byte = 0x1a
      · rw [if_pos hcan, terminalByte, if_pos hcan]
        rfl
      · rw [if_neg hcan]
        trivial

theorem terminalByte_escape (state : TerminalState) : terminalByte state 0x1b = .escape := by
  cases state <;> rfl

theorem nextState_eq_escape {state : ReplayScanState} (h : nextState state byte = .escape) : byte = 0x1b := by
  by_contra hne
  revert h
  cases state <;> simp only [nextState, scanByte, hne, false_and, if_false] <;> split_ifs <;> exact fun h => by cases h

def BellsEnd (bytes : List UInt8) : Prop := ∀ front b rest, bytes = front ++ 0x07 :: b :: rest → scanState front = .osc → b ≠ 0x1b →
  terminalState (front ++ [0x07]) = .ground

theorem scanState_concat (front : List UInt8) (byte : UInt8) : scanState (front ++ [byte]) = nextState (scanState front) byte := by
  unfold scanState
  rw [foldl_append, foldl_cons, foldl_nil]

theorem terminalState_concat (front : List UInt8) (byte : UInt8) :
    terminalState (front ++ [byte]) = terminalByte (terminalState front) byte := by
  unfold terminalState
  rw [foldl_append, foldl_cons, foldl_nil]

theorem split_at {n : ℕ} (hat : bytes[n]? = some byte) : bytes = bytes.take n ++ byte :: bytes.drop (n + 1) := by
  obtain ⟨hlt,hget⟩ := List.getElem?_eq_some_iff.mp hat
  rw [← hget, cons_getElem_drop_succ, take_append_drop]

theorem scanState_succ {n : ℕ} (hat : bytes[n]? = some byte) :
    scanState (bytes.take (n + 1)) = nextState (scanState (bytes.take n)) byte := by
  rw [take_add_one, hat]
  exact scanState_concat _ byte

theorem terminalState_succ {n : ℕ} (hat : bytes[n]? = some byte) :
    terminalState (bytes.take (n + 1)) = terminalByte (terminalState (bytes.take n)) byte := by
  rw [take_add_one, hat]
  exact terminalState_concat _ byte

/-- At the end of a command both are in the middle of nothing, or a sequence starts. -/
theorem agrees_or_starts (hbells : BellsEnd bytes)
    (h : bytes = front ++ byte :: rest) : Agrees (scanState front) (terminalState front) ∨ scanState front = .ground ∧ byte = 0x1b := by
  induction front using List.reverseRecOn generalizing byte rest with
  | nil => exact .inl rfl
  | append_singleton front last ih =>
    rw [append_assoc, singleton_append] at h
    rw [scanState_concat, terminalState_concat]
    rcases ih h with hagrees | ⟨hground,rfl⟩
    · by_cases hbell : scanState front = .osc ∧ last = 0x07
      · obtain ⟨hosc,rfl⟩ := hbell
        rw [hosc]
        by_cases hesc : byte = 0x1b
        · exact .inr ⟨rfl,hesc⟩
        · have hend := hbells front byte rest h hosc hesc
          rw [terminalState_concat] at hend
          exact .inl hend
      · exact .inl (hagrees.step hbell)
    · left
      rw [hground]
      exact terminalByte_escape _

/-! ### Characters -/

theorem isUtf8ContinuationByte_iff (b : UInt8) : isUtf8ContinuationByte b = true ↔ Utf8.Within Utf8.continuation b := by
  have hbits : b.toNat &&& 192 = 64 * (b.toNat / 64) := by
    have hlt := b.toNat_lt
    have hhigh : (b.toNat &&& 192) / 2 ^ 6 = b.toNat / 2 ^ 6 &&& 192 / 2 ^ 6 := Nat.and_div_two_pow
    have hlow : (b.toNat &&& 192) % 2 ^ 6 = b.toNat % 2 ^ 6 &&& 192 % 2 ^ 6 := Nat.and_mod_two_pow
    have hquarter : b.toNat / 64 < 4 := by omega
    have hsame : b.toNat / 64 &&& 3 = b.toNat / 64 := by
      revert hquarter
      generalize b.toNat / 64 = k
      intro hk
      interval_cases k <;> rfl
    norm_num at hhigh hlow
    omega
  unfold isUtf8ContinuationByte Utf8.Within Utf8.continuation
  rw [beq_iff_eq, ← UInt8.toNat_inj, UInt8.toNat_and]
  show b.toNat &&& 192 = 128 ↔ _
  omega

/-- The byte in the middle of a character continues it. -/
theorem InsideChar.continuation (h : InsideChar bytes front.length)
    (hbytes : bytes = front ++ byte :: rest) : isUtf8ContinuationByte byte = true := by
  obtain ⟨before,c,after,hchar,hlow,hhigh⟩ := h
  cases hc : String.utf8EncodeChar c with
  | nil => exact absurd hc String.utf8EncodeChar_ne_nil
  | cons first tail =>
    obtain ⟨ranges,hranges,htail⟩ := Utf8.tailRanges_encodeChar hc
    rw [hc, length_cons] at hhigh
    have hat : bytes[front.length]? = some byte := by
      rw [hbytes, getElem?_append_right (Nat.le_refl _), Nat.sub_self]
      rfl
    obtain ⟨k,hk⟩ : ∃ k, front.length = before.length + (k + 1) := ⟨front.length - before.length - 1,by omega⟩
    have hmem : byte ∈ tail := by
      rw [hchar, hc, hk, append_assoc, getElem?_append_right (by omega), Nat.add_sub_cancel_left,
        getElem?_append_left (by rw [length_cons]; omega), getElem?_cons_succ] at hat
      exact mem_of_getElem? hat
    exact (isUtf8ContinuationByte_iff byte).mpr (Utf8.mem_tail hranges (Utf8.Begins.of_forall₂ htail) hmem)

/-- The byte before the middle of a character is not ASCII, and the character begins with it or
the byte before it is not ASCII either. -/
theorem InsideChar.byte_before (h : InsideChar bytes (front.length + 1)) (hbytes : bytes = front ++ byte :: rest) :
    0x80 ≤ byte.toNat ∧ ((∃ c after, byte :: rest = String.utf8EncodeChar c ++ after ∧ 1 < (String.utf8EncodeChar c).length) ∨
      ∃ earlier last, front = earlier ++ [last] ∧ 0x80 ≤ last.toNat) := by
  obtain ⟨before,c,after,hchar,hlow,hhigh⟩ := h
  have hmany : 1 < (String.utf8EncodeChar c).length := by omega
  have hmem : ∀ k x, k < (String.utf8EncodeChar c).length → bytes[before.length + k]? = some x → 0x80 ≤ x.toNat := by
    intro k x hk hx
    rw [hchar, append_assoc, getElem?_append_right (by omega), Nat.add_sub_cancel_left, getElem?_append_left hk] at hx
    exact Utf8.low_of_encodeChar hmany (mem_of_getElem? hx)
  have hat : bytes[front.length]? = some byte := by
    rw [hbytes, getElem?_append_right (Nat.le_refl _), Nat.sub_self]
    rfl
  obtain ⟨k,hk⟩ : ∃ k, front.length = before.length + k := ⟨front.length - before.length,by omega⟩
  refine ⟨hmem k byte (by omega) (hk ▸ hat),?_⟩
  cases k with
  | zero =>
    left
    rw [hbytes, append_assoc] at hchar
    exact ⟨c,after,(append_inj hchar (by omega)).2,hmany⟩
  | succ k =>
    right
    obtain ⟨earlier,last,rfl⟩ : ∃ earlier last, front = earlier ++ [last] :=
      eq_nil_or_concat' front |>.resolve_left fun hnil => by rw [hnil] at hk; simp at hk
    refine ⟨earlier,last,rfl,hmem k last (by omega) ?_⟩
    rw [length_append, length_singleton] at hk
    have hindex : before.length + k = earlier.length := by omega
    rw [hindex, hbytes, append_assoc, getElem?_append_right (Nat.le_refl _), Nat.sub_self]
    rfl

theorem InsideChar.continuation_at {n : ℕ} (h : InsideChar bytes n) (hat : bytes[n]? = some byte) :
    isUtf8ContinuationByte byte = true := by
  have hlength : (bytes.take n).length = n := length_take_of_le (List.getElem?_eq_some_iff.mp hat).1.le
  exact InsideChar.continuation (hlength.symm ▸ h) (split_at hat)

theorem encodeChar_first (c : Char) : ∃ first tail, String.utf8EncodeChar c = first :: tail ∧ tail.length ≤ 3 ∧
    isUtf8ContinuationByte first = false := by
  cases hc : String.utf8EncodeChar c with
  | nil => exact absurd hc String.utf8EncodeChar_ne_nil
  | cons first tail =>
    obtain ⟨ranges,hranges,htail⟩ := Utf8.tailRanges_encodeChar hc
    have hlength := (Utf8.tailRanges_spec hranges).1
    rw [htail.length_eq] at hlength
    refine ⟨first,tail,rfl,hlength,?_⟩
    rw [← Bool.not_eq_true, isUtf8ContinuationByte_iff]
    intro hfirst
    rw [Utf8.tailRanges_continuation hfirst] at hranges
    cases hranges

theorem InsideChar.first {bytes : List UInt8} {n : ℕ} (h : InsideChar bytes n) :
    ∃ m byte, m < n ∧ n ≤ m + 3 ∧ bytes[m]? = some byte ∧ isUtf8ContinuationByte byte = false := by
  obtain ⟨before,c,after,hchar,hlow,hhigh⟩ := h
  obtain ⟨first,tail,hc,hlength,hfirst⟩ := encodeChar_first c
  rw [hc, length_cons] at hhigh
  refine ⟨before.length,first,hlow,by omega,?_,hfirst⟩
  rw [hchar, hc, append_assoc, getElem?_append_right (Nat.le_refl _), Nat.sub_self]
  rfl

/-- Where the character at a place begins: four bytes that all continue one are none. -/
def characterStart (bytes : List UInt8) (n : ℕ) : ℕ :=
  let continues := fun m => isUtf8ContinuationByte (bytes.getD m 0)
  if continues n = false then n
  else if continues (n - 1) = false then n - 1
  else if continues (n - 2) = false then n - 2
  else if continues (n - 3) = false then n - 3
  else n

theorem characterStart_cases (bytes : List UInt8) (n : ℕ) :
    (n ≤ characterStart bytes n + 3 ∧ characterStart bytes n ≤ n) ∧
      (isUtf8ContinuationByte (bytes.getD (characterStart bytes n) 0) = false ∨
        characterStart bytes n = n ∧ ∀ m, n ≤ m + 3 → m ≤ n → isUtf8ContinuationByte (bytes.getD m 0) = true) := by
  unfold characterStart
  dsimp only
  split_ifs with h0 h1 h2 h3
  · exact ⟨by omega,.inl h0⟩
  · exact ⟨by omega,.inl h1⟩
  · exact ⟨by omega,.inl h2⟩
  · exact ⟨by omega,.inl h3⟩
  · rw [Bool.not_eq_false] at h0 h1 h2 h3
    refine ⟨by omega,.inr ⟨rfl,fun m hlow hhigh => ?_⟩⟩
    obtain rfl | rfl | rfl | rfl : m = n ∨ m = n - 1 ∨ m = n - 2 ∨ m = n - 3 := by omega
    all_goals assumption

theorem forcedBoundary_four (p q r t : UInt8) (start n : ℕ) : forcedBoundary [p,q,r,t] start n =
    if isUtf8ContinuationByte t = false then start + 3
    else if isUtf8ContinuationByte r = false then start + 2
    else if isUtf8ContinuationByte q = false then start + 1
    else if isUtf8ContinuationByte p = false then start
    else n := by
  unfold forcedBoundary
  cases hp : isUtf8ContinuationByte p <;> cases hq : isUtf8ContinuationByte q <;> cases hr : isUtf8ContinuationByte r <;>
    cases ht : isUtf8ContinuationByte t <;> simp [hp, hq, hr, ht]

/-- The forced cut is where the character begins. -/
theorem forcedBoundary_eq (bytes : List UInt8) {n : ℕ} (start : ℕ) (hthree : 3 ≤ n) (hn : n < bytes.length) :
    forcedBoundary ((bytes.drop (n - 3)).take 4) (start + (n - 3)) (start + n) = start + characterStart bytes n := by
  obtain ⟨k,rfl⟩ : ∃ k, n = k + 3 := ⟨n - 3,by omega⟩
  have hwindow : (bytes.drop k).take 4 = [bytes.getD k 0,bytes.getD (k + 1) 0,bytes.getD (k + 2) 0,bytes.getD (k + 3) 0] := by
    have hget : ∀ m, m ≤ k + 3 → bytes[m]? = some (bytes.getD m 0) := by
      intro m hm
      rw [getD_eq_getElem?_getD, getElem?_eq_getElem (by omega), Option.getD_some]
    simp only [take_add_one, take_zero, getElem?_drop]
    rw [hget _ (by omega), hget _ (by omega), hget _ (by omega), hget _ (by omega)]
    rfl
  rw [Nat.add_sub_cancel, hwindow, forcedBoundary_four]
  simp only [characterStart, Nat.add_sub_cancel, Nat.add_assoc, apply_ite (start + ·)]
  rfl

/-! ### The cut -/

def CharsApart (bytes : List UInt8) : Prop := ∀ front c after, bytes = front ++ String.utf8EncodeChar c ++ after →
  scanState front = .escape → (String.utf8EncodeChar c).length = 1

def Good (content : List UInt8) (safeStart n : ℕ) : Prop := Clear (content.drop safeStart) n ∧ ¬InsideChar content (safeStart + n)

theorem scanState_escape (h : scanState front = .escape) : ∃ earlier, front = earlier ++ [0x1b] := by
  rcases eq_nil_or_concat' front with rfl | ⟨earlier,last,rfl⟩
  · cases h
  · rw [scanState_concat] at h
    exact ⟨earlier,by rw [nextState_eq_escape h]⟩

section Cut
variable {content front : List UInt8} {safeStart : ℕ} {byte : UInt8} {rest : List UInt8}

theorem clear_before (hbells : BellsEnd bytes) (hsplit : bytes = front ++ byte :: rest)
    (h : byte = 0x1b ∨ scanState front = .ground) : Clear bytes front.length := by
  unfold Clear
  rw [hsplit, take_left, drop_left, head?_cons]
  rcases agrees_or_starts hbells hsplit with hagrees | ⟨-,hesc⟩
  · rcases h with rfl | hground
    · exact .inr rfl
    · rw [hground] at hagrees
      exact .inl hagrees
  · exact .inr (congrArg some hesc)

theorem good_before (hstart : safeStart ≤ content.length) (hbells : BellsEnd (content.drop safeStart))
    (hsplit : content.drop safeStart = front ++ byte :: rest)
    (h : byte = 0x1b ∨ scanState front = .ground ∧ isUtf8ContinuationByte byte = false) : Good content safeStart front.length := by
  refine ⟨clear_before hbells hsplit (h.imp_right And.left),fun hinside => ?_⟩
  have hwhole : content = (content.take safeStart ++ front) ++ byte :: rest := by
    rw [append_assoc, ← hsplit, take_append_drop]
  have hlength : (content.take safeStart ++ front).length = safeStart + front.length := by
    rw [length_append, length_take_of_le hstart]
  have hcontinues := InsideChar.continuation (hlength.symm ▸ hinside) hwhole
  rcases h with rfl | ⟨-,hbyte⟩
  · exact absurd hcontinues (by decide)
  · rw [hbyte] at hcontinues
    exact Bool.false_ne_true hcontinues

/-- A boundary behind the end of a sequence or of a line. -/
theorem good_after (hstart : safeStart ≤ content.length) (hbells : BellsEnd (content.drop safeStart)) (hchars : CharsApart (content.drop safeStart))
    (hsplit : content.drop safeStart = front ++ byte :: rest) (hrest : rest ≠ []) (hground : nextState (scanState front) byte = .ground)
    (h : byte < 0x80 ∨ scanState front = .escape) : Good content safeStart (front.length + 1) := by
  obtain ⟨next,more,rfl⟩ := exists_cons_of_ne_nil hrest
  have hafter : content.drop safeStart = (front ++ [byte]) ++ next :: more := by
    rw [hsplit, append_assoc, singleton_append]
  have hclear := clear_before hbells hafter (.inr ((scanState_concat front byte).trans hground))
  rw [length_append, length_singleton] at hclear
  refine ⟨hclear,fun hinside => ?_⟩
  have hwhole : content = (content.take safeStart ++ front) ++ byte :: next :: more := by
    rw [append_assoc, ← hsplit, take_append_drop]
  have hlength : (content.take safeStart ++ front).length + 1 = safeStart + (front.length + 1) := by
    rw [length_append, length_take_of_le hstart, Nat.add_assoc]
  obtain ⟨hhigh,hbegins⟩ := InsideChar.byte_before (hlength.symm ▸ hinside) hwhole
  rcases h with hlow | hescape
  · rw [UInt8.lt_iff_toNat_lt] at hlow
    exact absurd hhigh (Nat.not_le_of_lt hlow)
  · rcases hbegins with ⟨c,after,hc,hmany⟩ | ⟨earlier,last,hearlier,hlast⟩
    · have hone := hchars front c after (by rw [hsplit, hc, append_assoc]) hescape
      omega
    · obtain ⟨before,rfl⟩ := scanState_escape hescape
      rw [← append_assoc] at hearlier
      obtain ⟨-,heq⟩ := append_inj' hearlier rfl
      rw [← (List.cons.inj heq).1] at hlast
      exact absurd hlast (by decide)

end Cut

/-- Since the last boundary of the scan there was nothing, or one sequence, or one string. -/
inductive Since (bytes : List UInt8) (s n : ℕ) : Prop
  | ground (h : ∀ m, s ≤ m → m ≤ n → scanState (bytes.take m) = .ground)
  | opened (hlt : s < n) (hopen : scanState (bytes.take (s + 1)) = .escape)
      (h : (∀ m, s + 1 < m → m ≤ n → (scanState (bytes.take m)).inSequence = true) ∨
        ∀ m, s + 1 < m → m ≤ n → (scanState (bytes.take m)).inString = true)

section Since
variable {bytes : List UInt8} {s n : ℕ}

theorem Since.stay (h : Since bytes s n) (hle : s ≤ n) (hstays : (scanState (bytes.take n)).stays (scanState (bytes.take (n + 1))) = true) :
    Since bytes s (n + 1) := by
  cases h with
  | ground h =>
    rw [h n hle le_rfl] at hstays
    refine .ground fun m hlow hhigh => ?_
    rcases Nat.lt_or_eq_of_le hhigh with hlt | rfl
    · exact h m hlow (Nat.le_of_lt_succ hlt)
    · exact eq_of_beq hstays
  | opened hlt hopen h =>
    have hlast : ∀ P : ReplayScanState → Bool, (∀ m, s + 1 < m → m ≤ n → P (scanState (bytes.take m)) = true) →
        P (scanState (bytes.take (n + 1))) = true → ∀ m, s + 1 < m → m ≤ n + 1 → P (scanState (bytes.take m)) = true := by
      intro P hP hnext m hlow hhigh
      rcases Nat.lt_or_eq_of_le hhigh with hlt | rfl
      · exact hP m hlow (Nat.le_of_lt_succ hlt)
      · exact hnext
    refine .opened (Nat.lt_succ_of_lt hlt) hopen ?_
    rcases Nat.eq_or_lt_of_le (Nat.succ_le_of_lt hlt) with rfl | hlater
    · rw [hopen] at hstays
      rcases Bool.or_eq_true_iff.mp hstays with hnext | hnext
      · exact .inl (hlast _ (fun m hlow hhigh => absurd hlow (not_lt.mpr hhigh)) hnext)
      · exact .inr (hlast _ (fun m hlow hhigh => absurd hlow (not_lt.mpr hhigh)) hnext)
    · refine h.imp (fun h => hlast _ h ?_) fun h => hlast _ h ?_
      · have hstate := h n hlater le_rfl
        revert hstays
        cases hnow : scanState (bytes.take n) <;> simp [hnow, ReplayScanState.inSequence, ReplayScanState.stays] at hstate ⊢
      · have hstate := h n hlater le_rfl
        revert hstays
        cases hnow : scanState (bytes.take n) <;> simp [hnow, ReplayScanState.inString, ReplayScanState.stays] at hstate ⊢

/-- An Escape opens something, and where there is only text there is nothing. -/
theorem Since.last (h : scanState (bytes.take (n + 1)) = .escape ∨
    scanState (bytes.take n) = .ground ∧ scanState (bytes.take (n + 1)) = .ground) : Since bytes n (n + 1) := by
  rcases h with h | ⟨h,h'⟩
  · exact .opened (Nat.lt_succ_self n) h (.inl fun m hlow hhigh => absurd hlow (not_lt.mpr hhigh))
  · refine .ground fun m hlow hhigh => ?_
    obtain rfl | rfl : m = n ∨ m = n + 1 := by omega
    · exact h
    · exact h'

end Since

theorem nextState_ground (byte : UInt8) : nextState .ground byte = if byte = 0x1b then .escape else .ground := by
  simp only [nextState, scanByte, reduceCtorEq, or_self, and_false, if_false]
  split_ifs with h h1 h2 <;> first | rfl | (subst h1; simp at h)

/-- The last boundary of the scan is good, and what the scan found since. -/
theorem scan_good {content : List UInt8} {safeStart n : ℕ} (hn : safeStart + n < content.length) :
    ∃ s ≤ n, scanReplay (fun byte => !isUtf8ContinuationByte byte) ((content.drop safeStart).take n) safeStart .ground safeStart =
        safeStart + s ∧ Since (content.drop safeStart) s n ∧
      (BellsEnd (content.drop safeStart) → CharsApart (content.drop safeStart) → ¬InsideChar content safeStart →
        Good content safeStart s) := by
  induction n with
  | zero =>
    refine ⟨0,le_rfl,rfl,.ground fun m _ hm => ?_,fun _ _ hinside => ⟨.inl rfl,hinside⟩⟩
    rw [Nat.le_zero.mp hm]
    rfl
  | succ n ih =>
    obtain ⟨s,hs,hscan,hsince,hgood⟩ := ih (by omega)
    obtain ⟨byte,hat⟩ : ∃ byte, (content.drop safeStart)[n]? = some byte :=
      ⟨_,getElem?_eq_getElem (by rw [length_drop]; omega)⟩
    have hlength : ((content.drop safeStart).take n).length = n := length_take_of_le (List.getElem?_eq_some_iff.mp hat).1.le
    have hnext := scanState_succ hat
    have hsplit := split_at hat
    have htake : (content.drop safeStart).take (n + 1) = (content.drop safeStart).take n ++ [byte] := by
      rw [take_add_one, hat]
      rfl
    have hbefore := @good_before content ((content.drop safeStart).take n) safeStart byte
    have hafter := @good_after content ((content.drop safeStart).take n) safeStart byte
    rw [hlength] at hbefore hafter
    rw [htake, scanReplay_concat, hlength, hscan]
    rcases scanByte_snd (fun byte => !isUtf8ContinuationByte byte) (safeStart + n) (scanState ((content.drop safeStart).take n))
      (safeStart + s) byte with ⟨h,hstays⟩ | ⟨h,hbyte⟩ | ⟨h,hground,hbyte⟩
    · exact ⟨s,Nat.le_succ_of_le hs,h,hsince.stay hs (hnext ▸ hstays (by decide)),hgood⟩
    · refine ⟨n,Nat.le_succ n,h,Since.last ?_,fun hbells _ _ => hbefore (by omega) hbells hsplit ?_⟩
      · rw [hnext]
        rcases hbyte with ⟨-,hescape⟩ | ⟨hstate,-⟩
        · exact .inl hescape
        · rw [hstate, nextState_ground]
          split_ifs
          · exact .inl rfl
          · exact .inr ⟨rfl,rfl⟩
      · exact hbyte.imp And.left fun hb => ⟨hb.1,by simpa using hb.2⟩
    · refine ⟨n + 1,le_rfl,h,.ground fun m hlow hhigh => ?_,fun hbells hchars _ => ?_⟩
      · rw [Nat.le_antisymm hhigh hlow, hnext, hground]
      · refine hafter (by omega) hbells hchars hsplit ?_ hground hbyte
        rw [← length_pos_iff, length_drop, length_drop]
        omega

/-! ### Strings -/

/-- Both are in the same string. -/
def SameString : ReplayScanState → TerminalState → Prop
  | .osc, state => state = .osc
  | .dcs, state | .sosPmApc, state => state = .string
  | _, _ => False

theorem SameString.step {scanned : ReplayScanState} {state : TerminalState}
    (h : SameString scanned state ∨ scanned = .escape ∧ state = .escape) (hesc : byte ≠ 0x1b)
    (hin : (nextState scanned byte).inString = true) : SameString (nextState scanned byte) (terminalByte state byte) := by
  revert hin
  rcases h with h | ⟨rfl,rfl⟩
  · cases scanned with
    | osc | dcs | sosPmApc =>
      obtain rfl := h
      simp only [nextState, scanByte, terminalByte, hesc, false_and, if_false]
      split_ifs <;> first | exact fun _ => rfl | exact fun hin => absurd hin Bool.false_ne_true
    | _ => cases h
  · simp only [nextState, scanByte, terminalByte, hesc, false_and, if_false]
    split_ifs <;> first | exact fun _ => rfl | exact fun hin => absurd hin Bool.false_ne_true

/-- Where the scan reads one string for longer than the slack and an Escape has come in it, the
character at a place begins where the terminal is in no sequence, or where one starts. -/
def LongStrings (bytes : List UInt8) : Prop := ∀ e x n, scanState (bytes.take (e + 1)) = .escape →
  (∀ m, e + 1 < m → m ≤ n → (scanState (bytes.take m)).inString = true) →
  e + sessionOutputJournalControlSlackBytes < n → n < bytes.length → e < x → x ≤ n → bytes[x]? = some 0x1b →
    Clear bytes (characterStart bytes n)

section Strings
variable {bytes : List UInt8} {e n p s : ℕ}

theorem terminalState_opened (hopen : scanState (bytes.take (e + 1)) = .escape) (hlt : e < bytes.length) :
    terminalState (bytes.take (e + 1)) = .escape := by
  have hat : bytes[e]? = some bytes[e] := getElem?_eq_getElem hlt
  rw [scanState_succ hat] at hopen
  rw [terminalState_succ hat, nextState_eq_escape hopen]
  exact terminalByte_escape _

/-- Without an Escape the terminal stays in the string. -/
theorem sameString (hopen : scanState (bytes.take (e + 1)) = .escape) (hn : n ≤ bytes.length) (hlt : e + 1 < n)
    (hin : ∀ m, e + 1 < m → m ≤ n → (scanState (bytes.take m)).inString = true)
    (hno : ∀ x, e < x → x < n → bytes[x]? ≠ some 0x1b) : SameString (scanState (bytes.take n)) (terminalState (bytes.take n)) := by
  induction n, hlt using Nat.le_induction with
  | base =>
    have hat : bytes[e + 1]? = some bytes[e + 1] := getElem?_eq_getElem hn
    have hnext := hin (e + 1 + 1) (Nat.lt_succ_self _) le_rfl
    rw [scanState_succ hat] at hnext ⊢
    rw [terminalState_succ hat]
    refine SameString.step (.inr ⟨hopen,terminalState_opened hopen (by omega)⟩) (fun hesc => ?_) hnext
    exact hno (e + 1) (by omega) (by omega) (hat.trans (congrArg some hesc))
  | succ n hlt ih =>
    have hat : bytes[n]? = some bytes[n] := getElem?_eq_getElem hn
    have hnext := hin (n + 1) (by omega) le_rfl
    rw [scanState_succ hat] at hnext ⊢
    rw [terminalState_succ hat]
    refine SameString.step (.inl (ih (by omega) (fun m hlow hhigh => hin m hlow (by omega)) fun x hlow hhigh => hno x hlow (by omega)))
      (fun hesc => ?_) hnext
    exact hno n (by omega) (by omega) (hat.trans (congrArg some hesc))

theorem escape_of_clear (hopen : scanState (bytes.take (e + 1)) = .escape)
    (hin : ∀ m, e + 1 < m → m ≤ n → (scanState (bytes.take m)).inString = true) (hn : n < bytes.length) (hlow : e < p) (hhigh : p ≤ n)
    (hclear : Clear bytes p) : ∃ x, e < x ∧ x ≤ p ∧ bytes[x]? = some 0x1b := by
  by_contra hno
  push Not at hno
  rcases hclear with hground | hesc
  · rcases Nat.eq_or_lt_of_le (Nat.succ_le_of_lt hlow) with rfl | hlater
    · rw [terminalState_opened hopen (by omega)] at hground
      cases hground
    · have hsame := sameString hopen (by omega) hlater (fun m hm hmp => hin m hm (hmp.trans hhigh)) fun x hx hxp => hno x hx hxp.le
      rw [hground] at hsame
      cases hstate : scanState (bytes.take p) <;> rw [hstate] at hsame <;> cases hsame
  · rw [head?_drop] at hesc
    exact hno p hlow le_rfl hesc

theorem clear_at {m : ℕ} (hbells : BellsEnd bytes) (hat : bytes[m]? = some byte)
    (h : byte = 0x1b ∨ scanState (bytes.take m) = .ground) : Clear bytes m := by
  have hclear := clear_before hbells (split_at hat) h
  rwa [length_take_of_le (List.getElem?_eq_some_iff.mp hat).1.le] at hclear

/-- The forced cut is at a boundary, if there is one near. -/
theorem clear_forced (hbells : BellsEnd bytes) (hlong : LongStrings bytes) (hn : n < bytes.length) (hsince : Since bytes s n)
    (hfar : s + sessionOutputJournalControlSlackBytes < n) (hnear : BoundaryNear bytes n) : Clear bytes (characterStart bytes n) := by
  have hthree : 3 ≤ sessionOutputJournalControlSlackBytes := by decide
  obtain ⟨hlow,hhigh⟩ := (characterStart_cases bytes n).1
  obtain ⟨p,hp,hslack,hclear⟩ := hnear
  cases hsince with
  | ground h => exact clear_at hbells (getElem?_eq_getElem (by omega)) (.inr (h _ (by omega) hhigh))
  | opened hlt hopen h =>
    rcases h with h | h
    · have hat : bytes[p]? = some bytes[p] := getElem?_eq_getElem (by omega)
      have hstate : scanState (bytes.take p) = .escape ∨ (scanState (bytes.take p)).inSequence = true := by
        rcases Nat.eq_or_lt_of_le (show s + 1 ≤ p by omega) with rfl | hlater
        · exact .inl hopen
        · exact .inr (h p hlater hp)
      have hesc : bytes[p] = 0x1b := by
        rcases hclear with hground | hesc
        · exfalso
          have hagrees := agrees_or_starts hbells (split_at hat)
          rw [hground] at hagrees
          cases hnow : scanState (bytes.take p) <;> simp [hnow, Agrees, ReplayScanState.inSequence] at hagrees hstate
        · rw [head?_drop, hat] at hesc
          exact Option.some.inj hesc
      -- behind the Escape there would be a boundary of the scan
      obtain rfl : p = n := by
        by_contra hne
        have hnext := h (p + 1) (by omega) (by omega)
        rw [scanState_succ hat, hesc] at hnext
        cases hnow : scanState (bytes.take p) <;> simp [hnow, ReplayScanState.inSequence, nextState, scanByte] at hnext hstate
      have hfirst : isUtf8ContinuationByte (bytes.getD p 0) = false := by
        rw [getD_eq_getElem?_getD, hat, hesc]
        rfl
      rwa [show characterStart bytes p = p from if_pos hfirst]
    · obtain ⟨x,hx,hxp,hat⟩ := escape_of_clear hopen h hn (by omega) hp hclear
      exact hlong s x n hopen h hfar hn hx (hxp.trans hp) hat

/-- A string has one beginning. -/
theorem Since.eq (hsince : Since bytes s n) (hle : s ≤ n) (hopen : scanState (bytes.take (e + 1)) = .escape) (hlt : e + 1 < n)
    (hin : ∀ m, e + 1 < m → m ≤ n → (scanState (bytes.take m)).inString = true) : s = e := by
  cases hsince with
  | ground h =>
    have hstate := hin n hlt le_rfl
    rw [h n hle le_rfl] at hstate
    cases hstate
  | opened hsn hopen' h =>
    rcases lt_trichotomy s e with hless | heq | hmore
    · rcases h with h | h
      all_goals
        have hstate := h (e + 1) (by omega) hlt.le
        rw [hopen] at hstate
        cases hstate
    · exact heq
    · have hstate := hin (s + 1) (by omega) hsn
      rw [hopen'] at hstate
      cases hstate

end Strings

/-! ### The cut of the source -/

theorem length_content (file : SparseFile) : (content file).length = file.length := length_map _

theorem readExact_content {start len : ℕ} (h : start + len ≤ file.length) :
    readExact file start len = some (((content file).drop start).take len) := by
  unfold readExact content
  rw [if_pos h, map_take, map_drop]

section Cuts
variable {safeStart n : ℕ}

theorem cut_eq (hpos : 0 < n) (hfile : safeStart + n < file.length) : ∃ s ≤ n,
    scanReplay (fun byte => !isUtf8ContinuationByte byte) (((content file).drop safeStart).take n) safeStart .ground safeStart =
      safeStart + s ∧ Since ((content file).drop safeStart) s n ∧
    (BellsEnd ((content file).drop safeStart) → CharsApart ((content file).drop safeStart) → ¬InsideChar (content file) safeStart →
      Good (content file) safeStart s) ∧
    safeOutputRetentionBoundary file safeStart (safeStart + n) = some (safeStart +
      if n ≤ s + sessionOutputJournalControlSlackBytes then s else characterStart ((content file).drop safeStart) n) := by
  have hlength := length_content file
  obtain ⟨s,hs,hscan,hsince,hgood⟩ := @scan_good (content file) safeStart n (by omega)
  refine ⟨s,hs,hscan,hsince,hgood,?_⟩
  have hthree : 3 ≤ sessionOutputJournalControlSlackBytes := by decide
  unfold safeOutputRetentionBoundary
  rw [if_neg (by omega), readExact_content (by omega), Nat.add_sub_cancel_left, Option.bind_eq_bind, Option.bind_some]
  dsimp only
  rw [hscan, min_eq_left (by omega)]
  by_cases hnear : n ≤ s + sessionOutputJournalControlSlackBytes
  · rw [if_pos hnear, if_pos (by omega)]
  · have hstart : max (safeStart + n - 3) safeStart = safeStart + (n - 3) := by omega
    have hcount : safeStart + n - (safeStart + (n - 3)) + 1 = 4 := by omega
    rw [if_neg hnear, if_neg (by omega), hstart, hcount, readExact_content (by omega), Option.bind_some, ← drop_drop,
      forcedBoundary_eq _ _ (by omega) (by rw [length_drop]; omega)]

/-- A forced cut is in no character. -/
theorem forced_outside (hthree : 3 ≤ n) (hfile : safeStart + n < file.length) :
    ¬InsideChar (content file) (safeStart + characterStart ((content file).drop safeStart) n) := by
  intro hinside
  have hlength := length_content file
  have hget : ∀ m, m ≤ n → (content file)[safeStart + m]? = some (((content file).drop safeStart).getD m 0) := by
    intro m hm
    rw [getD_eq_getElem?_getD, getElem?_drop, getElem?_eq_getElem (by omega), Option.getD_some]
  obtain ⟨⟨-,hhigh⟩,hbyte | ⟨hcut,hall⟩⟩ := characterStart_cases ((content file).drop safeStart) n
  · have hcontinues := hinside.continuation_at (hget _ hhigh)
    rw [hbyte] at hcontinues
    exact Bool.false_ne_true hcontinues
  · rw [hcut] at hinside
    obtain ⟨m,byte,hm,hnear,hat,hbyte⟩ := hinside.first
    have hplace := hget (m - safeStart) (by omega)
    rw [Nat.add_sub_of_le (by omega), hat] at hplace
    rw [Option.some.inj hplace, hall (m - safeStart) (by omega) (by omega)] at hbyte
    cases hbyte

theorem cutsSafely (hfile : safeStart + n < file.length) (hbells : BellsEnd ((content file).drop safeStart))
    (hchars : CharsApart ((content file).drop safeStart)) (hlong : LongStrings ((content file).drop safeStart))
    (hinside : ¬InsideChar (content file) safeStart) : CutsSafely file safeStart (safeStart + n) := by
  have hlength := length_content file
  have hthree : 3 ≤ sessionOutputJournalControlSlackBytes := by decide
  unfold CutsSafely
  rw [Nat.add_sub_cancel_left]
  rcases Nat.eq_zero_or_pos n with rfl | hpos
  · refine ⟨safeStart,if_pos le_rfl,le_rfl,le_rfl,fun _ => ?_,hinside⟩
    rw [Nat.sub_self]
    exact .inl rfl
  · obtain ⟨s,hs,-,hsince,hgood,hcut⟩ := cut_eq hpos hfile
    by_cases hslack : n ≤ s + sessionOutputJournalControlSlackBytes
    · obtain ⟨hclear,houtside⟩ := hgood hbells hchars hinside
      rw [if_pos hslack] at hcut
      refine ⟨safeStart + s,hcut,by omega,by omega,fun _ => ?_,houtside⟩
      rwa [Nat.add_sub_cancel_left]
    · obtain ⟨⟨hlow,hhigh⟩,-⟩ := characterStart_cases ((content file).drop safeStart) n
      rw [if_neg hslack] at hcut
      refine ⟨_,hcut,by omega,by omega,fun hnear => ?_,forced_outside (by omega) hfile⟩
      rw [Nat.add_sub_cancel_left]
      exact clear_forced hbells hlong (by rw [length_drop]; omega) hsince (not_le.mp hslack) hnear

/-- Where a byte ends something for the scan, a cut right behind it is taken. -/
theorem cut_after {front : List UInt8} {byte next : UInt8} {rest : List UInt8}
    (hsplit : (content file).drop safeStart = front ++ byte :: next :: rest) (hfile : safeStart + (front.length + 1) < file.length)
    (hends : ∀ l, (scanByte (fun byte => !isUtf8ContinuationByte byte) (safeStart + front.length) (scanState front) l byte).2 =
      safeStart + front.length + 1) : safeOutputRetentionBoundary file safeStart (safeStart + (front.length + 1)) =
        some (safeStart + (front.length + 1)) := by
  obtain ⟨s,hs,hscan,-,-,hcut⟩ := cut_eq (Nat.succ_pos front.length) hfile
  have htake : ((content file).drop safeStart).take (front.length + 1) = front ++ [byte] := by
    rw [hsplit, take_length_add_append]
    rfl
  rw [htake, scanReplay_concat] at hscan
  obtain rfl : s = front.length + 1 := by
    have heq := (hends _).symm.trans hscan
    omega
  rwa [if_pos (Nat.le_add_right _ _)] at hcut

end Cuts

section Necessary
variable {safeStart : ℕ}
variable (h : ∀ desiredStart, safeStart ≤ desiredStart → desiredStart < file.length → CutsSafely file safeStart desiredStart)
include h

theorem clear_of_safe {n cut : ℕ} (hfile : safeStart + n < file.length)
    (hcut : safeOutputRetentionBoundary file safeStart (safeStart + n) = some (safeStart + cut)) :
    (BoundaryNear ((content file).drop safeStart) n → Clear ((content file).drop safeStart) cut) ∧
      ¬InsideChar (content file) (safeStart + cut) := by
  obtain ⟨boundary,hboundary,-,-,hclear,hinside⟩ := h (safeStart + n) (Nat.le_add_right _ _) hfile
  rw [hcut] at hboundary
  obtain rfl := Option.some.inj hboundary
  rw [Nat.add_sub_cancel_left, Nat.add_sub_cancel_left] at hclear
  exact ⟨hclear,hinside⟩

theorem longStrings_of_safe : LongStrings ((content file).drop safeStart) := by
  have hlength := length_content file
  intro e x n hopen hin hlong hn hex hxn hat
  rw [length_drop] at hn
  have hfive : 5 ≤ sessionOutputJournalControlSlackBytes := by decide
  have hforced : ∀ k, e + sessionOutputJournalControlSlackBytes < k → k ≤ n → BoundaryNear ((content file).drop safeStart) k →
      Clear ((content file).drop safeStart) (characterStart ((content file).drop safeStart) k) := by
    intro k hfar hk hnear
    obtain ⟨s,hs,-,hsince,-,hcut⟩ := @cut_eq file safeStart k (by omega) (by omega)
    obtain rfl := hsince.eq hs hopen (by omega) fun m hlow hhigh => hin m hlow (hhigh.trans hk)
    rw [if_neg (not_le.mpr hfar)] at hcut
    exact (clear_of_safe h (by omega) hcut).1 hnear
  -- from the Escape on, one forced cut is near the next
  have hall : ∀ d k, k = max x (e + sessionOutputJournalControlSlackBytes + 1) + d → k ≤ n →
      Clear ((content file).drop safeStart) (characterStart ((content file).drop safeStart) k) := by
    intro d
    induction d with
    | zero =>
      intro k hk hkn
      refine hforced k (by omega) hkn ⟨x,by omega,by omega,.inr ?_⟩
      rw [head?_drop, hat]
    | succ d ih =>
      intro k hk hkn
      obtain ⟨hlow,hhigh⟩ := (characterStart_cases ((content file).drop safeStart) (k - 1)).1
      exact hforced k (by omega) hkn ⟨_,by omega,by omega,ih (k - 1) (by omega) (by omega)⟩
  exact hall (n - max x (e + sessionOutputJournalControlSlackBytes + 1)) n (by omega) le_rfl

theorem bellsEnd_of_safe : BellsEnd ((content file).drop safeStart) := by
  have hlength := length_content file
  intro front b rest hsplit hosc hb
  have hcount := congrArg List.length hsplit
  rw [length_drop, length_append, length_cons, length_cons] at hcount
  have hfile : safeStart + (front.length + 1) < file.length := by omega
  have htake : ((content file).drop safeStart).take front.length = front := by rw [hsplit, take_left]
  have hbehind : ((content file).drop safeStart).take (front.length + 1) = front ++ [0x07] := by
    rw [hsplit, take_length_add_append]
    rfl
  obtain ⟨hclear,-⟩ := clear_of_safe h hfile (cut_after hsplit hfile (fun l => by rw [hosc]; rfl))
  have hgoal : BoundaryNear ((content file).drop safeStart) (front.length + 1) → terminalState (front ++ [0x07]) = .ground := by
    intro hnear
    have hplace := hclear hnear
    unfold Clear at hplace
    rw [hbehind, hsplit, drop_length_add_append] at hplace
    exact hplace.resolve_right fun hesc => hb (Option.some.inj hesc)
  obtain ⟨s,hs,-,hsince,-⟩ := @scan_good (content file) safeStart front.length (by omega)
  cases hsince with
  | ground hground =>
    have hstate := hground front.length hs le_rfl
    rw [htake, hosc] at hstate
    cases hstate
  | opened hlt hopen hkind =>
    have hlater : s + 1 < front.length := by
      refine lt_of_le_of_ne (Nat.succ_le_of_lt hlt) fun heq => ?_
      rw [heq, htake, hosc] at hopen
      cases hopen
    have hin := hkind.resolve_left fun hseq => by
      have hstate := hseq front.length hlater le_rfl
      rw [htake, hosc] at hstate
      cases hstate
    by_cases hesc : ∃ x, s < x ∧ x < front.length ∧ ((content file).drop safeStart)[x]? = some 0x1b
    · obtain ⟨x,hx,hxn,hat⟩ := hesc
      apply hgoal
      by_cases hfar : s + sessionOutputJournalControlSlackBytes < front.length
      · obtain ⟨hlow,hhigh⟩ := (characterStart_cases ((content file).drop safeStart) front.length).1
        have hfive : 5 ≤ sessionOutputJournalControlSlackBytes := by decide
        exact ⟨_,by omega,by omega,longStrings_of_safe h s x front.length hopen hin hfar (by rw [length_drop]; omega) hx hxn.le hat⟩
      · exact ⟨x,by omega,by omega,.inr (by rw [head?_drop, hat])⟩
    · push Not at hesc
      have hsame := sameString hopen (by rw [length_drop]; omega) hlater hin hesc
      rw [htake, hosc] at hsame
      rw [terminalState_concat, show terminalState front = .osc from hsame]
      rfl

end Necessary

theorem scanByte_high (textBoundary : UInt8 → Bool) (absolute lastBoundary : ℕ) (h : 0x80 ≤ byte.toNat) :
    (scanByte textBoundary absolute .escape lastBoundary byte).2 = absolute + 1 := by
  have hne : ∀ d : UInt8, d.toNat < 0x80 → byte ≠ d := by
    rintro d hd rfl
    omega
  have hrange : ¬(0x20 ≤ byte ∧ byte ≤ 0x2f) := by
    intro hle
    exact absurd (h.trans hle.2) (by decide)
  simp only [scanByte, hne 0x18 (by decide), hne 0x1a (by decide), hne 0x1b (by decide), hne 0x5b (by decide), hne 0x5d (by decide),
    hne 0x50 (by decide), hne 0x58 (by decide), hne 0x5e (by decide), hne 0x5f (by decide), hrange, false_and, or_self, if_false]

/-- Every cut from a known boundary on is safe exactly if no bell ends a command in which the
terminal is in the middle of something else, no longer character comes right after an Escape, no
cut is forced into what an Escape has started in a long string, and the known boundary is in no
character. -/
theorem retention_boundary_is_safe_iff (file : SparseFile) (safeStart : ℕ) :
    (∀ desiredStart, safeStart ≤ desiredStart → desiredStart < file.length → CutsSafely file safeStart desiredStart) ↔
      BellsEnd ((content file).drop safeStart) ∧ CharsApart ((content file).drop safeStart) ∧
        LongStrings ((content file).drop safeStart) ∧ ¬InsideChar (content file) safeStart := by
  have hlength := length_content file
  refine ⟨fun h => ⟨bellsEnd_of_safe h,?_,longStrings_of_safe h,?_⟩,?_⟩
  · intro front c after hsplit hescape
    by_contra hone
    have hpos := length_pos_of_ne_nil (String.utf8EncodeChar_ne_nil (c := c))
    have hmany : 1 < (String.utf8EncodeChar c).length := by omega
    obtain ⟨byte,next,tail,hc⟩ : ∃ byte next tail, String.utf8EncodeChar c = byte :: next :: tail := by
      rcases hlist : String.utf8EncodeChar c with _ | ⟨byte,_ | ⟨next,tail⟩⟩
      · exact absurd hlist String.utf8EncodeChar_ne_nil
      · rw [hlist] at hone
        exact absurd rfl hone
      · exact ⟨byte,next,tail,rfl⟩
    have hbyte : 0x80 ≤ byte.toNat := Utf8.low_of_encodeChar hmany (by rw [hc]; exact mem_cons_self)
    have hbytes : (content file).drop safeStart = front ++ byte :: next :: (tail ++ after) := by
      rw [hsplit, hc, append_assoc]
      rfl
    have hcount := congrArg List.length hbytes
    rw [length_drop, length_append, length_cons, length_cons] at hcount
    have hfile : safeStart + (front.length + 1) < file.length := by omega
    obtain ⟨-,houtside⟩ := clear_of_safe h hfile (cut_after hbytes hfile fun l => by rw [hescape]; exact scanByte_high _ _ _ hbyte)
    have hbefore : ((content file).take safeStart ++ front).length = safeStart + front.length := by
      rw [length_append, length_take_of_le (by omega)]
    refine houtside ⟨(content file).take safeStart ++ front,c,after,?_,by omega,by omega⟩
    rw [append_assoc, append_assoc, ← append_assoc front, ← hsplit, take_append_drop]
  · intro hinside
    have hfile : safeStart < file.length := by
      obtain ⟨before,c,after,hchar,hlow,hhigh⟩ := hinside
      have hcount := congrArg List.length hchar
      rw [length_append, length_append] at hcount
      omega
    have hcut : safeOutputRetentionBoundary file safeStart (safeStart + 0) = some (safeStart + 0) := if_pos le_rfl
    exact (clear_of_safe h hfile hcut).2 hinside
  · rintro ⟨hbells,hchars,hlong,hinside⟩ desiredStart hle hfile
    obtain ⟨n,rfl⟩ := Nat.exists_eq_add_of_le hle
    exact cutsSafely hfile hbells hchars hlong hinside

/-- A device control string that breaks off a command: the bell in it is taken for the end. -/
theorem broken_command_is_cut : ¬∀ file safeStart desiredStart, safeStart ≤ desiredStart → desiredStart < file.length →
    CutsSafely file safeStart desiredStart := by
  intro h
  have hcut := @cut_after ([0x1b,0x5d,0x61,0x1b,0x50,0x71,0x07,0x78].map some) 0 [0x1b,0x5d,0x61,0x1b,0x50,0x71] 0x07 0x78 []
    rfl (by decide) fun _ => rfl
  obtain ⟨hclear,-⟩ := @clear_of_safe _ 0 (h _ 0) 7 7 (by decide) hcut
  exact absurd (hclear ⟨0,by decide,by decide,.inl rfl⟩) (by unfold Clear; decide)

end Unpeel.Journal
