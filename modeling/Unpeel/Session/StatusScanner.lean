import Mathlib.Data.List.TakeWhile
import Unpeel.Foundation.Transducers
import Unpeel.Session.QueryScanner

/-! # Program Status reports in the output

`ProgramStatusScanner` watches the output for `OSC 7501` reports, prompts and full resets. It
carries an unfinished sequence from chunk to chunk; the grammar says what there is to find in
the whole stream.
-/
namespace Unpeel.Session
open Transducers List
open OutputQueryScanner (esc ascii isAsciiDigit)

def maxSequenceBytes : ℕ := 4096
def maxBodyBytes : ℕ := maxSequenceBytes - 7 - 1
def skipBudgetBytes : ℕ := 64 * 1024
def maxPromptPayloadBytes : ℕ := 256

inductive StatusScanState where
  | ground
  | escape
  | code
  | payload
  | payloadEscape
  | skip
  | skipEscape
deriving DecidableEq, Repr

structure ProgramStatusScanner where
  state : StatusScanState
  code : ℕ
  codeDigits : ℕ
  payload : List UInt8
  skipped : ℕ
deriving DecidableEq, Repr

namespace ProgramStatusScanner

inductive StreamEvent where
  | report (body : List UInt8)
  | promptStart
  | fullReset
deriving DecidableEq, Repr

def new : ProgramStatusScanner := ⟨.ground,0,0,[],0⟩

def afterEscape (s : ProgramStatusScanner) (byte : UInt8) : ProgramStatusScanner × List StreamEvent :=
  if byte = 0x5d then ({ s with state := .code, code := 0, codeDigits := 0 },[])
  else if byte = 0x63 then ({ s with state := .ground },[.fullReset])
  else if byte = esc then ({ s with state := .escape },[])
  else ({ s with state := .ground },[])

def finish (s : ProgramStatusScanner) : ProgramStatusScanner × List StreamEvent :=
  ({ s with state := .ground, payload := [] },
    if s.code = 7501 then [.report s.payload]
    else if s.code = 133 ∧ s.payload.head? = some 0x41 then [.promptStart]
    else [])

def payloadLimit (code : ℕ) : ℕ := if code = 7501 then maxBodyBytes else maxPromptPayloadBytes

/-- One turn of the loop of `scan`. -/
def scanByte (s : ProgramStatusScanner) (byte : UInt8) : ProgramStatusScanner × List StreamEvent :=
  match s.state with
  | .ground => if byte = esc then ({ s with state := .escape },[]) else (s,[])
  | .escape => s.afterEscape byte
  | .code =>
    if isAsciiDigit byte ∧ s.codeDigits < 6 then
      ({ s with code := s.code * 10 + (byte.toNat - 0x30), codeDigits := s.codeDigits + 1 },[])
    else if byte = 0x3b ∧ (s.code = 7501 ∨ s.code = 133) then ({ s with payload := [], state := .payload },[])
    else if byte = 0x07 then ({ s with state := .ground },[])
    else if byte = esc then ({ s with state := .skipEscape },[])
    else ({ s with skipped := 0, state := .skip },[])
  | .payload =>
    if byte = 0x07 then s.finish
    else if byte = esc then ({ s with state := .payloadEscape },[])
    else if s.payload.length < payloadLimit s.code then ({ s with payload := s.payload ++ [byte] },[])
    else ({ s with payload := [], skipped := 0, state := .skip },[])
  | .payloadEscape => if byte = 0x5c then s.finish else { s with payload := [] }.afterEscape byte
  | .skip =>
    let s := { s with skipped := s.skipped + 1 }
    if byte = 0x07 then ({ s with state := .ground },[])
    else if byte = esc then ({ s with state := .skipEscape },[])
    else if skipBudgetBytes < s.skipped then ({ s with state := .ground },[])
    else (s,[])
  | .skipEscape => if byte = 0x5c then ({ s with state := .ground },[]) else s.afterEscape byte

def scan (s : ProgramStatusScanner) (input : List UInt8) : ProgramStatusScanner × List StreamEvent :=
  if s.state = .ground ∧ esc ∉ input then (s,[]) else feed scanByte s input

theorem scan_eq_feed (s : ProgramStatusScanner) (input : List UInt8) : s.scan input = feed scanByte s input := by
  unfold scan
  split_ifs with hshort
  · symm
    refine feed_idle fun byte hbyte => ?_
    have hplain : byte ≠ esc := fun hno => hshort.2 (hno ▸ hbyte)
    simp [scanByte, hshort.1, hplain]
  · rfl

section Grammar

def splitAtEscapes : List UInt8 → List UInt8 × List (List UInt8)
  | [] => ([],[])
  | byte :: rest =>
    if byte = esc then ([],(splitAtEscapes rest).1 :: (splitAtEscapes rest).2)
    else (byte :: (splitAtEscapes rest).1,(splitAtEscapes rest).2)

def codeOf (digits : List UInt8) : ℕ := digits.foldl (fun code byte => code * 10 + (byte.toNat - 0x30)) 0

/-- What an OSC string reports, without its terminator. The number has at most six digits; a prompt
may have a limit. -/
def oscEvents (promptLimit : Option ℕ) (text : List UInt8) : List StreamEvent :=
  let digits := text.takeWhile isAsciiDigit
  match text.dropWhile isAsciiDigit with
  | 0x3b :: payload =>
    if 6 < digits.length then []
    else if codeOf digits = 7501 then if payload.length ≤ maxBodyBytes then [.report payload] else []
    else if codeOf digits = 133 ∧ payload.head? = some 0x41 ∧ promptLimit.all (payload.length ≤ ·) then [.promptStart]
    else []
  | _ => []

def sequenceEvents (promptLimit : Option ℕ) (sequence : List UInt8) (next : Option (List UInt8)) : List StreamEvent :=
  match sequence with
  | 0x63 :: _ => [.fullReset]
  | 0x5d :: text =>
    if 0x07 ∈ text then oscEvents promptLimit (text.takeWhile (· ≠ 0x07))
    else if (next.bind List.head?) = some 0x5c then oscEvents promptLimit text
    else []
  | _ => []

def sequencesEvents (promptLimit : Option ℕ) : List (List UInt8) → List StreamEvent
  | [] => []
  | sequence :: rest => sequenceEvents promptLimit sequence rest.head? ++ sequencesEvents promptLimit rest

/-- The events of the escape grammar: an ESC that a backslash does not follow aborts a string and
starts the next sequence. -/
def grammarEvents (promptLimit : Option ℕ) (stream : List UInt8) : List StreamEvent :=
  sequencesEvents promptLimit (splitAtEscapes stream).2

def opened (promptLimit : Option ℕ) (rest : List UInt8) : List StreamEvent :=
  sequenceEvents promptLimit (splitAtEscapes rest).1 (splitAtEscapes rest).2.head?

variable {promptLimit : Option ℕ} {text digits payload : List UInt8} {byte : UInt8}

theorem grammarEvents_esc (rest : List UInt8) :
    grammarEvents promptLimit (esc :: rest) = opened promptLimit rest ++ grammarEvents promptLimit rest := by
  simp [grammarEvents, splitAtEscapes, sequencesEvents, opened]

theorem grammarEvents_plain (h : byte ≠ esc) (rest : List UInt8) :
    grammarEvents promptLimit (byte :: rest) = grammarEvents promptLimit rest := by
  simp [grammarEvents, splitAtEscapes, h]

theorem splitAtEscapes_append (h : esc ∉ text) (rest : List UInt8) :
    splitAtEscapes (text ++ rest) = (text ++ (splitAtEscapes rest).1,(splitAtEscapes rest).2) := by
  induction text with
  | nil => rfl
  | cons byte text ih =>
    have hbyte : byte ≠ esc := fun hno => h (hno ▸ mem_cons_self ..)
    have htext : esc ∉ text := fun hno => h (mem_cons_of_mem _ hno)
    simp [splitAtEscapes, hbyte, ih htext]

theorem opened_nil : opened promptLimit [] = [] := rfl

theorem opened_esc (rest : List UInt8) : opened promptLimit (esc :: rest) = [] := by
  simp [opened, splitAtEscapes, sequenceEvents]

theorem opened_other (hesc : byte ≠ esc) (hosc : byte ≠ 0x5d) (hreset : byte ≠ 0x63) (rest : List UInt8) :
    opened promptLimit (byte :: rest) = [] := by
  simp only [opened, splitAtEscapes, hesc, if_false]
  unfold sequenceEvents
  split <;> simp_all

theorem opened_osc (htext : esc ∉ text) (rest : List UInt8) :
    opened promptLimit (0x5d :: text ++ rest) =
      sequenceEvents promptLimit (0x5d :: text ++ (splitAtEscapes rest).1) (splitAtEscapes rest).2.head? := by
  have hosc : esc ∉ 0x5d :: text := by
    rw [mem_cons, not_or]
    exact ⟨by decide,htext⟩
  rw [opened, splitAtEscapes_append hosc]

theorem takeWhile_bel (hbel : 0x07 ∉ text) (rest : List UInt8) :
    (text ++ rest).takeWhile (· ≠ 0x07) = text ++ rest.takeWhile (· ≠ 0x07) := by
  refine takeWhile_append_of_pos fun byte hbyte => decide_eq_true ?_
  rintro rfl
  exact hbel hbyte

theorem opened_bel (promptLimit : Option ℕ) (hesc : esc ∉ text) (hbel : 0x07 ∉ text) (rest : List UInt8) :
    opened promptLimit (0x5d :: text ++ 0x07 :: rest) = oscEvents promptLimit text := by
  have hplain : (0x07 : UInt8) ≠ esc := by decide
  have hends : (text ++ 0x07 :: (splitAtEscapes rest).1).takeWhile (· ≠ 0x07) = text := by
    rw [takeWhile_bel hbel]
    simp
  rw [opened_osc hesc]
  simp only [splitAtEscapes, hplain, if_false, sequenceEvents, cons_append]
  rw [if_pos (by simp), hends]

theorem opened_string_esc (promptLimit : Option ℕ) (hesc : esc ∉ text) (hbel : 0x07 ∉ text) (rest : List UInt8) :
    opened promptLimit (0x5d :: text ++ esc :: rest) = if rest.head? = some 0x5c then oscEvents promptLimit text else [] := by
  have hhead : (splitAtEscapes rest).1.head? = some 0x5c ↔ rest.head? = some 0x5c := by
    cases rest with
    | nil => rfl
    | cons byte rest =>
      by_cases hbyte : byte = esc
      · simp [splitAtEscapes, hbyte, show esc ≠ 0x5c by decide]
      · simp [splitAtEscapes, hbyte]
  rw [opened_osc hesc]
  simp [splitAtEscapes, sequenceEvents, hbel, hhead]

theorem opened_dead (hesc : esc ∉ text) (hbel : 0x07 ∉ text) (hdead : ∀ more, oscEvents promptLimit (text ++ more) = [])
    (rest : List UInt8) : opened promptLimit (0x5d :: text ++ rest) = [] := by
  rw [opened_osc hesc]
  simp only [sequenceEvents, cons_append]
  split_ifs with hends hst
  · rw [takeWhile_bel hbel]
    exact hdead _
  · exact hdead _
  · rfl

section Numbers
variable (hdigits : ∀ byte ∈ digits, isAsciiDigit byte = true)
include hdigits

theorem takeWhile_digits (rest : List UInt8) : (digits ++ rest).takeWhile isAsciiDigit = digits ++ rest.takeWhile isAsciiDigit :=
  takeWhile_append_of_pos hdigits

theorem dropWhile_digits (rest : List UInt8) : (digits ++ rest).dropWhile isAsciiDigit = rest.dropWhile isAsciiDigit := by
  rw [dropWhile_append_of_pos hdigits]

theorem oscEvents_digits : oscEvents promptLimit digits = [] := by
  have hrest := dropWhile_digits hdigits []
  rw [append_nil, dropWhile_nil] at hrest
  unfold oscEvents
  rw [hrest]

theorem oscEvents_other (hdigit : isAsciiDigit byte = false) (hsemi : byte ≠ 0x3b) (rest : List UInt8) :
    oscEvents promptLimit (digits ++ byte :: rest) = [] := by
  unfold oscEvents
  split <;> simp_all

theorem oscEvents_many (promptLimit : Option ℕ) (hmany : 6 < digits.length) (rest : List UInt8) : oscEvents promptLimit (digits ++ rest) = [] := by
  unfold oscEvents
  rw [takeWhile_digits hdigits]
  split
  · rw [if_pos (by rw [length_append]; omega)]
  · rfl

theorem oscEvents_payload (hfew : digits.length ≤ 6) (payload : List UInt8) :
    oscEvents promptLimit (digits ++ 0x3b :: payload) =
      if codeOf digits = 7501 then if payload.length ≤ maxBodyBytes then [.report payload] else []
      else if codeOf digits = 133 ∧ payload.head? = some 0x41 ∧ promptLimit.all (payload.length ≤ ·) then [.promptStart]
      else [] := by
  have hsemi : isAsciiDigit 0x3b = false := by decide
  unfold oscEvents
  rw [takeWhile_digits hdigits, dropWhile_digits hdigits, takeWhile_cons_of_neg (by simp [hsemi]),
    dropWhile_cons_of_neg (by simp [hsemi]), append_nil]
  simp only [if_neg (Nat.not_lt.mpr hfew)]

end Numbers

end Grammar

section Carrying
variable {s : ProgramStatusScanner} {digits rest : List UInt8} {byte : UInt8}

def ahead (s : ProgramStatusScanner) (digits rest : List UInt8) : List StreamEvent :=
  match s.state with
  | .ground => []
  | .escape => opened (some maxPromptPayloadBytes) rest
  | .code => opened (some maxPromptPayloadBytes) (0x5d :: digits ++ rest)
  | .payload => opened (some maxPromptPayloadBytes) (0x5d :: (digits ++ 0x3b :: s.payload) ++ rest)
  | .payloadEscape =>
    opened (some maxPromptPayloadBytes) (0x5d :: (digits ++ 0x3b :: s.payload) ++ esc :: rest) ++
      opened (some maxPromptPayloadBytes) rest
  | .skip => []
  | .skipEscape => opened (some maxPromptPayloadBytes) rest

structure Numbered (s : ProgramStatusScanner) (digits : List UInt8) : Prop where
  isDigit : ∀ byte ∈ digits, isAsciiDigit byte = true
  length : digits.length = s.codeDigits
  few : s.codeDigits ≤ 6
  value : codeOf digits = s.code

structure Collects (s : ProgramStatusScanner) (digits : List UInt8) : Prop extends Numbered s digits where
  kind : s.code = 7501 ∨ s.code = 133
  noEsc : esc ∉ s.payload
  noBel : 0x07 ∉ s.payload
  short : s.payload.length ≤ payloadLimit s.code

def Carries (s : ProgramStatusScanner) (digits : List UInt8) : Prop :=
  match s.state with
  | .code => Numbered s digits
  | .payload => Collects s digits
  | .payloadEscape => Collects s digits
  | .ground => True
  | .escape => True
  | .skip => True
  | .skipEscape => True

def Foretells (before : List UInt8 → List StreamEvent) (byte : UInt8) (result : ProgramStatusScanner × List StreamEvent) : Prop :=
  ∃ digits, Carries result.1 digits ∧
    ∀ rest, before (byte :: rest) ++ grammarEvents (some maxPromptPayloadBytes) (byte :: rest) =
      result.2 ++ (result.1.ahead digits rest ++ grammarEvents (some maxPromptPayloadBytes) rest)

theorem Numbered.noEsc (h : Numbered s digits) : esc ∉ digits :=
  fun hno => absurd (h.isDigit esc hno) (by decide)

theorem Numbered.noBel (h : Numbered s digits) : 0x07 ∉ digits :=
  fun hno => absurd (h.isDigit 0x07 hno) (by decide)

theorem Collects.text_noEsc (h : Collects s digits) : esc ∉ digits ++ 0x3b :: s.payload := by
  simp [h.toNumbered.noEsc, h.noEsc, show esc ≠ 0x3b by decide]

theorem Collects.text_noBel (h : Collects s digits) : 0x07 ∉ digits ++ 0x3b :: s.payload := by
  simp [h.toNumbered.noBel, h.noBel]

theorem Collects.oscEvents_text (h : Collects s digits) :
    oscEvents (some maxPromptPayloadBytes) (digits ++ 0x3b :: s.payload) = s.finish.2 := by
  have hfew : digits.length ≤ 6 := h.length ▸ h.few
  have hshort := h.short
  rw [oscEvents_payload h.isDigit hfew, h.value]
  unfold payloadLimit at hshort
  rcases h.kind with hkind | hkind
  · simp_all [finish]
  · simp_all [finish]

theorem foretells_afterEscape (s : ProgramStatusScanner) (byte : UInt8) :
    Foretells (opened (some maxPromptPayloadBytes)) byte (s.afterEscape byte) := by
  unfold afterEscape
  split_ifs with hosc hreset hesc
  · refine ⟨[],⟨nofun,rfl,Nat.zero_le _,rfl⟩,fun rest => ?_⟩
    subst hosc
    rfl
  · refine ⟨[],trivial,fun rest => ?_⟩
    subst hreset
    rfl
  · refine ⟨[],trivial,fun rest => ?_⟩
    rw [hesc, opened_esc, grammarEvents_esc]
    rfl
  · refine ⟨[],trivial,fun rest => ?_⟩
    rw [opened_other hesc hosc hreset, grammarEvents_plain hesc]
    rfl

section Strings
variable (hs : Carries s digits)
include hs

theorem foretells_code (hstate : s.state = .code) (byte : UInt8) : Foretells (s.ahead digits) byte (s.scanByte byte) := by
  have h : Numbered s digits := by simpa [Carries, hstate] using hs
  have hfew : digits.length ≤ 6 := h.length ▸ h.few
  simp only [scanByte, hstate]
  -- the string ends here, or whatever follows in it is not reported
  have hdead (hesc : byte ≠ esc) (hbel : byte ≠ 0x07)
      (hnone : ∀ more, oscEvents (some maxPromptPayloadBytes) (digits ++ byte :: more) = []) (rest : List UInt8) :
      s.ahead digits (byte :: rest) = [] := by
    have hnoEsc : esc ∉ digits ++ [byte] := by simp [h.noEsc, Ne.symm hesc]
    have hnoBel : 0x07 ∉ digits ++ [byte] := by simp [h.noBel, Ne.symm hbel]
    have hall := opened_dead hnoEsc hnoBel (by simpa using hnone) rest
    simpa [ahead, hstate] using hall
  split_ifs with hdigit hsemi hbel hesc
  · have hplain : byte ≠ esc := by
      rintro rfl
      exact absurd hdigit.1 (by decide)
    refine ⟨digits ++ [byte],⟨?_,?_,hdigit.2,?_⟩,fun rest => ?_⟩
    · intro b hb
      rcases mem_append.mp hb with hb | hb
      · exact h.isDigit b hb
      · exact mem_singleton.mp hb ▸ hdigit.1
    · simp [h.length]
    · simp [codeOf, ← h.value]
    · rw [grammarEvents_plain hplain]
      simp [ahead, hstate]
  · obtain ⟨rfl,hkind⟩ := hsemi
    refine ⟨digits,⟨⟨h.isDigit,h.length,h.few,h.value⟩,hkind,not_mem_nil,not_mem_nil,Nat.zero_le _⟩,fun rest => ?_⟩
    rw [grammarEvents_plain (by decide)]
    simp [ahead, hstate]
  · refine ⟨[],trivial,fun rest => ?_⟩
    have hends := opened_bel (some maxPromptPayloadBytes) h.noEsc h.noBel rest
    rw [oscEvents_digits h.isDigit] at hends
    subst hbel
    rw [grammarEvents_plain (by decide)]
    simpa [ahead, hstate] using hends
  · refine ⟨[],trivial,fun rest => ?_⟩
    have hends := opened_string_esc (some maxPromptPayloadBytes) h.noEsc h.noBel rest
    rw [oscEvents_digits h.isDigit, ite_self] at hends
    subst hesc
    rw [grammarEvents_esc]
    simpa [ahead, hstate] using hends
  · refine ⟨[],trivial,fun rest => ?_⟩
    rw [grammarEvents_plain hesc, hdead hesc hbel]
    · rfl
    · intro more
      cases hnext : isAsciiDigit byte with
      | true =>
        have hfull : 6 < (digits ++ [byte]).length := by
          have hsix : ¬ s.codeDigits < 6 := fun hno => hdigit ⟨hnext,hno⟩
          rw [length_append, h.length, length_singleton]
          omega
        have hall : ∀ b ∈ digits ++ [byte], isAsciiDigit b = true := by
          intro b hb
          rcases mem_append.mp hb with hb | hb
          · exact h.isDigit b hb
          · exact mem_singleton.mp hb ▸ hnext
        simpa using oscEvents_many hall (some maxPromptPayloadBytes) hfull more
      | false =>
        by_cases hsep : byte = 0x3b
        · subst hsep
          have hkind : ¬ (s.code = 7501 ∨ s.code = 133) := fun hno => hsemi ⟨rfl,hno⟩
          rw [oscEvents_payload h.isDigit hfew, h.value, if_neg fun hno => hkind (.inl hno),
            if_neg fun hno => hkind (.inr hno.1)]
        · exact oscEvents_other h.isDigit hnext hsep more

theorem foretells_payload (hstate : s.state = .payload) (byte : UInt8) : Foretells (s.ahead digits) byte (s.scanByte byte) := by
  have h : Collects s digits := by simpa [Carries, hstate] using hs
  simp only [scanByte, hstate]
  split_ifs with hbel hesc hshort
  · refine ⟨[],trivial,fun rest => ?_⟩
    have hends := opened_bel (some maxPromptPayloadBytes) h.text_noEsc h.text_noBel rest
    subst hbel
    rw [grammarEvents_plain (by decide), ← h.oscEvents_text, ← hends]
    simp [ahead, hstate, finish]
  · subst hesc
    refine ⟨digits,⟨⟨h.isDigit,h.length,h.few,h.value⟩,h.kind,h.noEsc,h.noBel,h.short⟩,fun rest => ?_⟩
    rw [grammarEvents_esc]
    simp [ahead, hstate]
  · have hnoEsc : esc ∉ s.payload ++ [byte] := by simp [h.noEsc, Ne.symm hesc]
    have hnoBel : 0x07 ∉ s.payload ++ [byte] := by simp [h.noBel, Ne.symm hbel]
    have hfits : (s.payload ++ [byte]).length ≤ payloadLimit s.code := by simpa [Nat.succ_le_iff] using hshort
    refine ⟨digits,⟨⟨h.isDigit,h.length,h.few,h.value⟩,h.kind,hnoEsc,hnoBel,hfits⟩,fun rest => ?_⟩
    rw [grammarEvents_plain hesc]
    simp [ahead, hstate]
  · refine ⟨[],trivial,fun rest => ?_⟩
    have hnoEsc : esc ∉ (digits ++ 0x3b :: s.payload) ++ [byte] := by
      rw [mem_append, not_or]
      exact ⟨h.text_noEsc,by simpa using Ne.symm hesc⟩
    have hnoBel : 0x07 ∉ (digits ++ 0x3b :: s.payload) ++ [byte] := by
      rw [mem_append, not_or]
      exact ⟨h.text_noBel,by simpa using Ne.symm hbel⟩
    have hnone (more : List UInt8) :
        oscEvents (some maxPromptPayloadBytes) ((digits ++ 0x3b :: s.payload ++ [byte]) ++ more) = [] := by
      have hfew : digits.length ≤ 6 := h.length ▸ h.few
      have hlong : payloadLimit s.code < (s.payload ++ byte :: more).length := by
        rw [length_append, length_cons]
        omega
      have htext : (digits ++ 0x3b :: s.payload ++ [byte]) ++ more = digits ++ 0x3b :: (s.payload ++ byte :: more) := by simp
      rw [htext, oscEvents_payload h.isDigit hfew, h.value]
      unfold payloadLimit at hlong
      rcases h.kind with hkind | hkind
      · rw [if_pos hkind] at hlong
        rw [if_pos hkind, if_neg (Nat.not_le.mpr hlong)]
      · rw [if_neg (by omega)] at hlong
        rw [if_neg (by omega), if_neg]
        simpa using fun _ _ => by simpa using hlong
    have hdead := opened_dead hnoEsc hnoBel hnone rest
    rw [grammarEvents_plain hesc]
    simpa [ahead, hstate] using hdead

theorem foretells_payloadEscape (hstate : s.state = .payloadEscape) (byte : UInt8) :
    Foretells (s.ahead digits) byte (s.scanByte byte) := by
  have h : Collects s digits := by simpa [Carries, hstate] using hs
  have hends (rest : List UInt8) := opened_string_esc (some maxPromptPayloadBytes) h.text_noEsc h.text_noBel rest
  have hahead (rest : List UInt8) : s.ahead digits rest =
      opened (some maxPromptPayloadBytes) (0x5d :: (digits ++ 0x3b :: s.payload) ++ esc :: rest) ++
        opened (some maxPromptPayloadBytes) rest := by
    simp only [ahead, hstate]
  simp only [scanByte, hstate]
  split_ifs with hst
  · refine ⟨[],trivial,fun rest => ?_⟩
    subst hst
    rw [hahead, hends, head?_cons, if_pos rfl, h.oscEvents_text, opened_other (by decide) (by decide) (by decide),
      grammarEvents_plain (by decide), append_nil]
    rfl
  · obtain ⟨digits',hcarries,hnext⟩ := foretells_afterEscape { s with payload := [], state := .payloadEscape } byte
    refine ⟨digits',hcarries,fun rest => ?_⟩
    rw [hahead, hends, head?_cons, if_neg (by simpa using hst), nil_append, hnext]

end Strings

/-- Each byte. -/
theorem foretells_scanByte (hs : Carries s digits) (byte : UInt8) : Foretells (s.ahead digits) byte (s.scanByte byte) := by
  cases hstate : s.state with
  | code => exact foretells_code hs hstate byte
  | payload => exact foretells_payload hs hstate byte
  | payloadEscape => exact foretells_payloadEscape hs hstate byte
  | escape =>
    have hahead : s.ahead digits = opened (some maxPromptPayloadBytes) := by
      funext rest
      simp only [ahead, hstate]
    rw [hahead]
    simpa only [scanByte, hstate] using foretells_afterEscape s byte
  | skipEscape =>
    have hahead : s.ahead digits = opened (some maxPromptPayloadBytes) := by
      funext rest
      simp only [ahead, hstate]
    simp only [scanByte, hstate, hahead]
    split_ifs with hst
    · refine ⟨[],trivial,fun rest => ?_⟩
      subst hst
      rfl
    · exact foretells_afterEscape s byte
  | ground =>
    simp only [scanByte, hstate]
    split_ifs with hesc
    · refine ⟨[],trivial,fun rest => ?_⟩
      rw [hesc, grammarEvents_esc]
      simp [ahead, hstate]
    · refine ⟨[],by simp [Carries, hstate],fun rest => ?_⟩
      rw [grammarEvents_plain hesc]
      simp [ahead, hstate]
  | skip =>
    simp only [scanByte, hstate]
    split_ifs with hbel hesc
    · refine ⟨[],trivial,fun rest => ?_⟩
      subst hbel
      rw [grammarEvents_plain (by decide)]
      simp [ahead, hstate]
    · refine ⟨[],trivial,fun rest => ?_⟩
      rw [hesc, grammarEvents_esc]
      simp [ahead, hstate]
    · refine ⟨[],by simp [Carries],fun rest => ?_⟩
      rw [grammarEvents_plain hesc]
      simp [ahead, hstate]
    · refine ⟨[],by simp [Carries],fun rest => ?_⟩
      rw [grammarEvents_plain hesc]
      simp [ahead, hstate]

/-- An unfinished sequence reports nothing. -/
theorem ahead_nil (hs : Carries s digits) : s.ahead digits [] = [] := by
  have hopen {text : List UInt8} (hesc : esc ∉ text) (hbel : 0x07 ∉ text) :
      opened (some maxPromptPayloadBytes) (0x5d :: text ++ []) = [] := by
    rw [opened_osc hesc]
    simp [splitAtEscapes, sequenceEvents, hbel]
  cases hstate : s.state with
  | code =>
    have h : Numbered s digits := by simpa [Carries, hstate] using hs
    simpa only [ahead, hstate] using hopen h.noEsc h.noBel
  | payload =>
    have h : Collects s digits := by simpa [Carries, hstate] using hs
    simpa only [ahead, hstate] using hopen h.text_noEsc h.text_noBel
  | payloadEscape =>
    have h : Collects s digits := by simpa [Carries, hstate] using hs
    simp only [ahead, hstate]
    rw [opened_string_esc _ h.text_noEsc h.text_noBel]
    rfl
  | escape | skipEscape => simp only [ahead, hstate, opened_nil]
  | ground | skip => simp only [ahead, hstate]

theorem feed_scanByte (hs : Carries s digits) (input : List UInt8) :
    (feed scanByte s input).2 = s.ahead digits input ++ grammarEvents (some maxPromptPayloadBytes) input := by
  induction input generalizing s digits with
  | nil =>
    rw [ahead_nil hs]
    rfl
  | cons byte input ih =>
    obtain ⟨digits',hcarries,hnext⟩ := foretells_scanByte hs byte
    rw [hnext, feed, ih hcarries]

end Carrying

/-- However the stream is cut, the scanner finds what the grammar has in it. -/
theorem status_scanner_follows_the_grammar (chunks : List (List UInt8)) :
    (feedChunks scan new chunks).2 = (new.scan chunks.flatten).2 ∧
      (new.scan chunks.flatten).2 = grammarEvents (some maxPromptPayloadBytes) chunks.flatten := by
  have hnew : Carries new [] := trivial
  rw [feedChunks_eq scan_eq_feed, scan_eq_feed]
  exact ⟨rfl,feed_scanByte hnew _⟩

/-- A long prompt string is part of the grammar but is not reported. -/
theorem long_prompt_is_not_reported :
    ¬ ∀ stream, (new.scan stream).2 = grammarEvents none stream := by
  intro hall
  have hlong := hall (esc :: 0x5d :: 0x31 :: 0x33 :: 0x33 :: 0x3b :: 0x41 :: List.replicate 256 0x20 ++ [0x07])
  exact absurd hlong (by decide +kernel)

end ProgramStatusScanner
end Unpeel.Session
