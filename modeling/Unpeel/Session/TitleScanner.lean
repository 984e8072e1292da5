import Unpeel.Manifest.PromptTitle
import Unpeel.Session.StatusScanner

/-! # Titles in the output

`OscTitleScanner` watches the output for the titles a program gives its terminal with
`OSC 0` and `OSC 2`. The number of an OSC string is collected in 32 bits.
-/
namespace Unpeel.Session
open Transducers Manifest List
open OutputQueryScanner (esc ascii isAsciiDigit)
open ProgramStatusScanner (codeOf takeWhile_digits)

def oscTitleMaxPayloadBytes : ℕ := 512
def oscTitleSkipBudgetBytes : ℕ := 64 * 1024
def appTitleCapChars : ℕ := 80

/-- `u32::MAX`. -/
def u32Max : ℕ := 4294967295

/-- `u32::saturating_mul`. -/
def saturatingMul (a b : ℕ) : ℕ := if a * b ≤ u32Max then a * b else u32Max

inductive TitleScanState where
  | ground
  | escape
  | code
  | payload
  | payloadEscape
  | skip
  | skipEscape
deriving DecidableEq, Repr

structure OscTitleScanner where
  state : TitleScanState
  code : ℕ
  payload : List UInt8
  skipped : ℕ
  lastTitle : Option Text
deriving DecidableEq

namespace OscTitleScanner

/-- `char::is_control`. -/
def isControl (c : Char) : Bool := c.toNat < 0x20 || (0x7F ≤ c.toNat && c.toNat < 0xA0)

/-- `String::from_utf8`. -/
def fromUtf8 (payload : List UInt8) : Option Text := payload.toByteArray.utf8Decode?.map Array.toList

def normalized (text : Text) : Text :=
  let text := trim (text.filter fun c => !isControl c)
  match text with
  | '⠂' :: rest => if rest.head?.any isWhitespace then trimStart rest else text
  | _ => text

def capped (text : Text) : Text :=
  if appTitleCapChars < text.length then text.take (appTitleCapChars - 1) ++ ['…'] else text

/-- What a turn of the loop of `scan` has to tell: an addition in 32 bits overflowed, or there is a new title. -/
inductive TitleEvent where
  | overflow
  | title (text : Text)
deriving DecidableEq

def TitleEvent.title? : TitleEvent → Option Text
  | .overflow => none
  | .title text => some text

def new : OscTitleScanner := ⟨.ground,0,[],0,none⟩

def takeTitle (s : OscTitleScanner) : OscTitleScanner × List TitleEvent :=
  let taken := { s with payload := [] }
  match fromUtf8 s.payload with
  | none => (taken,[])
  | some text =>
    if normalized text = [] ∨ s.lastTitle = some (normalized text) then (taken,[])
    else ({ taken with lastTitle := some (normalized text) },[.title (capped (normalized text))])

def readDigit (s : OscTitleScanner) (byte : UInt8) : OscTitleScanner × List TitleEvent :=
  let sum := saturatingMul s.code 10 + (byte.toNat - 0x30)
  ({ s with code := sum % (u32Max + 1) },if u32Max < sum then [.overflow] else [])

/-- One turn of the loop of `scan`. -/
def scanByte (s : OscTitleScanner) (byte : UInt8) : OscTitleScanner × List TitleEvent :=
  match s.state with
  | .ground => if byte = esc then ({ s with state := .escape },[]) else (s,[])
  | .escape =>
    if byte = 0x5d then ({ s with code := 0, state := .code },[])
    else if byte = esc then ({ s with state := .escape },[])
    else ({ s with state := .ground },[])
  | .code =>
    if isAsciiDigit byte then s.readDigit byte
    else if byte = 0x3b ∧ (s.code = 0 ∨ s.code = 2) then ({ s with payload := [], state := .payload },[])
    else if byte = 0x3b then ({ s with skipped := 0, state := .skip },[])
    else if byte = esc then ({ s with state := .escape },[])
    else ({ s with state := .ground },[])
  | .payload =>
    if byte = 0x07 then ({ s.takeTitle.1 with state := .ground },s.takeTitle.2)
    else if byte = esc then ({ s with state := .payloadEscape },[])
    else if s.payload.length < oscTitleMaxPayloadBytes then ({ s with payload := s.payload ++ [byte] },[])
    else ({ s with payload := [], skipped := 0, state := .skip },[])
  | .payloadEscape =>
    if byte = 0x5c then ({ s.takeTitle.1 with state := .ground },s.takeTitle.2)
    else if byte = 0x5d then ({ s with payload := [], code := 0, state := .code },[])
    else if byte = esc then ({ s with payload := [], state := .escape },[])
    else ({ s with payload := [], state := .ground },[])
  | .skip =>
    let s := { s with skipped := s.skipped + 1 }
    if byte = 0x07 then ({ s with state := .ground },[])
    else if byte = esc then ({ s with state := .skipEscape },[])
    else if oscTitleSkipBudgetBytes < s.skipped then ({ s with state := .ground },[])
    else (s,[])
  | .skipEscape =>
    if byte = 0x5c then ({ s with state := .ground },[])
    else if byte = esc then ({ s with state := .skipEscape },[])
    else if byte = 0x5d then ({ s with code := 0, state := .code },[])
    else ({ s with state := .ground },[])

/-- What `scan` returns for a chunk, and whether an addition overflowed on the way. -/
structure Scanned where
  scanner : OscTitleScanner
  title : Option Text
  overflowed : Bool

def scan (s : OscTitleScanner) (input : List UInt8) : Scanned :=
  let result := feed scanByte s input
  ⟨result.1,(result.2.filterMap TitleEvent.title?).getLast?,decide (.overflow ∈ result.2)⟩

def scanned (chunks : List (List UInt8)) : OscTitleScanner := chunks.foldl (fun s chunk => (s.scan chunk).scanner) new

/-- A completed string `ESC ] digits ; payload`, ended by BEL or ST. -/
structure TitleString where
  digits : List UInt8
  payload : List UInt8
  terminator : List UInt8
  isDigit : ∀ byte ∈ digits, isAsciiDigit byte = true
  noEsc : esc ∉ payload
  noBel : 0x07 ∉ payload
  ends : terminator = [0x07] ∨ terminator = [esc,0x5c]

def TitleString.bytes (string : TitleString) : List UInt8 :=
  esc :: 0x5d :: string.digits ++ 0x3b :: string.payload ++ string.terminator

/-- The title is that of an `OSC 0` or `OSC 2`, of at most so many bytes of UTF-8. -/
def TitleString.Gives (string : TitleString) (title : Text) : Prop :=
  (codeOf string.digits = 0 ∨ codeOf string.digits = 2) ∧ string.payload.length ≤ oscTitleMaxPayloadBytes ∧
    ∃ text, fromUtf8 string.payload = some text ∧ title = capped (normalized text)

def Justified (chunks : List (List UInt8)) : Prop :=
  ∀ before chunk after, chunks = before ++ chunk :: after →
    ((scanned before).scan chunk).overflowed = false ∧
      ∀ title, ((scanned before).scan chunk).title = some title →
        ∃ (string : TitleString) (start rest : List UInt8), before.flatten ++ chunk = start ++ string.bytes ++ rest ∧
          rest.length < chunk.length ∧ string.Gives title

def Fits (digits : List UInt8) : Prop := codeOf (digits.rdropWhile (· = 0x30)) ≤ u32Max

/-- Every number right after an `ESC ]` fits. -/
def NumbersFit (stream : List UInt8) : Prop :=
  ∀ start rest, stream = start ++ esc :: 0x5d :: rest → Fits (rest.takeWhile isAsciiDigit)

section Numbers
variable {digits more : List UInt8} {byte : UInt8}

theorem codeOf_snoc (digits : List UInt8) (byte : UInt8) : codeOf (digits ++ [byte]) = codeOf digits * 10 + (byte.toNat - 0x30) := by
  simp [codeOf]

theorem codeOf_le_append (digits more : List UInt8) : codeOf digits ≤ codeOf (digits ++ more) := by
  induction more using List.reverseRecOn with
  | nil => simp
  | append_singleton more byte ih =>
    rw [← append_assoc, codeOf_snoc]
    omega

theorem fits_of_le (h : codeOf digits ≤ u32Max) : Fits digits := by
  have hle := codeOf_le_append (digits.rdropWhile (· = 0x30)) (digits.rtakeWhile (· = 0x30))
  unfold Fits
  rw [rdropWhile_append_rtakeWhile] at hle
  omega

theorem fits_nil : Fits [] := Nat.zero_le _

theorem fits_snoc_zero : Fits (digits ++ [0x30]) ↔ Fits digits := by
  simp [Fits]

theorem fits_snoc (h : byte ≠ 0x30) : Fits (digits ++ [byte]) ↔ codeOf digits * 10 + (byte.toNat - 0x30) ≤ u32Max := by
  unfold Fits
  rw [rdropWhile_concat_neg _ _ _ (by simpa using h), codeOf_snoc]

theorem Fits.of_append (h : Fits (digits ++ more)) : Fits digits := by
  induction more using List.reverseRecOn with
  | nil => simpa using h
  | append_singleton more byte ih =>
    apply ih
    rw [← append_assoc] at h
    by_cases hzero : byte = 0x30
    · subst hzero
      exact fits_snoc_zero.mp h
    · rw [fits_snoc hzero] at h
      exact fits_of_le (by omega)

def held (digits : List UInt8) : ℕ := if codeOf digits ≤ u32Max then codeOf digits else u32Max

theorem held_le (digits : List UInt8) : held digits ≤ u32Max := by
  unfold held
  split_ifs with h
  · exact h
  · exact le_rfl

theorem sum_of_fits (h : Fits (digits ++ [byte])) :
    saturatingMul (held digits) 10 + (byte.toNat - 0x30) = held (digits ++ [byte]) := by
  unfold saturatingMul held
  rw [codeOf_snoc]
  by_cases hzero : byte = 0x30
  · subst hzero
    simp only [UInt8.reduceToNat, Nat.sub_self, Nat.add_zero]
    split_ifs <;> omega
  · rw [fits_snoc hzero] at h
    split_ifs <;> omega

theorem sum_of_not_fits (hdigit : isAsciiDigit byte = true) (hbefore : Fits digits) (h : ¬ Fits (digits ++ [byte])) :
    u32Max < saturatingMul (held digits) 10 + (byte.toNat - 0x30) := by
  have hzero : byte ≠ 0x30 := by
    rintro rfl
    exact h (fits_snoc_zero.mpr hbefore)
  have hrange : 0x30 < byte.toNat := by
    simp only [isAsciiDigit, Bool.and_eq_true, decide_eq_true_eq] at hdigit
    have hle := UInt8.le_iff_toNat_le.mp hdigit.1
    have hne : byte.toNat ≠ 0x30 := fun hno => hzero (UInt8.toNat_inj.mp hno)
    simp only [UInt8.reduceToNat] at hle
    omega
  rw [fits_snoc hzero] at h
  unfold saturatingMul held
  split_ifs <;> omega

end Numbers

section Steps
variable {s : OscTitleScanner} {history digits rest : List UInt8} {byte : UInt8}

def OpensFit (rest : List UInt8) : Prop := ∀ text, rest = 0x5d :: text → Fits (text.takeWhile isAsciiDigit)

def FitsAhead (s : OscTitleScanner) (digits rest : List UInt8) : Prop :=
  match s.state with
  | .code => Fits ((digits ++ rest).takeWhile isAsciiDigit)
  | .escape => OpensFit rest
  | .payloadEscape => OpensFit rest
  | .skipEscape => OpensFit rest
  | .ground => True
  | .payload => True
  | .skip => True

structure Numbered (s : OscTitleScanner) (digits : List UInt8) : Prop where
  isDigit : ∀ byte ∈ digits, isAsciiDigit byte = true
  fits : Fits digits
  value : s.code = held digits

structure Collects (s : OscTitleScanner) (digits : List UInt8) : Prop where
  isDigit : ∀ byte ∈ digits, isAsciiDigit byte = true
  kind : codeOf digits = 0 ∨ codeOf digits = 2
  noEsc : esc ∉ s.payload
  noBel : 0x07 ∉ s.payload
  short : s.payload.length ≤ oscTitleMaxPayloadBytes

def Came (history digits : List UInt8) (s : OscTitleScanner) : Prop :=
  match s.state with
  | .ground => True
  | .skip => True
  | .escape => ∃ start, history = start ++ [esc]
  | .skipEscape => ∃ start, history = start ++ [esc]
  | .code => Numbered s digits ∧ ∃ start, history = start ++ esc :: 0x5d :: digits
  | .payload => Collects s digits ∧ ∃ start, history = start ++ (esc :: 0x5d :: digits ++ 0x3b :: s.payload)
  | .payloadEscape => Collects s digits ∧ ∃ start, history = start ++ (esc :: 0x5d :: digits ++ 0x3b :: s.payload) ++ [esc]

def Completed (history : List UInt8) (title : Text) : Prop :=
  ∃ (string : TitleString) (start : List UInt8), history = start ++ string.bytes ∧ string.Gives title

def Advances (history digits : List UInt8) (s : OscTitleScanner) (byte : UInt8) (result : OscTitleScanner × List TitleEvent) :
    Prop :=
  .overflow ∉ result.2 ∧ (∀ title, .title title ∈ result.2 → Completed (history ++ [byte]) title) ∧
    ∃ digits', Came (history ++ [byte]) digits' result.1 ∧
      ∀ rest, (s.FitsAhead digits (byte :: rest) ∧ NumbersFit (byte :: rest)) ↔
        (result.1.FitsAhead digits' rest ∧ NumbersFit rest)

theorem numbersFit_esc (rest : List UInt8) : NumbersFit (esc :: rest) ↔ OpensFit rest ∧ NumbersFit rest := by
  constructor
  · intro h
    refine ⟨fun text htext => h [] text (by rw [htext]; rfl),fun start text htext => h (esc :: start) text ?_⟩
    rw [htext]
    rfl
  · rintro ⟨hopens,h⟩ start text htext
    cases start with
    | nil => exact hopens text (List.cons.inj htext).2
    | cons first start => exact h start text (List.cons.inj htext).2

theorem numbersFit_plain (hbyte : byte ≠ esc) (rest : List UInt8) : NumbersFit (byte :: rest) ↔ NumbersFit rest := by
  constructor
  · intro h start text htext
    refine h (byte :: start) text ?_
    rw [htext]
    rfl
  · intro h start text htext
    cases start with
    | nil => exact absurd (List.cons.inj htext).1 hbyte
    | cons first start => exact h start text (List.cons.inj htext).2

theorem opensFit_osc (rest : List UInt8) : OpensFit (0x5d :: rest) ↔ Fits (rest.takeWhile isAsciiDigit) := by
  constructor
  · intro h
    exact h rest rfl
  · rintro h text htext
    rwa [← (List.cons.inj htext).2]

theorem opensFit_other (hbyte : byte ≠ 0x5d) (rest : List UInt8) : OpensFit (byte :: rest) :=
  fun _ htext => absurd (List.cons.inj htext).1 hbyte

theorem Collects.gives {string : TitleString} {title : Text} (h : Collects s digits) (hdigits : string.digits = digits)
    (hpayload : string.payload = s.payload) (htitle : .title title ∈ s.takeTitle.2) : string.Gives title := by
  unfold takeTitle at htitle
  cases htext : fromUtf8 s.payload with
  | none => simp [htext] at htitle
  | some text =>
    simp only [htext] at htitle
    split_ifs at htitle
    · exact absurd htitle not_mem_nil
    · refine ⟨hdigits ▸ h.kind,hpayload ▸ h.short,text,hpayload ▸ htext,?_⟩
      simpa using htitle

theorem overflow_takeTitle (s : OscTitleScanner) : .overflow ∉ s.takeTitle.2 := by
  unfold takeTitle
  cases fromUtf8 s.payload with
  | none => exact not_mem_nil
  | some text =>
    dsimp only
    split_ifs
    · exact not_mem_nil
    · simp

theorem Advances.quiet {t : OscTitleScanner} (digits' : List UInt8) (hcame : Came (history ++ [byte]) digits' t)
    (hfits : ∀ rest, (s.FitsAhead digits (byte :: rest) ∧ NumbersFit (byte :: rest)) ↔ (t.FitsAhead digits' rest ∧ NumbersFit rest)) :
    Advances history digits s byte (t,[]) :=
  ⟨not_mem_nil,fun _ hno => absurd hno not_mem_nil,digits',hcame,hfits⟩

section AfterEscape
variable {t : OscTitleScanner} (hs : s.state = .escape ∨ s.state = .payloadEscape ∨ s.state = .skipEscape)
include hs

theorem fitsAhead_iff (rest : List UInt8) : s.FitsAhead digits rest ↔ OpensFit rest := by
  unfold FitsAhead
  rcases hs with hs | hs | hs <;> rw [hs]

/-- An `ESC ]` starts a number. -/
theorem advances_osc (hhistory : ∃ start, history = start ++ [esc]) (ht : t.state = .code) (hcode : t.code = 0) :
    Advances history digits s 0x5d (t,[]) := by
  refine .quiet [] ?_ fun rest => ?_
  · obtain ⟨start,rfl⟩ := hhistory
    simp only [Came, ht]
    refine ⟨⟨fun _ hno => absurd hno not_mem_nil,fits_nil,hcode⟩,start,?_⟩
    simp
  · rw [fitsAhead_iff hs, opensFit_osc, numbersFit_plain (by decide)]
    simp only [FitsAhead, ht, nil_append]

theorem advances_esc (ht : t.state = .escape ∨ t.state = .skipEscape) : Advances history digits s esc (t,[]) := by
  refine .quiet [] ?_ fun rest => ?_
  · unfold Came
    rcases ht with ht | ht <;> rw [ht] <;> exact ⟨history,rfl⟩
  · have hnext : t.FitsAhead [] rest ↔ OpensFit rest := by
      unfold FitsAhead
      rcases ht with ht | ht <;> rw [ht]
    have hhere : OpensFit (esc :: rest) := opensFit_other (by decide) rest
    rw [fitsAhead_iff hs, numbersFit_esc, hnext]
    tauto

theorem advances_ground (hosc : byte ≠ 0x5d) (hesc : byte ≠ esc) (ht : t.state = .ground) :
    Advances history digits s byte (t,[]) := by
  refine .quiet [] ?_ fun rest => ?_
  · simp only [Came, ht]
  · have hhere : OpensFit (byte :: rest) := opensFit_other hosc rest
    rw [fitsAhead_iff hs, numbersFit_plain hesc]
    simp only [FitsAhead, ht, hhere]

end AfterEscape

theorem fitsAhead_outside (hs : s.state = .ground ∨ s.state = .payload ∨ s.state = .skip) (rest : List UInt8) :
    s.FitsAhead digits rest := by
  unfold FitsAhead
  rcases hs with hs | hs | hs <;> rw [hs] <;> trivial

section OutsideNumbers
variable {t : OscTitleScanner}

theorem Advances.escape (digits' : List UInt8) (hhere : ∀ rest, s.FitsAhead digits (esc :: rest)) (hcame : Came (history ++ [esc]) digits' t)
    (ht : t.state = .escape ∨ t.state = .payloadEscape ∨ t.state = .skipEscape) : Advances history digits s esc (t,[]) := by
  refine .quiet digits' hcame fun rest => ?_
  rw [numbersFit_esc, fitsAhead_iff ht]
  tauto

theorem fitsAhead_leaving {digits' : List UInt8} (hesc : byte ≠ esc) (hhere : ∀ rest, s.FitsAhead digits (byte :: rest))
    (ht : t.state = .ground ∨ t.state = .payload ∨ t.state = .skip) (rest : List UInt8) :
    (s.FitsAhead digits (byte :: rest) ∧ NumbersFit (byte :: rest)) ↔ (t.FitsAhead digits' rest ∧ NumbersFit rest) := by
  have hnext : t.FitsAhead digits' rest := fitsAhead_outside ht _
  rw [numbersFit_plain hesc]
  tauto

theorem Advances.plain (digits' : List UInt8) (hesc : byte ≠ esc) (hhere : ∀ rest, s.FitsAhead digits (byte :: rest))
    (hcame : Came (history ++ [byte]) digits' t) (ht : t.state = .ground ∨ t.state = .payload ∨ t.state = .skip) :
    Advances history digits s byte (t,[]) :=
  .quiet digits' hcame (fitsAhead_leaving hesc hhere ht)

end OutsideNumbers

section Strings
variable (hs : Came history digits s)
include hs

/-- Either the number is too great with this digit, or the step goes well. -/
theorem step_code (hstate : s.state = .code) (byte : UInt8) :
    (.overflow ∈ (s.scanByte byte).2 ∧ ∀ rest, ¬ s.FitsAhead digits (byte :: rest)) ∨
      Advances history digits s byte (s.scanByte byte) := by
  simp only [Came, hstate] at hs
  obtain ⟨hnumber,start,rfl⟩ := hs
  have hahead (rest : List UInt8) : s.FitsAhead digits rest ↔ Fits (digits ++ rest.takeWhile isAsciiDigit) := by
    simp only [FitsAhead, hstate]
    rw [takeWhile_digits hnumber.isDigit]
  simp only [scanByte, hstate]
  by_cases hdigit : isAsciiDigit byte = true
  · rw [if_pos hdigit]
    have hplain : byte ≠ esc := by
      rintro rfl
      exact absurd hdigit (by decide)
    have hall : ∀ b ∈ digits ++ [byte], isAsciiDigit b = true := by
      intro b hb
      rcases mem_append.mp hb with hb | hb
      · exact hnumber.isDigit b hb
      · exact mem_singleton.mp hb ▸ hdigit
    by_cases hfits : Fits (digits ++ [byte])
    · have hsum := sum_of_fits hfits
      have hle : saturatingMul s.code 10 + (byte.toNat - 0x30) ≤ u32Max := by
        rw [hnumber.value, hsum]
        exact held_le _
      have hread : s.readDigit byte = ({ s with code := held (digits ++ [byte]) },[]) := by
        unfold readDigit
        dsimp only
        rw [if_neg (Nat.not_lt.mpr hle), Nat.mod_eq_of_lt (Nat.lt_succ_of_le hle), hnumber.value, hsum]
      rw [hread]
      refine .inr (.quiet (digits ++ [byte]) ?_ fun rest => ?_)
      · simp only [Came, hstate]
        refine ⟨⟨hall,hfits,rfl⟩,start,?_⟩
        simp
      · rw [hahead, numbersFit_plain hplain, takeWhile_cons_of_pos hdigit]
        simp only [FitsAhead, hstate]
        rw [takeWhile_digits hall, append_assoc]
        rfl
    · have hgreat := sum_of_not_fits hdigit hnumber.fits hfits
      refine .inl ⟨?_,fun rest hno => hfits ?_⟩
      · unfold readDigit
        dsimp only
        rw [hnumber.value, if_pos hgreat]
        exact mem_singleton_self _
      · rw [hahead, takeWhile_cons_of_pos hdigit] at hno
        have hall : Fits (digits ++ [byte] ++ rest.takeWhile isAsciiDigit) := by simpa using hno
        exact hall.of_append
  · rw [if_neg hdigit]
    have hhere (rest : List UInt8) : s.FitsAhead digits (byte :: rest) := by
      rw [hahead, takeWhile_cons_of_neg hdigit, append_nil]
      exact hnumber.fits
    right
    split_ifs with hkind hsemi hesc
    · obtain ⟨rfl,hkind⟩ := hkind
      have htitle : codeOf digits = 0 ∨ codeOf digits = 2 := by
        have hmax : u32Max = 4294967295 := rfl
        rw [hnumber.value] at hkind
        unfold held at hkind
        by_cases hle : codeOf digits ≤ u32Max
        · rwa [if_pos hle] at hkind
        · rw [if_neg hle] at hkind
          omega
      refine .plain digits (by decide) hhere ?_ (.inr (.inl rfl))
      refine ⟨⟨hnumber.isDigit,htitle,not_mem_nil,not_mem_nil,Nat.zero_le _⟩,start,?_⟩
      simp
    · subst hsemi
      exact .plain [] (by decide) hhere trivial (.inr (.inr rfl))
    · subst hesc
      exact .escape [] hhere ⟨_,rfl⟩ (.inl rfl)
    · exact .plain [] hesc hhere trivial (.inl rfl)

theorem step_payload (hstate : s.state = .payload) (byte : UInt8) : Advances history digits s byte (s.scanByte byte) := by
  simp only [Came, hstate] at hs
  obtain ⟨hcollects,start,rfl⟩ := hs
  have hhere : ∀ rest, s.FitsAhead digits rest := fitsAhead_outside (.inr (.inl hstate))
  simp only [scanByte, hstate]
  split_ifs with hbel hesc hshort
  · subst hbel
    refine ⟨overflow_takeTitle s,fun title htitle => ?_,[],trivial,fun rest => ?_⟩
    · let string : TitleString := ⟨digits,s.payload,[0x07],hcollects.isDigit,hcollects.noEsc,hcollects.noBel,.inl rfl⟩
      refine ⟨string,start,?_,hcollects.gives rfl rfl htitle⟩
      simp [string, TitleString.bytes]
    · exact fitsAhead_leaving (by decide) (fun rest => hhere _) (.inl rfl) rest
  · subst hesc
    refine .escape digits (fun rest => hhere _) ?_ (.inr (.inl rfl))
    exact ⟨⟨hcollects.isDigit,hcollects.kind,hcollects.noEsc,hcollects.noBel,hcollects.short⟩,start,rfl⟩
  · refine .plain digits hesc (fun rest => hhere _) ?_ (.inr (.inl rfl))
    refine ⟨⟨hcollects.isDigit,hcollects.kind,?_,?_,?_⟩,start,by simp⟩
    · simp [hcollects.noEsc, Ne.symm hesc]
    · simp [hcollects.noBel, Ne.symm hbel]
    · rw [length_append]
      exact hshort
  · exact .plain [] hesc (fun rest => hhere _) trivial (.inr (.inr rfl))

theorem step_payloadEscape (hstate : s.state = .payloadEscape) (byte : UInt8) :
    Advances history digits s byte (s.scanByte byte) := by
  simp only [Came, hstate] at hs
  obtain ⟨hcollects,start,rfl⟩ := hs
  have hescape : s.state = .escape ∨ s.state = .payloadEscape ∨ s.state = .skipEscape := .inr (.inl hstate)
  simp only [scanByte, hstate]
  split_ifs with hst hosc hesc
  · subst hst
    refine ⟨overflow_takeTitle s,fun title htitle => ?_,[],trivial,fun rest => ?_⟩
    · let string : TitleString := ⟨digits,s.payload,[esc,0x5c],hcollects.isDigit,hcollects.noEsc,hcollects.noBel,.inr rfl⟩
      refine ⟨string,start,?_,hcollects.gives rfl rfl htitle⟩
      simp [string, TitleString.bytes]
    · refine fitsAhead_leaving (by decide) (fun rest => ?_) (.inl rfl) rest
      exact (fitsAhead_iff hescape _).mpr (opensFit_other (by decide) rest)
  · subst hosc
    exact advances_osc hescape ⟨_,rfl⟩ rfl rfl
  · subst hesc
    exact advances_esc hescape (.inl rfl)
  · exact advances_ground hescape hosc hesc rfl

end Strings

/-- Each byte. -/
theorem step_scanByte (hs : Came history digits s) (byte : UInt8) :
    (.overflow ∈ (s.scanByte byte).2 ∧ ∀ rest, ¬ s.FitsAhead digits (byte :: rest)) ∨
      Advances history digits s byte (s.scanByte byte) := by
  cases hstate : s.state with
  | code => exact step_code hs hstate byte
  | payload => exact .inr (step_payload hs hstate byte)
  | payloadEscape => exact .inr (step_payloadEscape hs hstate byte)
  | escape =>
    simp only [Came, hstate] at hs
    simp only [scanByte, hstate]
    right
    split_ifs with hosc hesc
    · subst hosc
      exact advances_osc (.inl hstate) hs rfl rfl
    · subst hesc
      exact advances_esc (.inl hstate) (.inl rfl)
    · exact advances_ground (.inl hstate) hosc hesc rfl
  | skipEscape =>
    simp only [Came, hstate] at hs
    simp only [scanByte, hstate]
    right
    split_ifs with hst hesc hosc
    · subst hst
      exact advances_ground (.inr (.inr hstate)) (by decide) (by decide) rfl
    · subst hesc
      exact advances_esc (.inr (.inr hstate)) (.inr rfl)
    · subst hosc
      exact advances_osc (.inr (.inr hstate)) hs rfl rfl
    · exact advances_ground (.inr (.inr hstate)) hosc hesc rfl
  | ground =>
    have hhere : ∀ rest, s.FitsAhead digits rest := fitsAhead_outside (.inl hstate)
    simp only [scanByte, hstate]
    right
    split_ifs with hesc
    · subst hesc
      exact .escape [] (fun rest => hhere _) ⟨history,rfl⟩ (.inl rfl)
    · exact .plain [] hesc (fun rest => hhere _) (by simp only [Came, hstate]) (.inl hstate)
  | skip =>
    have hhere : ∀ rest, s.FitsAhead digits rest := fitsAhead_outside (.inr (.inr hstate))
    simp only [scanByte, hstate]
    right
    split_ifs with hbel hesc
    · subst hbel
      exact .plain [] (by decide) (fun rest => hhere _) trivial (.inl rfl)
    · subst hesc
      exact .escape [] (fun rest => hhere _) ⟨history,rfl⟩ (.inr (.inr rfl))
    · exact .plain [] hesc (fun rest => hhere _) trivial (.inl rfl)
    · exact .plain [] hesc (fun rest => hhere _) trivial (.inr (.inr rfl))

/-- Something overflows exactly if a number does not fit. -/
theorem overflow_feed (hs : Came history digits s) (input : List UInt8) :
    .overflow ∉ (feed scanByte s input).2 ↔ s.FitsAhead digits input ∧ NumbersFit input := by
  induction input generalizing s history digits with
  | nil =>
    have hnumbers : NumbersFit [] := fun start rest hno => absurd hno (by simp)
    have hahead : s.FitsAhead digits [] := by
      unfold FitsAhead
      cases hstate : s.state <;> dsimp only
      case code =>
        simp only [Came, hstate] at hs
        rw [takeWhile_digits hs.1.isDigit, takeWhile_nil, append_nil]
        exact hs.1.fits
      all_goals exact fun _ hno => absurd hno (by simp)
    simp [feed, hnumbers, hahead]
  | cons byte input ih =>
    rcases step_scanByte hs byte with ⟨hover,hgreat⟩ | ⟨hquiet,-,digits',hcame,hfits⟩
    · simp [feed, hover, hgreat input]
    · simp [feed, hquiet, ih hcame, hfits]

/-- Without an overflow, each title is that of a string that ends within the input. -/
theorem titles_feed (hs : Came history digits s) {input : List UInt8} (h : .overflow ∉ (feed scanByte s input).2) :
    (∃ digits', Came (history ++ input) digits' (feed scanByte s input).1) ∧
      ∀ title, .title title ∈ (feed scanByte s input).2 →
        ∃ (string : TitleString) (start rest : List UInt8), history ++ input = start ++ string.bytes ++ rest ∧
          rest.length < input.length ∧ string.Gives title := by
  induction input generalizing s history digits with
  | nil =>
    refine ⟨⟨digits,?_⟩,fun _ hno => absurd hno not_mem_nil⟩
    rw [append_nil]
    exact hs
  | cons byte input ih =>
    simp only [feed, mem_append, not_or] at h ⊢
    rcases step_scanByte hs byte with ⟨hover,-⟩ | ⟨-,htitles,digits',hcame,-⟩
    · exact absurd hover h.1
    · obtain ⟨hend,hrest⟩ := ih hcame h.2
      rw [append_assoc] at hend
      refine ⟨hend,fun title htitle => ?_⟩
      rcases htitle with htitle | htitle
      · obtain ⟨string,start,hhistory,hgives⟩ := htitles title htitle
        refine ⟨string,start,input,?_,Nat.lt_succ_self _,hgives⟩
        rw [← hhistory, append_assoc]
        rfl
      · obtain ⟨string,start,rest,hhistory,hlength,hgives⟩ := hrest title htitle
        refine ⟨string,start,rest,?_,Nat.lt_succ_of_lt hlength,hgives⟩
        rw [← hhistory, append_assoc]
        rfl

end Steps

section Chunks

theorem scanned_eq_feed (chunks : List (List UInt8)) : scanned chunks = (feed scanByte new chunks.flatten).1 := by
  induction chunks using List.reverseRecOn with
  | nil => rfl
  | append_singleton chunks chunk ih =>
    have hlast : scanned (chunks ++ [chunk]) = ((scanned chunks).scan chunk).scanner := by
      simp [scanned]
    rw [hlast, ih, flatten_append, feed_append, flatten_singleton]
    rfl

theorem overflow_chunks {chunks : List (List UInt8)}
    (h : ∀ before chunk after, chunks = before ++ chunk :: after → ((scanned before).scan chunk).overflowed = false) :
    .overflow ∉ (feed scanByte new chunks.flatten).2 := by
  induction chunks using List.reverseRecOn with
  | nil => exact not_mem_nil
  | append_singleton chunks chunk ih =>
    rw [flatten_append, flatten_singleton, feed_append, mem_append, not_or]
    constructor
    · refine ih fun before earlier after hchunks => h before earlier (after ++ [chunk]) ?_
      simp [hchunks]
    · rw [← scanned_eq_feed]
      exact of_decide_eq_false (h chunks chunk [] rfl)

theorem came_new : Came [] [] new := trivial

/-- The titles and the bells of a stream, in whatever chunks, are justified exactly if its
numbers fit in 32 bits. -/
theorem titles_are_justified_iff (chunks : List (List UInt8)) : Justified chunks ↔ NumbersFit chunks.flatten := by
  have hall := overflow_feed came_new chunks.flatten
  have hground : new.FitsAhead [] chunks.flatten := trivial
  rw [and_iff_right hground] at hall
  rw [← hall]
  constructor
  · exact fun h => overflow_chunks fun before chunk after hchunks => (h before chunk after hchunks).1
  · rintro h before chunk after rfl
    rw [flatten_append, feed_append, mem_append, not_or, flatten_cons, feed_append, mem_append, not_or] at h
    obtain ⟨hbefore,hchunk,-⟩ := h
    obtain ⟨⟨digits,hcame⟩,-⟩ := titles_feed came_new hbefore
    obtain ⟨-,htitles⟩ := titles_feed hcame hchunk
    rw [scanned_eq_feed]
    refine ⟨decide_eq_false hchunk,fun title htitle => htitles title ?_⟩
    obtain ⟨event,hevent,hname⟩ := mem_filterMap.mp (mem_of_getLast? htitle)
    cases event with
    | overflow => exact absurd hname (by simp [TitleEvent.title?])
    | title text =>
      cases hname
      exact hevent

def greatNumber : List UInt8 := [esc,0x5d] ++ ascii "4294967298;x".toList ++ [0x07]

/-- `OSC 4294967298` is taken for `OSC 2`. -/
theorem great_number_gives_a_title : ¬ Justified [greatNumber] ∧ (new.scan greatNumber).title = some ['x'] := by
  have hjustified : ¬ Justified [greatNumber] := by
    intro h
    have hquiet := (h [] greatNumber [] rfl).1
    exact absurd hquiet (by decide +kernel)
  refine ⟨hjustified,?_⟩
  decide +kernel

end Chunks

end OscTitleScanner
end Unpeel.Session
