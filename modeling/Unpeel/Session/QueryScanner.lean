import Mathlib.Data.List.Basic
import Mathlib.Algebra.Order.Group.Nat

/-! # The output query scanner of a hosted Session

`OutputQueryScanner` removes terminal queries from the child's output so that
the Host can answer them. It runs byte by byte and carries an unfinished escape
sequence, already taken from the PTY and not yet published, to the next chunk.
-/
namespace Unpeel.Session

inductive QueryScanState where
  | ground
  | escape
  | csi
  | osc
  | oscEscape
  deriving DecidableEq, Repr

inductive HostAnsweredQuery where
  | da1
  | cursorPosition
  | kittyFlags
  | oscColor (code : ℕ)
  | oscPalette (index : ℕ)
  | programStatus
  deriving DecidableEq, Repr

structure OutputQueryScanner where
  state : QueryScanState
  /-- Bytes of the in-flight candidate sequence, starting with ESC. -/
  seq : List UInt8
  deriving DecidableEq, Repr

structure Scanned where
  scanner : OutputQueryScanner
  out : List UInt8
  queries : List HostAnsweredQuery
  deriving DecidableEq, Repr

namespace OutputQueryScanner
variable {s : OutputQueryScanner}

def queryScanMaxSequenceBytes : ℕ := 32

def ascii (cs : List Char) : List UInt8 := cs.map (fun c => UInt8.ofNat c.toNat)

def esc : UInt8 := 0x1b

def new : OutputQueryScanner := ⟨.ground,[]⟩

def isAsciiDigit (b : UInt8) : Bool := 0x30 ≤ b && b ≤ 0x39

def isDa1Query (seq : List UInt8) : Bool :=
  match (seq.drop 2).getLast? with
  | none => false
  | some final => final == 0x63 && (seq.drop 2).dropLast.all (fun b => isAsciiDigit b || b == 0x3b)

def probeQuery (seq : List UInt8) : Option HostAnsweredQuery :=
  if seq.drop 2 = ascii ['6','n'] then some .cursorPosition
  else if seq.drop 2 = ascii ['?','u'] then some .kittyFlags
  else none

def stripSuffix (suffix body : List UInt8) : Option (List UInt8) :=
  if suffix <:+ body then some (body.take (body.length - suffix.length)) else none

def stripPrefix (start body : List UInt8) : Option (List UInt8) :=
  if start <+: body then some (body.drop start.length) else none

def oscBody (seq : List UInt8) : Option (List UInt8) :=
  (stripSuffix [0x07] (seq.drop 2)).or (stripSuffix [esc,0x5c] (seq.drop 2))

/-- `str::parse::<u16>` on at most three bytes: an optional `+`, then digits. -/
def parseU16 (bytes : List UInt8) : Option ℕ :=
  let digits := match bytes with
    | 0x2b :: rest => rest
    | _ => bytes
  if digits ≠ [] ∧ digits.all isAsciiDigit then
    some (digits.foldl (fun n b => n * 10 + (b.toNat - 0x30)) 0)
  else none

def oscColorQuery (seq : List UInt8) : Option HostAnsweredQuery := do
  let body ← oscBody seq
  if body = ascii ['1','0',';','?'] then return .oscColor 10
  if body = ascii ['1','1',';','?'] then return .oscColor 11
  let rest ← stripPrefix (ascii ['4',';']) body
  let indexBytes ← stripSuffix (ascii [';','?']) rest
  if indexBytes = [] ∨ 3 < indexBytes.length then none
  let index ← parseU16 indexBytes
  if index < 256 then some (.oscPalette index) else none

def oscQuery (seq : List UInt8) (interceptProbes : Bool) : Option HostAnsweredQuery := do
  let body ← oscBody seq
  if body = ascii ['7','5','0','1',';','?'] then return .programStatus
  if interceptProbes then oscColorQuery seq else none

/-- `flush_into`: pass the held sequence through and return to ground. -/
def flush (seq out : List UInt8) : Scanned := ⟨new,out ++ seq,[]⟩

/-- The Escape state on one byte, `out` being what was emitted before it. The
source has this match twice: on its own, and after an aborted OSC string. -/
def scanEscape (seq out : List UInt8) (byte : UInt8) : Scanned :=
  if byte = 0x5a then ⟨new,out,[.da1]⟩
  else if byte = 0x5b then ⟨⟨.csi,seq ++ [byte]⟩,out,[]⟩
  else if byte = 0x5d then ⟨⟨.osc,seq ++ [byte]⟩,out,[]⟩
  else if byte = esc then ⟨⟨.escape,seq⟩,out ++ [esc],[]⟩
  else flush (seq ++ [byte]) out

def settle (query : Option HostAnsweredQuery) (seq : List UInt8) : Scanned :=
  match query with
  | some q => ⟨new,[],[q]⟩
  | none => flush seq []

def hold (state : QueryScanState) (seq : List UInt8) : Scanned :=
  if queryScanMaxSequenceBytes < seq.length then flush seq [] else ⟨⟨state,seq⟩,[],[]⟩

def csiQuery (seq : List UInt8) (interceptProbes : Bool) : Option HostAnsweredQuery :=
  if isDa1Query seq then some .da1
  else if interceptProbes then probeQuery seq
  else none

/-- One iteration of the loop of `scan`. -/
def scanByte (s : OutputQueryScanner) (interceptProbes : Bool) (byte : UInt8) : Scanned :=
  match s.state with
  | .ground =>
    if byte = esc then ⟨⟨.escape,s.seq ++ [byte]⟩,[],[]⟩ else ⟨s,[byte],[]⟩
  | .escape => scanEscape s.seq [] byte
  | .csi =>
    if 0x20 ≤ byte ∧ byte ≤ 0x3f then hold .csi (s.seq ++ [byte])
    else if 0x40 ≤ byte ∧ byte ≤ 0x7e then
      settle (csiQuery (s.seq ++ [byte]) interceptProbes) (s.seq ++ [byte])
    else if byte = esc then ⟨⟨.escape,[esc]⟩,s.seq,[]⟩
    else flush (s.seq ++ [byte]) []
  | .osc =>
    if byte = 0x07 then settle (oscQuery (s.seq ++ [byte]) interceptProbes) (s.seq ++ [byte])
    else if byte = esc then ⟨⟨.oscEscape,s.seq ++ [byte]⟩,[],[]⟩
    else hold .osc (s.seq ++ [byte])
  | .oscEscape =>
    if byte = 0x5c then settle (oscQuery (s.seq ++ [byte]) interceptProbes) (s.seq ++ [byte])
    else scanEscape [esc] s.seq.dropLast byte

/-- `OutputQueryScanner::scan` on one chunk. -/
def scan (s : OutputQueryScanner) (input : List UInt8) (interceptProbes : Bool) : Scanned :=
  match input with
  | [] => ⟨s,[],[]⟩
  | byte :: rest =>
    let head := s.scanByte interceptProbes byte
    let tail := head.scanner.scan rest interceptProbes
    ⟨tail.scanner,head.out ++ tail.out,head.queries ++ tail.queries⟩

/-- The bytes still held when the child exits; `finish` publishes them. -/
def takePending (s : OutputQueryScanner) : List UInt8 := s.seq

def WellFormed (s : OutputQueryScanner) : Prop :=
  match s.state with
  | .ground => s.seq = []
  | .escape => s.seq = [esc]
  | .csi => s.seq ≠ [] ∧ s.seq.length ≤ queryScanMaxSequenceBytes
  | .osc => s.seq ≠ [] ∧ s.seq.length ≤ queryScanMaxSequenceBytes
  | .oscEscape => ∃ held, s.seq = held ++ [esc] ∧ held ≠ [] ∧ held.length ≤ queryScanMaxSequenceBytes

theorem new_wellFormed : new.WellFormed := rfl

theorem hold_csi_wellFormed (seq : List UInt8) (byte : UInt8) :
    (hold .csi (seq ++ [byte])).scanner.WellFormed := by
  unfold hold
  split
  · exact new_wellFormed
  · next h => exact ⟨by simp,Nat.le_of_not_lt h⟩

theorem hold_osc_wellFormed (seq : List UInt8) (byte : UInt8) :
    (hold .osc (seq ++ [byte])).scanner.WellFormed := by
  unfold hold
  split
  · exact new_wellFormed
  · next h => exact ⟨by simp,Nat.le_of_not_lt h⟩

theorem settle_wellFormed (query : Option HostAnsweredQuery) (seq : List UInt8) :
    (settle query seq).scanner.WellFormed := by
  cases query <;> exact new_wellFormed

theorem scanEscape_wellFormed (out : List UInt8) (byte : UInt8) :
    (scanEscape [esc] out byte).scanner.WellFormed := by
  unfold scanEscape
  split_ifs
  · exact new_wellFormed
  · exact ⟨by simp,by simp [queryScanMaxSequenceBytes]⟩
  · exact ⟨by simp,by simp [queryScanMaxSequenceBytes]⟩
  · exact rfl
  · exact new_wellFormed

theorem scanByte_wellFormed (hs : s.WellFormed) (probes : Bool)
    (byte : UInt8) : (s.scanByte probes byte).scanner.WellFormed := by
  rcases s with ⟨state,seq⟩
  cases state with
  | ground =>
    cases (show seq = [] from hs)
    simp only [scanByte]
    split
    · next he => exact congrArg (fun b => [b]) he
    · exact new_wellFormed
  | escape =>
    cases (show seq = [esc] from hs)
    exact scanEscape_wellFormed [] byte
  | csi =>
    simp only [scanByte]
    split_ifs
    · exact hold_csi_wellFormed _ _
    · exact settle_wellFormed _ _
    · exact rfl
    · exact new_wellFormed
  | osc =>
    simp only [scanByte]
    split_ifs with hbel hesc
    · exact settle_wellFormed _ _
    · exact ⟨seq,by rw [hesc],hs⟩
    · exact hold_osc_wellFormed _ _
  | oscEscape =>
    simp only [scanByte]
    split_ifs
    · exact settle_wellFormed _ _
    · exact scanEscape_wellFormed _ _

theorem scan_wellFormed (hs : s.WellFormed) (input : List UInt8)
    (probes : Bool) : (s.scan input probes).scanner.WellFormed := by
  induction input generalizing s with
  | nil => exact hs
  | cons byte rest ih => exact ih (scanByte_wellFormed hs probes byte)

theorem WellFormed.seq_length (hs : s.WellFormed) :
    s.seq.length ≤ queryScanMaxSequenceBytes + 1 := by
  rcases s with ⟨state,seq⟩
  cases state with
  | ground => simp [show seq = [] from hs]
  | escape => simp [show seq = [esc] from hs, queryScanMaxSequenceBytes]
  | csi | osc => exact hs.2.trans (Nat.le_succ _)
  | oscEscape =>
    obtain ⟨held,he,_,hl⟩ := hs
    rw [he]
    simpa using hl

theorem WellFormed.ground_iff (hs : s.WellFormed) :
    s.state = .ground ↔ s.seq = [] := by
  rcases s with ⟨state,seq⟩
  cases state with
  | ground => simp [show seq = [] from hs]
  | escape => simp [show seq = [esc] from hs]
  | csi | osc => simp [hs.1]
  | oscEscape =>
    obtain ⟨held,he,hn,_⟩ := hs
    dsimp only at he ⊢
    simp [he]

theorem flush_length (seq out : List UInt8) :
    (flush seq out).out.length + (flush seq out).scanner.seq.length = out.length + seq.length := by
  simp [flush, new]

theorem settle_length (query : Option HostAnsweredQuery) (seq : List UInt8) :
    (settle query seq).out.length + (settle query seq).scanner.seq.length ≤ seq.length := by
  cases query with
  | some q => simp [settle, new]
  | none => simp [settle, flush, new]

theorem hold_length (state : QueryScanState) (seq : List UInt8) :
    (hold state seq).out.length + (hold state seq).scanner.seq.length = seq.length := by
  unfold hold
  split <;> simp [flush, new]

theorem scanEscape_length (seq out : List UInt8) (byte : UInt8) :
    (scanEscape seq out byte).out.length + (scanEscape seq out byte).scanner.seq.length ≤
      out.length + seq.length + 1 := by
  unfold scanEscape
  split_ifs <;> simp [flush, new] <;> omega

/-- What a scan passes through and still holds never exceeds what it was given. -/
theorem scanByte_length (hs : s.WellFormed) (probes : Bool) (byte : UInt8) :
    (s.scanByte probes byte).out.length + (s.scanByte probes byte).scanner.seq.length ≤
      s.seq.length + 1 := by
  rcases s with ⟨state,seq⟩
  cases state with
  | ground =>
    simp only [scanByte]
    split_ifs <;> simp
    omega
  | escape => simpa [scanByte] using scanEscape_length seq [] byte
  | csi =>
    simp only [scanByte]
    split_ifs
    · exact (hold_length _ _).le.trans (by simp)
    · exact (settle_length _ _).trans (by simp)
    · simp
    · exact (flush_length _ _).le.trans (by simp)
  | osc =>
    simp only [scanByte]
    split_ifs
    · exact (settle_length _ _).trans (by simp)
    · simp
    · exact (hold_length _ _).le.trans (by simp)
  | oscEscape =>
    obtain ⟨held,he,_,_⟩ := hs
    subst he
    simp only [scanByte]
    split_ifs
    · exact (settle_length _ _).trans (by simp)
    · exact (scanEscape_length _ _ _).trans (by simp)

theorem scan_length (hs : s.WellFormed) (input : List UInt8) (probes : Bool) :
    (s.scan input probes).out.length + (s.scan input probes).scanner.seq.length ≤
      s.seq.length + input.length := by
  induction input generalizing s with
  | nil => simp [scan]
  | cons byte rest ih =>
    have hb := scanByte_length hs probes byte
    have hr := ih (scanByte_wellFormed hs probes byte)
    simp only [scan, List.length_append, List.length_cons]
    omega

end OutputQueryScanner
end Unpeel.Session
