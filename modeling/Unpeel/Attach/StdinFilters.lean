import Unpeel.Foundation.Transducers
import Unpeel.Foundation.Utf8Stream

/-! # Filters of the standard input

Attach deletes the focus reports of its terminal, the answers to queries of a replay and what
is no UTF-8.
-/
namespace Unpeel.Attach
open Transducers

abbrev Bytes := List UInt8

/-! ### Text -/

theorem firstError_progress {pending : Bytes} {validLen badLen : ℕ} (h : Utf8.firstError 0 pending = some ⟨validLen,some badLen⟩) :
    (pending.drop (validLen + badLen)).length < pending.length := by
  obtain ⟨-,hbad,hvalid,-⟩ := h ▸ Utf8.firstError_describes 0 pending
  rw [List.length_drop]
  omega

def splitValidUtf8 (pending : Bytes) : Bytes × Bytes :=
  match _h : Utf8.firstError 0 pending with
  | none => (pending,[])
  | some ⟨validLen,none⟩ => (pending.take validLen,pending.drop validLen)
  | some ⟨validLen,some badLen⟩ =>
    (pending.take validLen ++ (splitValidUtf8 (pending.drop (validLen + badLen))).1,
      (splitValidUtf8 (pending.drop (validLen + badLen))).2)
termination_by pending.length
decreasing_by all_goals exact firstError_progress ‹_›

/-- What was split is the text of the bytes and the beginning of a character. -/
theorem splitValidUtf8_splits (pending : Bytes) : Utf8.Splits pending (splitValidUtf8 pending).1 (splitValidUtf8 pending).2 := by
  induction pending using splitValidUtf8.induct with
  | case1 pending h =>
    have hspec := Utf8.firstError_describes 0 pending
    rw [h] at hspec
    have hall := hspec .nil
    rw [List.append_nil] at hall
    rw [splitValidUtf8]
    split
    · exact hall
    all_goals simp_all
  | case2 pending validLen h =>
    have hspec := Utf8.firstError_describes 0 pending
    rw [h] at hspec
    rw [splitValidUtf8]
    split
    · simp_all
    · rename_i h'
      cases h.symm.trans h'
      exact hspec.2
    · simp_all
  | case3 pending validLen badLen h ih =>
    have hspec := Utf8.firstError_describes 0 pending
    rw [h] at hspec
    rw [splitValidUtf8]
    split
    · simp_all
    · simp_all
    · rename_i h'
      cases h.symm.trans h'
      exact hspec.2.2.2 ih

/-! ### Focus reports -/

inductive FocusState where
  | ground
  -- an Escape is held back
  | esc
  -- an Escape and a bracket are
  | escBracket
deriving DecidableEq

namespace FocusEventFilter

def filterByte : FocusState → UInt8 → FocusState × Bytes
  | .ground, byte => if byte = 0x1b then (.esc,[]) else (.ground,[byte])
  | .esc, byte =>
    if byte = 0x5b then (.escBracket,[])
    -- the first Escape is plain input, the new one may begin a report
    else if byte = 0x1b then (.esc,[0x1b])
    else (.ground,[0x1b,byte])
  | .escBracket, byte =>
    if byte = 0x49 ∨ byte = 0x4f then (.ground,[])
    else if byte = 0x1b then (.esc,[0x1b,0x5b])
    else (.ground,[0x1b,0x5b,byte])

def filter (s : FocusState) (input : Bytes) : FocusState × Bytes := feed filterByte s input

def held : FocusState → Bytes
  | .ground => []
  | .esc => [0x1b]
  | .escBracket => [0x1b,0x5b]

def flush (s : FocusState) : FocusState × Bytes := (.ground,held s)

def hasPendingPrefix (s : FocusState) : Bool := s ≠ .ground

end FocusEventFilter

/-! ### Answers to queries -/

inductive MuteState where
  | ground
  | escape
  | csi
  | osc
  | oscEscape
  | dcs
  | dcsEscape
  | ss3
deriving DecidableEq

namespace MuteFilter

def filterByte : MuteState → UInt8 → MuteState × Bytes
  | .ground, byte => if byte = 0x1b then (.escape,[]) else (.ground,[byte])
  | .escape, byte =>
    if byte = 0x5b then (.csi,[])
    else if byte = 0x5d then (.osc,[])
    else if byte = 0x50 then (.dcs,[])
    else if byte = 0x4f then (.ss3,[])
    -- a sequence of two bytes
    else (.ground,[])
  | .csi, byte => if 0x40 ≤ byte ∧ byte ≤ 0x7e then (.ground,[]) else (.csi,[])
  | .osc, byte => if byte = 0x07 then (.ground,[]) else if byte = 0x1b then (.oscEscape,[]) else (.osc,[])
  | .oscEscape, byte => if byte = 0x5c then (.ground,[]) else (.osc,[])
  | .dcs, byte => if byte = 0x1b then (.dcsEscape,[]) else (.dcs,[])
  | .dcsEscape, byte => if byte = 0x5c then (.ground,[]) else (.dcs,[])
  | .ss3, _ => (.ground,[])

def isGround (s : MuteState) : Bool := s = .ground

def filter (s : MuteState) (input : Bytes) : MuteState × Bytes := feed filterByte s input

end MuteFilter

end Unpeel.Attach
