import Unpeel.Attach.StdinFilters

/-! # What Attach sends of its standard input

Each read goes through the filter of focus reports, in the mute window through the filter of
answers, and then what is text of it is handed to the input stream.
-/
namespace Unpeel.Attach
open Transducers List

inductive StdinInput where
  -- `poll` or `read` was interrupted
  | interrupted
  | pollFailed
  -- no input came for a while after the beginning of a report
  | expired
  | bytes (raw : Bytes)
  | eof
deriving DecidableEq

structure Wakeup where
  input : StdinInput
  forwardFocus : Bool
  -- whether it is before `mute_until`
  muting : Bool
deriving DecidableEq

structure StdinPump where
  focusFilter : Option FocusState
  muteFilter : MuteState
  pending : Bytes
  -- the strings that were sent
  written : List Bytes
  running : Bool
deriving DecidableEq

namespace StdinPump

def start (filterFocusEvents : Bool) : StdinPump := ⟨if filterFocusEvents then some .ground else none,.ground,[],[],true⟩

def hasPendingPrefix (p : StdinPump) : Bool := p.focusFilter.any FocusEventFilter.hasPendingPrefix

def filterFocus (focusFilter : Option FocusState) (forwardFocus flushing : Bool) (raw : Bytes) : Option FocusState × Bytes :=
  match focusFilter with
  | none => (none,raw)
  | some s =>
    if forwardFocus then
      -- what was held back before the mode changed goes first
      (some (FocusEventFilter.flush s).1,(FocusEventFilter.flush s).2 ++ raw)
    else if flushing then
      (some (FocusEventFilter.flush (FocusEventFilter.filter s raw).1).1,
        (FocusEventFilter.filter s raw).2 ++ (FocusEventFilter.flush (FocusEventFilter.filter s raw).1).2)
    else (some (FocusEventFilter.filter s raw).1,(FocusEventFilter.filter s raw).2)

/-- A key of its own is no answer. An answer that has begun in the mute window is filtered to its
end. -/
def mute (muteFilter : MuteState) (muting expired : Bool) (chunk : Bytes) : MuteState × Bytes :=
  if expired && chunk = [0x1b] then (muteFilter,chunk)
  else if muting || !MuteFilter.isGround muteFilter then MuteFilter.filter muteFilter chunk
  else (muteFilter,chunk)

def forward (p : StdinPump) (w : Wakeup) (raw : Bytes) (expired eof : Bool) : StdinPump :=
  let focused := filterFocus p.focusFilter w.forwardFocus (eof || expired) raw
  let muted := mute p.muteFilter w.muting expired focused.2
  let split := splitValidUtf8 (p.pending ++ muted.2)
  { p with
    focusFilter := focused.1
    muteFilter := muted.1
    pending := split.2
    written := if split.1 = [] then p.written else p.written ++ [split.1] }

def iterate (p : StdinPump) (w : Wakeup) : StdinPump :=
  if p.running then
    match w.input with
    | .interrupted => p
    | .pollFailed => if p.hasPendingPrefix then { p with running := false } else p
    | .expired => if p.hasPendingPrefix then p.forward w [] true false else p
    | .bytes raw => p.forward w raw false false
    | .eof => { p.forward w [] false true with running := false }
  else p

def run (p : StdinPump) (wakeups : List Wakeup) : StdinPump := wakeups.foldl iterate p

end StdinPump

/-! ### Deleting focus reports -/

/-- The bytes without the focus reports that have no parameter. -/
def dropReports : Bytes → Bytes
  | a :: b :: c :: rest =>
    if a = 0x1b ∧ b = 0x5b ∧ (c = 0x49 ∨ c = 0x4f) then dropReports rest else a :: dropReports (b :: c :: rest)
  | bytes => bytes

def BeginsReport (bytes : Bytes) : Prop := [0x1b,0x5b,0x49] <+: bytes ∨ [0x1b,0x5b,0x4f] <+: bytes

theorem dropReports_cons {rest : Bytes} (h : ¬BeginsReport (a :: rest)) : dropReports (a :: rest) = a :: dropReports rest := by
  rcases rest with _ | ⟨b,_ | ⟨c,rest⟩⟩
  · rfl
  · rfl
  · rw [dropReports, if_neg]
    rintro ⟨rfl,rfl,rfl | rfl⟩
    · exact h (.inl (prefix_append _ rest))
    · exact h (.inr (prefix_append _ rest))

theorem not_beginsReport_of_ne (h : a ≠ 0x1b) (rest : Bytes) : ¬BeginsReport (a :: rest) := by
  rintro (hreport | hreport)
  · exact h (cons_prefix_cons.mp hreport).1.symm
  · exact h (cons_prefix_cons.mp hreport).1.symm

theorem not_beginsReport_of_ne_second {b : UInt8} (h : b ≠ 0x5b) (rest : Bytes) : ¬BeginsReport (a :: b :: rest) := by
  rintro (hreport | hreport)
  · exact h (cons_prefix_cons.mp (cons_prefix_cons.mp hreport).2).1.symm
  · exact h (cons_prefix_cons.mp (cons_prefix_cons.mp hreport).2).1.symm

theorem not_beginsReport_of_ne_third {b c : UInt8} (hI : c ≠ 0x49) (hO : c ≠ 0x4f) (rest : Bytes) :
    ¬BeginsReport (a :: b :: c :: rest) := by
  rintro (hreport | hreport)
  · exact hI (cons_prefix_cons.mp (cons_prefix_cons.mp (cons_prefix_cons.mp hreport).2).2).1.symm
  · exact hO (cons_prefix_cons.mp (cons_prefix_cons.mp (cons_prefix_cons.mp hreport).2).2).1.symm

namespace FocusEventFilter

/-- What was held back together with what is to come. -/
theorem dropReports_filterByte (s : FocusState) (byte : UInt8) (rest : Bytes) :
    dropReports (held s ++ byte :: rest) = (filterByte s byte).2 ++ dropReports (held (filterByte s byte).1 ++ rest) := by
  cases s with
  | ground =>
    simp only [filterByte]
    split_ifs with hesc
    · rw [hesc]
      rfl
    · exact dropReports_cons (not_beginsReport_of_ne hesc rest)
  | esc =>
    simp only [filterByte]
    split_ifs with hbracket hesc
    · rw [hbracket]
      rfl
    · rw [hesc]
      exact dropReports_cons (not_beginsReport_of_ne_second (by decide) rest)
    · show dropReports (0x1b :: byte :: rest) = _
      rw [dropReports_cons (not_beginsReport_of_ne_second hbracket rest), dropReports_cons (not_beginsReport_of_ne hesc rest)]
      rfl
  | escBracket =>
    have hopen : ∀ rest, dropReports (0x5b :: rest) = 0x5b :: dropReports rest := fun rest =>
      dropReports_cons (not_beginsReport_of_ne (by decide) rest)
    simp only [filterByte]
    split_ifs with hreport hesc
    · show dropReports (0x1b :: 0x5b :: byte :: rest) = dropReports rest
      rw [dropReports, if_pos ⟨rfl,rfl,hreport⟩]
    · rw [not_or] at hreport
      show dropReports (0x1b :: 0x5b :: byte :: rest) = _
      rw [dropReports_cons (not_beginsReport_of_ne_third hreport.1 hreport.2 rest), hopen, hesc]
      rfl
    · rw [not_or] at hreport
      show dropReports (0x1b :: 0x5b :: byte :: rest) = _
      rw [dropReports_cons (not_beginsReport_of_ne_third hreport.1 hreport.2 rest), hopen,
        dropReports_cons (not_beginsReport_of_ne hesc rest)]
      rfl

theorem dropReports_filter (s : FocusState) (input rest : Bytes) :
    dropReports (held s ++ (input ++ rest)) = (filter s input).2 ++ dropReports (held (filter s input).1 ++ rest) := by
  unfold filter
  induction input generalizing s with
  | nil => rfl
  | cons byte input ih =>
    rw [cons_append, dropReports_filterByte, ih, feed, append_assoc]

theorem held_filterByte (s : FocusState) (byte : UInt8) : held (filterByte s byte).1 <:+ held s ++ [byte] := by
  cases s with
  | ground =>
    simp only [filterByte]
    split_ifs with hesc
    · rw [hesc]
      exact ⟨[],rfl⟩
    · exact nil_suffix
  | esc =>
    simp only [filterByte]
    split_ifs with hbracket hesc
    · rw [hbracket]
      exact ⟨[],rfl⟩
    · rw [hesc]
      exact ⟨[0x1b],rfl⟩
    · exact nil_suffix
  | escBracket =>
    simp only [filterByte]
    split_ifs with hreport hesc
    · exact nil_suffix
    · rw [hesc]
      exact ⟨[0x1b,0x5b],rfl⟩
    · exact nil_suffix

theorem held_suffix {s : FocusState} {before : Bytes} (h : held s <:+ before) (input : Bytes) :
    held (filter s input).1 <:+ before ++ input := by
  induction input generalizing s before with
  | nil => rwa [append_nil]
  | cons byte input ih =>
    have hstep : held (filterByte s byte).1 <:+ before ++ [byte] := by
      obtain ⟨front,rfl⟩ := h
      rw [append_assoc]
      exact (held_filterByte s byte).trans (suffix_append front _)
    rw [append_cons]
    exact ih hstep

end FocusEventFilter

def reportParts : List (Bytes × Bytes) :=
  [([0x1b],[0x5b,0x49]),([0x1b],[0x5b,0x4f]),([0x1b,0x5b],[0x49]),([0x1b,0x5b],[0x4f])]

def InReport (before after : Bytes) : Prop := ∃ parts ∈ reportParts, parts.1 <:+ before ∧ parts.2 <+: after

instance (before after : Bytes) : Decidable (InReport before after) :=
  inferInstanceAs (Decidable (∃ parts ∈ reportParts, parts.1 <:+ before ∧ parts.2 <+: after))

def StdinInput.received : StdinInput → Bytes
  | .bytes raw => raw
  | _ => []

def received (wakeups : List Wakeup) : Bytes := wakeups.flatMap (·.input.received)

def OffReports (before : Bytes) : List Wakeup → Prop
  | [] => True
  | w :: wakeups => (w.input = .expired → ¬InReport before (received wakeups)) ∧ OffReports (before ++ w.input.received) wakeups

def decidableOffReports (before : Bytes) : (wakeups : List Wakeup) → Decidable (OffReports before wakeups)
  | [] => .isTrue trivial
  | w :: wakeups =>
    have := decidableOffReports (before ++ w.input.received) wakeups
    inferInstanceAs (Decidable ((w.input = .expired → ¬InReport before (received wakeups)) ∧ _))

instance (before : Bytes) (wakeups : List Wakeup) : Decidable (OffReports before wakeups) := decidableOffReports before wakeups

def Wakeup.Plain (w : Wakeup) : Prop := w.forwardFocus = false ∧ w.muting = false

instance (w : Wakeup) : Decidable w.Plain := inferInstanceAs (Decidable (_ ∧ _))

namespace FocusEventFilter

theorem dropReports_flush {s : FocusState} {before after : Bytes} (hheld : held s <:+ before) (h : ¬InReport before after) :
    dropReports (held s ++ after) = held s ++ dropReports after := by
  have hno : ∀ parts ∈ reportParts, parts.1 <:+ before → ¬parts.2 <+: after := fun parts hparts hbefore hafter =>
    h ⟨parts,hparts,hbefore,hafter⟩
  have hopen : ∀ rest, dropReports (0x5b :: rest) = 0x5b :: dropReports rest := fun rest =>
    dropReports_cons (not_beginsReport_of_ne (by decide) rest)
  cases s with
  | ground => rfl
  | esc =>
    refine dropReports_cons ?_
    rintro (hreport | hreport)
    · exact hno ([0x1b],[0x5b,0x49]) (by decide) hheld (cons_prefix_cons.mp hreport).2
    · exact hno ([0x1b],[0x5b,0x4f]) (by decide) hheld (cons_prefix_cons.mp hreport).2
  | escBracket =>
    have hrest : ¬BeginsReport (0x1b :: 0x5b :: after) := by
      rintro (hreport | hreport)
      · exact hno ([0x1b,0x5b],[0x49]) (by decide) hheld (cons_prefix_cons.mp (cons_prefix_cons.mp hreport).2).2
      · exact hno ([0x1b,0x5b],[0x4f]) (by decide) hheld (cons_prefix_cons.mp (cons_prefix_cons.mp hreport).2).2
    show dropReports (0x1b :: 0x5b :: after) = _
    rw [dropReports_cons hrest, hopen]
    rfl

theorem dropReports_held (s : FocusState) : dropReports (held s) = held s := by
  cases s <;> rfl

theorem length_held_le (s : FocusState) : (held s).length ≤ 2 := by
  cases s <;> decide

end FocusEventFilter

namespace StdinPump

theorem flatten_written (p : StdinPump) (w : Wakeup) (raw : Bytes) (expired eof : Bool) :
    (p.forward w raw expired eof).written.flatten = p.written.flatten ++
      (splitValidUtf8 (p.pending ++ (mute p.muteFilter w.muting expired
        (filterFocus p.focusFilter w.forwardFocus (eof || expired) raw).2).2)).1 := by
  unfold forward
  dsimp only
  split_ifs with hempty
  · rw [hempty, append_nil]
  · rw [flatten_append, flatten_singleton]

theorem mute_ground (expired : Bool) (chunk : Bytes) : mute .ground false expired chunk = (.ground,chunk) := by
  unfold mute
  split_ifs with h h'
  · rfl
  · cases h'
  · rfl

theorem run_cons (p : StdinPump) (w : Wakeup) (wakeups : List Wakeup) : p.run (w :: wakeups) = (p.iterate w).run wakeups := rfl

theorem run_concat (p : StdinPump) (wakeups : List Wakeup) (w : Wakeup) : p.run (wakeups ++ [w]) = (p.run wakeups).iterate w := by
  unfold run
  rw [foldl_append, foldl_cons, foldl_nil]

structure Passing (s : FocusState) (passed : Bytes) (p : StdinPump) : Prop where
  focusFilter : p.focusFilter = some s
  muteFilter : p.muteFilter = .ground
  running : p.running = true
  splits : Utf8.Splits passed p.written.flatten p.pending

theorem Passing.start : Passing .ground [] (start true) := ⟨rfl,rfl,rfl,.nil⟩

/-- A read that is not the last one. -/
theorem Passing.forward {s : FocusState} {passed : Bytes} {p : StdinPump} (h : Passing s passed p) {w : Wakeup} (hw : w.Plain)
    (raw : Bytes) (expired eof : Bool) (s' : FocusState) {chunk : Bytes}
    (hfilter : filterFocus (some s) false (eof || expired) raw = (some s',chunk)) : Passing s' (passed ++ chunk) (p.forward w raw expired eof) where
  focusFilter := by
    unfold StdinPump.forward
    dsimp only
    rw [h.focusFilter, hw.1, hfilter]
  muteFilter := by
    unfold StdinPump.forward
    dsimp only
    rw [h.muteFilter, hw.2, mute_ground]
  running := h.running
  splits := by
    rw [flatten_written, h.focusFilter, h.muteFilter, hw.1, hw.2, hfilter, mute_ground]
    refine h.splits.append ?_
    unfold StdinPump.forward
    dsimp only
    rw [h.focusFilter, h.muteFilter, hw.1, hw.2, hfilter, mute_ground]
    exact splitValidUtf8_splits _

/-- Before the end: what passed and what is held back are all that came, without the reports. -/
theorem Passing.run {s : FocusState} {passed before : Bytes} {p : StdinPump} (h : Passing s passed p)
    (hheld : FocusEventFilter.held s <:+ before) {wakeups : List Wakeup} (hplain : ∀ w ∈ wakeups, w.Plain)
    (hlive : ∀ w ∈ wakeups, w.input ≠ .eof ∧ w.input ≠ .pollFailed) (hoff : OffReports before wakeups) :
    ∃ s' passed', Passing s' passed' (p.run wakeups) ∧ passed' ++ FocusEventFilter.held s' =
      passed ++ dropReports (FocusEventFilter.held s ++ received wakeups) := by
  induction wakeups generalizing s passed before p with
  | nil =>
    refine ⟨s,passed,h,?_⟩
    rw [received, flatMap_nil, append_nil, FocusEventFilter.dropReports_held]
  | cons w wakeups ih =>
    obtain ⟨hw,hplain⟩ := forall_mem_cons.mp hplain
    obtain ⟨hlast,hlive⟩ := forall_mem_cons.mp hlive
    have hreceived : received (w :: wakeups) = w.input.received ++ received wakeups := flatMap_cons
    rw [run_cons, iterate, if_pos h.running, hreceived]
    unfold OffReports at hoff
    cases hinput : w.input with
    | interrupted =>
      rw [hinput] at hoff
      obtain ⟨s',passed',hpassing,hall⟩ := ih h hheld hplain hlive ((append_nil before) ▸ hoff.2)
      exact ⟨s',passed',hpassing,hall⟩
    | pollFailed => exact absurd hinput hlast.2
    | eof => exact absurd hinput hlast.1
    | expired =>
      rw [hinput] at hoff
      have hrest := (append_nil before) ▸ hoff.2
      split_ifs with hpending
      · have hforward := h.forward hw [] true false .ground rfl
        obtain ⟨s',passed',hpassing,hall⟩ := ih hforward nil_suffix hplain hlive hrest
        refine ⟨s',passed',hpassing,?_⟩
        rw [hall]
        show passed ++ FocusEventFilter.held s ++ dropReports (received wakeups) = passed ++ dropReports (FocusEventFilter.held s ++ received wakeups)
        rw [FocusEventFilter.dropReports_flush hheld (hoff.1 rfl), append_assoc]
      · obtain ⟨s',passed',hpassing,hall⟩ := ih h hheld hplain hlive hrest
        exact ⟨s',passed',hpassing,hall⟩
    | bytes raw =>
      rw [hinput] at hoff
      have hforward := h.forward hw raw false false (FocusEventFilter.filter s raw).1 rfl
      obtain ⟨s',passed',hpassing,hall⟩ := ih hforward (FocusEventFilter.held_suffix hheld raw) hplain hlive hoff.2
      refine ⟨s',passed',hpassing,?_⟩
      rw [hall, append_assoc]
      exact congrArg (passed ++ ·) (FocusEventFilter.dropReports_filter s raw (received wakeups)).symm

/-- What is held back at any time: the beginning of a report and the beginning of a character. -/
theorem held_back (p : StdinPump) (h : Utf8.readHead p.pending = .cut) (wakeups : List Wakeup) :
    Utf8.readHead (p.run wakeups).pending = .cut := by
  induction wakeups generalizing p with
  | nil => exact h
  | cons w wakeups ih =>
    refine ih _ ?_
    have hforward : ∀ raw expired eof, Utf8.readHead (p.forward w raw expired eof).pending = .cut := fun raw expired eof =>
      (splitValidUtf8_splits _).held_cut
    unfold iterate
    by_cases hrunning : p.running = true
    · rw [if_pos hrunning]
      cases w.input with
      | interrupted => exact h
      | pollFailed =>
        by_cases hpending : p.hasPendingPrefix = true
        · dsimp only
          rwa [if_pos hpending]
        · dsimp only
          rwa [if_neg hpending]
      | expired =>
        by_cases hpending : p.hasPendingPrefix = true
        · dsimp only
          rw [if_pos hpending]
          exact hforward _ _ _
        · dsimp only
          rwa [if_neg hpending]
      | bytes raw | eof => exact hforward _ _ _
    · rwa [if_neg hrunning]

end StdinPump

/-- Outside the mute window, up to the end of the input, what is sent is the input without the
focus reports and then without what is no text. At the end no character is held back, and at any
time at most two bytes of a report and three of a character are. -/
theorem attach_input_path {wakeups : List Wakeup} {last : Wakeup} (hlive : ∀ w ∈ wakeups, w.input ≠ .eof ∧ w.input ≠ .pollFailed)
    (hlast : last.input = .eof) (hplain : ∀ w ∈ wakeups ++ [last], w.Plain) (hoff : OffReports [] wakeups) :
    (∀ out, Utf8.Repaired (dropReports (received wakeups)) out ↔
        ((StdinPump.start true).run (wakeups ++ [last])).written.flatten = out) ∧
      (((StdinPump.start true).run (wakeups ++ [last])).hasPendingPrefix = false ∧
        ∀ c, ¬String.utf8EncodeChar c <:+: ((StdinPump.start true).run (wakeups ++ [last])).pending) ∧
      ∀ (filterFocusEvents : Bool) (wakeups : List Wakeup),
        (((StdinPump.start filterFocusEvents).run wakeups).focusFilter.elim [] FocusEventFilter.held).length ≤ 2 ∧
        ((StdinPump.start filterFocusEvents).run wakeups).pending.length ≤ 3 := by
  obtain ⟨s,passed,hpassing,hall⟩ := StdinPump.Passing.start.run (suffix_refl []) (fun w hw => hplain w (mem_append_left _ hw)) hlive hoff
  have hforward := hpassing.forward (hplain last (mem_append_right _ mem_cons_self)) [] false true .ground rfl
  have hend : (StdinPump.start true).run (wakeups ++ [last]) =
      { ((StdinPump.start true).run wakeups).forward last [] false true with running := false } := by
    rw [StdinPump.run_concat, StdinPump.iterate, if_pos hpassing.running, hlast]
  have hrepaired : Utf8.Repaired (dropReports (received wakeups)) ((StdinPump.start true).run (wakeups ++ [last])).written.flatten := by
    rw [hend, ← nil_append (dropReports (received wakeups))]
    have hsplits := hforward.splits.repaired
    have hheld : passed ++ FocusEventFilter.held s = [] ++ dropReports (received wakeups) := hall
    rw [← hheld]
    exact hsplits
  refine ⟨fun out => ⟨fun hout => hrepaired.unique hout,fun hout => hout ▸ hrepaired⟩,⟨?_,fun c => ?_⟩,fun filterFocusEvents wakeups => ⟨?_,?_⟩⟩
  · rw [hend, StdinPump.hasPendingPrefix]
    rw [hforward.focusFilter]
    rfl
  · exact Utf8.no_char_in_cut (StdinPump.held_back _ rfl _) c
  · cases ((StdinPump.start filterFocusEvents).run wakeups).focusFilter with
    | none => exact Nat.zero_le _
    | some s => exact FocusEventFilter.length_held_le s
  · exact Utf8.length_le_of_cut (StdinPump.held_back _ rfl _)

/-- An arrow key whose Escape settles, and a letter whose last byte never comes. -/
theorem settled_arrow_is_sent :
    Utf8.Repaired (dropReports [0x1b,0x5b,0x41,0xc3]) ((StdinPump.start true).run
      [⟨.bytes [0x1b],false,false⟩,⟨.expired,false,false⟩,⟨.bytes [0x5b,0x41,0xc3],false,false⟩,⟨.eof,false,false⟩]).written.flatten :=
  ((@attach_input_path [⟨.bytes [0x1b],false,false⟩,⟨.expired,false,false⟩,⟨.bytes [0x5b,0x41,0xc3],false,false⟩] ⟨.eof,false,false⟩
    (by decide) rfl (by decide) (by decide)).1 _).mpr rfl

end Unpeel.Attach
