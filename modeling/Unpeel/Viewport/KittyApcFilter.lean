import Mathlib.Algebra.Ring.Parity
import Mathlib.Data.List.Infix
import Unpeel.Foundation.Transducers

/-! # Kitty graphics in a stream

A viewport is fed without the graphics strings of the stream. The filter withholds what may
become a string, and with capture on it gives each finished string in its place.
-/
namespace Unpeel.Viewport
open Transducers List
variable {stream text inside payload terminator rest p : List UInt8} {byte : UInt8} {filter : KittyApcFilter}
variable {capture : Bool}

def maxCapturedApcBytes : ℕ := 256 * 1024

inductive ApcFilterState where
  | ground
  | esc
  | escUnderscore
  | apc
  | apcEsc
deriving DecidableEq

structure KittyApcFilter where
  state : ApcFilterState
  capture : Bool
  pending : List UInt8
  oversized : Bool

inductive ScanSegment where
  | text (bytes : List UInt8)
  | graphics (bytes : List UInt8)

def introducer : List UInt8 := [0x1b,0x5f,0x47]

def stringTerminator : List UInt8 := [0x1b,0x5c]

def startFilter (capture : Bool) : KittyApcFilter := ⟨.ground,capture,[],false⟩

def pushPending (filter : KittyApcFilter) (byte : UInt8) : KittyApcFilter :=
  if !filter.capture || filter.oversized then filter
  else if maxCapturedApcBytes ≤ filter.pending.length then { filter with oversized := true, pending := [] }
  else { filter with pending := filter.pending ++ [byte] }

def scanByte (filter : KittyApcFilter) (segments : List ScanSegment) (text : List UInt8) (byte : UInt8) :
    KittyApcFilter × List ScanSegment × List UInt8 :=
  match filter.state with
  | .ground =>
    if byte = 0x1b then ({ filter with state := .esc },segments,text)
    else (filter,segments,text ++ [byte])
  | .esc =>
    if byte = 0x5f then ({ filter with state := .escUnderscore },segments,text)
    else if byte = 0x1b then (filter,segments,text ++ [0x1b])
    else ({ filter with state := .ground },segments,text ++ [0x1b,byte])
  | .escUnderscore =>
    if byte = 0x47 then
      (if filter.capture then { filter with state := .apc, pending := introducer, oversized := false }
        else { filter with state := .apc },segments,text)
    else ({ filter with state := .ground },segments,text ++ [0x1b,0x5f,byte])
  | .apc =>
    if byte = 0x1b then ({ filter with state := .apcEsc },segments,text)
    else if byte = 0x18 ∨ byte = 0x1a then ({ filter with state := .ground, pending := [] },segments,text)
    else (pushPending filter byte,segments,text)
  | .apcEsc =>
    if byte = 0x5c then
      let done := { filter with state := .ground, pending := [], oversized := false }
      if filter.capture ∧ filter.oversized = false ∧ filter.pending ≠ [] then
        (done,segments ++ (if text = [] then [] else [.text text]) ++ [.graphics (filter.pending ++ stringTerminator)],[])
      else (done,segments,text)
    else if byte ≠ 0x1b then (pushPending (pushPending { filter with state := .apc } 0x1b) byte,segments,text)
    else (pushPending filter 0x1b,segments,text)

def needsScan (data : List UInt8) : Bool := data.getLast? = some 0x1b || [0x1b,0x5f] <:+: data

/-- `scan`: nothing for a chunk that passes as it is. -/
def scan (filter : KittyApcFilter) (data : List UInt8) : KittyApcFilter × Option (List ScanSegment) :=
  if filter.state = .ground ∧ needsScan data = false then (filter,none)
  else
    let (filter,segments,text) := data.foldl (fun scanned byte => scanByte scanned.1 scanned.2.1 scanned.2.2 byte) (filter,[],[])
    (filter,some (if text = [] then segments else segments ++ [.text text]))

/-! ### What is shown -/

inductive Item where
  | byte (byte : UInt8)
  | graphics (bytes : List UInt8)
deriving DecidableEq

def bytesOf (text : List UInt8) : List Item := text.map .byte

def ScanSegment.items : ScanSegment → List Item
  | .text bytes => bytesOf bytes
  | .graphics bytes => [.graphics bytes]

def scanItems (filter : KittyApcFilter) (data : List UInt8) : KittyApcFilter × List Item :=
  ((scan filter data).1,(scan filter data).2.elim (bytesOf data) (·.flatMap ScanSegment.items))

def withheld : ApcFilterState → List UInt8
  | .esc => [0x1b]
  | .escUnderscore => [0x1b,0x5f]
  | .ground | .apc | .apcEsc => []

/-! ### The strings of a stream -/

def splitIntroducer : List UInt8 → Option (List UInt8 × List UInt8)
  | [] => none
  | b :: stream =>
    if introducer <+: b :: stream then some ([],stream.drop 2)
    else (splitIntroducer stream).map fun (text,inside) => (b :: text,inside)

def splitString : List UInt8 → Option (List UInt8 × List UInt8 × List UInt8)
  | [] => none
  | b :: inside =>
    if b = 0x18 ∨ b = 0x1a then some ([],[b],inside)
    else if stringTerminator <+: b :: inside then some ([],stringTerminator,inside.drop 1)
    else (splitString inside).map fun (payload,rest) => (b :: payload,rest)

theorem splitIntroducer_length (h : splitIntroducer stream = some (text,inside)) :
    inside.length < stream.length := by
  induction stream generalizing text with
  | nil => cases h
  | cons b stream ih =>
    rw [splitIntroducer] at h
    split_ifs at h
    · cases h
      rw [length_drop, length_cons]
      omega
    · obtain ⟨⟨text',inside'⟩,hrest,hpair⟩ := Option.map_eq_some_iff.mp h
      cases hpair
      exact Nat.lt_trans (ih hrest) (Nat.lt_succ_self _)

theorem splitString_length (h : splitString inside = some (payload,terminator,rest)) :
    rest.length < inside.length := by
  induction inside generalizing payload with
  | nil => cases h
  | cons b inside ih =>
    rw [splitString] at h
    split_ifs at h
    · cases h
      exact Nat.lt_succ_self _
    · cases h
      rw [length_drop, length_cons]
      omega
    · obtain ⟨⟨payload',rest'⟩,hrest,hpair⟩ := Option.map_eq_some_iff.mp h
      cases hpair
      exact Nat.lt_trans (ih hrest) (Nat.lt_succ_self _)

/-- A string of the stream: the text between it and the one before, its payload and its terminator,
if it has one, and what is behind. -/
structure KittyString where
  before : List UInt8
  payload : List UInt8
  terminator : List UInt8
  after : List UInt8

def kittyStrings (stream : List UInt8) : List KittyString :=
  match _h : splitIntroducer stream with
  | none => []
  | some (text,inside) =>
    match _h' : splitString inside with
    | none => [⟨text,inside,[],[]⟩]
    | some (payload,terminator,rest) => ⟨text,payload,terminator,rest⟩ :: kittyStrings rest
termination_by stream.length
decreasing_by exact Nat.lt_trans (splitString_length _h') (splitIntroducer_length _h)

def capturedString (capture : Bool) (payload terminator : List UInt8) : List Item :=
  if capture = true ∧ terminator = stringTerminator ∧ (introducer ++ payload).length ≤ maxCapturedApcBytes then
    [.graphics (introducer ++ payload ++ terminator)]
  else []

def withoutStrings (capture : Bool) (stream : List UInt8) : List Item :=
  match _h : splitIntroducer stream with
  | none => bytesOf stream
  | some (text,inside) =>
    match _h' : splitString inside with
    | none => bytesOf text
    | some (payload,terminator,rest) => bytesOf text ++ capturedString capture payload terminator ++ withoutStrings capture rest
termination_by stream.length
decreasing_by exact Nat.lt_trans (splitString_length _h') (splitIntroducer_length _h)

/-- How many `ESC _` come directly before the end; the bytes are given from the end. -/
def pairsBack : List UInt8 → ℕ
  | 0x5f :: 0x1b :: rest => pairsBack rest + 1
  | _ => 0

/-- How many unfinished `ESC _` a text ends with. -/
def unfinished (text : List UInt8) : ℕ := pairsBack text.reverse

/-- No string follows an odd number of unfinished `ESC _`, and none is ended by CAN or SUB right
behind an ESC of its payload, except at the very end. -/
def Clean (stream : List UInt8) : Prop := ∀ string ∈ kittyStrings stream, Even (unfinished string.before) ∧
  ¬(string.payload.getLast? = some 0x1b ∧ string.terminator ∈ [[0x18],[0x1a]] ∧ string.after ≠ [])

def Follows (capture : Bool) (chunks : List (List UInt8)) : Prop :=
  (feedChunks scanItems (startFilter capture) chunks).2 ++
    bytesOf (withheld (feedChunks scanItems (startFilter capture) chunks).1.state) = withoutStrings capture chunks.flatten

/-! ### Where strings begin and end -/

theorem introducer_front {b : UInt8} :
    introducer <+: b :: stream ↔ b = 0x1b ∧ [0x5f,0x47] <+: stream := by
  rw [introducer, cons_prefix_cons, eq_comm]

theorem stringTerminator_front {b : UInt8} :
    stringTerminator <+: b :: stream ↔ b = 0x1b ∧ [0x5c] <+: stream := by
  rw [stringTerminator, cons_prefix_cons, eq_comm]

theorem splitIntroducer_eq_none : splitIntroducer stream = none ↔ ¬introducer <:+: stream := by
  induction stream with
  | nil => decide
  | cons b stream ih =>
    rw [splitIntroducer, infix_cons_iff]
    split_ifs with h
    · exact ⟨fun hsome => (by cases hsome),fun hnot => absurd (Or.inl h) hnot⟩
    · rw [Option.map_eq_none_iff, ih]
      tauto

theorem splitIntroducer_some (h : splitIntroducer stream = some (text,inside)) :
    stream = text ++ introducer ++ inside ∧ splitIntroducer (text ++ [0x1b,0x5f]) = none ∧
      ∀ r, splitIntroducer (text ++ introducer ++ r) = some (text,r) := by
  induction stream generalizing text with
  | nil => cases h
  | cons b stream ih =>
    rw [splitIntroducer] at h
    split_ifs at h with hstart
    · cases h
      obtain ⟨rfl,inside,rfl⟩ := introducer_front.mp hstart
      exact ⟨rfl,by decide,fun r => if_pos ⟨r,rfl⟩⟩
    · obtain ⟨⟨text',inside'⟩,hrest,hpair⟩ := Option.map_eq_some_iff.mp h
      cases hpair
      obtain ⟨rfl,hbefore,hafter⟩ := ih hrest
      -- the three bytes behind `b` are in the text and the introducer
      have hhead : ∀ r, ¬introducer <+: b :: (text' ++ introducer ++ r) := by
        intro r hr
        apply hstart
        rw [introducer_front] at hr ⊢
        refine ⟨hr.1,?_⟩
        rcases text' with - | ⟨c,- | ⟨d,text'⟩⟩
        · exact absurd hr.2 (by simp [introducer])
        · exact absurd hr.2 (by simp [introducer])
        · simpa using hr.2
      refine ⟨by rw [cons_append, cons_append],?_,?_⟩
      · rw [cons_append, splitIntroducer, if_neg, hbefore]
        · rfl
        · intro hr
          apply hhead []
          rw [append_nil, introducer, show ([0x1b,0x5f,0x47] : List UInt8) = [0x1b,0x5f] ++ [0x47] from rfl,
            ← append_assoc, ← cons_append]
          exact hr.trans (prefix_append _ _)
      · intro r
        rw [cons_append, cons_append, splitIntroducer, if_neg (hhead r), hafter]
        rfl

theorem splitString_eq_none : splitString inside = none ↔
    (0x18 ∉ inside ∧ 0x1a ∉ inside) ∧ ¬stringTerminator <:+: inside := by
  induction inside with
  | nil => decide
  | cons b inside ih =>
    rw [splitString, infix_cons_iff, mem_cons, mem_cons]
    split_ifs with habort hend
    · refine ⟨fun hsome => (by cases hsome),fun hnot => ?_⟩
      rcases habort with rfl | rfl
      · exact absurd (Or.inl rfl) hnot.1.1
      · exact absurd (Or.inl rfl) hnot.1.2
    · exact ⟨fun hsome => (by cases hsome),fun hnot => absurd (Or.inl hend) hnot.2⟩
    · rw [Option.map_eq_none_iff, ih, eq_comm (a := (0x18 : UInt8)), eq_comm (a := (0x1a : UInt8))]
      tauto

def Ends (payload terminator : List UInt8) : Prop :=
  (terminator = [0x18] ∨ terminator = [0x1a]) ∧ splitString payload = none ∨
    terminator = stringTerminator ∧ splitString (payload ++ [0x1b]) = none

theorem splitString_some (h : splitString inside = some (payload,terminator,rest)) :
    inside = payload ++ terminator ++ rest ∧ Ends payload terminator ∧
      ∀ r, splitString (payload ++ terminator ++ r) = some (payload,terminator,r) := by
  induction inside generalizing payload with
  | nil => cases h
  | cons b inside ih =>
    rw [splitString] at h
    split_ifs at h with habort hend
    · cases h
      refine ⟨rfl,.inl ⟨habort.imp (congrArg ([·])) (congrArg ([·])),rfl⟩,fun r => ?_⟩
      exact if_pos habort
    · cases h
      obtain ⟨rfl,inside,rfl⟩ := stringTerminator_front.mp hend
      exact ⟨rfl,.inr ⟨rfl,by decide⟩,fun r => rfl⟩
    · obtain ⟨⟨payload',terminator',rest'⟩,hrest,hpair⟩ := Option.map_eq_some_iff.mp h
      cases hpair
      obtain ⟨rfl,hterminator,hafter⟩ := ih hrest
      have hne : payload' ++ terminator ≠ [] := by
        rcases hterminator with ⟨rfl | rfl,-⟩ | ⟨rfl,-⟩ <;> simp [stringTerminator]
      -- the byte behind `b` is in the payload or the terminator
      have hhead : ∀ r, ¬stringTerminator <+: b :: (payload' ++ terminator ++ r) := by
        intro r hr
        apply hend
        rw [stringTerminator_front] at hr ⊢
        refine ⟨hr.1,?_⟩
        obtain ⟨c,seen,hseen⟩ := exists_cons_of_ne_nil hne
        rw [hseen] at hr ⊢
        simpa using hr.2
      refine ⟨by rw [cons_append, cons_append],?_,?_⟩
      · refine hterminator.imp ?_ ?_
        · rintro ⟨hbyte,hnone⟩
          refine ⟨hbyte,?_⟩
          rw [splitString, if_neg habort, if_neg, hnone]
          · rfl
          · intro hr
            exact hhead rest (hr.trans (by rw [append_assoc, cons_prefix_cons]; exact ⟨rfl,prefix_append _ _⟩))
        · rintro ⟨rfl,hnone⟩
          refine ⟨rfl,?_⟩
          rw [cons_append, splitString, if_neg habort, if_neg, hnone]
          · rfl
          · intro hr
            refine hhead rest (hr.trans ?_)
            rw [cons_prefix_cons, stringTerminator, show ([0x1b,0x5c] : List UInt8) = [0x1b] ++ [0x5c] from rfl,
              ← append_assoc, append_assoc]
            exact ⟨rfl,prefix_append _ _⟩
      · intro r
        rw [cons_append, cons_append, splitString, if_neg habort, if_neg (hhead r), hafter]
        rfl

/-! ### Byte by byte -/

def step (filter : KittyApcFilter) (byte : UInt8) : KittyApcFilter × List Item :=
  ((scanByte filter [] [] byte).1,(scanByte filter [] [] byte).2.1.flatMap ScanSegment.items ++ bytesOf (scanByte filter [] [] byte).2.2)

@[simp] theorem bytesOf_nil : bytesOf [] = [] := rfl

@[simp] theorem bytesOf_append (a b : List UInt8) : bytesOf (a ++ b) = bytesOf a ++ bytesOf b := map_append

theorem items_text (text : List UInt8) : (if text = [] then [] else [ScanSegment.text text]).flatMap ScanSegment.items = bytesOf text := by
  split_ifs with h
  · rw [h]
    rfl
  · exact append_nil _

/-- What a byte does does not depend on the chunk so far. -/
theorem scanByte_items (filter : KittyApcFilter) (segments : List ScanSegment) (text : List UInt8) (byte : UInt8) :
    (scanByte filter segments text byte).1 = (step filter byte).1 ∧
      (scanByte filter segments text byte).2.1.flatMap ScanSegment.items ++ bytesOf (scanByte filter segments text byte).2.2 =
        segments.flatMap ScanSegment.items ++ bytesOf text ++ (step filter byte).2 := by
  unfold step scanByte
  cases filter.state with
  | ground | esc | escUnderscore | apc => dsimp only; split_ifs <;> simp
  | apcEsc =>
    by_cases hst : byte = 0x5c
    · by_cases hcapture : filter.capture ∧ filter.oversized = false ∧ filter.pending ≠ []
      · rw [if_pos hst, if_pos hst, if_pos hcapture, if_pos hcapture]
        refine ⟨rfl,?_⟩
        simp only [flatMap_append, items_text, bytesOf_nil, append_nil, nil_append, if_true]
      · rw [if_pos hst, if_pos hst, if_neg hcapture, if_neg hcapture]
        simp
    · rw [if_neg hst, if_neg hst]
      split_ifs <;> simp

theorem foldl_scanByte (data : List UInt8) (filter : KittyApcFilter) (segments : List ScanSegment) (text : List UInt8) :
    (data.foldl (fun scanned byte => scanByte scanned.1 scanned.2.1 scanned.2.2 byte) (filter,segments,text)).1 =
        (feed step filter data).1 ∧
      (data.foldl (fun scanned byte => scanByte scanned.1 scanned.2.1 scanned.2.2 byte) (filter,segments,text)).2.1.flatMap
          ScanSegment.items ++
        bytesOf (data.foldl (fun scanned byte => scanByte scanned.1 scanned.2.1 scanned.2.2 byte) (filter,segments,text)).2.2 =
        segments.flatMap ScanSegment.items ++ bytesOf text ++ (feed step filter data).2 := by
  induction data generalizing filter segments text with
  | nil => exact ⟨rfl,(append_nil _).symm⟩
  | cons byte data ih =>
    obtain ⟨hstate,hitems⟩ := scanByte_items filter segments text byte
    obtain ⟨hend,hrest⟩ := ih (scanByte filter segments text byte).1 (scanByte filter segments text byte).2.1
      (scanByte filter segments text byte).2.2
    rw [foldl_cons, feed]
    refine ⟨by rw [← hstate]; exact hend,?_⟩
    rw [← append_assoc, ← hitems, ← hstate]
    exact hrest

theorem feed_concat (filter : KittyApcFilter) (data : List UInt8) (byte : UInt8) :
    feed step filter (data ++ [byte]) =
      ((step (feed step filter data).1 byte).1,(feed step filter data).2 ++ (step (feed step filter data).1 byte).2) := by
  rw [feed_append, feed, feed, append_nil]

theorem step_text (filter : KittyApcFilter) (byte : UInt8) :
    (filter.state = .ground → step filter byte =
      if byte = 0x1b then ({ filter with state := .esc },[]) else (filter,[.byte byte])) ∧
    (filter.state = .esc → step filter byte =
      if byte = 0x5f then ({ filter with state := .escUnderscore },[]) else if byte = 0x1b then (filter,[.byte 0x1b])
      else ({ filter with state := .ground },[.byte 0x1b,.byte byte])) ∧
    (filter.state = .escUnderscore → byte ≠ 0x47 →
      step filter byte = ({ filter with state := .ground },[.byte 0x1b,.byte 0x5f,.byte byte])) := by
  unfold step scanByte
  refine ⟨fun h => ?_,fun h => ?_,fun h hg => ?_⟩
  · rw [h]
    split_ifs <;> rfl
  · rw [h]
    split_ifs <;> rfl
  · rw [h]
    rw [if_neg hg]
    rfl

/-! ### Text -/

theorem unfinished_concat_pair (text : List UInt8) : unfinished (text ++ [0x1b] ++ [0x5f]) = unfinished text + 1 := by
  unfold unfinished
  rw [reverse_concat, reverse_concat, pairsBack]

theorem unfinished_concat (h : byte = 0x5f → text.getLast? ≠ some 0x1b) :
    unfinished (text ++ [byte]) = 0 := by
  unfold unfinished
  rw [reverse_concat, pairsBack]
  rintro rest heq
  obtain ⟨rfl,hrest⟩ := List.cons.inj heq
  apply h rfl
  rw [← reverse_reverse text, hrest]
  simp

theorem unfinished_eq_zero_or (text : List UInt8) : unfinished text = 0 ∨ ∃ q, text = q ++ [0x1b] ++ [0x5f] := by
  rcases text.eq_nil_or_concat' with rfl | ⟨q,byte,rfl⟩
  · exact .inl rfl
  · by_cases h : byte = 0x5f → q.getLast? ≠ some 0x1b
    · exact .inl (unfinished_concat h)
    · push Not at h
      obtain ⟨rfl,hlast⟩ := h
      exact .inr ⟨q.dropLast,by rw [dropLast_append_getLast? _ hlast]⟩

def ReadsText (text : List UInt8) : ApcFilterState → Prop
  | .ground => Even (unfinished text) ∧ ∀ q, text = q ++ [0x1b] → Odd (unfinished q)
  | .esc => ∃ q, text = q ++ [0x1b] ∧ Even (unfinished q)
  | .escUnderscore => Odd (unfinished text)
  | .apc | .apcEsc => False

/-- A text without an introducer is shown, but for what is withheld. -/
theorem feed_text (hground : filter.state = .ground) (h : splitIntroducer text = none) :
    ReadsText text (feed step filter text).1.state ∧ (feed step filter text).1 = { filter with state := (feed step filter text).1.state } ∧
      (feed step filter text).2 ++ bytesOf (withheld (feed step filter text).1.state) = bytesOf text := by
  induction text using List.reverseRecOn with
  | nil =>
    rw [feed, hground]
    exact ⟨⟨by decide,fun q hq => absurd hq (by simp)⟩,by rw [← hground],rfl⟩
  | append_singleton text byte ih =>
    have hbefore : splitIntroducer text = none :=
      splitIntroducer_eq_none.mpr fun hin => splitIntroducer_eq_none.mp h (hin.trans (prefix_append _ _).isInfix)
    obtain ⟨hreads,hsame,hshown⟩ := ih hbefore
    obtain ⟨hstepGround,hstepEsc,hstepUnderscore⟩ := step_text (feed step filter text).1 byte
    rw [feed_concat, bytesOf_append, ← hshown]
    generalize (feed step filter text).1 = g at hreads hsame hstepGround hstepEsc hstepUnderscore
    cases hstate : g.state with
    | ground =>
      rw [hstepGround hstate]
      rw [hstate] at hreads
      split_ifs with hesc
      · exact ⟨⟨text,by rw [hesc],hreads.1⟩,by rw [hsame],by rw [hesc]; simp [withheld, bytesOf]⟩
      · refine ⟨?_,by rw [hstate]; rw [hstate] at hsame; exact hsame,by simp [hstate, withheld, bytesOf]⟩
        rw [hstate]
        refine ⟨?_,fun q hq => absurd (append_inj_right' hq rfl) (by simpa using hesc)⟩
        by_cases hlow : byte = 0x5f → text.getLast? ≠ some 0x1b
        · rw [unfinished_concat hlow]
          exact Even.zero
        · push Not at hlow
          obtain ⟨rfl,hlast⟩ := hlow
          rw [← dropLast_append_getLast? _ hlast, unfinished_concat_pair]
          exact (hreads.2 _ (dropLast_append_getLast? _ hlast).symm).add_one
    | esc =>
      rw [hstepEsc hstate]
      rw [hstate] at hreads
      obtain ⟨q,rfl,hq⟩ := hreads
      split_ifs with hlow hesc
      · refine ⟨?_,by rw [hsame],by rw [hlow]; simp [withheld, bytesOf]⟩
        rw [hlow]
        show Odd _
        rw [unfinished_concat_pair]
        exact hq.add_one
      · refine ⟨?_,by rw [hstate]; rw [hstate] at hsame; exact hsame,by rw [hesc, hstate]; simp [withheld, bytesOf]⟩
        rw [hstate, hesc]
        exact ⟨q ++ [0x1b],rfl,by rw [unfinished_concat (fun hb => absurd hb (by decide))]; exact Even.zero⟩
      · refine ⟨?_,by rw [hsame],by simp [withheld, bytesOf]⟩
        refine ⟨?_,fun q' hq' => absurd (append_inj_right' hq' rfl) (by simpa using hesc)⟩
        rw [unfinished_concat (fun hb => absurd hb hlow)]
        exact Even.zero
    | escUnderscore =>
      rw [hstate] at hreads
      have hodd : Odd (unfinished text) := hreads
      obtain ⟨q,rfl⟩ := (unfinished_eq_zero_or text).resolve_left fun hzero => by
        rw [hzero] at hodd
        exact absurd hodd (by decide)
      have hg : byte ≠ 0x47 := by
        rintro rfl
        refine splitIntroducer_eq_none.mp h ⟨q,[],?_⟩
        simp [introducer]
      rw [hstepUnderscore hstate hg]
      refine ⟨⟨?_,fun q' hq' => ?_⟩,by rw [hsame],by simp [withheld, bytesOf]⟩
      · rw [unfinished_concat (fun hb => by simp)]
        exact Even.zero
      · rw [← append_inj_left' hq' rfl]
        exact hodd
    | apc | apcEsc => rw [hstate] at hreads; exact hreads.elim

/-- A chunk without `ESC _` that does not end in an ESC passes as it is. -/
theorem feed_plain {data : List UInt8} (h : needsScan data = false) (hground : filter.state = .ground) :
    feed step filter data = (filter,bytesOf data) := by
  obtain ⟨hlast,hpair⟩ := Bool.or_eq_false_iff.mp h
  have hlast : data.getLast? ≠ some 0x1b := of_decide_eq_false hlast
  have hpair : ¬[0x1b,0x5f] <:+: data := of_decide_eq_false hpair
  have hnone : splitIntroducer data = none := splitIntroducer_eq_none.mpr fun hin =>
    hpair (List.IsInfix.trans ⟨[],[0x47],rfl⟩ hin)
  obtain ⟨hreads,hsame,hshown⟩ := feed_text hground hnone
  have hstate : (feed step filter data).1.state = .ground := by
    cases hstate : (feed step filter data).1.state with
    | ground => rfl
    | esc =>
      rw [hstate] at hreads
      obtain ⟨q,rfl,-⟩ := hreads
      exact absurd (by simp) hlast
    | escUnderscore =>
      rw [hstate] at hreads
      rcases unfinished_eq_zero_or data with hzero | ⟨q,rfl⟩
      · have hodd : Odd (unfinished data) := hreads
        rw [hzero] at hodd
        exact absurd hodd (by decide)
      · exact absurd ⟨q,[],by simp⟩ hpair
    | apc | apcEsc => rw [hstate] at hreads; exact hreads.elim
  rw [hstate, ← hground] at hsame
  rw [hstate, withheld, bytesOf_nil, append_nil] at hshown
  exact Prod.ext hsame hshown

theorem scanItems_eq (filter : KittyApcFilter) (data : List UInt8) : scanItems filter data = feed step filter data := by
  unfold scanItems scan
  split_ifs with hplain
  · rw [feed_plain hplain.2 hplain.1]
    rfl
  · obtain ⟨hstate,hitems⟩ := foldl_scanByte data filter [] []
    refine Prod.ext hstate ?_
    rw [flatMap_nil, bytesOf_nil, nil_append, nil_append] at hitems
    rw [← hitems]
    dsimp only [Option.elim_some]
    split_ifs with htext
    · rw [htext, bytesOf_nil, append_nil]
    · rw [flatMap_append]
      exact congrArg _ (append_nil _)

/-! ### Inside a string -/

def Holds (content : List UInt8) (filter : KittyApcFilter) : Prop := filter.capture = true →
  filter.oversized = false ∧ filter.pending = content ∧ content.length ≤ maxCapturedApcBytes ∨
    filter.oversized = true ∧ maxCapturedApcBytes < content.length

theorem pushPending_state (filter : KittyApcFilter) (byte : UInt8) :
    (pushPending filter byte).state = filter.state ∧ (pushPending filter byte).capture = filter.capture := by
  unfold pushPending
  split_ifs <;> exact ⟨rfl,rfl⟩

theorem Holds.pushPending {content : List UInt8} {filter : KittyApcFilter} (h : Holds content filter) (byte : UInt8) :
    Holds (content ++ [byte]) (pushPending filter byte) := by
  unfold Viewport.pushPending
  intro hcapture
  have hon : filter.capture = true := by
    rw [← hcapture]
    split_ifs <;> rfl
  rw [length_append, length_singleton]
  rcases h hon with ⟨hsmall,hpending,hlength⟩ | ⟨hbig,hlength⟩
  · rw [if_neg (by simp [hon, hsmall]), hpending]
    split_ifs with hfull
    · exact .inr ⟨rfl,by omega⟩
    · exact .inl ⟨hsmall,rfl,by omega⟩
  · rw [if_pos (by simp [hbig])]
    exact .inr ⟨hbig,by omega⟩

theorem Holds.state {content : List UInt8} {filter : KittyApcFilter} (h : Holds content filter) (state : ApcFilterState) :
    Holds content { filter with state := state } := h

def kept (payload : List UInt8) : List UInt8 := if payload.getLast? = some 0x1b then payload.dropLast else payload

def ReadsString (payload : List UInt8) (filter : KittyApcFilter) : Prop :=
  filter.state = (if payload.getLast? = some 0x1b then .apcEsc else .apc) ∧ Holds (introducer ++ kept payload) filter

theorem kept_concat_esc (payload : List UInt8) : kept (payload ++ [0x1b]) = payload := by
  rw [kept, if_pos (by simp), dropLast_concat]

theorem kept_concat (h : byte ≠ 0x1b) : kept (payload ++ [byte]) = payload ++ [byte] := by
  rw [kept, if_neg]
  simpa using h

/-- A byte of the payload that ends nothing shows nothing. -/
theorem step_payload (h : ReadsString payload filter) (hend : splitString (payload ++ [byte]) = none) :
    ReadsString (payload ++ [byte]) (step filter byte).1 ∧ (step filter byte).2 = [] ∧
      (step filter byte).1.capture = filter.capture := by
  obtain ⟨⟨hcan,hsub⟩,hst⟩ := splitString_eq_none.mp hend
  have hcan : byte ≠ 0x18 := fun hb => hcan (by simp [hb])
  have hsub : byte ≠ 0x1a := fun hb => hsub (by simp [hb])
  obtain ⟨hstate,hholds⟩ := h
  unfold step scanByte
  by_cases hlast : payload.getLast? = some 0x1b
  · have hpayload := dropLast_append_getLast? _ hlast
    have hback : byte ≠ 0x5c := by
      rintro rfl
      exact hst ⟨payload.dropLast,[],by rw [← hpayload]; simp [stringTerminator]⟩
    rw [if_pos hlast] at hstate
    rw [hstate]
    dsimp only
    rw [if_neg hback, kept, if_pos hlast] at *
    have hesc : Holds (introducer ++ payload) (pushPending filter 0x1b) := by
      rw [← hpayload, ← append_assoc]
      exact hholds.pushPending 0x1b
    by_cases hb : byte = 0x1b
    · rw [if_neg (fun hne => hne hb), hb]
      refine ⟨⟨?_,?_⟩,rfl,(pushPending_state _ _).2⟩
      · rw [(pushPending_state _ _).1, hstate]
        simp
      · rw [kept_concat_esc]
        exact hesc
    · rw [if_pos hb]
      refine ⟨⟨?_,?_⟩,rfl,?_⟩
      · rw [(pushPending_state _ _).1, (pushPending_state _ _).1]
        simp [hb]
      · rw [kept_concat hb, ← append_assoc]
        refine Holds.pushPending ?_ byte
        rw [← hpayload, ← append_assoc]
        exact (hholds.state _).pushPending 0x1b
      · rw [(pushPending_state _ _).2, (pushPending_state _ _).2]
  · rw [if_neg hlast] at hstate
    rw [hstate]
    dsimp only
    rw [kept, if_neg hlast] at hholds
    by_cases hb : byte = 0x1b
    · rw [if_pos hb, hb]
      refine ⟨⟨by simp,?_⟩,rfl,rfl⟩
      rw [kept_concat_esc]
      exact hholds
    · rw [if_neg hb, if_neg (not_or.mpr ⟨hcan,hsub⟩)]
      refine ⟨⟨?_,?_⟩,rfl,(pushPending_state _ _).2⟩
      · rw [(pushPending_state _ _).1, hstate]
        simp [hb]
      · rw [kept_concat hb, ← append_assoc]
        exact hholds.pushPending byte

theorem feed_payload (h : ReadsString [] filter) (hend : splitString payload = none) :
    ReadsString payload (feed step filter payload).1 ∧ (feed step filter payload).2 = [] ∧
      (feed step filter payload).1.capture = filter.capture := by
  induction payload using List.reverseRecOn with
  | nil => exact ⟨h,rfl,rfl⟩
  | append_singleton payload byte ih =>
    have hbefore : splitString payload = none := by
      rw [splitString_eq_none] at hend ⊢
      refine ⟨⟨fun hin => hend.1.1 (by simp [hin]),fun hin => hend.1.2 (by simp [hin])⟩,fun hin => ?_⟩
      exact hend.2 (hin.trans (prefix_append _ _).isInfix)
    obtain ⟨hreads,hshown,hcapture⟩ := ih hbefore
    obtain ⟨hnext,hnothing,hkeeps⟩ := step_payload hreads hend
    rw [feed_concat]
    exact ⟨hnext,by rw [hshown, hnothing]; rfl,by rw [hkeeps, hcapture]⟩

/-- An introducer behind an even number of unfinished `ESC _` begins a string. -/
theorem feed_introducer (hground : filter.state = .ground)
    (h : splitIntroducer (text ++ [0x1b,0x5f]) = none) (heven : Even (unfinished text)) :
    ReadsString [] (feed step filter (text ++ introducer)).1 ∧ (feed step filter (text ++ introducer)).2 = bytesOf text ∧
      (feed step filter (text ++ introducer)).1.capture = filter.capture := by
  obtain ⟨hreads,hsame,hshown⟩ := feed_text hground h
  have hodd : Odd (unfinished (text ++ [0x1b,0x5f])) := by
    rw [show text ++ [0x1b,0x5f] = text ++ [0x1b] ++ [0x5f] by simp, unfinished_concat_pair]
    exact heven.add_one
  rw [show text ++ introducer = text ++ [0x1b,0x5f] ++ [0x47] by simp [introducer], feed_concat]
  generalize (feed step filter (text ++ [0x1b,0x5f])).1 = g at hreads hsame hshown
  cases hstate : g.state with
  | ground =>
    rw [hstate] at hreads
    exact absurd hodd (Nat.not_odd_iff_even.mpr hreads.1)
  | esc =>
    rw [hstate] at hreads
    obtain ⟨q,hq,-⟩ := hreads
    rw [show text ++ [0x1b,0x5f] = text ++ [0x1b] ++ [0x5f] by simp] at hq
    exact absurd (append_inj_right' hq rfl) (by decide)
  | escUnderscore =>
    rw [hstate, bytesOf_append] at hshown
    have hout := append_cancel_right hshown
    have hcapture : g.capture = filter.capture := by rw [hsame]
    rw [hout]
    unfold step scanByte
    rw [hstate]
    by_cases hc : g.capture = true
    · rw [if_pos hc]
      exact ⟨⟨rfl,fun _ => .inl ⟨rfl,rfl,by decide⟩⟩,by simp,hcapture⟩
    · rw [if_neg hc]
      exact ⟨⟨rfl,fun hcapture' => absurd hcapture' hc⟩,by simp,hcapture⟩
  | apc | apcEsc => rw [hstate] at hreads; exact hreads.elim

/-- An introducer behind an odd number of unfinished `ESC _` is shown. -/
theorem feed_introducer_odd (hground : filter.state = .ground)
    (h : splitIntroducer (text ++ [0x1b,0x5f]) = none) (hodd : Odd (unfinished text)) :
    (feed step filter (text ++ introducer)).2 = bytesOf (text ++ introducer) := by
  obtain ⟨hreads,-,hshown⟩ := feed_text hground h
  have heven : Even (unfinished (text ++ [0x1b,0x5f])) := by
    rw [show text ++ [0x1b,0x5f] = text ++ [0x1b] ++ [0x5f] by simp, unfinished_concat_pair]
    exact hodd.add_one
  rw [show text ++ introducer = text ++ [0x1b,0x5f] ++ [0x47] by simp [introducer], feed_concat]
  obtain ⟨hstep,-,-⟩ := step_text (feed step filter (text ++ [0x1b,0x5f])).1 0x47
  cases hstate : (feed step filter (text ++ [0x1b,0x5f])).1.state with
  | ground =>
    rw [hstate, withheld, bytesOf_nil, append_nil] at hshown
    rw [hstep hstate, if_neg (by decide), hshown, bytesOf_append _ [0x47]]
    rfl
  | esc =>
    rw [hstate] at hreads
    obtain ⟨q,hq,-⟩ := hreads
    rw [show text ++ [0x1b,0x5f] = text ++ [0x1b] ++ [0x5f] by simp] at hq
    exact absurd (append_inj_right' hq rfl) (by decide)
  | escUnderscore =>
    rw [hstate] at hreads
    exact absurd heven (Nat.not_even_iff_odd.mpr hreads)
  | apc | apcEsc => rw [hstate] at hreads; exact hreads.elim

/-- ST ends a string, and with capture on the string is given if it is not too long. -/
theorem feed_stringTerminator (h : ReadsString [] filter) (hend : splitString (payload ++ [0x1b]) = none) :
    (feed step filter (payload ++ stringTerminator)).1.state = .ground ∧
      (feed step filter (payload ++ stringTerminator)).1.capture = filter.capture ∧
      (feed step filter (payload ++ stringTerminator)).2 = capturedString filter.capture payload stringTerminator := by
  obtain ⟨⟨hstate,hholds⟩,hshown,hcapture⟩ := feed_payload h hend
  rw [show payload ++ stringTerminator = payload ++ [0x1b] ++ [0x5c] by simp [stringTerminator], feed_concat, hshown]
  rw [if_pos (by simp)] at hstate
  rw [kept_concat_esc] at hholds
  generalize (feed step filter (payload ++ [0x1b])).1 = g at hstate hholds hcapture
  unfold step scanByte capturedString
  rw [hstate]
  dsimp only
  rw [if_pos rfl, ← hcapture]
  by_cases hc : g.capture = true
  · rcases hholds hc with ⟨hsmall,hpending,hlength⟩ | ⟨hbig,hlength⟩
    · rw [if_pos ⟨hc,hsmall,by rw [hpending]; simp [introducer]⟩, hpending]
      have hkeep : g.capture = true ∧ stringTerminator = stringTerminator ∧ (introducer ++ payload).length ≤ maxCapturedApcBytes :=
        ⟨hc,rfl,hlength⟩
      refine ⟨rfl,rfl,?_⟩
      rw [if_pos hkeep]
      rfl
    · rw [if_neg (by simp [hbig])]
      refine ⟨rfl,rfl,?_⟩
      rw [if_neg (fun hall => absurd hall.2.2 (Nat.not_le.mpr hlength))]
      rfl
  · rw [if_neg (fun hall => hc hall.1)]
    refine ⟨rfl,rfl,?_⟩
    rw [if_neg (fun hall => hc hall.1)]
    rfl

/-- CAN and SUB end a string, except behind an ESC. -/
theorem feed_abort (h : ReadsString [] filter) (hend : splitString payload = none) (hbyte : byte = 0x18 ∨ byte = 0x1a) :
    (feed step filter (payload ++ [byte])).2 = [] ∧ (feed step filter (payload ++ [byte])).1.capture = filter.capture ∧
      (feed step filter (payload ++ [byte])).1.state = if payload.getLast? = some 0x1b then .apc else .ground := by
  obtain ⟨⟨hstate,-⟩,hshown,hcapture⟩ := feed_payload h hend
  rw [feed_concat, hshown, ← hcapture]
  generalize (feed step filter payload).1 = g at hstate
  have hesc : byte ≠ 0x1b := by rcases hbyte with rfl | rfl <;> decide
  have hback : byte ≠ 0x5c := by rcases hbyte with rfl | rfl <;> decide
  unfold step scanByte
  by_cases hlast : payload.getLast? = some 0x1b
  · rw [if_pos hlast] at hstate
    rw [if_pos hlast, hstate]
    rw [if_neg hback, if_pos hesc]
    exact ⟨rfl,by rw [(pushPending_state _ _).2, (pushPending_state _ _).2],by rw [(pushPending_state _ _).1, (pushPending_state _ _).1]⟩
  · rw [if_neg hlast] at hstate
    rw [if_neg hlast, hstate]
    dsimp only
    rw [if_neg hesc, if_pos hbyte]
    exact ⟨rfl,rfl,rfl⟩

theorem step_apc (h : filter.state = .apc) (byte : UInt8) :
    (step filter byte).2 = [] ∧ withheld (step filter byte).1.state = [] := by
  unfold step scanByte
  rw [h]
  dsimp only
  split_ifs
  · exact ⟨rfl,rfl⟩
  · exact ⟨rfl,rfl⟩
  · rw [(pushPending_state _ _).1, h]
    exact ⟨rfl,rfl⟩

/-! ### Streams -/

def Shows (filter : KittyApcFilter) (stream : List UInt8) : Prop :=
  (feed step filter stream).2 ++ bytesOf (withheld (feed step filter stream).1.state) = withoutStrings filter.capture stream

theorem withoutStrings_text (h : splitIntroducer stream = none) :
    withoutStrings capture stream = bytesOf stream := by
  rw [withoutStrings]
  split
  next => rfl
  next heq => rw [h] at heq; cases heq

theorem withoutStrings_open (h : splitIntroducer stream = some (text,inside))
    (hend : splitString inside = none) : withoutStrings capture stream = bytesOf text := by
  rw [withoutStrings]
  split
  next heq => rw [h] at heq; cases heq
  next text' inside' heq =>
    rw [h] at heq
    cases heq
    split
    next => rfl
    next heq => rw [hend] at heq; cases heq

theorem withoutStrings_string
    (h : splitIntroducer stream = some (text,inside)) (hend : splitString inside = some (payload,terminator,rest)) :
    withoutStrings capture stream =
      bytesOf text ++ capturedString capture payload terminator ++ withoutStrings capture rest := by
  rw [withoutStrings]
  split
  next heq => rw [h] at heq; cases heq
  next text' inside' heq =>
    rw [h] at heq
    cases heq
    split
    next heq => rw [hend] at heq; cases heq
    next heq => rw [hend] at heq; cases heq; rfl

theorem clean_text (h : splitIntroducer stream = none) : Clean stream := by
  unfold Clean
  rw [kittyStrings]
  split
  next => exact fun string hin => absurd hin (not_mem_nil)
  next heq => rw [h] at heq; cases heq

theorem clean_open (h : splitIntroducer stream = some (text,inside))
    (hend : splitString inside = none) : Clean stream ↔ Even (unfinished text) := by
  unfold Clean
  rw [kittyStrings]
  split
  next heq => rw [h] at heq; cases heq
  next text' inside' heq =>
    rw [h] at heq
    cases heq
    split
    next => simp
    next heq => rw [hend] at heq; cases heq

theorem clean_string (h : splitIntroducer stream = some (text,inside))
    (hend : splitString inside = some (payload,terminator,rest)) : Clean stream ↔
      (Even (unfinished text) ∧ ¬(payload.getLast? = some 0x1b ∧ terminator ∈ [[0x18],[0x1a]] ∧ rest ≠ [])) ∧ Clean rest := by
  unfold Clean
  rw [kittyStrings]
  split
  next heq => rw [h] at heq; cases heq
  next text' inside' heq =>
    rw [h] at heq
    cases heq
    split
    next heq => rw [hend] at heq; cases heq
    next heq => rw [hend] at heq; cases heq; rw [forall_mem_cons]

theorem prefix_append_cases {a b : List UInt8} (h : p <+: a ++ b) : p <+: a ∨ ∃ q, q <+: b ∧ p = a ++ q := by
  rcases prefix_or_prefix_of_prefix h (prefix_append a b) with hshort | ⟨q,rfl⟩
  · exact .inl hshort
  · exact .inr ⟨q,(prefix_append_right_inj a).mp h,rfl⟩

theorem shows_text (hground : filter.state = .ground) (h : splitIntroducer stream = none) : Shows filter stream := by
  unfold Shows
  rw [withoutStrings_text h]
  exact (feed_text hground h).2.2

theorem splitIntroducer_of_front (h : splitIntroducer stream = none) (hp : p <+: stream) :
    splitIntroducer p = none :=
  splitIntroducer_eq_none.mpr fun hin => splitIntroducer_eq_none.mp h (hin.trans hp.isInfix)

theorem splitString_of_front (h : splitString inside = none) (hp : p <+: inside) : splitString p = none := by
  rw [splitString_eq_none] at h ⊢
  exact ⟨⟨fun hin => h.1.1 (hp.subset hin),fun hin => h.1.2 (hp.subset hin)⟩,fun hin => h.2 (hin.trans hp.isInfix)⟩

theorem shows_open (hground : filter.state = .ground)
    (hbefore : splitIntroducer (text ++ [0x1b,0x5f]) = none) (hsplit : splitIntroducer (text ++ introducer ++ inside) = some (text,inside))
    (heven : Even (unfinished text)) (hend : splitString inside = none) : Shows filter (text ++ introducer ++ inside) := by
  obtain ⟨hreads,hshown,-⟩ := feed_introducer hground hbefore heven
  obtain ⟨⟨hstate,-⟩,hnothing,-⟩ := feed_payload hreads hend
  unfold Shows
  rw [withoutStrings_open hsplit hend, feed_append, hshown, hnothing, hstate]
  split_ifs
  · simp [withheld]
  · simp [withheld]

theorem shows_open_front (hground : filter.state = .ground) (hbefore : splitIntroducer (text ++ [0x1b,0x5f]) = none)
    (hafter : ∀ r, splitIntroducer (text ++ introducer ++ r) = some (text,r)) (heven : Even (unfinished text)) (q : List UInt8)
    (hq : splitString q = none) (p : List UInt8) (hp : p <+: text ++ introducer ++ q) : Shows filter p := by
  rw [show text ++ introducer ++ q = text ++ [0x1b,0x5f] ++ ([0x47] ++ q) by simp [introducer]] at hp
  rcases prefix_append_cases hp with hp | ⟨tail,htail,rfl⟩
  · exact shows_text hground (splitIntroducer_of_front hbefore hp)
  · rcases prefix_append_cases htail with htail | ⟨r,hr,rfl⟩
    · rcases prefix_concat_iff.mp (show tail <+: [] ++ [0x47] from htail) with rfl | hnil
      · rw [show text ++ [0x1b,0x5f] ++ ([] ++ [0x47]) = text ++ introducer ++ [] by simp [introducer]]
        exact shows_open hground hbefore (hafter []) heven rfl
      · rw [List.prefix_nil.mp hnil, append_nil]
        exact shows_text hground hbefore
    · rw [show text ++ [0x1b,0x5f] ++ ([0x47] ++ r) = text ++ introducer ++ r by simp [introducer]]
      exact shows_open hground hbefore (hafter r) heven (splitString_of_front hq hr)

/-- A string that ends is gone, or captured in its place. -/
theorem feed_string (hground : filter.state = .ground)
    (hbefore : splitIntroducer (text ++ [0x1b,0x5f]) = none) (heven : Even (unfinished text))
    (hterminator : Ends payload terminator) (hgood : ¬(payload.getLast? = some 0x1b ∧ terminator ∈ [[0x18],[0x1a]])) :
    (feed step filter (text ++ introducer ++ (payload ++ terminator))).1.state = .ground ∧
      (feed step filter (text ++ introducer ++ (payload ++ terminator))).1.capture = filter.capture ∧
      (feed step filter (text ++ introducer ++ (payload ++ terminator))).2 =
        bytesOf text ++ capturedString filter.capture payload terminator := by
  obtain ⟨hreads,hshown,hcapture⟩ := feed_introducer hground hbefore heven
  rw [feed_append, hshown, ← hcapture]
  rcases hterminator with ⟨habort,hend⟩ | ⟨rfl,hend⟩
  · obtain ⟨byte,hbyte,rfl⟩ : ∃ byte, (byte = 0x18 ∨ byte = 0x1a) ∧ terminator = [byte] := by
      rcases habort with rfl | rfl
      · exact ⟨0x18,.inl rfl,rfl⟩
      · exact ⟨0x1a,.inr rfl,rfl⟩
    obtain ⟨hnothing,hkeeps,hstate⟩ := feed_abort hreads hend hbyte
    have hlast : ¬payload.getLast? = some 0x1b := fun hlast => hgood ⟨hlast,by rcases hbyte with rfl | rfl <;> decide⟩
    rw [if_neg hlast] at hstate
    refine ⟨hstate,hkeeps,?_⟩
    rw [hnothing, capturedString, if_neg]
    exact fun hall => absurd hall.2.1 (by simp [stringTerminator])
  · obtain ⟨hstate,hkeeps,hcaptured⟩ := feed_stringTerminator hreads hend
    exact ⟨hstate,hkeeps,by rw [hcaptured]⟩

theorem feed_string_abort (hground : filter.state = .ground)
    (hbefore : splitIntroducer (text ++ [0x1b,0x5f]) = none) (heven : Even (unfinished text)) (hend : splitString payload = none)
    (habort : terminator = [0x18] ∨ terminator = [0x1a]) (hlast : payload.getLast? = some 0x1b) :
    (feed step filter (text ++ introducer ++ (payload ++ terminator))).1.state = .apc ∧
      (feed step filter (text ++ introducer ++ (payload ++ terminator))).2 = bytesOf text := by
  obtain ⟨hreads,hshown,-⟩ := feed_introducer hground hbefore heven
  obtain ⟨byte,hbyte,rfl⟩ : ∃ byte, (byte = 0x18 ∨ byte = 0x1a) ∧ terminator = [byte] := by
    rcases habort with rfl | rfl
    · exact ⟨0x18,.inl rfl,rfl⟩
    · exact ⟨0x1a,.inr rfl,rfl⟩
  obtain ⟨hnothing,-,hstate⟩ := feed_abort hreads hend hbyte
  rw [if_pos hlast] at hstate
  rw [feed_append, hshown, hnothing, append_nil]
  exact ⟨hstate,rfl⟩

theorem shows_or_behind {filter : KittyApcFilter} (hground : filter.state = .ground) {text payload terminator rest : List UInt8}
    (hbefore : splitIntroducer (text ++ [0x1b,0x5f]) = none)
    (hafter : ∀ r, splitIntroducer (text ++ introducer ++ r) = some (text,r)) (heven : Even (unfinished text))
    (hterminator : Ends payload terminator) {p : List UInt8} (hp : p <+: text ++ introducer ++ (payload ++ terminator) ++ rest) :
    Shows filter p ∨ ∃ r, r <+: rest ∧ p = text ++ introducer ++ (payload ++ terminator) ++ r := by
  obtain ⟨front,last,rfl,hfront⟩ : ∃ front last, terminator = front ++ [last] ∧ splitString (payload ++ front) = none := by
    rcases hterminator with ⟨rfl | rfl,hend⟩ | ⟨rfl,hend⟩
    · exact ⟨[],0x18,rfl,by rwa [append_nil]⟩
    · exact ⟨[],0x1a,rfl,by rwa [append_nil]⟩
    · exact ⟨[0x1b],0x5c,rfl,hend⟩
  rcases prefix_append_cases hp with hp | hp
  · rw [← append_assoc payload, ← append_assoc (text ++ introducer), prefix_concat_iff] at hp
    rcases hp with rfl | hp
    · exact .inr ⟨[], nil_prefix,by simp⟩
    · exact .inl (shows_open_front hground hbefore hafter heven _ hfront p hp)
  · exact .inr hp

section
variable {filter : KittyApcFilter} (hground : filter.state = .ground) {text payload terminator : List UInt8}
  (hbefore : splitIntroducer (text ++ [0x1b,0x5f]) = none) (heven : Even (unfinished text)) (hterminator : Ends payload terminator)
  (hwithout : ∀ r, withoutStrings filter.capture (text ++ introducer ++ (payload ++ terminator) ++ r) =
    bytesOf text ++ capturedString filter.capture payload terminator ++ withoutStrings filter.capture r)
include hground hbefore heven hterminator hwithout

theorem shows_behind (hgood : ¬(payload.getLast? = some 0x1b ∧ terminator ∈ [[0x18],[0x1a]])) (r : List UInt8) :
    Shows filter (text ++ introducer ++ (payload ++ terminator) ++ r) ↔
      Shows (feed step filter (text ++ introducer ++ (payload ++ terminator))).1 r := by
  obtain ⟨-,hcapture,hshown⟩ := feed_string hground hbefore heven hterminator hgood
  unfold Shows
  rw [hwithout, feed_append, hshown, hcapture, append_assoc, append_cancel_left_eq]

/-- Behind an abort that was not one, the next byte is lost. -/
theorem shows_behind_abort (hbad : payload.getLast? = some 0x1b ∧ terminator ∈ [[0x18],[0x1a]]) :
    Shows filter (text ++ introducer ++ (payload ++ terminator) ++ []) ∧
      ∀ c, ¬Shows filter (text ++ introducer ++ (payload ++ terminator) ++ [c]) := by
  have habort : terminator = [0x18] ∨ terminator = [0x1a] := by simpa using hbad.2
  have hst : terminator ≠ stringTerminator := by rcases habort with rfl | rfl <;> decide
  have hend : splitString payload = none := by
    rcases hterminator with ⟨-,hend⟩ | ⟨hterminator,-⟩
    · exact hend
    · exact absurd hterminator hst
  obtain ⟨hstate,hshown⟩ := feed_string_abort hground hbefore heven hend habort hbad.1
  have hnone : capturedString filter.capture payload terminator = [] := by
    rw [capturedString, if_neg]
    exact fun hall => hst hall.2.1
  unfold Shows
  refine ⟨?_,fun c hshows => ?_⟩
  · rw [hwithout, append_nil, hshown, hstate, hnone, withoutStrings_text rfl]
    simp [withheld]
  · have hone : splitIntroducer [c] = none := splitIntroducer_eq_none.mpr fun hin => absurd hin.length_le (by simp [introducer])
    rw [feed_concat, hshown, hwithout, hnone, (step_apc hstate c).1, (step_apc hstate c).2, withoutStrings_text hone] at hshows
    have hlength := congrArg List.length hshows
    simp [bytesOf] at hlength

end

/-- Every prefix of a stream is shown without its strings exactly if the stream is clean. -/
theorem shows_prefix_iff (stream : List UInt8) {filter : KittyApcFilter} (hground : filter.state = .ground) :
    (∀ p, p <+: stream → Shows filter p) ↔ Clean stream := by
  cases hsplit : splitIntroducer stream with
  | none => exact ⟨fun _ => clean_text hsplit,fun _ p hp => shows_text hground (splitIntroducer_of_front hsplit hp)⟩
  | some pair =>
    obtain ⟨text,inside⟩ := pair
    obtain ⟨rfl,hbefore,hafter⟩ := splitIntroducer_some hsplit
    by_cases heven : Even (unfinished text)
    · cases hstring : splitString inside with
      | none =>
        rw [clean_open hsplit hstring]
        exact ⟨fun _ => heven,fun _ => shows_open_front hground hbefore hafter heven inside hstring⟩
      | some triple =>
        obtain ⟨payload,terminator,rest⟩ := triple
        obtain ⟨rfl,hterminator,hrest⟩ := splitString_some hstring
        have hwithout : ∀ r, withoutStrings filter.capture (text ++ introducer ++ (payload ++ terminator) ++ r) =
            bytesOf text ++ capturedString filter.capture payload terminator ++ withoutStrings filter.capture r := by
          intro r
          rw [append_assoc]
          exact withoutStrings_string (hafter _) (hrest r)
        have hless : rest.length < (text ++ introducer ++ (payload ++ terminator ++ rest)).length := by
          simp only [length_append, introducer, length_cons, length_nil]
          omega
        rw [clean_string hsplit hstring, ← append_assoc]
        have hcases := fun p => @shows_or_behind filter hground text payload terminator rest hbefore hafter heven hterminator p
        by_cases hbad : payload.getLast? = some 0x1b ∧ terminator ∈ [[0x18],[0x1a]]
        · obtain ⟨hshows,hlost⟩ := shows_behind_abort hground hbefore heven hterminator hwithout hbad
          cases rest with
          | nil =>
            refine ⟨fun _ => ⟨⟨heven,fun hall => hall.2.2 rfl⟩,clean_text rfl⟩,fun _ p hp => ?_⟩
            rcases hcases p hp with hp | ⟨r,hr,rfl⟩
            · exact hp
            · rw [List.prefix_nil.mp hr]
              exact hshows
          | cons c rest =>
            refine ⟨fun hall => ?_,fun hclean => absurd ⟨hbad.1,hbad.2,by simp⟩ hclean.1.2⟩
            exact absurd (hall _ ((prefix_append_right_inj _).mpr ⟨rest,rfl⟩)) (hlost c)
        · have hbehind := shows_behind hground hbefore heven hterminator hwithout hbad
          rw [← shows_prefix_iff rest (feed_string hground hbefore heven hterminator hbad).1]
          refine ⟨fun hall => ⟨⟨heven,fun hall' => hbad ⟨hall'.1,hall'.2.1⟩⟩,fun r hr => ?_⟩,fun hall p hp => ?_⟩
          · rw [← hbehind]
            exact hall _ ((prefix_append_right_inj _).mpr hr)
          · rcases hcases p hp with hp | ⟨r,hr,rfl⟩
            · exact hp
            · rw [hbehind]
              exact hall.2 r hr
    · rw [Nat.not_even_iff_odd] at heven
      refine ⟨fun hall => ?_,fun hclean => ?_⟩
      · have hbad := hall (text ++ introducer) (prefix_append _ _)
        unfold Shows at hbad
        rw [feed_introducer_odd hground hbefore heven, ← append_nil (text ++ introducer), withoutStrings_open (hafter []) rfl] at hbad
        have hlength := congrArg List.length hbad
        simp [bytesOf, introducer] at hlength
      · cases hstring : splitString inside with
        | none => exact absurd ((clean_open hsplit hstring).mp hclean) (Nat.not_even_iff_odd.mpr heven)
        | some triple => exact absurd ((clean_string hsplit hstring).mp hclean).1.1 (Nat.not_even_iff_odd.mpr heven)
termination_by stream.length

/-- Whatever the chunks, all of a stream is shown without its strings as it comes in exactly if the stream is clean. -/
theorem kitty_filter_iff (capture : Bool) (stream : List UInt8) :
    (∀ chunks : List (List UInt8), chunks.flatten <+: stream → Follows capture chunks) ↔ Clean stream := by
  have hfollows : ∀ chunks, Follows capture chunks ↔ Shows (startFilter capture) chunks.flatten := by
    intro chunks
    unfold Follows Shows
    rw [feedChunks_eq scanItems_eq]
    rfl
  rw [← shows_prefix_iff stream (show (startFilter capture).state = .ground from rfl)]
  refine ⟨fun h p hp => ?_,fun h chunks hchunks => ?_⟩
  · have hone := h [p] (by rwa [flatten_singleton])
    rw [hfollows, flatten_singleton] at hone
    exact hone
  · rw [hfollows]
    exact h _ hchunks

/-- An introducer directly behind `ESC _`, and a CAN directly behind an ESC of the payload. -/
theorem kitty_filter_fails : ¬Follows false [[0x1b,0x5f,0x1b,0x5f,0x47,0x78,0x1b,0x5c]] ∧
    ¬Follows false [[0x1b,0x5f,0x47,0x1b],[0x18,0x61]] := by
  have hpair : withoutStrings false [0x1b,0x5f,0x1b,0x5f,0x47,0x78,0x1b,0x5c] =
      bytesOf [0x1b,0x5f] ++ capturedString false [0x78] stringTerminator ++ withoutStrings false [] :=
    withoutStrings_string (show splitIntroducer [0x1b,0x5f,0x1b,0x5f,0x47,0x78,0x1b,0x5c] = some ([0x1b,0x5f],[0x78,0x1b,0x5c]) by decide)
      (by decide)
  have habort : withoutStrings false [0x1b,0x5f,0x47,0x1b,0x18,0x61] =
      bytesOf [] ++ capturedString false [0x1b] [0x18] ++ withoutStrings false [0x61] :=
    withoutStrings_string (show splitIntroducer [0x1b,0x5f,0x47,0x1b,0x18,0x61] = some ([],[0x1b,0x18,0x61]) by decide) (by decide)
  refine ⟨fun h => ?_,fun h => ?_⟩
  · have hshown := h.trans hpair
    rw [withoutStrings_text rfl] at hshown
    exact absurd hshown (by decide)
  · have hshown := h.trans habort
    rw [withoutStrings_text rfl] at hshown
    exact absurd hshown (by decide)

end Unpeel.Viewport
